import CarCare.Hierarchy.Directory
import CarCare.Resolution.Reader

/-!
The parent preview: the record that a scope would inherit from if it declared nothing. It is the
nearest ancestor's record as a whole, and only riders look beyond their parent.
-/
namespace CarCare

variable {m : Type → Type} [Monad m]

/-- The record of a rider's lease, or else of that lease's customer. -/
def previewOfRider (d : Directory) (read : Reader m) (lease : Uuid) : m (Option Instruction) := do
  match ← read .masterLease lease with
  | some record => pure (some record)
  | none =>
    match (d.scope? .masterLease lease).bind (·.parentId) with
    | some customer => read .customer customer
    | none => pure none

/-- The record that a scope would inherit from. A customer inherits from nobody; a lease or an
amendment from its direct parent; a rider from its lease, or from its customer if the lease
declares nothing. -/
def parentPreview (d : Directory) (read : Reader m) (level : Level) (id : Uuid) :
    m (Option Instruction) :=
  match level with
  | .customer => pure none
  | .rider =>
    match (d.scope? .rider id).bind (·.parentId) with
    | some lease => previewOfRider d read lease
    | none => pure none
  | level =>
    match (d.scope? level id).bind (·.parent?) with
    | some (parentLevel, parent) => read parentLevel parent
    | none => pure none

end CarCare

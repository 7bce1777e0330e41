import CarCare.Level
import CarCare.Section

/-!
Care instructions as they are read: the record that one scope of the lease hierarchy declares, with
its commodity sections. A record that was never stored may lack any of its attributes.
-/
namespace CarCare

/-- The columns that refer to the scope of a record; a stored record has exactly one of them. -/
structure ScopeIds where
  customer : Option Uuid := none
  masterLease : Option Uuid := none
  rider : Option Uuid := none
  amendment : Option Uuid := none
deriving DecidableEq, Repr

namespace ScopeIds

def get (ids : ScopeIds) : Level → Option Uuid
  | .customer => ids.customer
  | .masterLease => ids.masterLease
  | .rider => ids.rider
  | .amendment => ids.amendment

/-- The columns of a record declared at one scope. -/
def only (level : Level) (id : Uuid) : ScopeIds :=
  match level with
  | .customer => { customer := some id }
  | .masterLease => { masterLease := some id }
  | .rider => { rider := some id }
  | .amendment => { amendment := some id }

/-- How many of the columns are set. -/
def count (ids : ScopeIds) : Nat := (Level.all.filter fun l => (ids.get l).isSome).length

theorem get_only_self (l : Level) (id : Uuid) : (only l id).get l = some id := by
  cases l <;> rfl

theorem get_only_of_ne {l m : Level} (h : m ≠ l) (id : Uuid) : (only l id).get m = none := by
  cases l <;> cases m <;> first | rfl | exact absurd rfl h

theorem count_only (l : Level) (id : Uuid) : (only l id).count = 1 := by
  cases l <;> rfl

end ScopeIds

/-- A record as it is read. -/
structure Instruction where
  id : Option Uuid := none
  level : Option Level := none
  scopes : ScopeIds := {}
  scopeName : Option String := none
  fields : Fields := Fields.none
  version : Option Int := none
  isCurrent : Option Bool := none
  supersedes : Option Uuid := none
  createdBy : Option Uuid := none
  createdAt : Option Timestamp := none
  updatedAt : Option Timestamp := none
  sealing : List Section := []
  lining : List Section := []

namespace Instruction

/-- The id of the scope that the record is declared at: the column of its level. -/
def scopeId (i : Instruction) : Option Uuid := i.level.bind i.scopes.get

def sections (i : Instruction) : SectionKind → List Section
  | .sealing => i.sealing
  | .lining => i.lining

def declaredValue (i : Instruction) : Value :=
  .object (i.fields.declared.map fun (f, v) => (f.name, v.toValue))

def members (i : Instruction) : List (String × Value) :=
  let id := Value.ofOption fun (u : Uuid) => Value.text u.text
  [("id", id i.id),
   ("scope_level", .ofOption (.text ·.name) i.level),
   ("scope_id", id i.scopeId),
   ("scope_name", .ofOption .text i.scopeName)]
  ++ Level.all.map (fun l => (l.column, id (i.scopes.get l)))
  ++ Field.all.map (fun f => (f.name, .ofOption FieldValue.toValue (i.fields f)))
  ++ [("version", .ofOption .int i.version),
      ("is_current", .ofOption .bool i.isCurrent),
      ("supersedes_id", id i.supersedes),
      ("created_by_id", id i.createdBy),
      ("created_at", .ofOption (.text ·.text) i.createdAt),
      ("updated_at", .ofOption (.text ·.text) i.updatedAt)]

def sectionMembers (i : Instruction) : List (String × Value) :=
  SectionKind.all.map fun k => (k.collection, .list ((i.sections k).map (·.toValue k)))

/-- A record as the outside world sees it, with or without its sections. -/
def toValue (i : Instruction) (withSections : Bool) : Value :=
  .object (i.members ++ if withSections then i.sectionMembers else [])

end Instruction

end CarCare

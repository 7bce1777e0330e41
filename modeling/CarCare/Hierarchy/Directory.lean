import CarCare.Error
import CarCare.Hierarchy.Lookup
import CarCare.Hierarchy.Scope

/-!
The directory of the lease hierarchy: what the store of care instructions may ask about scopes and
cars. A path is built from a scope upwards, by following parents as long as they are known.
-/
namespace CarCare

/-- Lookups over a lease hierarchy that is kept elsewhere. -/
structure Directory where
  /-- The scope of a level and an id. -/
  scope? : Level → Uuid → Option Scope
  /-- All scopes, or those of one customer. -/
  scopes : Option Uuid → List Scope
  /-- The path of a car's active placement on a day, or today. -/
  carPath? : String → Option Date → Option Path

/-! ## Paths -/

section
variable {m : Type → Type} [Monad m]

/-- Enters a scope and its ancestors into a path; the first number bounds the climb. -/
def Path.climb (look : Lookup m Scope) : Nat → Scope → Path → m Path
  | 0, _, path => pure path
  | bound + 1, scope, path => do
    let path := path.set scope.level ⟨some scope.id, scope.name⟩
    match scope.parent? with
    | none => pure path
    | some (level, id) =>
      match ← look level id with
      | some parent => climb look bound parent path
      -- A parent that is not known ends the climb, and the levels above stay empty.
      | none => pure path

/-- The path from a scope up to its customer, of at most so many steps. -/
def Path.upward (look : Lookup m Scope) (bound : Nat) (level : Level) (id : Uuid) :
    m (Except Error Path) := do
  match ← look level id with
  | some scope => do
    let path ← climb look bound scope {}
    pure (.ok path)
  | none => pure (.error (.scopeNotFound level id))

end

namespace Directory

/-- A bound on climbs that end: where parents are always more general no climb visits more than
four scopes, and a climb over listed scopes that never returns to one visits each at most once. -/
def reach (d : Directory) : Nat := (d.scopes none).length + Level.all.length

def pathForScope (d : Directory) (level : Level) (id : Uuid) : Except Error Path :=
  Id.run (Path.upward (m := Id) d.scope? d.reach level id)

/-- The directory over a list of scopes and the paths of cars. Of two scopes with one address the
last is found. -/
def ofList (scopes : List Scope) (cars : List (String × Path)) : Directory where
  scope? level id := scopes.reverse.find? (·.key == (level, id))
  scopes customer := match customer with
    | some id => scopes.filter (·.customerId == some id)
    | none => scopes
  carPath? car _ := cars.lookup car

end Directory

end CarCare

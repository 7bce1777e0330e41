import CarCare.Level
import CarCare.Uuid

/-!
Scopes and paths. A scope is one node of the lease hierarchy; a path names the scopes, at most one
for each level, that a car or a scope sits on.
-/
namespace CarCare

/-- A scope as the directory shows it. Its parent may be unknown to the directory. -/
structure Scope where
  level : Level
  id : Uuid
  name : Option String
  code : Option String := none
  isActive : Bool := true
  parentLevel : Option Level := none
  parentId : Option Uuid := none
  customerId : Option Uuid := none
deriving DecidableEq, Repr

namespace Scope

/-- What addresses a scope: ids are only told apart within a level. -/
def key (s : Scope) : Level × Uuid := (s.level, s.id)

def parent? (s : Scope) : Option (Level × Uuid) :=
  match s.parentLevel, s.parentId with
  | some level, some id => some (level, id)
  | _, _ => none

def toValue (s : Scope) : Value :=
  .object
    [("level", .text s.level.name),
     ("id", .text s.id.text),
     ("name", .ofOption .text s.name),
     ("code", .ofOption .text s.code),
     ("is_active", .bool s.isActive),
     ("parent_level", .ofOption (.text ·.name) s.parentLevel),
     ("parent_id", .ofOption (.text ·.text) s.parentId),
     ("customer_id", .ofOption (.text ·.text) s.customerId)]

end Scope

/-- The scope of a path at one level; an absent one has neither id nor name. -/
structure Step where
  id : Option Uuid := none
  name : Option String := none
deriving DecidableEq, Repr

/-- The scopes that a car or a scope sits on, one step for each level. -/
structure Path where
  customer : Step := {}
  lease : Step := {}
  rider : Step := {}
  amendment : Step := {}
deriving DecidableEq, Repr

namespace Path

def step (p : Path) : Level → Step
  | .customer => p.customer
  | .masterLease => p.lease
  | .rider => p.rider
  | .amendment => p.amendment

def set (p : Path) (level : Level) (step : Step) : Path :=
  match level with
  | .customer => { p with customer := step }
  | .masterLease => { p with lease := step }
  | .rider => { p with rider := step }
  | .amendment => { p with amendment := step }

/-- The steps with their levels, from the most general to the most specific. -/
def steps (p : Path) : List (Level × Step) := Level.all.map fun l => (l, p.step l)

/-- The scopes that are present, from the most general to the most specific. -/
def present (p : Path) : List (Level × Uuid) :=
  p.steps.filterMap fun (l, step) => step.id.map (l, ·)

/-- The key under which a path shows the name of a level's scope. -/
def nameKey : Level → String
  | .customer => "customer_name"
  | .masterLease => "lease_name"
  | .rider => "rider_name"
  | .amendment => "amendment_name"

def toValue (p : Path) : Value :=
  .object (p.steps.flatMap fun (l, step) =>
    [(l.column, .ofOption (.text ·.text) step.id), (nameKey l, .ofOption .text step.name)])

theorem step_set_self (p : Path) (l : Level) (s : Step) : (p.set l s).step l = s := by
  cases l <;> rfl

theorem step_set_of_ne {l m : Level} (h : m ≠ l) (p : Path) (s : Step) :
    (p.set l s).step m = p.step m := by
  cases l <;> cases m <;> first | rfl | exact absurd rfl h

end Path

end CarCare

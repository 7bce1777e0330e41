import CarCare.Hierarchy.Scope

/-!
The scope tree of the editing screen: the listed scopes under their parents, from the customers
down, each with a mark whether it holds a current record. A scope whose parents do not lead to a
listed customer is left out, and an inactive scope takes its subtree along if inactive ones are
hidden.
-/
namespace CarCare

/-- A node of the scope tree. -/
inductive Node where
  | mk (scope : Scope) (hasOverride : Bool) (children : List Node)

namespace Node

def scope : Node → Scope
  | mk scope _ _ => scope

def hasOverride : Node → Bool
  | mk _ hasOverride _ => hasOverride

def children : Node → List Node
  | mk _ _ children => children

mutual

def toValue : Node → Value
  | mk scope hasOverride children =>
    .object
      [("id", .text scope.id.text),
       ("level", .text scope.level.name),
       ("name", .ofOption .text scope.name),
       ("code", .ofOption .text scope.code),
       ("hasOverride", .bool hasOverride),
       ("isActive", .bool scope.isActive),
       ("children", .list (toValues children))]

def toValues : List Node → List Value
  | [] => []
  | node :: rest => toValue node :: toValues rest

end

/-- Siblings stand by name, and of one name by id; no name is the empty one. -/
def comesBefore (a b : Scope) : Bool :=
  let nameOf (s : Scope) := s.name.getD ""
  decide (nameOf a < nameOf b) || (nameOf a == nameOf b && decide (a.id ≤ b.id))

end Node

/-- What a tree is built from: the listed scopes, the scopes that hold a current record, and whether
inactive scopes are left out. -/
structure Outline where
  listed : List Scope
  overrides : List (Level × Option Uuid)
  hideInactive : Bool

namespace Outline

/-- Whether a listed scope is shown. -/
def shows (o : Outline) (s : Scope) : Bool := !o.hideInactive || s.isActive

/-- The scope shown at an address; of several listed there, the last. -/
def shown? (o : Outline) (address : Level × Uuid) : Option Scope :=
  (o.listed.filter o.shows).reverse.find? (·.key == address)

def isOverridden (o : Outline) (s : Scope) : Bool := o.overrides.contains (s.level, some s.id)

/-- The scopes shown for listed ones, in the order of siblings. -/
def siblings (o : Outline) (listed : List Scope) : List Scope :=
  (listed.filterMap (o.shown? ·.key)).mergeSort Node.comesBefore

/-- Whether a scope is listed under a parent. A customer is under nobody. -/
def isBelow (parent : Level × Uuid) (s : Scope) : Bool :=
  s.level != .customer && s.parent? == some parent

/-- The scopes shown under a parent. -/
def below (o : Outline) (parent : Level × Uuid) : List Scope :=
  o.siblings (o.listed.filter (isBelow parent))

/-- The node of a scope with its subtree down to a depth. -/
def node (o : Outline) : (depth : Nat) → Scope → Node
  | 0, s => .mk s (o.isOverridden s) []
  | depth + 1, s => .mk s (o.isOverridden s) ((o.below s.key).map (o.node depth))

/-- Whether a scope is a root: a customer, and the one that is asked for. -/
def isRoot (customer : Option Uuid) (s : Scope) : Bool :=
  s.level == .customer && (customer.isNone || customer == some s.id)

/-- The tree. No chain of parents that starts at a customer is longer than the list of scopes. -/
def tree (o : Outline) (customer : Option Uuid) : List Node :=
  (o.siblings (o.listed.filter (isRoot customer))).map (o.node o.listed.length)

end Outline

end CarCare

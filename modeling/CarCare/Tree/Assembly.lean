import CarCare.Tree

/-!
How the scope tree is put together. Each listed scope that is shown gets a node at its address; the
nodes are linked in the order of the listing; then a stack leads from the roots to all nodes below
them, and the children of each are sorted when it is taken from the stack.
-/
namespace CarCare

/-- A node that is still being put together. Its children are named by the scopes of their nodes,
and stand in the order in which they were linked, until they are sorted. -/
structure OpenNode where
  scope : Scope
  hasOverride : Bool
  children : List Scope := []

/-- The nodes by their addresses, and the scopes of those that are roots. -/
@[ext]
structure Assembly where
  nodes : Level × Uuid → Option OpenNode := fun _ => none
  roots : List Scope := []

namespace Assembly

/-- The assembly with a node at an address, in place of one that stands there. -/
def put (a : Assembly) (address : Level × Uuid) (node : OpenNode) : Assembly :=
  { a with nodes := fun x => if x = address then some node else a.nodes x }

@[simp]
theorem nodes_put (a : Assembly) (address x : Level × Uuid) (node : OpenNode) :
    (a.put address node).nodes x = if x = address then some node else a.nodes x := rfl

@[simp]
theorem roots_put (a : Assembly) (address : Level × Uuid) (node : OpenNode) :
    (a.put address node).roots = a.roots := rfl

/-- A listed scope gets a node unless it is hidden, in place of an earlier one at its address. -/
def enter (o : Outline) (a : Assembly) (s : Scope) : Assembly :=
  if o.shows s then a.put s.key { scope := s, hasOverride := o.isOverridden s } else a

/-- The node at the address of a listed scope is linked: to the roots if the scope is a customer and
is asked for, else to its parent. A node whose parent has none is dropped. -/
def link (customer : Option Uuid) (a : Assembly) (s : Scope) : Assembly :=
  match a.nodes s.key with
  | none => a
  | some node =>
    if s.level == .customer then
      if customer.isNone || customer == some s.id then { a with roots := a.roots ++ [node.scope] }
      else a
    else
      match s.parent? with
      | none => a
      | some address =>
        match a.nodes address with
        | none => a
        | some parent =>
          -- Children stand in the order of the listing until they are sorted.
          a.put address { parent with children := parent.children ++ [node.scope] }

/-- One turn of the sorting. The node on top of the stack is taken, its children are sorted and go
on the stack, the last one on top. -/
def turn : Assembly × List Scope → Assembly × List Scope
  | (a, []) => (a, [])
  | (a, s :: stack) =>
    match a.nodes s.key with
    | none => (a, stack)
    | some node =>
      let children := node.children.mergeSort Node.comesBefore
      (a.put s.key { node with children }, children.reverse ++ stack)

def turns : Nat → Assembly × List Scope → Assembly × List Scope
  | 0, state => state
  | n + 1, state => turns n (turn state)

/-- The node at the address of a scope; where none is, that of the scope alone. -/
def nodeOf (a : Assembly) (s : Scope) : OpenNode :=
  (a.nodes s.key).getD { scope := s, hasOverride := false }

/-- The subtree at the address of a scope, down to a depth. -/
def read (a : Assembly) : (depth : Nat) → Scope → Node
  | 0, s => .mk (a.nodeOf s).scope (a.nodeOf s).hasOverride []
  | depth + 1, s =>
    .mk (a.nodeOf s).scope (a.nodeOf s).hasOverride ((a.nodeOf s).children.map (a.read depth))

end Assembly

namespace Outline

/-- The nodes of an outline, linked but not sorted. -/
def linked (o : Outline) (customer : Option Uuid) : Assembly :=
  o.listed.foldl (Assembly.link customer) (o.listed.foldl (Assembly.enter o) {})

/-- The tree that is put together, where so many turns empty the stack. -/
def assemble? (o : Outline) (customer : Option Uuid) (turns : Nat) : Option (List Node) :=
  let a := o.linked customer
  let roots := a.roots.mergeSort Node.comesBefore
  match Assembly.turns turns (a, roots.reverse) with
  | (sorted, []) => some (roots.map (sorted.read o.listed.length))
  | (_, _ :: _) => none

end Outline

end CarCare

import Mathlib.Data.List.Induction
import CarCare.Proofs.Hierarchy.Assembly
import CarCare.Service
import CarCare.Tree.Assembly

/-!
A tree that is put together node by node is the tree of the outline.

What is proved:
  1. `Outline.linked_eq`: when all listed scopes are linked, each node has as its children what is
     shown under its address, in the order of the listing.
  2. `Assembly.Underway.turn_cons`: a turn of the sorting settles the node on top of the stack, and
     the stack goes on as a walk through the outline does.
  3. `Assembly.read_eq`: where all nodes below a scope are settled, what is read there is the
     node of the outline.
  4. `Outline.assemble?_eq`: the stack is empty after as many turns as the tree has nodes and no
     sooner, and then the tree is there.
  5. `Service.tree_assembled`: so the tree that a service shows is put together in no more turns
     than scopes are listed.
-/
namespace CarCare

variable {o : Outline} {customer : Option Uuid} {a : Assembly} {s m : Scope}

namespace Outline

/-! ## Linking -/

/-- The scopes shown for listed ones, in the order of the listing. -/
def shownFor (o : Outline) (listed : List Scope) : List Scope := listed.filterMap (o.shown? ·.key)

/-- The node at an address with such children. -/
def openNode? (o : Outline) (address : Level × Uuid) (children : List Scope) : Option OpenNode :=
  (o.shown? address).map fun s => ⟨s, o.isOverridden s, children⟩

/-- The nodes of an outline when the scopes of a list are linked. -/
def linkedFor (o : Outline) (customer : Option Uuid) (l : List Scope) : Assembly where
  nodes address := o.openNode? address (o.shownFor (l.filter (isBelow address)))
  roots := o.shownFor (l.filter (isRoot customer))

theorem nodes_enter (o : Outline) (l : List Scope) (address : Level × Uuid) :
    (l.foldl (Assembly.enter o) {}).nodes address
      = ((l.filter o.shows).reverse.find? (·.key == address)).map
          fun s => ⟨s, o.isOverridden s, []⟩ := by
  -- From the end, as a scope that is entered later takes the place of an earlier one.
  induction l using List.reverseRecOn with
  | nil => rfl
  | append_singleton l s ih =>
    rw [List.foldl_append, List.foldl_cons, List.foldl_nil, Assembly.enter, List.filter_append,
      List.reverse_append]
    by_cases hshows : o.shows s
    · by_cases hkey : s.key = address
      · simp [hshows, hkey, Assembly.put]
      · have hother : ¬address = s.key := Ne.symm hkey
        simp [hshows, hkey, hother, Assembly.put, ih]
    · simp [hshows, ih]

theorem roots_enter (o : Outline) (l : List Scope) (a : Assembly) :
    (l.foldl (Assembly.enter o) a).roots = a.roots := by
  induction l generalizing a with
  | nil => rfl
  | cons s l ih =>
    rw [List.foldl_cons, ih, Assembly.enter]
    split <;> rfl

theorem shownFor_concat (o : Outline) (l : List Scope) (s : Scope) (p : Scope → Bool) :
    o.shownFor ((l ++ [s]).filter p)
      = o.shownFor (l.filter p) ++ if p s then (o.shown? s.key).toList else [] := by
  rw [List.filter_append, shownFor, List.filterMap_append, ← shownFor]
  by_cases hp : p s
  · cases hshown : o.shown? s.key <;> simp [hp, hshown]
  · simp [hp]

theorem link_linkedFor (o : Outline) (customer : Option Uuid) (l : List Scope) (s : Scope) :
    (o.linkedFor customer l).link customer s = o.linkedFor customer (l ++ [s]) := by
  have hnodes : (o.linkedFor customer (l ++ [s])).nodes = fun x => o.openNode? x
      (o.shownFor (l.filter (isBelow x)) ++ if isBelow x s then (o.shown? s.key).toList else []) :=
    funext fun x => congrArg (o.openNode? x) (o.shownFor_concat l s (isBelow x))
  have hroots : (o.linkedFor customer (l ++ [s])).roots = o.shownFor (l.filter (isRoot customer))
      ++ if isRoot customer s then (o.shown? s.key).toList else [] :=
    o.shownFor_concat l s (isRoot customer)
  rw [Assembly.ext_iff, hnodes, hroots]
  cases hshown : o.shown? s.key with
  | none => simp [Assembly.link, linkedFor, openNode?, hshown]
  | some m =>
    by_cases hlevel : s.level = .customer
    · by_cases hasked : customer.isNone || customer == some s.id <;>
        simp [Assembly.link, linkedFor, openNode?, hshown, isBelow, isRoot, hlevel, hasked]
    · cases hparent : s.parent? with
      | none => simp [Assembly.link, linkedFor, openNode?, hshown, isBelow, isRoot, hlevel, hparent]
      | some address =>
        have hroot : isRoot customer s = false := by simp [isRoot, hlevel]
        have hbelow : ∀ x, isBelow x s = decide (x = address) := by
          intro x
          rw [Bool.eq_iff_iff, isBelow_iff, decide_eq_true_iff, hparent, Option.some_inj, eq_comm]
          exact and_iff_right hlevel
        refine ⟨funext fun x => ?_, ?_⟩
        · cases hp : o.shown? address <;> by_cases hx : x = address <;>
            simp [Assembly.link, linkedFor, openNode?, hshown, hlevel, hparent, hbelow, hp, hx]
        · cases hp : o.shown? address <;>
            simp [Assembly.link, linkedFor, openNode?, hshown, hlevel, hparent, hroot, hp]

theorem linked_eq (o : Outline) (customer : Option Uuid) :
    o.linked customer = o.linkedFor customer o.listed := by
  have hentered : o.listed.foldl (Assembly.enter o) {} = o.linkedFor customer [] := by
    ext1
    · funext address
      exact o.nodes_enter o.listed address
    · exact o.roots_enter o.listed {}
  have hlinked : ∀ l : List Scope, l.foldl (Assembly.link customer) (o.linkedFor customer [])
      = o.linkedFor customer l := by
    intro l
    induction l using List.reverseRecOn with
    | nil => rfl
    | append_singleton l s ih =>
      rw [List.foldl_append, ih, List.foldl_cons, List.foldl_nil, link_linkedFor]
  rw [linked, hentered, hlinked]

end Outline

namespace Assembly

/-! ## Sorting -/

def settledNode (o : Outline) (s : Scope) : OpenNode := ⟨s, o.isOverridden s, o.below s.key⟩

/-- A shown scope whose node has its children sorted. -/
structure Settled (o : Outline) (a : Assembly) (s : Scope) : Prop where
  shown : o.shown? s.key = some s
  node : a.nodes s.key = some (settledNode o s)

/-- Nodes on the way from linked to sorted: the children of each are in the one order or the
other. -/
def Underway (o : Outline) (a : Assembly) : Prop :=
  ∀ address, ∃ children, a.nodes address = o.openNode? address children ∧
    (children = o.shownFor (o.listed.filter (Outline.isBelow address)) ∨
      children = o.below address)

theorem underway_linked (o : Outline) (customer : Option Uuid) :
    (o.linked customer).Underway o := by
  rw [Outline.linked_eq]
  exact fun address => ⟨_, rfl, .inl rfl⟩

theorem mergeSort_below (o : Outline) (address : Level × Uuid) :
    (o.below address).mergeSort Node.comesBefore = o.below address :=
  List.mergeSort_of_pairwise
    (List.pairwise_mergeSort Node.comesBefore_trans Node.comesBefore_total _)

/-- A turn that finds the node of a shown scope on top settles it and goes on below it. -/
theorem Underway.turn_cons (underway : a.Underway o) (shown : o.shown? s.key = some s)
    (stack : List Scope) : turn (a, s :: stack)
      = (a.put s.key (settledNode o s), (o.below s.key).reverse ++ stack) := by
  obtain ⟨children, hnode, horder⟩ := underway s.key
  rw [Outline.openNode?, shown, Option.map_some] at hnode
  have hsorted : children.mergeSort Node.comesBefore = o.below s.key := by
    rcases horder with rfl | rfl
    · rfl
    · exact mergeSort_below o s.key
  simp [turn, hnode, hsorted, settledNode]

theorem Underway.settle (underway : a.Underway o) (shown : o.shown? s.key = some s) :
    (a.put s.key (settledNode o s)).Underway o := by
  intro x
  by_cases hx : x = s.key
  · subst hx
    exact ⟨_, by simp [Outline.openNode?, shown, settledNode], .inr rfl⟩
  · obtain ⟨children, hnode, horder⟩ := underway x
    exact ⟨children, by simpa [hx] using hnode, horder⟩

theorem Settled.settle (settled : a.Settled o s) (shown : o.shown? m.key = some m) :
    (a.put m.key (settledNode o m)).Settled o s := by
  refine ⟨settled.shown, ?_⟩
  by_cases hkey : s.key = m.key
  · have hsame : s = m := by
      have hs := settled.shown
      rw [hkey, shown] at hs
      exact (Option.some.inj hs).symm
    simp [hsame]
  · simpa [hkey] using settled.node

/-- Turns that start at whole nodes settle them, but for those that the stack still leads to, and
what has been settled stays so. The stack is that of a walk. -/
theorem Underway.turns {nodes : List Node} (underway : a.Underway o) (whole : o.Whole nodes)
    (shown : ∀ n ∈ Node.nodesAll nodes, o.shown? n.scope.key = some n.scope) (steps : Nat) :
    ∃ after rest, Assembly.turns steps (a, nodes.map Node.scope) = (after, rest.map Node.scope) ∧
      rest.map Node.scope = o.walk steps (nodes.map Node.scope) ∧
      (∀ s, a.Settled o s → after.Settled o s) ∧
      ∀ n ∈ Node.nodesAll nodes, after.Settled o n.scope ∨ n ∈ Node.nodesAll rest := by
  -- A turn settles the node on top, and what the stack leads to is that much less.
  induction steps generalizing a nodes with
  | zero => exact ⟨a, nodes, rfl, rfl, fun s hs => hs, fun n hn => .inr hn⟩
  | succ steps ih =>
    cases nodes with
    | nil =>
      obtain ⟨after, rest, hturns, hwalk, hkept, hsettled⟩ := ih underway whole shown
      refine ⟨after, rest, hturns, hwalk.trans ?_, hkept, hsettled⟩
      cases steps <;> rfl
    | cons n nodes =>
      have hperm := Outline.nodesAll_cons_perm n nodes
      have htop : o.shown? n.scope.key = some n.scope :=
        shown n (hperm.mem_iff.mpr List.mem_cons_self)
      obtain ⟨hwhole, hscopes, _⟩ := whole.step
      obtain ⟨after, rest, hturns, hwalk, hkept, hsettled⟩ := ih (underway.settle htop) hwhole
        fun m hm => shown m (hperm.mem_iff.mpr (List.mem_cons_of_mem n hm))
      refine ⟨after, rest, ?_, ?_, fun s hs => hkept s (hs.settle htop), fun m hm => ?_⟩
      · rw [List.map_cons, Assembly.turns, underway.turn_cons htop, ← hscopes, hturns]
      · rw [List.map_cons, Outline.walk, ← hscopes, hwalk]
      · rcases List.mem_cons.mp (hperm.mem_iff.mp hm) with rfl | hm
        · exact .inl (hkept _ ⟨htop, by simp⟩)
        · exact hsettled m hm

/-! ## Reading -/

theorem Settled.nodeOf (settled : a.Settled o s) : a.nodeOf s = settledNode o s := by
  rw [Assembly.nodeOf, settled.node, Option.getD_some]

theorem read_eq {depth : Nat} (settled : ∀ n ∈ (o.node depth s).nodes, a.Settled o n.scope) :
    a.read depth s = o.node depth s := by
  -- Both go down from the scope by the same children, those that it was settled with.
  induction depth generalizing s with
  | zero =>
    have htop : a.Settled o s := settled _ List.mem_cons_self
    rw [read, htop.nodeOf]
    rfl
  | succ depth ih =>
    have htop : a.Settled o s := settled _ List.mem_cons_self
    have hbelow : (o.below s.key).map (a.read depth) = (o.below s.key).map (o.node depth) := by
      apply List.map_congr_left
      intro child hchild
      apply ih
      intro n hn
      have hmem : n ∈ Node.nodesAll ((o.below s.key).map (o.node depth)) :=
        Node.mem_nodesAll.mpr ⟨_, List.mem_map_of_mem hchild, hn⟩
      exact settled n (Node.mem_nodes.mpr (.inr hmem))
    rw [read, htop.nodeOf, Outline.node, ← hbelow]
    rfl

theorem read_tree (settled : ∀ n ∈ Node.nodesAll (o.tree customer), a.Settled o n.scope) :
    ((o.tree customer).map Node.scope).map (a.read o.listed.length) = o.tree customer := by
  rw [Outline.map_scope_tree, Outline.tree]
  apply List.map_congr_left
  intro root hroot
  apply read_eq
  intro n hn
  exact settled n (Node.mem_nodesAll.mpr ⟨_, List.mem_map_of_mem hroot, hn⟩)

end Assembly

namespace Outline

theorem length_nodes_le (distinct : o.Distinct) (customer : Option Uuid) :
    (Node.nodesAll (o.tree customer)).length ≤ o.listed.length := by
  rw [← List.length_map (·.scope)]
  refine (List.subperm_of_subset ?_ fun s hs => ?_).length_le
  · have hkeys := keys_nodup distinct customer
    rw [← Function.comp_def Scope.key, ← List.map_map] at hkeys
    exact hkeys.of_map
  · obtain ⟨b, hbranch⟩ := (scope_of_mem_tree distinct).mp (List.mem_map.mp hs)
    exact hbranch.shown.1

/-- The stack is empty after as many turns as the tree has nodes and no sooner, and then the tree
is there. -/
theorem assemble?_eq (distinct : o.Distinct) (customer : Option Uuid) (turns : Nat) :
    o.assemble? customer turns
      = if (Node.nodesAll (o.tree customer)).length ≤ turns then some (o.tree customer)
        else none := by
  have hroots : (o.linked customer).roots.mergeSort Node.comesBefore
      = (o.tree customer).map Node.scope := by
    rw [linked_eq, map_scope_tree]
    rfl
  have hperm := nodesAll_reverse_perm (o.tree customer)
  have hshown : ∀ n ∈ Node.nodesAll (o.tree customer), o.shown? n.scope.key = some n.scope := by
    intro n hn
    obtain ⟨b, hbranch⟩ := (scope_of_mem_tree distinct).mp ⟨n, hn, rfl⟩
    exact distinct.shown?_eq_some.mpr ⟨hbranch.shown, rfl⟩
  obtain ⟨after, rest, hturns, hwalk, _, hsettled⟩ :=
    (Assembly.underway_linked o customer).turns (whole_tree_reverse distinct customer)
      (fun n hn => hshown n (hperm.mem_iff.mp hn)) turns
  have hends := walk_ends distinct customer turns
  rw [← List.map_reverse, ← hwalk, List.map_eq_nil_iff] at hends
  rw [assemble?, hroots, ← List.map_reverse, hturns]
  cases rest with
  | nil =>
    rw [if_pos (hends.mp rfl)]
    refine congrArg some (Assembly.read_tree fun n hn => ?_)
    exact (hsettled n (hperm.mem_iff.mpr hn)).resolve_right List.not_mem_nil
  | cons n rest => exact (if_neg fun h => List.cons_ne_nil n rest (hends.mpr h)).symm

end Outline

/-- The tree that a service shows is put together from what it lists, in no more turns than scopes
are listed. -/
theorem Service.tree_assembled (v : Service) (db : Database) (keyed : db.leases.Keyed)
    (customer : Option Uuid) :
    let overrides := db.instructions.currentScopes
    let outline := db.leases.outlineFor v.today overrides v.hideInactive customer
    outline.assemble? customer outline.listed.length = some (v.tree db customer) := by
  intro overrides outline
  have distinct : outline.Distinct := keyed.outlineFor_distinct
  rw [Outline.assemble?_eq distinct, if_pos (Outline.length_nodes_le distinct customer)]
  rfl

end CarCare

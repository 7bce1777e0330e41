import CarCare.Proofs.Hierarchy.Nodes
import CarCare.Proofs.Hierarchy.Subtree
import CarCare.Proofs.WrittenIds

/-!
The tree that is put together from a list of scopes, whatever their parent links are: they may lead
to scopes that are not listed, to the scope itself, or round in a circle.

What is proved:
  1. `Outline.siblings_sorted`: siblings stand by name, and of one name by the text of the id.
  2. `Outline.children_of_mem_tree`: below a node of the tree stands all that names its scope as the
     parent. No subtree is cut short.
  3. `Outline.scope_of_mem_tree` and `Outline.keys_nodup`: the scopes that branches lead to have one
     node each.
  4. `Outline.walk_ends`: a walk with a stack, from the roots on, visits as many scopes as the tree
     has nodes, and then it is over.
  5. `tree_of_any_list`: all of it, for any list without an address twice.
-/
namespace CarCare

/-- Whether a scope goes before another one among siblings: by name, where no name is the empty one,
and of one name by the text of the id. -/
def Scope.Precedes (a b : Scope) : Prop :=
  a.name.getD "" < b.name.getD "" ∨
    (a.name.getD "" = b.name.getD "" ∧ a.id.text ≤ b.id.text)

theorem Node.precedes_of_comesBefore {a b : Scope} (h : comesBefore a b) : a.Precedes b := by
  rcases comesBefore_iff.mp h with hname | ⟨hname, hid⟩
  · exact .inl hname
  · exact .inr ⟨hname, Uuid.text_le_text.mpr hid⟩

namespace Outline
variable {o : Outline} {customer : Option Uuid} {b : List Scope} {s : Scope} {n m : Node}

theorem siblings_sorted (o : Outline) (listed : List Scope) :
    (o.siblings listed).Pairwise Scope.Precedes := by
  have hsorted := List.pairwise_mergeSort Node.comesBefore_trans Node.comesBefore_total
    (listed.filterMap (o.shown? ·.key))
  exact hsorted.imp Node.precedes_of_comesBefore

theorem map_scope_node (o : Outline) (depth : Nat) (l : List Scope) :
    (l.map (o.node depth)).map Node.scope = l := by
  rw [List.map_map]
  exact (List.map_congr_left fun s _ => o.node_scope depth s).trans (List.map_id l)

theorem map_scope_tree (o : Outline) (customer : Option Uuid) :
    (o.tree customer).map Node.scope = o.siblings (o.listed.filter (isRoot customer)) :=
  o.map_scope_node _ _

/-! ## Children -/

theorem Branch.children_of_mem_node (h : o.Branch customer b s) (distinct : o.Distinct)
    {depth : Nat} (room : o.listed.length ≤ b.length + depth) (hn : n ∈ (o.node depth s).nodes) :
    n.children.map Node.scope = o.below n.scope.key := by
  -- On the way down the branch grows as the depth that is left shrinks, so the room stays the same.
  induction depth generalizing b s with
  | zero =>
    rw [node, Node.nodes, Node.nodesAll, List.mem_singleton] at hn
    subst hn
    exact (h.below_eq_nil distinct room).symm
  | succ depth ih =>
    rw [node, Node.nodes, List.mem_cons] at hn
    rcases hn with rfl | hn
    · exact o.map_scope_node depth _
    · obtain ⟨_, hmem, hn⟩ := Node.mem_nodesAll.mp hn
      obtain ⟨child, hchild, rfl⟩ := List.mem_map.mp hmem
      obtain ⟨hshown, hbelow⟩ := distinct.mem_below.mp hchild
      refine ih (.child h hshown hbelow) ?_ hn
      rw [List.length_append, List.length_singleton]
      omega

theorem children_of_mem_tree (distinct : o.Distinct) (hn : n ∈ Node.nodesAll (o.tree customer)) :
    n.children.map Node.scope = o.below n.scope.key := by
  obtain ⟨_, hmem, hn⟩ := Node.mem_nodesAll.mp hn
  obtain ⟨root, hroot, rfl⟩ := List.mem_map.mp hmem
  exact (branch_of_root distinct hroot).children_of_mem_node distinct (Nat.le_add_left _ _) hn

/-! ## One node for a scope -/

theorem scope_of_mem_tree (distinct : o.Distinct) :
    (∃ n ∈ Node.nodesAll (o.tree customer), n.scope = s) ↔ ∃ b, o.Branch customer b s := by
  have hscopes : (∃ n ∈ Node.nodesAll (o.tree customer), n.scope = s) ↔
      some s ∈ (Node.branchesAll (o.tree customer)).map List.getLast? := by
    rw [Node.last_of_branches]
    simp
  rw [hscopes, List.mem_map]
  constructor
  · rintro ⟨b, hb, hlast⟩
    obtain ⟨p, hbranch⟩ := (mem_branches_tree distinct).mp hb
    obtain rfl := Option.some.inj (hbranch.getLast?.symm.trans hlast)
    exact ⟨b, hbranch⟩
  · rintro ⟨b, hbranch⟩
    exact ⟨b, (mem_branches_tree distinct).mpr ⟨s, hbranch⟩, hbranch.getLast?⟩

theorem keys_nodup (distinct : o.Distinct) (customer : Option Uuid) :
    ((Node.nodesAll (o.tree customer)).map (·.scope.key)).Nodup := by
  have hkeys : ((Node.nodesAll (o.tree customer)).map (·.scope.key)).map some
      = (Node.branchesAll (o.tree customer)).map fun b => b.getLast?.map Scope.key := by
    have hlast := congrArg (List.map (Option.map Scope.key))
      (Node.last_of_branches (o.tree customer))
    simpa [Function.comp_def] using hlast.symm
  -- Two branches that end at one address are the same branch, and no branch is there twice.
  refine List.Nodup.of_map some ?_
  rw [hkeys]
  refine List.Nodup.map_on ?_ (branches_tree_nodup distinct customer)
  intro b hb c hc heq
  obtain ⟨p, hp⟩ := (mem_branches_tree distinct).mp hb
  obtain ⟨q, hq⟩ := (mem_branches_tree distinct).mp hc
  rw [hp.getLast?, hq.getLast?] at heq
  obtain rfl := distinct.key_inj hp.shown hq.shown (Option.some.inj heq)
  exact hp.unique distinct hq

theorem node_unique (distinct : o.Distinct) (hn : n ∈ Node.nodesAll (o.tree customer))
    (hm : m ∈ Node.nodesAll (o.tree customer)) (same : n.scope.key = m.scope.key) : n = m :=
  List.inj_on_of_nodup_map (keys_nodup distinct customer) hn hm same

theorem mem_children (distinct : o.Distinct) (hn : n ∈ Node.nodesAll (o.tree customer)) :
    (∃ c ∈ n.children, c.scope = s) ↔
      o.Shown s ∧ s.level ≠ .customer ∧ s.parent? = some n.scope.key := by
  rw [← isBelow_iff, ← distinct.mem_below, ← children_of_mem_tree distinct hn, List.mem_map]

theorem mem_roots (distinct : o.Distinct) : (∃ n ∈ o.tree customer, n.scope = s) ↔
    o.Shown s ∧ s.level = .customer ∧ (customer = none ∨ customer = some s.id) := by
  rw [← isRoot_iff, ← distinct.mem_siblings_filter, ← o.map_scope_tree customer, List.mem_map]

/-- A node that is no customer's has one parent in the tree, at the address that its scope names. -/
theorem parent_of_mem_tree (distinct : o.Distinct) (hn : n ∈ Node.nodesAll (o.tree customer))
    (deeper : n.scope.level ≠ .customer) :
    ∃ parent ∈ Node.nodesAll (o.tree customer), n.scope.parent? = some parent.scope.key ∧
      ∀ m ∈ Node.nodesAll (o.tree customer), n ∈ m.children ↔ m = parent := by
  have hlink : ∀ m ∈ Node.nodesAll (o.tree customer), n ∈ m.children →
      n.scope.parent? = some m.scope.key := fun m hm hchild =>
    ((mem_children distinct hm).mp ⟨n, hchild, rfl⟩).2.2
  rcases Node.exists_parent _ n hn with hroot | ⟨parent, hparent, hchild⟩
  · exact absurd ((mem_roots distinct).mp ⟨n, hroot, rfl⟩).2.1 deeper
  · refine ⟨parent, hparent, hlink parent hparent hchild, ?_⟩
    intro m hm
    constructor
    · intro hother
      have hkey := (hlink m hm hother).symm.trans (hlink parent hparent hchild)
      exact node_unique distinct hm hparent (Option.some.inj hkey)
    · rintro rfl
      exact hchild

/-! ## A walk through the tree -/

/-- The stack of a walk after some steps. A step takes the scope on top from the stack and puts what
is below it there instead, the last sibling on top; a walk that has come to an end stays there. -/
def walk (o : Outline) : (steps : Nat) → List Scope → List Scope
  | 0, stack => stack
  | _ + 1, [] => []
  | steps + 1, s :: stack => o.walk steps ((o.below s.key).reverse ++ stack)

/-- Nodes that have below them, at every depth, all that is shown there. -/
def Whole (o : Outline) (nodes : List Node) : Prop :=
  ∀ n ∈ Node.nodesAll nodes, n.children.map Node.scope = o.below n.scope.key

theorem nodesAll_cons_perm (n : Node) (nodes : List Node) :
    (Node.nodesAll (n :: nodes)).Perm (n :: Node.nodesAll (n.children.reverse ++ nodes)) := by
  simp only [Node.nodesAll_eq_flatMap, List.flatMap_cons, List.flatMap_append, Node.nodes_eq n,
    List.cons_append]
  exact (((n.children.reverse_perm.flatMap_right Node.nodes).append_right _).cons n).symm

/-- Where a node of whole ones gives way to its children, whole nodes are left, one less of them. -/
theorem Whole.step {nodes : List Node} (whole : o.Whole (n :: nodes)) :
    o.Whole (n.children.reverse ++ nodes) ∧
      (n.children.reverse ++ nodes).map Node.scope
        = (o.below n.scope.key).reverse ++ nodes.map Node.scope ∧
      (Node.nodesAll (n :: nodes)).length
        = (Node.nodesAll (n.children.reverse ++ nodes)).length + 1 := by
  have hperm := nodesAll_cons_perm n nodes
  refine ⟨fun m hm => ?_, ?_, hperm.length_eq⟩
  · exact whole m (hperm.mem_iff.mpr (List.mem_cons_of_mem n hm))
  · have hbelow : n.children.map Node.scope = o.below n.scope.key :=
      whole n (hperm.mem_iff.mpr List.mem_cons_self)
    rw [← hbelow, List.map_append, List.map_reverse]

/-- A walk that starts at whole nodes has left so many of all their nodes as it has not visited. -/
theorem Whole.walk {nodes : List Node} (whole : o.Whole nodes) (steps : Nat) :
    ∃ rest, o.walk steps (nodes.map Node.scope) = rest.map Node.scope ∧
      (Node.nodesAll rest).length = (Node.nodesAll nodes).length - steps := by
  -- Each step is one node less, and what it leaves is whole again.
  induction steps generalizing nodes with
  | zero => exact ⟨nodes, rfl, rfl⟩
  | succ steps ih =>
    cases nodes with
    | nil => exact ⟨[], rfl, by simp [Node.nodesAll]⟩
    | cons n nodes =>
      obtain ⟨hwhole, hscopes, hless⟩ := whole.step
      obtain ⟨rest, hrest, hlength⟩ := ih hwhole
      refine ⟨rest, ?_, by omega⟩
      rw [List.map_cons, Outline.walk, ← hscopes, hrest]

theorem nodesAll_reverse_perm (nodes : List Node) :
    (Node.nodesAll nodes.reverse).Perm (Node.nodesAll nodes) := by
  simp only [Node.nodesAll_eq_flatMap]
  exact nodes.reverse_perm.flatMap_right _

theorem whole_tree_reverse (distinct : o.Distinct) (customer : Option Uuid) :
    o.Whole (o.tree customer).reverse := fun _ hn =>
  children_of_mem_tree distinct ((nodesAll_reverse_perm _).mem_iff.mp hn)

theorem walk_ends (distinct : o.Distinct) (customer : Option Uuid) (steps : Nat) :
    o.walk steps ((o.tree customer).map Node.scope).reverse = [] ↔
      (Node.nodesAll (o.tree customer)).length ≤ steps := by
  have hperm := nodesAll_reverse_perm (o.tree customer)
  have hwhole := whole_tree_reverse distinct customer
  obtain ⟨rest, hrest, hlength⟩ := hwhole.walk steps
  rw [← List.map_reverse, hrest, List.map_eq_nil_iff, ← Nat.sub_eq_zero_iff_le, ← hperm.length_eq,
    ← hlength, List.length_eq_zero_iff]
  cases rest with
  | nil => simp [Node.nodesAll]
  | cons n rest => simp [Node.nodesAll, Node.nodes_eq]

end Outline

/-- Any list of scopes in which no address stands twice gives a tree, for all customers or for one,
wherever the parent links of the scopes lead. Of the listed scopes that are not hidden, those have a
node, and one node each, from which the parent links lead over such scopes to a customer, to the one
that is asked for if one is. The roots are the customers. Every other node is the child of the node
that its scope names as the parent, and of no other; all siblings are sorted. A node is marked if
its address is in the index. And the walk through the tree is over after as many steps as there are
nodes, so that it never comes to a circle. -/
theorem tree_of_any_list (o : Outline) (distinct : o.Distinct) (customer : Option Uuid) :
    let tree := o.tree customer
    let nodes := Node.nodesAll tree
    ((nodes.map (·.scope.key)).Nodup ∧
      ∀ s, (∃ n ∈ nodes, n.scope = s) ↔ ∃ b, o.Branch customer b s) ∧
    ((tree.map Node.scope).Pairwise Scope.Precedes ∧
      ∀ s, (∃ n ∈ tree, n.scope = s) ↔
        o.Shown s ∧ s.level = .customer ∧ (customer = none ∨ customer = some s.id)) ∧
    (∀ n ∈ nodes, (n.children.map Node.scope).Pairwise Scope.Precedes ∧
      ∀ s, (∃ c ∈ n.children, c.scope = s) ↔
        o.Shown s ∧ s.level ≠ .customer ∧ s.parent? = some n.scope.key) ∧
    (∀ n ∈ nodes, n.scope.level ≠ .customer → ∃ parent ∈ nodes,
      n.scope.parent? = some parent.scope.key ∧ ∀ m ∈ nodes, n ∈ m.children ↔ m = parent) ∧
    (∀ n ∈ nodes, n.hasOverride ↔ (n.scope.level, some n.scope.id) ∈ o.overrides) ∧
    ∀ steps, o.walk steps (tree.map Node.scope).reverse = [] ↔ nodes.length ≤ steps := by
  intro tree nodes
  refine ⟨⟨Outline.keys_nodup distinct customer, fun s => Outline.scope_of_mem_tree distinct⟩,
    ⟨?_, fun s => Outline.mem_roots distinct⟩,
    fun n hn => ⟨?_, fun s => Outline.mem_children distinct hn⟩,
    fun n hn => Outline.parent_of_mem_tree distinct hn, fun n hn => ?_,
    Outline.walk_ends distinct customer⟩
  · rw [Outline.map_scope_tree]
    exact o.siblings_sorted _
  · rw [Outline.children_of_mem_tree distinct hn]
    exact o.siblings_sorted _
  · rw [Outline.hasOverride_of_mem_tree hn]
    exact List.contains_iff_mem

/-- A scope that hangs off another one, which may not be listed. -/
def hung (level : Level) (id : Uuid) (name : String) (parent : Level × Uuid) : Scope :=
  { level, id, name := some name, parentLevel := some parent.1, parentId := some parent.2 }

/-- Scopes that are listed below before above. Among them are one that hangs off itself, two that
hang off each other, one whose parent is not listed, one without a parent, an inactive one with
another one below it, both below an amendment, and a customer with a parent link. -/
def tangledOutline : Outline where
  listed := [hung .amendment ⟨30⟩ "A30" (.rider, ⟨20⟩), hung .rider ⟨20⟩ "R20" (.masterLease, ⟨10⟩),
    hung .rider ⟨21⟩ "R21" (.rider, ⟨21⟩), hung .rider ⟨22⟩ "R22" (.amendment, ⟨31⟩),
    hung .amendment ⟨31⟩ "A31" (.rider, ⟨22⟩), hung .masterLease ⟨11⟩ "L11" (.customer, ⟨9⟩),
    { level := .amendment, id := ⟨32⟩, name := none },
    hung .rider ⟨24⟩ "R24" (.rider, ⟨23⟩),
    { hung .rider ⟨23⟩ "R23" (.amendment, ⟨30⟩) with isActive := false },
    hung .customer ⟨2⟩ "Bulk" (.customer, ⟨1⟩),
    hung .masterLease ⟨10⟩ "L10" (.customer, ⟨1⟩),
    { level := .customer, id := ⟨1⟩, name := some "Acme" }]
  overrides := [(.rider, some ⟨20⟩), (.rider, some ⟨21⟩)]
  hideInactive := true

theorem tangledOutline_keys :
    (Node.nodesAll (tangledOutline.tree (some ⟨1⟩))).map (·.scope.key) =
      [(.customer, ⟨1⟩), (.masterLease, ⟨10⟩), (.rider, ⟨20⟩), (.amendment, ⟨30⟩)] := by
  decide +kernel

theorem tree_of_any_list_tangled :
    let tree := tangledOutline.tree (some ⟨1⟩)
    let nodes := Node.nodesAll tree
    tangledOutline.Distinct ∧
    nodes.map (·.scope.key) =
      [(.customer, ⟨1⟩), (.masterLease, ⟨10⟩), (.rider, ⟨20⟩), (.amendment, ⟨30⟩)] ∧
    (∃ n ∈ nodes, n.scope.key = (.amendment, ⟨30⟩) ∧ ∃ parent ∈ nodes,
      parent.scope.key = (.rider, ⟨20⟩) ∧ parent.hasOverride ∧
        ∀ m ∈ nodes, n ∈ m.children ↔ m = parent) ∧
    tangledOutline.walk 3 (tree.map Node.scope).reverse ≠ [] ∧
    tangledOutline.walk 4 (tree.map Node.scope).reverse = [] := by
  intro tree nodes
  have distinct : tangledOutline.Distinct := by unfold Outline.Distinct; decide
  have hlength : (Node.nodesAll (tangledOutline.tree (some ⟨1⟩))).length = 4 := by
    simpa using congrArg List.length tangledOutline_keys
  obtain ⟨⟨_, hscopes⟩, _, _, hparent, hmark, hwalk⟩ :=
    tree_of_any_list tangledOutline distinct (some ⟨1⟩)
  have hshown : ∀ s ∈ tangledOutline.listed, s.isActive → tangledOutline.Shown s := by
    intro s hs active
    exact ⟨hs, by rw [Outline.shows, active]; rfl⟩
  have hroot : Outline.Branch tangledOutline (some ⟨1⟩) _ _ := .root
    (hshown { level := .customer, id := ⟨1⟩, name := some "Acme" } (by decide) rfl) rfl
  have hlease := hroot.child
    (hshown (hung .masterLease ⟨10⟩ "L10" (.customer, ⟨1⟩)) (by decide) rfl) (by decide)
  have hrider := hlease.child
    (hshown (hung .rider ⟨20⟩ "R20" (.masterLease, ⟨10⟩)) (by decide) rfl) (by decide)
  have hbranch := hrider.child
    (hshown (hung .amendment ⟨30⟩ "A30" (.rider, ⟨20⟩)) (by decide) rfl) (by decide)
  obtain ⟨n, hn, hscope⟩ := (hscopes _).mpr ⟨_, hbranch⟩
  obtain ⟨parent, hmem, hlink, honly⟩ := hparent n hn (by rw [hscope]; decide)
  have hkey : parent.scope.key = (.rider, ⟨20⟩) := by
    rw [hscope] at hlink
    exact (Option.some.inj hlink).symm
  obtain ⟨hlevel, hid⟩ := Prod.mk.inj hkey
  have hmarked : parent.hasOverride := by
    rw [hmark parent hmem, hlevel, hid]
    decide
  have hnode : n.scope.key = (.amendment, ⟨30⟩) := by
    rw [hscope]
    rfl
  refine ⟨distinct, tangledOutline_keys,
    ⟨n, hn, hnode, parent, hmem, hkey, hmarked, honly⟩, ?_, ?_⟩
  · intro hover
    have hbound := (hwalk 3).mp hover
    omega
  · exact (hwalk 4).mpr (by omega)

end CarCare

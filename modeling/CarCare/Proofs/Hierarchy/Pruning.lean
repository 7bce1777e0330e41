import CarCare.Proofs.Hierarchy.Assembly

/-!
Hiding inactive scopes. They are left out of the list before the tree is put together from it, and
that comes to cutting them out of the whole tree, together with all that is below them.

What is proved:
  1. `Node.branchesAll_pruneAll`: what is cut out of a tree are the branches with an inactive scope.
  2. `Outline.siblings_showingActive`: inactive scopes can as well be left out after siblings are
     sorted.
  3. `Outline.prune_node`: a node is built without inactive scopes as it is built with them and then
     pruned, to every depth.
  4. `hiding_is_pruning`: and so is the tree.
-/
namespace CarCare

namespace Node

mutual

/-- A node without the inactive nodes below it, and without all that is below those. -/
def prune : Node → Node
  | mk scope mark children => mk scope mark (pruneAll children)

def pruneAll : List Node → List Node
  | [] => []
  | node :: rest =>
    if node.scope.isActive then node.prune :: pruneAll rest else pruneAll rest

end

theorem pruneAll_eq (nodes : List Node) :
    pruneAll nodes = (nodes.filter (·.scope.isActive)).map prune := by
  induction nodes with
  | nil => rfl
  | cons node rest ih =>
    rw [pruneAll, ih]
    by_cases hactive : node.scope.isActive <;> simp [hactive]

/-- Whether a branch leads over active scopes only. -/
def isLive (b : List Scope) : Bool := b.all (·.isActive)

theorem isLive_eq_false {node : Node} (inactive : node.scope.isActive = false) {b : List Scope}
    (h : b ∈ node.branches) : isLive b = false := by
  cases b with
  | nil => cases head?_of_mem_branches h
  | cons s rest =>
    obtain rfl := Option.some.inj (head?_of_mem_branches h)
    rw [isLive, List.all_cons, inactive, Bool.false_and]

mutual

theorem branches_prune (node : Node) (active : node.scope.isActive) :
    node.prune.branches = node.branches.filter isLive := by
  cases node with
  | mk scope mark children =>
    have hactive : scope.isActive = true := active
    have hscope : isLive [scope] = true := by simp [isLive, hactive]
    have hlonger : isLive ∘ (scope :: ·) = isLive := by
      funext b
      simp [isLive, hactive]
    rw [prune, branches, branches, branchesAll_pruneAll children, List.filter_cons_of_pos hscope,
      List.filter_map, hlonger]

/-- Pruning takes the branches with an inactive scope and leaves the others as they stand. -/
theorem branchesAll_pruneAll (nodes : List Node) :
    branchesAll (pruneAll nodes) = (branchesAll nodes).filter isLive := by
  cases nodes with
  | nil => rfl
  | cons node rest =>
    rw [pruneAll, branchesAll, List.filter_append, ← branchesAll_pruneAll rest]
    cases hactive : node.scope.isActive with
    | true =>
      rw [if_pos rfl, branchesAll, branches_prune node hactive]
    | false =>
      have hnone : node.branches.filter isLive = [] :=
        List.filter_eq_nil_iff.mpr fun b hb => by simp [isLive_eq_false hactive hb]
      rw [if_neg Bool.false_ne_true, hnone, List.nil_append]

end

end Node

namespace Outline
variable {o : Outline}

def showingAll (o : Outline) : Outline := { o with hideInactive := false }

def showingActive (o : Outline) : Outline := { o with hideInactive := true }

theorem siblings_showingActive (distinct : o.Distinct) (q : Scope → Bool) :
    o.showingActive.siblings (o.listed.filter q)
      = (o.showingAll.siblings (o.listed.filter q)).filter (·.isActive) := by
  have hactive : o.showingActive.siblings (o.listed.filter q)
      = ((o.listed.filter q).filter (·.isActive)).mergeSort Node.comesBefore :=
    Distinct.siblings_eq (o := o.showingActive) distinct (List.filter_subset_self _)
  have hall : o.showingAll.siblings (o.listed.filter q)
      = ((o.listed.filter q).filter fun _ => true).mergeSort Node.comesBefore :=
    Distinct.siblings_eq (o := o.showingAll) distinct (List.filter_subset_self _)
  rw [hactive, hall, List.filter_true,
    mergeSort_filter Node.comesBefore_trans Node.comesBefore_total]

theorem pruneAll_map_node (depth : Nat) (l : List Scope)
    (each : ∀ s, (o.showingAll.node depth s).prune = o.showingActive.node depth s) :
    Node.pruneAll (l.map (o.showingAll.node depth))
      = (l.filter (·.isActive)).map (o.showingActive.node depth) := by
  have hscope : (fun node : Node => node.scope.isActive) ∘ o.showingAll.node depth
      = (·.isActive) := by
    funext s
    rw [Function.comp_apply, node_scope]
  rw [Node.pruneAll_eq, List.filter_map, hscope, List.map_map]
  exact List.map_congr_left fun s _ => each s

theorem prune_node (distinct : o.Distinct) (depth : Nat) (s : Scope) :
    (o.showingAll.node depth s).prune = o.showingActive.node depth s := by
  -- Pruning cuts the inactive children of the top, and the listing without them has the others.
  induction depth generalizing s with
  | zero => rfl
  | succ depth ih =>
    have hbelow : o.showingActive.below s.key
        = (o.showingAll.below s.key).filter (·.isActive) := siblings_showingActive distinct _
    rw [node, node, Node.prune, pruneAll_map_node depth _ ih, ← hbelow]
    rfl

end Outline

/-- Hiding inactive scopes is pruning, for any list of scopes in which no address stands twice,
wherever their parent links lead, and whether the tree is that of all customers or of one: the tree
without them is the whole tree, out of which the inactive nodes are cut with all that is below them.
The branches that are left are those that lead over active scopes only, in their order. -/
theorem hiding_is_pruning (o : Outline) (distinct : o.Distinct) (customer : Option Uuid) :
    let all := o.showingAll.tree customer
    let active := o.showingActive.tree customer
    active = Node.pruneAll all ∧
      Node.branchesAll active = (Node.branchesAll all).filter Node.isLive := by
  intro all active
  have hroots := Outline.siblings_showingActive distinct (Outline.isRoot customer)
  have hpruned : active = Node.pruneAll all := by
    have hmap := Outline.pruneAll_map_node o.listed.length
      (o.showingAll.siblings (o.listed.filter (Outline.isRoot customer)))
      (Outline.prune_node distinct o.listed.length)
    rw [← hroots] at hmap
    exact hmap.symm
  exact ⟨hpruned, by rw [hpruned, Node.branchesAll_pruneAll]⟩

theorem hiding_is_pruning_tangled :
    let all := tangledOutline.showingAll.tree (some ⟨1⟩)
    let active := tangledOutline.showingActive.tree (some ⟨1⟩)
    tangledOutline.Distinct ∧ active = Node.pruneAll all ∧
      (Node.nodesAll all).map (·.scope.key) = [(.customer, ⟨1⟩), (.masterLease, ⟨10⟩),
        (.rider, ⟨20⟩), (.amendment, ⟨30⟩), (.rider, ⟨23⟩), (.rider, ⟨24⟩)] ∧
      (Node.nodesAll active).map (·.scope.key) =
        [(.customer, ⟨1⟩), (.masterLease, ⟨10⟩), (.rider, ⟨20⟩), (.amendment, ⟨30⟩)] := by
  intro all active
  have distinct : tangledOutline.Distinct := by unfold Outline.Distinct; decide
  exact ⟨distinct, (hiding_is_pruning tangledOutline distinct (some ⟨1⟩)).1, by decide +kernel,
    tangledOutline_keys⟩

end CarCare

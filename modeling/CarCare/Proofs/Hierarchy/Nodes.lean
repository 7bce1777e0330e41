import CarCare.Proofs.Hierarchy.Branches

/-!
Nodes of a tree, one after the other, each with what is below it.

What is proved:
  1. `Node.exists_parent`: every node is a root or a child of another one.
  2. `Node.last_of_branches`: branch by branch, the tree has the scopes of its nodes.
  3. `Outline.hasOverride_of_mem_tree`: at every depth, a node of a tree is marked as the index
     says.
-/
namespace CarCare

namespace Node

mutual

/-- A node with all nodes below it. -/
def nodes : Node → List Node
  | mk scope mark children => mk scope mark children :: nodesAll children

def nodesAll : List Node → List Node
  | [] => []
  | node :: rest => node.nodes ++ nodesAll rest

end

theorem mem_nodesAll {nodes : List Node} {n : Node} :
    n ∈ nodesAll nodes ↔ ∃ node ∈ nodes, n ∈ node.nodes := by
  induction nodes with
  | nil => simp [nodesAll]
  | cons node rest ih => simp [nodesAll, ih]

theorem nodesAll_eq_flatMap (nodes : List Node) : nodesAll nodes = nodes.flatMap Node.nodes := by
  induction nodes with
  | nil => rfl
  | cons node rest ih => rw [nodesAll, ih, List.flatMap_cons]

theorem nodes_eq (node : Node) : node.nodes = node :: nodesAll node.children := by
  cases node with
  | mk scope mark children => rfl

theorem mem_nodes {node n : Node} : n ∈ node.nodes ↔ n = node ∨ n ∈ nodesAll node.children := by
  rw [nodes_eq, List.mem_cons]

mutual

theorem exists_parent_in (node : Node) : ∀ n ∈ node.nodes, n ≠ node →
    ∃ parent ∈ node.nodes, n ∈ parent.children := by
  cases node with
  | mk scope mark children =>
    intro n hn hne
    have hbelow : n ∈ nodesAll children := (mem_nodes.mp hn).resolve_left hne
    rcases exists_parent children n hbelow with hchild | ⟨parent, hparent, hchild⟩
    · exact ⟨_, mem_nodes.mpr (.inl rfl), hchild⟩
    · exact ⟨parent, mem_nodes.mpr (.inr hparent), hchild⟩

theorem exists_parent (roots : List Node) : ∀ n ∈ nodesAll roots,
    n ∈ roots ∨ ∃ parent ∈ nodesAll roots, n ∈ parent.children := by
  cases roots with
  | nil => exact fun n hn => absurd hn List.not_mem_nil
  | cons node rest =>
    intro n hn
    by_cases hroot : n = node
    · exact .inl (hroot ▸ List.mem_cons_self)
    · rcases List.mem_append.mp hn with hin | hin
      · obtain ⟨parent, hparent, hchild⟩ := exists_parent_in node n hin hroot
        exact .inr ⟨parent, List.mem_append_left _ hparent, hchild⟩
      · rcases exists_parent rest n hin with hrest | ⟨parent, hparent, hchild⟩
        · exact .inl (List.mem_cons_of_mem _ hrest)
        · exact .inr ⟨parent, List.mem_append_right _ hparent, hchild⟩

end

theorem getLast?_cons_of_mem_branches {nodes : List Node} {b : List Scope} (s : Scope)
    (h : b ∈ branchesAll nodes) : (s :: b).getLast? = b.getLast? := by
  obtain ⟨node, _, hb⟩ := mem_branchesAll.mp h
  have hne : b ≠ [] := by
    rintro rfl
    cases head?_of_mem_branches hb
  exact List.getLast?_cons_of_ne_nil hne

mutual

theorem last_of_branches_in (node : Node) :
    node.branches.map List.getLast? = node.nodes.map (some ·.scope) := by
  cases node with
  | mk scope mark children =>
    have hlonger : (branchesAll children).map (List.getLast? ∘ (scope :: ·))
        = (branchesAll children).map List.getLast? :=
      List.map_congr_left fun b hb => getLast?_cons_of_mem_branches scope hb
    rw [branches, nodes, List.map_cons, List.map_map, hlonger, last_of_branches children]
    rfl

theorem last_of_branches (roots : List Node) :
    (branchesAll roots).map List.getLast? = (nodesAll roots).map (some ·.scope) := by
  cases roots with
  | nil => rfl
  | cons node rest =>
    rw [branchesAll, nodesAll, List.map_append, List.map_append, last_of_branches_in node,
      last_of_branches rest]

end

end Node

namespace Outline
variable {o : Outline} {n : Node}

theorem hasOverride_of_mem_node {depth : Nat} {s : Scope} (h : n ∈ (o.node depth s).nodes) :
    n.hasOverride = o.isOverridden n.scope := by
  induction depth generalizing s with
  | zero =>
    rw [node, Node.nodes, Node.nodesAll, List.mem_singleton] at h
    rw [h]
    rfl
  | succ depth ih =>
    rw [node, Node.nodes, List.mem_cons] at h
    rcases h with rfl | h
    · rfl
    · obtain ⟨child, hchild, hn⟩ := Node.mem_nodesAll.mp h
      obtain ⟨below, _, rfl⟩ := List.mem_map.mp hchild
      exact ih hn

theorem hasOverride_of_mem_tree {customer : Option Uuid} (h : n ∈ Node.nodesAll (o.tree customer)) :
    n.hasOverride = o.isOverridden n.scope := by
  obtain ⟨root, hroot, hn⟩ := Node.mem_nodesAll.mp h
  obtain ⟨s, _, rfl⟩ := List.mem_map.mp hroot
  exact hasOverride_of_mem_node hn

end Outline
end CarCare

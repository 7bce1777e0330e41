import CarCare.Proofs.Keys
import CarCare.Tree
import Mathlib.Data.List.Perm.Subperm

/-!
Branches of a tree: the chains of scopes that lead from a root down to each of its nodes.

A branch of an outline is what the parent links of its scopes say, read from a root downwards. If no
address is listed twice:
  1. `Outline.Branch.unique` and `Outline.Branch.nodup`: one branch at most ends at an address, and it
     does not return to a scope, whatever the parent links are. So the bound on the depth of trees
     never shows.
  2. `Outline.mem_branches_tree`: the branches of the tree are those of the outline.
  3. `Outline.branchesTo_tree`: each node has an address of its own.
-/
namespace CarCare

namespace Node

mutual

/-- The chains of scopes from a node down to each node of its subtree, itself included. -/
def branches : Node → List (List Scope)
  | mk scope _ children => [scope] :: (branchesAll children).map (scope :: ·)

def branchesAll : List Node → List (List Scope)
  | [] => []
  | node :: rest => node.branches ++ branchesAll rest

end

/-- The branches that end at an address, one for each node of the address. -/
def branchesTo (nodes : List Node) (address : Level × Uuid) : List (List Scope) :=
  (branchesAll nodes).filter fun b => b.getLast?.map Scope.key == some address

theorem branchesAll_eq_flatMap (nodes : List Node) : branchesAll nodes = nodes.flatMap branches := by
  induction nodes with
  | nil => rfl
  | cons node rest ih => rw [branchesAll, ih, List.flatMap_cons]

theorem mem_branchesAll {nodes : List Node} {b : List Scope} :
    b ∈ branchesAll nodes ↔ ∃ node ∈ nodes, b ∈ node.branches := by
  rw [branchesAll_eq_flatMap, List.mem_flatMap]

theorem head?_of_mem_branches {node : Node} {b : List Scope} (h : b ∈ node.branches) :
    b.head? = some node.scope := by
  cases node with
  | mk scope mark children =>
    rw [branches, List.mem_cons, List.mem_map] at h
    rcases h with rfl | ⟨b, _, rfl⟩
    · rfl
    · rfl

theorem branchesAll_nodup {nodes : List Node} (scopes : (nodes.map scope).Nodup)
    (each : ∀ node ∈ nodes, node.branches.Nodup) : (branchesAll nodes).Nodup := by
  rw [branchesAll_eq_flatMap, List.nodup_flatMap]
  refine ⟨each, (List.pairwise_map.mp scopes).imp fun {m n} hne b hm hn => hne ?_⟩
  exact Option.some.inj ((head?_of_mem_branches hm).symm.trans (head?_of_mem_branches hn))

end Node

namespace Outline

def Distinct (o : Outline) : Prop := (o.listed.map Scope.key).Nodup

def Shown (o : Outline) (s : Scope) : Prop := s ∈ o.listed ∧ o.shows s

/-- A chain of shown scopes from a root down to a scope, each below the one before. -/
inductive Branch (o : Outline) (customer : Option Uuid) : List Scope → Scope → Prop
  | root {s} (shown : o.Shown s) (isRoot : isRoot customer s) : Branch o customer [s] s
  | child {b p s} (up : Branch o customer b p) (shown : o.Shown s) (isBelow : isBelow p.key s) :
      Branch o customer (b ++ [s]) s

variable {o : Outline} {customer : Option Uuid} {b c : List Scope} {p r s : Scope}

theorem isRoot_iff :
    isRoot customer s ↔ s.level = .customer ∧ (customer = none ∨ customer = some s.id) := by
  simp [isRoot]

theorem isBelow_iff {parent : Level × Uuid} :
    isBelow parent s ↔ s.level ≠ .customer ∧ s.parent? = some parent := by
  simp [isBelow]

/-! ## Siblings -/

theorem Distinct.key_inj (distinct : o.Distinct) (hs : o.Shown s) (hp : o.Shown p)
    (h : s.key = p.key) : s = p :=
  List.inj_on_of_nodup_map distinct hs.1 hp.1 h

theorem Distinct.shown?_eq_some (distinct : o.Distinct) {address : Level × Uuid} :
    o.shown? address = some s ↔ o.Shown s ∧ s.key = address := by
  have hkeys : ((o.listed.filter o.shows).reverse.map Scope.key).Nodup := by
    rw [List.map_reverse, List.nodup_reverse]
    exact distinct.sublist (List.filter_sublist.map _)
  rw [shown?, find?_key_eq_some hkeys, List.mem_reverse, List.mem_filter, Shown]

theorem Distinct.siblings_eq (distinct : o.Distinct) {l : List Scope} (listed : l ⊆ o.listed) :
    o.siblings l = (l.filter o.shows).mergeSort Node.comesBefore := by
  rw [siblings, ← List.filterMap_eq_filter]
  refine congrArg (List.mergeSort · _) (List.filterMap_congr fun s hs => ?_)
  by_cases hshows : o.shows s
  · rw [distinct.shown?_eq_some.mpr ⟨⟨listed hs, hshows⟩, rfl⟩]
    simp [Option.guard, hshows]
  · have hnone : o.shown? s.key = none := by
      refine Option.eq_none_iff_forall_ne_some.mpr fun p hp => hshows ?_
      obtain ⟨hp, hkey⟩ := distinct.shown?_eq_some.mp hp
      rw [← List.inj_on_of_nodup_map distinct hp.1 (listed hs) hkey]
      exact hp.2
    simp [Option.guard, hshows, hnone]

theorem Distinct.mem_siblings_filter (distinct : o.Distinct) {q : Scope → Bool} :
    s ∈ o.siblings (o.listed.filter q) ↔ o.Shown s ∧ q s := by
  rw [distinct.siblings_eq (List.filter_subset_self _), List.mem_mergeSort, List.mem_filter,
    List.mem_filter, Shown, and_right_comm]

theorem Distinct.siblings_filter_nodup (distinct : o.Distinct) (q : Scope → Bool) :
    (o.siblings (o.listed.filter q)).Nodup := by
  rw [distinct.siblings_eq (List.filter_subset_self _), (List.mergeSort_perm _ _).nodup_iff]
  exact (distinct.of_map.filter _).filter _

theorem Distinct.mem_below (distinct : o.Distinct) :
    s ∈ o.below p.key ↔ o.Shown s ∧ isBelow p.key s :=
  distinct.mem_siblings_filter

/-! ## Branches of an outline -/

namespace Branch

theorem shown (h : o.Branch customer b s) : o.Shown s := by
  cases h with
  | root shown _ => exact shown
  | child _ shown _ => exact shown

theorem getLast? (h : o.Branch customer b s) : b.getLast? = some s := by
  cases h with
  | root _ _ => rfl
  | child _ _ _ => exact List.getLast?_concat

/-- A scope is the last of one branch at most: roots are below nobody, and others have one
parent. -/
theorem unique (distinct : o.Distinct) (hb : o.Branch customer b s) (hc : o.Branch customer c s) :
    b = c := by
  have hroot : ∀ {s p}, isRoot customer s → isBelow p s → False := fun hr hbelow =>
    (isBelow_iff.mp hbelow).1 (isRoot_iff.mp hr).1
  -- Both branches are taken apart from their ends, where the last scope says which case it is.
  induction hb generalizing c with
  | root _ hr =>
    cases hc with
    | root _ _ => rfl
    | child _ _ hbelow => exact (hroot hr hbelow).elim
  | child up _ hbelow ih =>
    cases hc with
    | root _ hr => exact (hroot hr hbelow).elim
    | child up' _ hbelow' =>
      have hkey := Option.some.inj
        ((isBelow_iff.mp hbelow).2.symm.trans (isBelow_iff.mp hbelow').2)
      obtain rfl := distinct.key_inj up.shown up'.shown hkey
      rw [ih up']

/-- Each scope of a branch ends a branch that the whole one begins with. -/
theorem exists_isPrefix (h : o.Branch customer b s) (hp : p ∈ b) :
    ∃ c, c <+: b ∧ o.Branch customer c p := by
  induction h with
  | root shown isRoot =>
    obtain rfl := List.mem_singleton.mp hp
    exact ⟨_, List.prefix_rfl, root shown isRoot⟩
  | child up shown isBelow ih =>
    rcases List.mem_append.mp hp with hp | hp
    · obtain ⟨c, hc, hbranch⟩ := ih hp
      exact ⟨c, hc.trans (List.prefix_append _ _), hbranch⟩
    · obtain rfl := List.mem_singleton.mp hp
      exact ⟨_, List.prefix_rfl, child up shown isBelow⟩

/-- A branch does not return to a scope, even where parent links go round. -/
theorem nodup (distinct : o.Distinct) (h : o.Branch customer b s) : b.Nodup := by
  induction h with
  | root _ _ => exact List.nodup_singleton _
  | child up shown isBelow ih =>
    rw [← List.concat_eq_append]
    -- A scope that came back would end the whole branch and a shorter one.
    refine ih.concat fun hmem => ?_
    obtain ⟨c, hc, hbranch⟩ := up.exists_isPrefix hmem
    obtain rfl := hbranch.unique distinct (child up shown isBelow)
    exact absurd hc.length_le (by simp)

theorem subset (h : o.Branch customer b s) : b ⊆ o.listed := fun _ hp =>
  let ⟨_, _, hbranch⟩ := h.exists_isPrefix hp
  hbranch.shown.1

theorem length_le (distinct : o.Distinct) (h : o.Branch customer b s) :
    b.length ≤ o.listed.length :=
  (List.subperm_of_subset (h.nodup distinct) h.subset).length_le

end Branch

/-! ## Branches of the tree -/

theorem branches_node_zero (o : Outline) (s : Scope) : (o.node 0 s).branches = [[s]] := rfl

theorem mem_branches_node_succ (distinct : o.Distinct) {depth : Nat} :
    b ∈ (o.node (depth + 1) s).branches ↔ b = [s] ∨ ∃ child, o.Shown child ∧ isBelow s.key child ∧
      ∃ c ∈ (o.node depth child).branches, b = s :: c := by
  simp only [node, Node.branches, List.mem_cons, List.mem_map, Node.mem_branchesAll,
    exists_exists_and_eq_and, distinct.mem_below]
  grind

theorem node_scope (o : Outline) (depth : Nat) (s : Scope) : (o.node depth s).scope = s := by
  cases depth <;> rfl

theorem branch_of_mem_node (distinct : o.Distinct) {depth : Nat}
    (up : o.Branch customer (b ++ [s]) s) (h : c ∈ (o.node depth s).branches) :
    ∃ p, o.Branch customer (b ++ c) p := by
  -- On the way down the branch grows by the scope of each node that is passed.
  induction depth generalizing b c s with
  | zero =>
    rw [branches_node_zero, List.mem_singleton] at h
    exact ⟨s, h ▸ up⟩
  | succ depth ih =>
    rcases (mem_branches_node_succ distinct).mp h with rfl | ⟨child, hshown, hbelow, c, hc, rfl⟩
    · exact ⟨s, up⟩
    · simpa using ih (.child up hshown hbelow) hc

/-- The node of a scope goes on from each of its branches to what is below the last scope of it, as
far as the depth reaches. -/
theorem node_extends (distinct : o.Distinct) {depth : Nat} (h : b ∈ (o.node depth r).branches)
    (last : b.getLast? = some p) (room : b.length ≤ depth) (shown : o.Shown s)
    (isBelow : isBelow p.key s) : b ++ [s] ∈ (o.node depth r).branches := by
  induction depth generalizing b r with
  | zero =>
    rw [branches_node_zero, List.mem_singleton] at h
    subst h
    exact absurd room (by simp)
  | succ depth ih =>
    rw [mem_branches_node_succ distinct] at h ⊢
    rcases h with rfl | ⟨child, hshown, hbelow, c, hc, rfl⟩
    · obtain rfl := Option.some.inj last
      refine .inr ⟨s, shown, isBelow, [s], ?_, rfl⟩
      cases depth with
      | zero => exact List.mem_singleton.mpr rfl
      | succ depth => exact (mem_branches_node_succ distinct).mpr (.inl rfl)
    · -- The branch goes on below a child, where its end is the same and the room one less.
      have hne : c ≠ [] := by
        rintro rfl
        cases Node.head?_of_mem_branches hc
      have hlast : c.getLast? = some p := by rwa [List.getLast?_cons_of_ne_nil hne] at last
      exact .inr ⟨child, hshown, hbelow, c ++ [s], ih hc hlast (by simpa using room), rfl⟩

/-- The branches of the tree are those of the outline: the tree is deep enough. -/
theorem mem_branches_tree (distinct : o.Distinct) :
    b ∈ Node.branchesAll (o.tree customer) ↔ ∃ s, o.Branch customer b s := by
  simp only [tree, Node.mem_branchesAll, List.mem_map, exists_exists_and_eq_and,
    distinct.mem_siblings_filter]
  constructor
  · rintro ⟨r, ⟨hshown, hroot⟩, hb⟩
    exact branch_of_mem_node (b := []) distinct (.root hshown hroot) hb
  · rintro ⟨s, h⟩
    induction h with
    | root shown isRoot =>
      refine ⟨_, ⟨shown, isRoot⟩, ?_⟩
      cases o.listed.length with
      | zero => exact List.mem_singleton.mpr rfl
      | succ depth => exact (mem_branches_node_succ distinct).mpr (.inl rfl)
    | child up shown isBelow ih =>
      obtain ⟨r, hr, hb⟩ := ih
      -- A branch is no longer than the list, so there is room for one more scope below it.
      exact ⟨r, hr, node_extends distinct hb up.getLast? (up.length_le distinct) shown isBelow⟩

theorem branches_node_nodup (distinct : o.Distinct) (depth : Nat) (s : Scope) :
    (o.node depth s).branches.Nodup := by
  induction depth generalizing s with
  | zero => exact List.nodup_singleton _
  | succ depth ih =>
    have hchildren : (Node.branchesAll ((o.below s.key).map (o.node depth))).Nodup := by
      refine Node.branchesAll_nodup ?_ fun node hnode => ?_
      · have hbelow : (o.below s.key).Nodup := distinct.siblings_filter_nodup _
        simpa [Function.comp_def, node_scope] using hbelow
      · obtain ⟨child, _, rfl⟩ := List.mem_map.mp hnode
        exact ih child
    rw [node, Node.branches, List.nodup_cons]
    refine ⟨fun h => ?_, hchildren.map fun _ _ h => (List.cons.inj h).2⟩
    obtain ⟨c, hc, heq⟩ := List.mem_map.mp h
    obtain ⟨node, _, hnode⟩ := Node.mem_branchesAll.mp hc
    rw [(List.cons.inj heq).2] at hnode
    cases Node.head?_of_mem_branches hnode

theorem branches_tree_nodup (distinct : o.Distinct) (customer : Option Uuid) :
    (Node.branchesAll (o.tree customer)).Nodup := by
  refine Node.branchesAll_nodup ?_ fun node hnode => ?_
  · simpa [tree, Function.comp_def, node_scope] using distinct.siblings_filter_nodup _
  · obtain ⟨root, _, rfl⟩ := List.mem_map.mp hnode
    exact branches_node_nodup distinct _ root

theorem mem_branchesTo_tree (distinct : o.Distinct) {address : Level × Uuid} :
    b ∈ Node.branchesTo (o.tree customer) address ↔
      ∃ s, o.Branch customer b s ∧ s.key = address := by
  rw [Node.branchesTo, List.mem_filter, mem_branches_tree distinct]
  constructor
  · rintro ⟨⟨s, h⟩, hkey⟩
    exact ⟨s, h, by simpa [h.getLast?] using hkey⟩
  · rintro ⟨s, h, rfl⟩
    exact ⟨⟨s, h⟩, by simp [h.getLast?]⟩

/-- The tree has one node for a scope that a branch leads to. -/
theorem branchesTo_tree (distinct : o.Distinct) (h : o.Branch customer b s) :
    Node.branchesTo (o.tree customer) s.key = [b] := by
  refine List.perm_singleton.mp ((List.perm_ext_iff_of_nodup
    ((branches_tree_nodup distinct customer).filter _) (List.nodup_singleton b)).mpr fun c => ?_)
  rw [← Node.branchesTo, mem_branchesTo_tree distinct, List.mem_singleton]
  constructor
  · rintro ⟨p, hc, hkey⟩
    obtain rfl := distinct.key_inj hc.shown h.shown hkey
    exact hc.unique distinct h
  · rintro rfl
    exact ⟨s, h, rfl⟩

end Outline
end CarCare

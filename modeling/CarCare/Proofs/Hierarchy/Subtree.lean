import CarCare.Proofs.Hierarchy.Branches
import CarCare.Proofs.Hierarchy.Owner
import CarCare.Proofs.Sorting

/-!
The tree of one customer: what is listed for the customer alone is enough to build the subtree that
the whole tree has below it.

What is proved:
  1. `Outline.Branch.node_eq`: a node whose depth leaves room for every branch through it does not
     depend on the depth.
  2. `LeaseTables.filter_scopes`: of the scopes that are shown with a customer none is missing from
     what is listed for it. Amendments of other customers may be listed besides.
  3. `LeaseTables.Keyed.below_owner`: below a scope of a customer there are only scopes of it.
  4. `tree_of_customer`: hence the tree of a customer is its part of the whole tree.
-/
namespace CarCare

namespace Node

theorem comesBefore_iff {a b : Scope} : comesBefore a b ↔
    a.name.getD "" < b.name.getD "" ∨ (a.name.getD "" = b.name.getD "" ∧ a.id ≤ b.id) := by
  simp [comesBefore]

theorem comesBefore_trans (a b c : Scope) :
    comesBefore a b → comesBefore b c → comesBefore a c := by
  simp only [comesBefore_iff]
  rintro (hab | ⟨hab, hid⟩) (hbc | ⟨hbc, hid'⟩)
  · exact .inl (String.lt_trans hab hbc)
  · exact .inl (hbc ▸ hab)
  · exact .inl (hab ▸ hbc)
  · exact .inr ⟨hab.trans hbc, Nat.le_trans hid hid'⟩

theorem comesBefore_total (a b : Scope) : comesBefore a b || comesBefore b a := by
  simp only [Bool.or_eq_true, comesBefore_iff]
  by_cases hab : a.name.getD "" < b.name.getD ""
  · exact .inl (.inl hab)
  · by_cases hba : b.name.getD "" < a.name.getD ""
    · exact .inr (.inl hba)
    · have hname := String.le_antisymm (String.not_lt.mp hba) (String.not_lt.mp hab)
      exact (Nat.le_total _ _).imp (fun hid => .inr ⟨hname, hid⟩) fun hid => .inr ⟨hname.symm, hid⟩

end Node

namespace Outline
variable {o o' : Outline} {customer : Option Uuid} {b : List Scope} {s : Scope} {q : Scope → Bool}

/-! ## Depth -/

/-- Below a branch that is as long as the list there is nothing. -/
theorem Branch.below_eq_nil (h : o.Branch customer b s) (distinct : o.Distinct)
    (full : o.listed.length ≤ b.length) : o.below s.key = [] := by
  apply List.eq_nil_iff_forall_not_mem.mpr
  intro child hchild
  obtain ⟨hshown, hbelow⟩ := distinct.mem_below.mp hchild
  have hlength := (Branch.child h hshown hbelow).length_le distinct
  rw [List.length_append, List.length_singleton] at hlength
  omega

/-- A node is the same at all depths that leave room for every branch through it. -/
theorem Branch.node_eq (h : o.Branch customer b s) (distinct : o.Distinct) {depth depth' : Nat}
    (room : o.listed.length ≤ b.length + depth) (room' : o.listed.length ≤ b.length + depth') :
    o.node depth s = o.node depth' s := by
  -- Where one of the depths is used up the branch is as long as the list, and nothing is below.
  induction depth generalizing depth' b s with
  | zero =>
    cases depth' with
    | zero => rfl
    | succ depth' => rw [node, node, h.below_eq_nil distinct room, List.map_nil]
  | succ depth ih =>
    cases depth' with
    | zero => rw [node, node, h.below_eq_nil distinct room', List.map_nil]
    | succ depth' =>
      rw [node, node]
      congr 1
      apply List.map_congr_left
      intro child hchild
      obtain ⟨hshown, hbelow⟩ := distinct.mem_below.mp hchild
      apply ih (Branch.child h hshown hbelow)
      · rw [List.length_append, List.length_singleton]
        omega
      · rw [List.length_append, List.length_singleton]
        omega

theorem branch_of_root (distinct : o.Distinct)
    (h : s ∈ o.siblings (o.listed.filter (isRoot customer))) : o.Branch customer [s] s :=
  have hs := distinct.mem_siblings_filter.mp h
  .root hs.1 hs.2

/-! ## Outlines that list the same -/

theorem siblings_congr (distinct : o.Distinct) (distinct' : o'.Distinct)
    (hide : o.hideInactive = o'.hideInactive) (same : o.listed.filter q = o'.listed.filter q) :
    o.siblings (o.listed.filter q) = o'.siblings (o'.listed.filter q) := by
  have hshows : o.shows = o'.shows := by
    funext s
    rw [shows, shows, hide]
  rw [distinct.siblings_eq (List.filter_subset_self _),
    distinct'.siblings_eq (List.filter_subset_self _), same, hshows]

theorem node_congr {P : Scope → Prop} (overrides : o.overrides = o'.overrides)
    (closed : ∀ s, P s → ∀ child ∈ o'.below s.key, P child)
    (below : ∀ s, P s → o.below s.key = o'.below s.key) (inside : P s) (depth : Nat) :
    o.node depth s = o'.node depth s := by
  have hmark : ∀ s, o.isOverridden s = o'.isOverridden s := by
    intro s
    rw [isOverridden, isOverridden, overrides]
  induction depth generalizing s with
  | zero => rw [node, node, hmark]
  | succ depth ih =>
    rw [node, node, hmark, below s inside]
    congr 1
    apply List.map_congr_left
    intro child hchild
    exact ih (closed s inside child hchild)

end Outline

namespace LeaseTables
variable {t : LeaseTables} {today : Date} {c : Uuid} {q : Scope → Bool} {s x : Scope}

/-- What the tree of a customer, or of all, is built from. -/
def outlineFor (t : LeaseTables) (today : Date) (overrides : List (Level × Option Uuid))
    (hideInactive : Bool) (customer : Option Uuid) : Outline :=
  { listed := (t.directory today).scopes customer, overrides, hideInactive }

/-- Among scopes that are all shown with one customer, those listed for the customer are all that are
listed. -/
theorem filter_scopes (owned : ∀ x ∈ t.scopes today none, q x → x.customerId = some c) :
    (t.scopes today (some c)).filter q = (t.scopes today none).filter q := by
  -- In each table, a row that is not for the customer is a scope of another one.
  have htable : ∀ {α : Type} (rows : List α) (toScope : α → Scope) (want : Option Uuid → α → Bool),
      (∀ a ∈ rows, want none a) →
      (∀ a ∈ rows, toScope a ∈ t.scopes today none) →
      (∀ a, (toScope a).customerId = some c → want (some c) a) →
      ((rows.filter (want (some c))).map toScope).filter q
        = ((rows.filter (want none)).map toScope).filter q := by
    intro α rows toScope want hall hlisted howner
    rw [List.filter_map, List.filter_map, List.filter_filter, List.filter_filter]
    congr 1
    apply List.filter_congr
    intro a ha
    cases hq : (q ∘ toScope) a with
    | false => rfl
    | true => rw [hall a ha, howner a (owned _ (hlisted a ha) hq)]
  have hcustomers := htable t.customers Customer.toScope (wanted · ·.id) (fun _ _ => rfl)
    (fun a ha => mem_scopes.mpr (.inl ⟨a, ha, rfl⟩))
    (fun a h => beq_iff_eq.mpr (Option.some.inj h))
  have hleases := htable t.leases Lease.toScope (wanted · ·.customerId) (fun _ _ => rfl)
    (fun a ha => mem_scopes.mpr (.inr (.inl ⟨a, ha, rfl⟩)))
    (fun a h => beq_iff_eq.mpr (Option.some.inj h))
  have hamendments := htable t.amendments (t.amendmentScope today) t.wantsAmendment
    (fun _ _ => rfl) (fun a ha => mem_scopes.mpr (.inr (.inr (.inr ⟨a, ha, rfl⟩))))
    (fun a h => wantsAmendment_of_owner h)
  unfold scopes at hcustomers ⊢
  simp only [List.filter_append, hcustomers, hleases, hamendments]
  congr 2
  rw [List.filter_filterMap, List.filter_filterMap]
  apply List.filterMap_congr
  intro r hr
  cases hlease : t.lease? r.leaseId with
  | none => rfl
  | some lease =>
    by_cases hc : lease.customerId = c
    · simp [wanted, hc]
    · have hq : q (r.toScope lease.customerId) = false := by
        have hscope : t.riderScope? r = some (r.toScope lease.customerId) := by
          rw [riderScope?, hlease]
          rfl
        apply Bool.eq_false_iff.mpr
        intro hq
        exact hc (Option.some.inj (owned _ (mem_scopes.mpr (.inr (.inr (.inl ⟨r, hr, hscope⟩)))) hq))
      simp [wanted, hc, hq, Option.filter]

theorem owner_of_customer (listed : s ∈ t.scopes today none) (level : s.level = .customer) :
    s.customerId = some s.id := by
  obtain ⟨x, _, rfl⟩ | ⟨l, _, rfl⟩ | ⟨r, _, hr⟩ | ⟨a, _, rfl⟩ := mem_scopes.mp listed
  · rfl
  · cases level
  · cases (Prod.mk.inj (riderScope?_key hr)).1.symm.trans level
  · cases level

theorem Keyed.below_owner (keyed : t.Keyed) (listed : s ∈ t.scopes today none)
    (owner : s.customerId = some c) (hx : x ∈ t.scopes today none)
    (below : Outline.isBelow s.key x) : x.customerId = some c := by
  have hknown := keyed.mem_scopes_iff.mp hx
  have hfound : x.found? (t.directory today).scope? = some s := by
    rw [Scope.found?, (Outline.isBelow_iff.mp below).2]
    exact keyed.mem_scopes_iff.mp listed
  rw [owner_of_found hknown hfound, owner]

variable {overrides : List (Level × Option Uuid)} {hideInactive : Bool} {customer : Option Uuid}

theorem Keyed.outlineFor_distinct (keyed : t.Keyed) :
    (t.outlineFor today overrides hideInactive customer).Distinct :=
  keyed.scopes_nodup today customer

theorem Keyed.below_outlineFor (keyed : t.Keyed) (listed : s ∈ t.scopes today none)
    (owner : s.customerId = some c) :
    (t.outlineFor today overrides hideInactive (some c)).below s.key
      = (t.outlineFor today overrides hideInactive none).below s.key := by
  refine Outline.siblings_congr keyed.outlineFor_distinct keyed.outlineFor_distinct rfl ?_
  apply filter_scopes
  intro x hx hbelow
  exact keyed.below_owner listed owner hx hbelow

theorem Keyed.node_outlineFor (keyed : t.Keyed) (listed : s ∈ t.scopes today none)
    (owner : s.customerId = some c) (depth : Nat) :
    (t.outlineFor today overrides hideInactive (some c)).node depth s
      = (t.outlineFor today overrides hideInactive none).node depth s := by
  refine Outline.node_congr (P := fun s => s ∈ t.scopes today none ∧ s.customerId = some c)
    ?_ ?_ ?_ ⟨listed, owner⟩ depth
  · rfl
  · rintro s ⟨listed, owner⟩ child hchild
    obtain ⟨hshown, hbelow⟩ := keyed.outlineFor_distinct.mem_below.mp hchild
    exact ⟨hshown.1, keyed.below_owner listed owner hshown.1 hbelow⟩
  · rintro s ⟨listed, owner⟩
    exact keyed.below_outlineFor listed owner

theorem Keyed.roots_outlineFor (keyed : t.Keyed) :
    let one := t.outlineFor today overrides hideInactive (some c)
    let all := t.outlineFor today overrides hideInactive none
    one.siblings (one.listed.filter (Outline.isRoot (some c)))
      = (all.siblings (all.listed.filter (Outline.isRoot none))).filter (·.id == c) := by
  intro one all
  have hone : one.Distinct := keyed.outlineFor_distinct
  have hall : all.Distinct := keyed.outlineFor_distinct
  have hsame : one.listed.filter (Outline.isRoot (some c))
      = all.listed.filter (Outline.isRoot (some c)) := by
    apply filter_scopes
    intro x hx hroot
    obtain ⟨hlevel, hnone | hid⟩ := Outline.isRoot_iff.mp hroot
    · cases hnone
    · rw [owner_of_customer hx hlevel, hid]
  have hroot : ∀ s, Outline.isRoot (some c) s = (s.id == c && Outline.isRoot none s) := by
    intro s
    rw [Bool.eq_iff_iff, Bool.and_eq_true, beq_iff_eq, Outline.isRoot_iff, Outline.isRoot_iff]
    constructor
    · rintro ⟨hlevel, hnone | hid⟩
      · cases hnone
      · exact ⟨(Option.some.inj hid).symm, hlevel, .inl rfl⟩
    · rintro ⟨rfl, hlevel, _⟩
      exact ⟨hlevel, .inr rfl⟩
  calc one.siblings (one.listed.filter (Outline.isRoot (some c)))
    _ = all.siblings (all.listed.filter (Outline.isRoot (some c))) :=
      Outline.siblings_congr hone hall rfl hsame
    _ = ((all.listed.filter (Outline.isRoot (some c))).filter all.shows).mergeSort
          Node.comesBefore := hall.siblings_eq (List.filter_subset_self _)
    _ = (((all.listed.filter (Outline.isRoot none)).filter all.shows).filter (·.id == c)).mergeSort
          Node.comesBefore := by
      simp only [List.filter_filter, hroot, Bool.and_left_comm]
    _ = (((all.listed.filter (Outline.isRoot none)).filter all.shows).mergeSort
          Node.comesBefore).filter (·.id == c) :=
      (mergeSort_filter Node.comesBefore_trans Node.comesBefore_total _ _).symm
    _ = (all.siblings (all.listed.filter (Outline.isRoot none))).filter (·.id == c) := by
      rw [hall.siblings_eq (List.filter_subset_self _)]

end LeaseTables

/-- Filtering a tree by customer is taking the subtree of this customer. -/
theorem tree_of_customer {t : LeaseTables} (keyed : t.Keyed) (today : Date)
    (overrides : List (Level × Option Uuid)) (hideInactive : Bool) (c : Uuid) :
    (t.outlineFor today overrides hideInactive (some c)).tree (some c)
      = ((t.outlineFor today overrides hideInactive none).tree none).filter
        (·.scope.id == c) := by
  let one := t.outlineFor today overrides hideInactive (some c)
  let all := t.outlineFor today overrides hideInactive none
  have hone : one.Distinct := keyed.outlineFor_distinct
  have hall : all.Distinct := keyed.outlineFor_distinct
  let roots := one.siblings (one.listed.filter (Outline.isRoot (some c)))
  have hroots : roots
      = (all.siblings (all.listed.filter (Outline.isRoot none))).filter (·.id == c) :=
    keyed.roots_outlineFor
  have hnode : ∀ s ∈ roots, one.node one.listed.length s = all.node all.listed.length s := by
    intro s hs
    have hbranch : one.Branch (some c) [s] s := Outline.branch_of_root hone hs
    rw [hroots] at hs
    obtain ⟨hs, hid⟩ := List.mem_filter.mp hs
    have hbranch' : all.Branch none [s] s := Outline.branch_of_root hall hs
    have howner : s.customerId = some c := by
      have hlevel := (Outline.isRoot_iff.mp (hall.mem_siblings_filter.mp hs).2).1
      rw [LeaseTables.owner_of_customer hbranch'.shown.1 hlevel, beq_iff_eq.mp hid]
    -- The two trees are not built to the same depth, but either is deep enough.
    let depth := one.listed.length + all.listed.length
    calc one.node one.listed.length s
      _ = one.node depth s := hbranch.node_eq hone (by omega) (by omega)
      _ = all.node depth s := keyed.node_outlineFor hbranch'.shown.1 howner depth
      _ = all.node all.listed.length s := hbranch'.node_eq hall (by omega) (by omega)
  have hscope : (fun node : Node => node.scope.id == c) ∘ all.node all.listed.length
      = (·.id == c) := by
    funext s
    rw [Function.comp_apply, Outline.node_scope]
  calc roots.map (one.node one.listed.length)
    _ = roots.map (all.node all.listed.length) := List.map_congr_left hnode
    _ = (all.tree none).filter (·.scope.id == c) := by
      rw [Outline.tree, List.filter_map, hscope, ← hroots]

/-- Tables of two customers, with an amendment whose rider and lease belong to one each, and with
references that dangle. -/
def crossedTables : LeaseTables where
  customers := [⟨⟨1⟩, "ACME", "Acme", true⟩, ⟨⟨2⟩, "BULK", "Bulk", true⟩]
  leases := [⟨⟨10⟩, ⟨1⟩, "L10", none, "Active"⟩, ⟨⟨11⟩, ⟨2⟩, "L11", none, "Active"⟩,
    ⟨⟨12⟩, ⟨9⟩, "L12", none, "Active"⟩]
  riders := [⟨⟨20⟩, ⟨10⟩, "R20", none, "Active"⟩, ⟨⟨21⟩, ⟨9⟩, "R21", none, "Active"⟩]
  amendments := [⟨⟨30⟩, some ⟨20⟩, some ⟨11⟩, "A30", none, ⟨5⟩⟩,
    ⟨⟨31⟩, some ⟨21⟩, some ⟨11⟩, "A31", none, ⟨5⟩⟩, ⟨⟨32⟩, none, some ⟨11⟩, "A32", none, ⟨5⟩⟩]

theorem crossedTables_keyed : crossedTables.Keyed where
  scopes level := by cases level <;> decide
  placements := by decide

/-- An amendment is listed for the customer of its lease, but stands in the tree of its rider's. -/
theorem tree_of_customer_crossed :
    let one := crossedTables.outlineFor ⟨5⟩ [(.amendment, some ⟨30⟩)] false (some ⟨2⟩)
    let all := crossedTables.outlineFor ⟨5⟩ [(.amendment, some ⟨30⟩)] false none
    crossedTables.Keyed
      ∧ one.listed.map Scope.key
        = [(.customer, ⟨2⟩), (.masterLease, ⟨11⟩), (.amendment, ⟨30⟩), (.amendment, ⟨31⟩),
          (.amendment, ⟨32⟩)]
      ∧ one.tree (some ⟨2⟩) = (all.tree none).filter (·.scope.id == ⟨2⟩)
      ∧ (Node.branchesAll (one.tree (some ⟨2⟩))).map (·.map Scope.key)
        = [[(.customer, ⟨2⟩)], [(.customer, ⟨2⟩), (.masterLease, ⟨11⟩)],
          [(.customer, ⟨2⟩), (.masterLease, ⟨11⟩), (.amendment, ⟨32⟩)]] :=
  ⟨crossedTables_keyed, by decide,
    tree_of_customer crossedTables_keyed ⟨5⟩ [(.amendment, some ⟨30⟩)] false ⟨2⟩, by decide +kernel⟩

end CarCare

import CarCare.Proofs.Hierarchy.Owner
import CarCare.Proofs.Store.Soundness

/-!
Listings for a customer: the current instructions at the customer and at its leases, riders and
amendments, found by the rows that name each other, against the customer that the path of each scope
leads to.

What is proved:
  1. `LeaseTables.Keyed.inSubtree_at`: what is listed for a customer is decided scope by scope.
  2. `LeaseTables.Keyed.inSubtree_of_owner` and `LeaseTables.Keyed.owner_of_inSubtree`: an instruction
     is listed for the customer of its scope, and for no other one unless its scope has two.
  3. `Database.run_resolves`: writes add no reference that does not resolve.
  4. `customer_lists_follow_paths`: so the listings part the current instructions by the customers
     that paths lead to.
-/
namespace CarCare

namespace LeaseTables
variable {t : LeaseTables} {today : Date} {level : Level} {id c : Uuid} {s : Scope}
  {r : InstructionRow}

/-- Whether a scope is among those of a customer. -/
def wants (t : LeaseTables) (c : Uuid) (level : Level) (id : Uuid) : Bool :=
  match level with
  | .customer => id == c
  | .masterLease => (t.lease? id).any (·.customerId == c)
  | .rider => (t.rider? id).any fun r => (t.lease? r.leaseId).any (·.customerId == c)
  | .amendment => (t.amendment? id).any (t.wantsAmendment (some c))

/-- Whether a row is declared at an amendment that names a rider and a lease of different
customers. -/
def crossing (t : LeaseTables) (r : InstructionRow) : Bool :=
  r.scopes.amendment.any fun id => (t.amendment? id).any t.crosses

/-- Whether a row is declared at an amendment that names neither a rider nor a lease. -/
def loose (t : LeaseTables) (r : InstructionRow) : Bool :=
  r.scopes.amendment.any fun id => (t.amendment? id).any (·.parent?.isNone)

theorem straight_of_loose (t : LeaseTables) (h : t.loose r) : t.crossing r = false := by
  unfold loose at h
  unfold crossing
  cases hscope : r.scopes.amendment with
  | none => rfl
  | some id =>
    rw [hscope] at h
    cases ha : t.amendment? id with
    | none => simp [ha]
    | some a =>
      have hnone : a.parent? = none := by simpa [ha] using h
      have hrider : t.riderLease? a = none := by
        unfold Amendment.parent? at hnone
        unfold riderLease?
        split at hnone
        · cases hnone
        · cases hnone
        · rename_i hrider _
          rw [hrider]
          rfl
      simp [ha, crosses, hrider]

/-! ## The listing of a customer -/

theorem wantsAmendment_eq (t : LeaseTables) (c : Uuid) (a : Amendment) :
    t.wantsAmendment (some c) a =
      (a.riderId.any (t.wants c .rider) || a.leaseId.any (t.wants c .masterLease)) := by
  have hrider : (t.riderLease? a).any (·.customerId == c) = a.riderId.any (t.wants c .rider) := by
    cases h : a.riderId with
    | none =>
      rw [riderLease?, h]
      rfl
    | some rider =>
      rw [riderLease?_of_rider h]
      exact Option.any_bind ..
  have hlease : (t.ownLease? a).any (·.customerId == c) = a.leaseId.any (t.wants c .masterLease) :=
    Option.any_bind ..
  rw [wantsAmendment, hrider, hlease]

/-- Where ids are distinct, nested searches for the rows of a customer find a scope if the rows that
the scope refers to are the customer's. -/
theorem Keyed.inSubtree_at (keyed : t.Keyed) (declared : r.scopes = .only level id) (c : Uuid) :
    Store.inSubtree t c r = t.wants c level id := by
  have hleases : ((t.leases.filter (·.customerId == c)).map (·.id)).contains =
      t.wants c .masterLease :=
    funext (contains_map_filter (keyed.scopes .masterLease) _)
  have hriders : ((t.riders.filter fun r => t.wants c .masterLease r.leaseId).map (·.id)).contains =
      t.wants c .rider :=
    funext (contains_map_filter (keyed.scopes .rider) _)
  have hamendments : ((t.amendments.filter fun a => a.riderId.any (t.wants c .rider)
      || a.leaseId.any (t.wants c .masterLease)).map (·.id)).contains = t.wants c .amendment := by
    funext id
    rw [contains_map_filter (keyed.scopes .amendment)]
    exact congrArg (Option.any · (t.amendment? id)) (funext fun a => (t.wantsAmendment_eq c a).symm)
  unfold Store.inSubtree
  dsimp only
  rw [hleases, hriders, hamendments, declared]
  cases level <;> simp [ScopeIds.only, wants]

theorem Keyed.inSubtree_of_owner (keyed : t.Keyed) (declared : r.scopes = .only level id)
    (known : (t.directory today).scope? level id = some s) (owner : s.customerId = some c) :
    Store.inSubtree t c r := by
  rw [keyed.inSubtree_at declared]
  cases level with
  | customer =>
    obtain ⟨x, hx, rfl⟩ := Option.map_eq_some_iff.mp known
    have hid : x.id = id := by simpa using List.find?_some hx
    exact beq_iff_eq.mpr (hid.symm.trans (Option.some.inj owner))
  | masterLease =>
    obtain ⟨l, hl, rfl⟩ := Option.map_eq_some_iff.mp known
    rw [wants, hl]
    exact beq_iff_eq.mpr (Option.some.inj owner)
  | rider =>
    obtain ⟨rider, hrider, hs⟩ := Option.bind_eq_some_iff.mp known
    obtain ⟨lease, hlease, rfl⟩ := Option.map_eq_some_iff.mp hs
    rw [wants, hrider, Option.any_some, hlease]
    exact beq_iff_eq.mpr (Option.some.inj owner)
  | amendment =>
    obtain ⟨a, ha, rfl⟩ := Option.map_eq_some_iff.mp known
    rw [wants, ha]
    exact wantsAmendment_of_owner owner

theorem Keyed.owner_of_inSubtree (keyed : t.Keyed) (declared : r.scopes = .only level id)
    (known : (t.directory today).scope? level id = some s) (straight : t.crossing r = false)
    (listed : Store.inSubtree t c r) : s.customerId = some c := by
  rw [keyed.inSubtree_at declared] at listed
  cases level with
  | customer =>
    obtain ⟨x, hx, rfl⟩ := Option.map_eq_some_iff.mp known
    have hid : x.id = id := by simpa using List.find?_some hx
    exact congrArg some (hid.trans (beq_iff_eq.mp listed))
  | masterLease =>
    obtain ⟨l, hl, rfl⟩ := Option.map_eq_some_iff.mp known
    rw [wants, hl] at listed
    exact congrArg some (beq_iff_eq.mp listed)
  | rider =>
    obtain ⟨rider, hrider, hs⟩ := Option.bind_eq_some_iff.mp known
    obtain ⟨lease, hlease, rfl⟩ := Option.map_eq_some_iff.mp hs
    rw [wants, hrider, Option.any_some, hlease] at listed
    exact congrArg some (beq_iff_eq.mp listed)
  | amendment =>
    obtain ⟨a, ha, rfl⟩ := Option.map_eq_some_iff.mp known
    rw [wants, ha] at listed
    have hstraight : t.crosses a = false := by
      rw [crossing, declared] at straight
      change (t.amendment? id).any t.crosses = false at straight
      rwa [ha] at straight
    exact (wantsAmendment_iff hstraight).mp listed

theorem Resolves.loose_iff (resolves : t.Resolves) (declared : r.scopes = .only level id)
    (known : (t.directory today).scope? level id = some s) : t.loose r ↔ s.customerId = none := by
  rw [resolves.owner_eq_none known, loose, declared]
  obtain ⟨rfl, rfl⟩ := Prod.mk.inj ((t.graded today).key known)
  cases hlevel : s.level with
  | customer | masterLease | rider => simp [ScopeIds.only]
  | amendment =>
    rw [hlevel] at known
    obtain ⟨a, ha, hs⟩ := Option.map_eq_some_iff.mp known
    have hparent : s.parent? = a.parent? := by
      rw [← hs]
      exact a.toScope_parent? _ today
    change (t.amendment? s.id).any _ = true ↔ _
    rw [ha, hparent]
    simp

theorem Resolves.customer_of_tied (resolves : t.Resolves) (declared : r.scopes = .only level id)
    (known : (t.directory today).scope? level id = some s) (tied : t.loose r = false) :
    ∃ x ∈ t.customers, s.customerId = some x.id := by
  cases howner : s.customerId with
  | none =>
    rw [(resolves.loose_iff declared known).mpr howner] at tied
    cases tied
  | some c =>
    obtain ⟨x, hx⟩ := Option.isSome_iff_exists.mp (resolves.owner_known known c howner)
    have hid : x.id = c := by simpa using List.find?_some hx
    exact ⟨x, List.mem_of_find?_eq_some hx, congrArg some hid.symm⟩

end LeaseTables

/-! ## Listings and paths -/

namespace Store
variable {s : Store} {t : LeaseTables} {r : InstructionRow}

theorem mem_list : r ∈ s.list t none none none ↔ r ∈ s.rows ∧ r.isCurrent := by
  rw [list, List.mem_mergeSort, List.mem_filter]
  simp

theorem mem_list_customer {c : Uuid} : r ∈ s.list t none none (some c) ↔
    r ∈ s.rows ∧ r.isCurrent ∧ inSubtree t c r := by
  rw [list, List.mem_mergeSort, List.mem_filter]
  simp

end Store

/-- A database in which every reference to a scope resolves: those of the leasing tables, and those of
the current instructions to the scopes that they are declared at. -/
structure Database.Resolves (db : Database) : Prop where
  leases : db.leases.Resolves
  instructions : ∀ r ∈ db.instructions.rows, r.isCurrent → ∀ scope,
    r.scopes.get r.level = some scope →
      ∀ today, ((db.leases.directory today).scope? r.level scope).isSome

/-- Writes over leasing tables whose references resolve leave a database in which all do. -/
theorem Database.run_resolves {t : LeaseTables} (resolves : t.Resolves) (writes : List Write) :
    (Database.run { leases := t } writes).Resolves := by
  obtain ⟨hleases, hsound⟩ := Database.run_sound { leases := t } (.empty t) writes
  constructor
  · rw [hleases]
    exact resolves
  · intro r hr _ scope hscope
    obtain ⟨id, hscopes, hknown⟩ := (hsound.rows r hr).located
    rw [hscopes, ScopeIds.get_only_self] at hscope
    exact Option.some.inj hscope ▸ hknown

/-- A listed row has the scope that it is declared at, and the path of this scope leads to its
customer. -/
theorem Database.Resolves.located {db : Database} (resolves : db.Resolves)
    (filed : db.instructions.Filed) {r : InstructionRow} (hr : r ∈ db.instructions.rows)
    (current : r.isCurrent) (today : Date) :
    ∃ id info, r.scopes = .only r.level id ∧ r.scopes.get r.level = some id ∧
      (db.leases.directory today).scope? r.level id = some info ∧
      (db.leases.directory today).Leads r.level id info.customerId := by
  obtain ⟨id, hscopes⟩ := (filed.rows r hr).scopes
  have hget : r.scopes.get r.level = some id := by
    rw [hscopes]
    exact ScopeIds.get_only_self r.level id
  obtain ⟨info, hinfo⟩ :=
    Option.isSome_iff_exists.mp (resolves.instructions r hr current id hget today)
  exact ⟨id, info, hscopes, hget, hinfo, resolves.leases.leads hinfo⟩

/-- Whether the path of the scope that a row is declared at leads to a customer. -/
def InstructionRow.LeadsTo (r : InstructionRow) (d : Directory) (c : Uuid) : Prop :=
  ∃ scope, r.scopes.get r.level = some scope ∧ d.Leads r.level scope (some c)

/-- Where the ids of the leasing tables are distinct and all references resolve, the listing for a
customer has the current instructions whose paths lead to this customer. It has no others, except at
amendments that name a rider and a lease of different customers. These apart, the listings for
different customers have no instruction in common. And the listings of all customers together have
what is listed without a customer, except at amendments that name neither a rider nor a lease. -/
theorem customer_lists_follow_paths (db : Database) (reached : db.instructions.Reached)
    (keyed : db.leases.Keyed) (resolves : db.Resolves) (today : Date) :
    let own (c : Uuid) := db.instructions.list db.leases none none (some c)
    let all := db.instructions.list db.leases none none none
    (∀ r ∈ all, ∀ c, r.LeadsTo (db.leases.directory today) c → r ∈ own c) ∧
    (∀ c, ∀ r ∈ own c, db.leases.crossing r = false →
      r ∈ all ∧ r.LeadsTo (db.leases.directory today) c) ∧
    (∀ c c', c ≠ c' → ∀ r ∈ own c, db.leases.crossing r = false → r ∉ own c') ∧
    ∀ r, (∃ x ∈ db.leases.customers, r ∈ own x.id) ↔ r ∈ all ∧ db.leases.loose r = false := by
  intro own all
  have hlocated := fun r hr current => resolves.located reached.filed (r := r) hr current today
  refine ⟨?_, ?_, ?_, ?_⟩
  · rintro r hr c ⟨scope, hdeclared, hpath⟩
    obtain ⟨hmem, hcurrent⟩ := Store.mem_list.mp hr
    obtain ⟨id, info, hscopes, hget, hinfo, hleads⟩ := hlocated r hmem hcurrent
    obtain rfl := Option.some.inj (hget.symm.trans hdeclared)
    have howner : info.customerId = some c := hleads.unique hpath
    exact Store.mem_list_customer.mpr
      ⟨hmem, hcurrent, keyed.inSubtree_of_owner hscopes hinfo howner⟩
  · intro c r hr straight
    obtain ⟨hmem, hcurrent, hin⟩ := Store.mem_list_customer.mp hr
    obtain ⟨id, info, hscopes, hget, hinfo, hleads⟩ := hlocated r hmem hcurrent
    rw [keyed.owner_of_inSubtree hscopes hinfo straight hin] at hleads
    exact ⟨Store.mem_list.mpr ⟨hmem, hcurrent⟩, id, hget, hleads⟩
  · intro c c' hne r hr straight hr'
    obtain ⟨hmem, hcurrent, hin⟩ := Store.mem_list_customer.mp hr
    obtain ⟨_, _, hin'⟩ := Store.mem_list_customer.mp hr'
    obtain ⟨id, info, hscopes, _, hinfo, _⟩ := hlocated r hmem hcurrent
    have howner := keyed.owner_of_inSubtree hscopes hinfo straight hin
    have howner' := keyed.owner_of_inSubtree hscopes hinfo straight hin'
    exact hne (Option.some.inj (howner.symm.trans howner'))
  · intro r
    constructor
    · rintro ⟨x, _, hr⟩
      obtain ⟨hmem, hcurrent, hin⟩ := Store.mem_list_customer.mp hr
      obtain ⟨id, info, hscopes, _, hinfo, _⟩ := hlocated r hmem hcurrent
      refine ⟨Store.mem_list.mpr ⟨hmem, hcurrent⟩, Bool.eq_false_iff.mpr fun hloose => ?_⟩
      have hstraight := db.leases.straight_of_loose hloose
      have howner := keyed.owner_of_inSubtree hscopes hinfo hstraight hin
      rw [(resolves.leases.loose_iff hscopes hinfo).mp hloose] at howner
      cases howner
    · rintro ⟨hr, htied⟩
      obtain ⟨hmem, hcurrent⟩ := Store.mem_list.mp hr
      obtain ⟨id, info, hscopes, _, hinfo, _⟩ := hlocated r hmem hcurrent
      obtain ⟨x, hx, howner⟩ := resolves.leases.customer_of_tied hscopes hinfo htied
      refine ⟨x, hx, Store.mem_list_customer.mpr ⟨hmem, hcurrent, ?_⟩⟩
      exact keyed.inSubtree_of_owner hscopes hinfo howner

/-- Tables of two customers in which all references resolve. One amendment has the rider of the first
customer and the lease of the second, and one hangs off nothing. -/
def sharedTables : LeaseTables where
  customers := [⟨⟨1⟩, "ACME", "Acme", true⟩, ⟨⟨2⟩, "BULK", "Bulk", true⟩]
  leases := [⟨⟨10⟩, ⟨1⟩, "L10", none, "Active"⟩, ⟨⟨11⟩, ⟨2⟩, "L11", none, "Active"⟩]
  riders := [⟨⟨20⟩, ⟨10⟩, "R20", none, "Active"⟩]
  amendments := [⟨⟨30⟩, some ⟨20⟩, some ⟨11⟩, "A30", none, ⟨5⟩⟩, ⟨⟨31⟩, none, none, "A31", none, ⟨5⟩⟩,
    ⟨⟨32⟩, none, some ⟨11⟩, "A32", none, ⟨5⟩⟩]

theorem sharedTables_keyed : sharedTables.Keyed where
  scopes level := by cases level <;> decide
  placements := by decide

theorem sharedTables_resolves : sharedTables.Resolves where
  leases := by decide
  riders := by decide
  amendmentRiders := by decide
  amendmentLeases := by decide

/-- Declares an instruction at each of the three amendments. -/
def sharedWrites : List Write :=
  let declare (id : Uuid) (scope : String) : Write :=
    .create { today := ⟨5⟩ } ⟨id, ⟨0⟩⟩ (.text "amendment") (.text scope) (.object []) none
  [declare ⟨50⟩ "00000000-0000-0000-0000-00000000001e",
   declare ⟨51⟩ "00000000-0000-0000-0000-00000000001f",
   declare ⟨52⟩ "00000000-0000-0000-0000-000000000020"]

theorem customer_lists_follow_paths_shared :
    let s := (Database.run { leases := sharedTables } sharedWrites).instructions
    ∃ r ∈ s.rows, r.id = ⟨52⟩ ∧ r.LeadsTo (sharedTables.directory ⟨5⟩) ⟨2⟩ ∧
      r ∈ s.list sharedTables none none (some ⟨2⟩) ∧
      r ∉ s.list sharedTables none none (some ⟨1⟩) ∧
      ∃ x ∈ sharedTables.customers, r ∈ s.list sharedTables none none (some x.id) := by
  intro s
  let db := Database.run { leases := sharedTables } sharedWrites
  have hleases : db.leases = sharedTables :=
    (Database.run_sound { leases := sharedTables } (.empty _) sharedWrites).1
  have hreached : db.instructions.Reached :=
    Database.run_reached { leases := sharedTables } .empty sharedWrites
  have hresolves : db.Resolves := Database.run_resolves sharedTables_resolves sharedWrites
  have hlists := customer_lists_follow_paths db hreached (hleases ▸ sharedTables_keyed) hresolves ⟨5⟩
  rw [hleases] at hlists
  obtain ⟨hlisted, _, hdisjoint, htogether⟩ := hlists
  have hrow : ∃ r ∈ s.rows, r.id = ⟨52⟩ ∧ r.isCurrent ∧ sharedTables.crossing r = false ∧
      sharedTables.loose r = false ∧ r.level = .amendment ∧
        r.scopes = .only .amendment ⟨32⟩ := by decide +kernel
  obtain ⟨r, hr, hid, hcurrent, hstraight, htied, hlevel, hscopes⟩ := hrow
  have hall : r ∈ s.list sharedTables none none none :=
    Store.mem_list.mpr ⟨hr, hcurrent⟩
  have hleads : r.LeadsTo (sharedTables.directory ⟨5⟩) ⟨2⟩ := by
    rw [InstructionRow.LeadsTo, hlevel, hscopes]
    exact ⟨⟨32⟩, rfl, _, rfl, rfl⟩
  have hown : r ∈ s.list sharedTables none none (some ⟨2⟩) := hlisted r hall ⟨2⟩ hleads
  exact ⟨r, hr, hid, hleads, hown, hdisjoint ⟨2⟩ ⟨1⟩ (by decide) r hown hstraight,
    (htogether r).mpr ⟨hall, htied⟩⟩

/-- An instruction at an amendment with two customers is listed for a customer that its path does not
lead to, and one at an amendment that hangs off nothing is listed for no customer. -/
theorem customer_lists_cross_and_miss :
    let s := (Database.run { leases := sharedTables } sharedWrites).instructions
    sharedTables.Keyed ∧ sharedTables.Resolves ∧
    (∃ r ∈ s.list sharedTables none none (some ⟨2⟩), r.scopes = .only .amendment ⟨30⟩ ∧
      ∃ path, (sharedTables.directory ⟨5⟩).pathForScope .amendment ⟨30⟩ = .ok path ∧
        path.customer.id = some ⟨1⟩) ∧
    ∃ r ∈ s.list sharedTables none none none,
      ∀ x ∈ sharedTables.customers, r ∉ s.list sharedTables none none (some x.id) := by
  intro s
  have hcrossing : ∃ r ∈ s.rows, r.isCurrent ∧ Store.inSubtree sharedTables ⟨2⟩ r ∧
      r.scopes = .only .amendment ⟨30⟩ := by decide +kernel
  have hloose : ∃ r ∈ s.rows, r.isCurrent ∧
      ∀ x ∈ sharedTables.customers, Store.inSubtree sharedTables x.id r = false := by decide +kernel
  refine ⟨sharedTables_keyed, sharedTables_resolves, ?_, ?_⟩
  · obtain ⟨r, hr, hcurrent, hin, hscopes⟩ := hcrossing
    exact ⟨r, Store.mem_list_customer.mpr ⟨hr, hcurrent, hin⟩, hscopes, _, rfl, rfl⟩
  · obtain ⟨r, hr, hcurrent, hout⟩ := hloose
    refine ⟨r, Store.mem_list.mpr ⟨hr, hcurrent⟩, ?_⟩
    intro x hx hlisted
    obtain ⟨_, _, hin⟩ := Store.mem_list_customer.mp hlisted
    rw [hout x hx] at hin
    cases hin

end CarCare

import CarCare.Proofs.Hierarchy.Subtree

/-!
The questions that the directory asks the leasing tables, as joins of the tables: four that list the
scopes of a level, and four that look for one scope. A join pairs rows, so it could show a row more
than once, or lose one whose reference dangles.

What is proved:
  1. `innerJoin_eq` and `outerJoin_eq`: over a table whose ids are distinct, a join looks up the row
     that is referred to. An inner join leaves out a row without such a one, an outer join keeps it.
  2. `LeaseTables.Keyed.joinedScopes_eq` and `LeaseTables.Keyed.joinedScope?_eq`: hence the joins
     give the scopes that the directory lists and finds.
  3. `batch_and_single_lookups_agree`: what is listed for all is what is found one by one, and what is
     listed for a customer is a part of it that has all scopes of the customer.
-/
namespace CarCare

/-! ## Joins -/

section
variable {α β : Type} (ref : α → Option Uuid) (id : β → Uuid) (table : List β)

/-- The rows of a table that a row refers to. An empty reference refers to none. -/
def referredRows (a : α) : List β := table.filter fun b => ref a == some (id b)

/-- Each row beside each row that it refers to. -/
def innerJoin (rows : List α) : List (α × β) :=
  rows.flatMap fun a => (referredRows ref id table a).map (a, ·)

/-- The same, but a row that refers to none stays, with nothing beside it. -/
def outerJoin (rows : List α) : List (α × Option β) :=
  rows.flatMap fun a =>
    match referredRows ref id table a with
    | [] => [(a, none)]
    | found => found.map fun b => (a, some b)

/-- The row of a table that a row refers to. -/
def referred? (a : α) : Option β := (ref a).bind fun k => table.find? (id · == k)

variable {ref id table}

theorem referredRows_eq (ids : (table.map id).Nodup) (a : α) :
    referredRows ref id table a = (referred? ref id table a).toList := by
  have hsingle : ∀ b ∈ table, ∀ c ∈ table, ref a == some (id b) → ref a == some (id c) → b = c := by
    intro b hb c hc hab hac
    rw [beq_iff_eq] at hab hac
    exact List.inj_on_of_nodup_map ids hb hc (Option.some.inj (hab.symm.trans hac))
  rw [referredRows, filter_eq_toList_find? (List.Nodup.of_map _ ids) hsingle, referred?]
  cases href : ref a with
  | none => simp
  | some k =>
    rw [Option.bind_some]
    congr 2
    funext b
    rw [Bool.eq_iff_iff, beq_iff_eq, beq_iff_eq, Option.some.injEq, eq_comm]

theorem innerJoin_eq (ids : (table.map id).Nodup) (rows : List α) :
    innerJoin ref id table rows =
      rows.filterMap fun a => (referred? ref id table a).map (a, ·) := by
  rw [innerJoin, List.filterMap_eq_flatMap_toList]
  congr 1
  funext a
  rw [referredRows_eq ids]
  cases referred? ref id table a <;> rfl

theorem outerJoin_eq (ids : (table.map id).Nodup) (rows : List α) :
    outerJoin ref id table rows = rows.map fun a => (a, referred? ref id table a) := by
  rw [outerJoin, List.map_eq_flatMap]
  congr 1
  funext a
  rw [referredRows_eq ids]
  cases referred? ref id table a <;> rfl

end

/-! ## The questions -/

/-- An amendment beside the lease of its rider and its own lease, as far as there are any. -/
structure LeasedAmendment where
  amendment : Amendment
  riderLease : Option Lease
  ownLease : Option Lease

namespace LeasedAmendment

/-- The first customer that there is: that of the rider's lease, else that of its own lease. -/
def customer? (a : LeasedAmendment) : Option Uuid :=
  (a.riderLease.map (·.customerId)).or (a.ownLease.map (·.customerId))

/-- Whether one of the two leases is a customer's. -/
def isFor (a : LeasedAmendment) (customer : Uuid) : Bool :=
  a.riderLease.any (·.customerId == customer) || a.ownLease.any (·.customerId == customer)

def toScope (a : LeasedAmendment) (today : Date) : Scope := a.amendment.toScope a.customer? today

end LeasedAmendment

def leasedRiderScope (row : Rider × Lease) : Scope := row.1.toScope row.2.customerId

namespace LeaseTables

def leasedRiders (t : LeaseTables) : List (Rider × Lease) :=
  innerJoin (fun r : Rider => some r.leaseId) (·.id) t.leases t.riders

/-- Amendments beside their riders, then the leases of these, then the leases of their own. -/
def leasedAmendments (t : LeaseTables) : List LeasedAmendment :=
  let withRider := outerJoin (fun a : Amendment => a.riderId) (·.id) t.riders t.amendments
  let withRiderLease := outerJoin (fun row => row.2.map Rider.leaseId) (·.id) t.leases withRider
  let withLeases := outerJoin (fun row => row.1.1.leaseId) (·.id) t.leases withRiderLease
  withLeases.map fun row => ⟨row.1.1.1, row.1.2, row.2⟩

/-- The answers to the questions that list the scopes of each level, of all customers or of one. -/
def joinedScopes (t : LeaseTables) (today : Date) (customer : Option Uuid) : List Scope :=
  (t.customers.filter fun c => customer.all (c.id == ·)).map Customer.toScope
  ++ (t.leases.filter fun l => customer.all (l.customerId == ·)).map Lease.toScope
  ++ (t.leasedRiders.filter fun row => customer.all (row.2.customerId == ·)).map leasedRiderScope
  ++ (t.leasedAmendments.filter fun a => customer.all a.isFor).map (·.toScope today)

/-- The first answer to the question that looks for one scope. -/
def joinedScope? (t : LeaseTables) (today : Date) (level : Level) (id : Uuid) : Option Scope :=
  match level with
  | .customer => (t.customers.find? (·.id == id)).map Customer.toScope
  | .masterLease => (t.leases.find? (·.id == id)).map Lease.toScope
  | .rider => (t.leasedRiders.find? (·.1.id == id)).map leasedRiderScope
  | .amendment => (t.leasedAmendments.find? (·.amendment.id == id)).map (·.toScope today)

variable {t : LeaseTables} {today : Date} {customer : Option Uuid}

/-! ## Joins and look-ups -/

theorem Keyed.leasedRiders_eq (keyed : t.Keyed) :
    t.leasedRiders = t.riders.filterMap fun r => (t.lease? r.leaseId).map (r, ·) :=
  innerJoin_eq (keyed.scopes .masterLease) t.riders

/-- Each amendment has one answer, whatever it refers to and whether or not this is there. -/
theorem Keyed.leasedAmendments_eq (keyed : t.Keyed) :
    t.leasedAmendments = t.amendments.map fun a => ⟨a, t.riderLease? a, t.ownLease? a⟩ := by
  have hriders := keyed.scopes .rider
  have hleases := keyed.scopes .masterLease
  rw [leasedAmendments, outerJoin_eq hriders, outerJoin_eq hleases, outerJoin_eq hleases]
  simp only [List.map_map]
  apply List.map_congr_left
  intro a _
  -- Two outer joins in a row look up the rider, and from there its lease.
  have hrider : ((referred? (fun a : Amendment => a.riderId) Rider.id t.riders a).map
      Rider.leaseId).bind t.lease? = t.riderLease? a := by
    rw [Option.bind_map]
    exact Option.bind_assoc ..
  exact congrArg (LeasedAmendment.mk a · (t.ownLease? a)) hrider

theorem Keyed.joinedScopes_eq (keyed : t.Keyed) :
    t.joinedScopes today customer = t.scopes today customer := by
  have hwanted : ∀ id : Uuid, customer.all (id == ·) = wanted customer id := by
    intro id
    cases customer <;> rfl
  have hriders : (t.leasedRiders.filter fun row => customer.all (row.2.customerId == ·)).map
      leasedRiderScope = t.riders.filterMap fun r => (t.lease? r.leaseId).bind fun lease =>
        if wanted customer lease.customerId then some (r.toScope lease.customerId) else none := by
    rw [keyed.leasedRiders_eq, List.filter_filterMap, List.map_filterMap]
    apply List.filterMap_congr
    intro r _
    cases t.lease? r.leaseId with
    | none => rfl
    | some lease =>
      simp only [Option.map_some, Option.filter_some, hwanted, Option.bind_some]
      split <;> rfl
  have hamendments : (t.leasedAmendments.filter fun a => customer.all a.isFor).map (·.toScope today)
      = (t.amendments.filter (t.wantsAmendment customer)).map (t.amendmentScope today) := by
    rw [keyed.leasedAmendments_eq, List.filter_map, List.map_map]
    congr 2
    funext a
    cases customer <;> rfl
  rw [joinedScopes, LeaseTables.scopes, hriders, hamendments]
  simp only [hwanted]
  rfl

theorem Keyed.joinedScope?_eq (keyed : t.Keyed) (level : Level) (id : Uuid) :
    t.joinedScope? today level id = t.scope? today level id := by
  cases level with
  | customer | masterLease => rfl
  | rider =>
    have hsame : ∀ (r : Rider) (row : Rider × Lease),
        (t.lease? r.leaseId).map (r, ·) = some row → row.1.id = r.id := by
      intro r row hrow
      obtain ⟨lease, _, rfl⟩ := Option.map_eq_some_iff.mp hrow
      rfl
    have hids : (t.riders.map Rider.id).Nodup := keyed.scopes .rider
    rw [joinedScope?, keyed.leasedRiders_eq, find?_filterMap_key hsame hids, Option.map_bind]
    congr 1
    funext r
    exact Option.map_map ..
  | amendment =>
    rw [joinedScope?, keyed.leasedAmendments_eq, List.find?_map, Option.map_map]
    rfl

/-! ## Listings of a customer -/

theorem Keyed.scopes_sublist (keyed : t.Keyed) :
    (t.scopes today customer).Sublist (t.scopes today none) := by
  have htable : ∀ {α : Type} (rows : List α) (isFor : α → Uuid → Bool) (toScope : α → Scope),
      ((rows.filter fun a => customer.all (isFor a)).map toScope).Sublist
        ((rows.filter fun a => (none : Option Uuid).all (isFor a)).map toScope) := by
    intro α rows isFor toScope
    have hall : (rows.filter fun a => (none : Option Uuid).all (isFor a)) = rows :=
      List.filter_eq_self.mpr fun _ _ => rfl
    rw [hall]
    exact List.filter_sublist.map toScope
  rw [← keyed.joinedScopes_eq, ← keyed.joinedScopes_eq]
  exact (((htable ..).append (htable ..)).append (htable ..)).append (htable ..)

end LeaseTables

/-- The eight questions see the same rows: what is listed for all is what is found one by one, and
what is listed for a customer is a part of it that has all scopes of the customer. -/
theorem batch_and_single_lookups_agree {t : LeaseTables} (keyed : t.Keyed) (today : Date) :
    let d := t.directory today
    (∀ customer, d.scopes customer = t.joinedScopes today customer)
      ∧ (∀ level id, d.scope? level id = t.joinedScope? today level id)
      ∧ ((d.scopes none).map Scope.key).Nodup
      ∧ (∀ level id s, d.scope? level id = some s ↔ s ∈ d.scopes none ∧ s.key = (level, id))
      ∧ ∀ c, (d.scopes (some c)).Sublist (d.scopes none)
        ∧ ∀ s ∈ d.scopes none, s.customerId = some c → s ∈ d.scopes (some c) := by
  intro d
  refine ⟨?_, ?_, keyed.scopes_nodup today none, ?_, ?_⟩
  · intro customer
    exact keyed.joinedScopes_eq.symm
  · intro level id
    exact (keyed.joinedScope?_eq level id).symm
  · intro level id s
    constructor
    · intro hfound
      exact ⟨LeaseTables.mem_scopes_of_found hfound, (t.graded today).key hfound⟩
    · rintro ⟨hlisted, hkey⟩
      cases hkey
      exact keyed.mem_scopes_iff.mp hlisted
  · intro c
    refine ⟨keyed.scopes_sublist, ?_⟩
    intro s hs howner
    -- All copies of one scope show the same customer, so the listing for it misses none of them.
    have hsame : (t.scopes today (some c)).filter (· == s)
        = (t.scopes today none).filter (· == s) := by
      apply LeaseTables.filter_scopes
      intro x _ hx
      rw [beq_iff_eq.mp hx, howner]
    have hmem : s ∈ (t.scopes today none).filter (· == s) :=
      List.mem_filter.mpr ⟨hs, beq_self_eq_true s⟩
    exact (List.mem_filter.mp (hsame ▸ hmem)).1

/-- An amendment is listed for two customers, of which it shows one; a rider without its lease is
neither listed nor found. -/
theorem batch_and_single_lookups_agree_crossed :
    let d := crossedTables.directory ⟨5⟩
    crossedTables.Keyed
      ∧ (∀ customer, d.scopes customer = crossedTables.joinedScopes ⟨5⟩ customer)
      ∧ (d.scopes none).map Scope.key
        = [(.customer, ⟨1⟩), (.customer, ⟨2⟩), (.masterLease, ⟨10⟩), (.masterLease, ⟨11⟩),
          (.masterLease, ⟨12⟩), (.rider, ⟨20⟩), (.amendment, ⟨30⟩), (.amendment, ⟨31⟩),
          (.amendment, ⟨32⟩)]
      ∧ (d.scope? .amendment ⟨30⟩).bind Scope.customerId = some ⟨1⟩
      ∧ (.amendment, ⟨30⟩) ∈ (d.scopes (some ⟨2⟩)).map Scope.key
      ∧ d.scope? .rider ⟨21⟩ = none :=
  ⟨crossedTables_keyed, (batch_and_single_lookups_agree crossedTables_keyed ⟨5⟩).1, by decide,
    by decide, by decide, by decide⟩

end CarCare

import CarCare.Proofs.Hierarchy.Placement

/-!
The placement and the amendment that the path of a car is read off, out of all that there are.

What is proved:
  1. `leastBy_le`: in a total order that is transitive, what `leastBy` finds goes before everything.
  2. `LeaseTables.Keyed.mem_candidates`: a placement counts if it is active and its rider, its lease
     and its customer are in their tables. One that comes first but leads nowhere is passed over.
  3. `LeaseTables.amendmentInForce?_eq_some` and `LeaseTables.amendmentInForce?_eq_none`: the
     amendment of a rider on a day is the latest one that has begun, and of one day the one with the
     smallest id.
  4. `car_path_selection`: what the path of a car is, and when there is one.
-/
namespace CarCare

/-! ## Least elements -/

section
variable {α : Type} {le : α → α → Bool} {l : List α} {a : α}

theorem leastBy_eq_none : leastBy le l = none ↔ l = [] := by
  cases l with
  | nil => simp [leastBy]
  | cons b rest =>
    rw [leastBy]
    cases leastBy le rest <;> simp

theorem leastBy_le (le_trans : ∀ a b c, le a b → le b c → le a c)
    (le_total : ∀ a b, le a b || le b a) (h : leastBy le l = some a) : ∀ b ∈ l, le a b := by
  have le_refl : ∀ a, le a a := fun a => by simpa using le_total a a
  induction l generalizing a with
  | nil => cases h
  | cons c rest ih =>
    rw [leastBy] at h
    cases hrest : leastBy le rest with
    | none =>
      rw [hrest] at h
      obtain rfl := Option.some.inj h
      intro b hb
      rw [leastBy_eq_none.mp hrest, List.mem_singleton] at hb
      rw [hb]
      exact le_refl c
    | some d =>
      rw [hrest] at h
      obtain rfl := Option.some.inj h
      have hd := ih hrest
      intro b hb
      rcases List.mem_cons.mp hb with rfl | hb
      · by_cases hfirst : le b d
        · rw [if_pos hfirst]
          exact le_refl b
        · rw [if_neg hfirst]
          exact (Bool.or_eq_true_iff.mp (le_total b d)).resolve_left hfirst
      · by_cases hfirst : le c d
        · rw [if_pos hfirst]
          exact le_trans c d b hfirst (hd b hb)
        · rw [if_neg hfirst]
          exact hd b hb

end

namespace LeaseTables

/-- An active placement of a car with its rider, lease and customer, each a row of its table. -/
structure Placed.Complete (t : LeaseTables) (car : String) (p : Placed) : Prop where
  placement : p.placement ∈ t.placements ∧ p.placement.car = car ∧ p.placement.isActive
  rider : p.rider ∈ t.riders ∧ p.rider.id = p.placement.riderId
  lease : p.lease ∈ t.leases ∧ p.lease.id = p.rider.leaseId
  customer : p.customer ∈ t.customers ∧ p.customer.id = p.lease.customerId

variable {t : LeaseTables} {car : String} {p : Placed} {a : Amendment} {rider : Uuid} {day : Date}

/-! ## Placements -/

theorem Keyed.placed?_eq_some (keyed : t.Keyed) {row : Placement} :
    t.placed? row = some p ↔ p.placement = row ∧
      (p.rider ∈ t.riders ∧ p.rider.id = row.riderId) ∧
      (p.lease ∈ t.leases ∧ p.lease.id = p.rider.leaseId) ∧
      (p.customer ∈ t.customers ∧ p.customer.id = p.lease.customerId) := by
  have hrider : ∀ {id r}, t.rider? id = some r ↔ r ∈ t.riders ∧ r.id = id :=
    find?_key_eq_some (keyed.scopes .rider)
  have hlease : ∀ {id l}, t.lease? id = some l ↔ l ∈ t.leases ∧ l.id = id :=
    find?_key_eq_some (keyed.scopes .masterLease)
  have hcustomer : ∀ {id c}, t.customer? id = some c ↔ c ∈ t.customers ∧ c.id = id :=
    find?_key_eq_some (keyed.scopes .customer)
  constructor
  · intro h
    obtain ⟨r, hr, h⟩ := Option.bind_eq_some_iff.mp h
    obtain ⟨l, hl, h⟩ := Option.bind_eq_some_iff.mp h
    obtain ⟨c, hc, h⟩ := Option.bind_eq_some_iff.mp h
    obtain rfl := Option.some.inj h
    exact ⟨rfl, hrider.mp hr, hlease.mp hl, hcustomer.mp hc⟩
  · rintro ⟨rfl, hr, hl, hc⟩
    simp only [placed?, hrider.mpr hr, hlease.mpr hl, hcustomer.mpr hc, Option.bind_some,
      Option.bind_eq_bind]

theorem Keyed.mem_candidates (keyed : t.Keyed) :
    p ∈ (t.placements.filter fun p => p.car == car && p.isActive).filterMap t.placed? ↔
      p.Complete t car := by
  rw [List.mem_filterMap]
  constructor
  · rintro ⟨row, hrow, hplaced⟩
    obtain ⟨rfl, hrider, hlease, hcustomer⟩ := keyed.placed?_eq_some.mp hplaced
    have hrow : p.placement ∈ t.placements ∧ p.placement.car = car ∧ p.placement.isActive := by
      simpa using hrow
    exact ⟨hrow, hrider, hlease, hcustomer⟩
  · intro h
    exact ⟨p.placement, by simpa using h.placement,
      keyed.placed?_eq_some.mpr ⟨rfl, h.rider, h.lease, h.customer⟩⟩

theorem Keyed.activePlacement?_eq_none (keyed : t.Keyed) :
    t.activePlacement? car = none ↔ ∀ p : Placed, ¬ p.Complete t car := by
  rw [activePlacement?, leastBy_eq_none, List.eq_nil_iff_forall_not_mem]
  exact forall_congr' fun p => not_congr keyed.mem_candidates

theorem Keyed.activePlacement?_least (keyed : t.Keyed) (h : t.activePlacement? car = some p) :
    p.Complete t car ∧ ∀ q : Placed, q.Complete t car → p.placement.id ≤ q.placement.id := by
  refine ⟨keyed.mem_candidates.mp (leastBy_mem h), fun q hq => ?_⟩
  have hle := leastBy_le (fun a b c hab hbc => ?_) (fun a b => ?_) h q (keyed.mem_candidates.mpr hq)
  · exact of_decide_eq_true hle
  · exact decide_eq_true (Nat.le_trans (of_decide_eq_true hab) (of_decide_eq_true hbc))
  · rw [Bool.or_eq_true, decide_eq_true_iff, decide_eq_true_iff]
    exact Nat.le_total _ _

/-! ## Amendments -/

/-- An amendment of a rider that has begun on a day. -/
structure Begun (t : LeaseTables) (rider : Uuid) (day : Date) (a : Amendment) : Prop where
  listed : a ∈ t.amendments
  rider : a.riderId = some rider
  begun : a.effective ≤ day

theorem supersedes_iff {a b : Amendment} : supersedes a b ↔
    b.effective.ordinal < a.effective.ordinal ∨ a.effective = b.effective ∧ a.id ≤ b.id := by
  simp [supersedes]

theorem supersedes_trans (a b c : Amendment) (hab : supersedes a b) (hbc : supersedes b c) :
    supersedes a c := by
  rw [supersedes_iff] at *
  rcases hab with hab | ⟨hab, hids⟩ <;> rcases hbc with hbc | ⟨hbc, hids'⟩
  · exact .inl (Nat.lt_trans hbc hab)
  · exact .inl (hbc ▸ hab)
  · exact .inl (hab ▸ hbc)
  · exact .inr ⟨hab.trans hbc, Nat.le_trans hids hids'⟩

theorem supersedes_total (a b : Amendment) : supersedes a b || supersedes b a := by
  rw [Bool.or_eq_true, supersedes_iff, supersedes_iff]
  rcases Nat.lt_trichotomy a.effective.ordinal b.effective.ordinal with hday | hday | hday
  · exact .inr (.inl hday)
  · have hday : a.effective = b.effective := congrArg Date.mk hday
    rcases Nat.le_total a.id.bits.toNat b.id.bits.toNat with hid | hid
    · exact .inl (.inr ⟨hday, hid⟩)
    · exact .inr (.inr ⟨hday.symm, hid⟩)
  · exact .inl (.inl hday)

theorem mem_begun : (a ∈ t.amendments.filter fun a =>
    a.riderId == some rider && decide (a.effective ≤ day)) ↔ t.Begun rider day a := by
  rw [List.mem_filter, Bool.and_eq_true, beq_iff_eq, decide_eq_true_iff]
  exact ⟨fun ⟨listed, rider, begun⟩ => ⟨listed, rider, begun⟩,
    fun h => ⟨h.listed, h.rider, h.begun⟩⟩

theorem amendmentInForce?_eq_some (h : t.amendmentInForce? rider day = some a) :
    t.Begun rider day a ∧ ∀ b, t.Begun rider day b →
      b.effective ≤ a.effective ∧ (b.effective = a.effective → a.id ≤ b.id) := by
  refine ⟨mem_begun.mp (leastBy_mem h), fun b hb => ?_⟩
  have hfirst := leastBy_le supersedes_trans supersedes_total h b (mem_begun.mpr hb)
  rcases supersedes_iff.mp hfirst with hday | ⟨hday, hid⟩
  · exact ⟨Nat.le_of_lt hday, fun heq => absurd (heq ▸ hday) (Nat.lt_irrefl _)⟩
  · exact ⟨Nat.le_of_eq (congrArg Date.ordinal hday.symm), fun _ => hid⟩

theorem amendmentInForce?_eq_none (h : t.amendmentInForce? rider day = none) :
    ∀ b, ¬ t.Begun rider day b := by
  intro b hb
  have hmem := mem_begun.mpr hb
  rw [leastBy_eq_none.mp h] at hmem
  cases hmem

/-- An amendment that is in force no later than today is a scope that is active. -/
theorem Keyed.amendment_active (keyed : t.Keyed) {today : Date} (begun : t.Begun rider day a)
    (hday : day ≤ today) :
    ∃ s, (t.directory today).scope? .amendment a.id = some s ∧ s.isActive := by
  refine ⟨t.amendmentScope today a, ?_, ?_⟩
  · show (t.amendment? a.id).map _ = _
    rw [amendment?, (find?_key_eq_some (keyed.scopes .amendment)).mpr ⟨begun.listed, rfl⟩]
    rfl
  · exact decide_eq_true (Nat.le_trans begun.begun hday)

end LeaseTables

/-! ## Paths of cars -/

/-- A car has a path if and only if it has an active placement that leads up to a customer. The path
names the rows of the one with the smallest row id. Its amendment is one of that rider, so none that
hangs off the lease alone; it has begun on the day that is asked about, none of the rider has begun
later, and of those that began on one day it has the smallest id. There is none in the path only if
none has begun. If that day is not after today, the amendment is a scope that is active. -/
theorem car_path_selection (t : LeaseTables) (keyed : t.Keyed) (today : Date) (car : String)
    (asOf : Option Date) :
    let d := t.directory today
    let day := asOf.getD today
    ((∃ path, d.carPath? car asOf = some path) ↔ ∃ p : LeaseTables.Placed, p.Complete t car) ∧
    ∀ path, d.carPath? car asOf = some path →
      ∃ p : LeaseTables.Placed, p.Complete t car ∧
        (∀ q : LeaseTables.Placed, q.Complete t car → p.placement.id ≤ q.placement.id) ∧
        path.customer = ⟨some p.customer.id, some p.customer.name⟩ ∧
        path.lease = ⟨some p.lease.id, some (shownName p.lease.name p.lease.code)⟩ ∧
        path.rider = ⟨some p.rider.id, some (shownName p.rider.name p.rider.code)⟩ ∧
        (path.amendment = ⟨none, none⟩ ∧ (∀ b, ¬ t.Begun p.rider.id day b) ∨
          ∃ a, path.amendment = ⟨some a.id, some (shownName a.summary a.code)⟩ ∧
            t.Begun p.rider.id day a ∧
            (∀ b, t.Begun p.rider.id day b →
              b.effective ≤ a.effective ∧ (b.effective = a.effective → a.id ≤ b.id)) ∧
            (day ≤ today → ∃ s, d.scope? .amendment a.id = some s ∧ s.isActive)) := by
  intro d day
  have hpath : d.carPath? car asOf = t.carPath? car day := rfl
  constructor
  · rw [hpath, LeaseTables.carPath?]
    constructor
    · rintro ⟨path, h⟩
      obtain ⟨p, hp, -⟩ := Option.map_eq_some_iff.mp h
      exact ⟨p, (keyed.activePlacement?_least hp).1⟩
    · rintro ⟨p, hp⟩
      cases hplaced : t.activePlacement? car with
      | none => exact absurd hp (keyed.activePlacement?_eq_none.mp hplaced p)
      | some q => exact ⟨_, rfl⟩
  · intro path h
    obtain ⟨p, hp, rfl⟩ := Option.map_eq_some_iff.mp (hpath ▸ h)
    obtain ⟨complete, least⟩ := keyed.activePlacement?_least hp
    refine ⟨p, complete, least, rfl, rfl, rfl, ?_⟩
    cases hforce : t.amendmentInForce? p.rider.id day with
    | none => exact .inl ⟨rfl, LeaseTables.amendmentInForce?_eq_none hforce⟩
    | some a =>
      obtain ⟨begun, latest⟩ := LeaseTables.amendmentInForce?_eq_some hforce
      exact .inr ⟨a, rfl, begun, latest, keyed.amendment_active begun⟩

/-- Tables with a car that has many placements: one that is over, two that lead nowhere, and two
that are complete. The rider has amendments of one day, an earlier and a later one. -/
def crowdedTables : LeaseTables where
  customers := [⟨⟨1⟩, "ACME", "Acme", true⟩]
  leases := [⟨⟨10⟩, ⟨1⟩, "L10", none, "Active"⟩, ⟨⟨11⟩, ⟨9⟩, "L11", none, "Active"⟩]
  riders := [⟨⟨20⟩, ⟨10⟩, "R20", none, "Expired"⟩, ⟨⟨21⟩, ⟨11⟩, "R21", none, "Active"⟩,
    ⟨⟨22⟩, ⟨10⟩, "R22", none, "Active"⟩]
  amendments := [⟨⟨34⟩, some ⟨20⟩, none, "A34", none, ⟨5⟩⟩,
    ⟨⟨31⟩, some ⟨20⟩, none, "A31", none, ⟨3⟩⟩,
    ⟨⟨33⟩, some ⟨20⟩, some ⟨11⟩, "A33", some "Wash", ⟨5⟩⟩,
    ⟨⟨30⟩, none, some ⟨10⟩, "A30", none, ⟨6⟩⟩, ⟨⟨32⟩, some ⟨20⟩, none, "A32", none, ⟨7⟩⟩]
  placements := [⟨⟨45⟩, ⟨22⟩, "TILX 7", true⟩, ⟨⟨40⟩, ⟨21⟩, "TILX 7", true⟩,
    ⟨⟨41⟩, ⟨22⟩, "TILX 7", false⟩, ⟨⟨43⟩, ⟨20⟩, "TILX 7", true⟩, ⟨⟨42⟩, ⟨9⟩, "TILX 7", true⟩,
    ⟨⟨44⟩, ⟨21⟩, "TILX 8", true⟩]

theorem crowdedTables_keyed : crowdedTables.Keyed where
  scopes level := by cases level <;> decide
  placements := by decide

/-- The placement with the smallest row id leads nowhere, and the one that is listed first is not
the smallest complete one. The amendment is neither the one listed first, nor that of the lease, nor
the one that begins the day after. The car with a placement that leads nowhere has no path. -/
theorem car_path_selection_crowded :
    let d := crowdedTables.directory ⟨7⟩
    let path : Path :=
      { customer := ⟨some ⟨1⟩, some "Acme"⟩, lease := ⟨some ⟨10⟩, some "L10"⟩
        rider := ⟨some ⟨20⟩, some "R20"⟩, amendment := ⟨some ⟨33⟩, some "Wash"⟩ }
    crowdedTables.Keyed ∧ d.carPath? "TILX 7" (some ⟨6⟩) = some path ∧
      (∃ p : LeaseTables.Placed, p.Complete crowdedTables "TILX 7" ∧ p.rider.id = ⟨20⟩) ∧
      (∃ a, a.id = ⟨33⟩ ∧ crowdedTables.Begun ⟨20⟩ ⟨6⟩ a ∧
        ∀ b, crowdedTables.Begun ⟨20⟩ ⟨6⟩ b →
          b.effective ≤ a.effective ∧ (b.effective = a.effective → ⟨33⟩ ≤ b.id)) ∧
      (∃ s, d.scope? .amendment ⟨33⟩ = some s ∧ s.isActive) ∧
      ∀ p : LeaseTables.Placed, ¬ p.Complete crowdedTables "TILX 8" := by
  intro d path
  have keyed := crowdedTables_keyed
  have hpath : d.carPath? "TILX 7" (some ⟨6⟩) = some path := by decide +kernel
  have hlost : d.carPath? "TILX 8" (some ⟨6⟩) = none := by decide +kernel
  have hselected := car_path_selection crowdedTables keyed ⟨7⟩ "TILX 7" (some ⟨6⟩)
  obtain ⟨p, complete, -, -, -, hrider, hamendment⟩ := hselected.2 path hpath
  have hrider : p.rider.id = ⟨20⟩ := (Option.some.inj (Step.mk.inj hrider).1).symm
  rcases hamendment with ⟨hmissing, -⟩ | ⟨a, ha, begun, latest, active⟩
  · cases hmissing
  have ha : a.id = ⟨33⟩ := (Option.some.inj (Step.mk.inj ha).1).symm
  rw [hrider] at begun latest
  rw [ha] at latest active
  refine ⟨keyed, hpath, ⟨p, complete, hrider⟩, ⟨a, ha, begun, latest⟩, active (by decide), ?_⟩
  intro q hq
  obtain ⟨path', hfound⟩ :=
    (car_path_selection crowdedTables keyed ⟨7⟩ "TILX 8" (some ⟨6⟩)).1.mpr ⟨q, hq⟩
  exact nomatch hlost.symm.trans hfound

end CarCare

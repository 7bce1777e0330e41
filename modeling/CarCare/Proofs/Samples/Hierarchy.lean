import CarCare.Samples.Hierarchy
import CarCare.Proofs.Store.Outcomes
import CarCare.Proofs.Transaction.Segments

/-!
Loading the sample hierarchy: which rows are added, and when there is nothing left to add.

What is proved:
  1. `LeaseTables.insertAll_ok`: rows that are taken are added at the ends of their tables.
  2. `SampleCustomer.rows_under`: the rows of a sample customer are its own and such as lead to it
     by their references.
  3. `Samples.loadCustomers_ok`: loading adds the rows of customers whose codes were absent, and
     leaves no code absent.
  4. `Samples.loadCustomers_done`: where no code is absent, there is nothing to add.
-/
namespace CarCare

theorem Except.mem_of_mapM {ε α β : Type} {f : α → Except ε β} {l : List α} {made : List β}
    (h : l.mapM f = .ok made) : ∀ b ∈ made, ∃ a ∈ l, f a = .ok b := by
  induction l generalizing made with
  | nil =>
    obtain rfl := Except.ok.inj h
    exact nofun
  | cons a rest ih =>
    rw [List.mapM_cons] at h
    obtain ⟨b, hb, h⟩ := exists_of_bind h
    obtain ⟨later, hlater, h⟩ := exists_of_bind h
    obtain rfl := Except.ok.inj h
    intro c hc
    rcases List.mem_cons.mp hc with rfl | hc
    · exact ⟨a, List.mem_cons_self, hb⟩
    · obtain ⟨x, hx, hfx⟩ := ih hlater c hc
      exact ⟨x, List.mem_cons_of_mem a hx, hfx⟩

/-! ## Taking rows -/

namespace LeaseTables
variable {t t' : LeaseTables} {row : LeaseRow} {rows : List LeaseRow}

theorem insert_ok (h : t.insert row = .ok t') : t' = t.push row := by
  cases row with
  | customer c =>
    obtain ⟨_, h⟩ := eq_ok_of_guard h
    exact (Except.ok.inj (eq_ok_of_guard h).2).symm
  | lease _ | rider _ | amendment _ | placement _ =>
    exact (Except.ok.inj (eq_ok_of_guard h).2).symm

theorem insertAll_ok (h : t.insertAll rows = .ok t') : t' = t.pushAll rows := by
  induction rows generalizing t with
  | nil => exact (Except.ok.inj h).symm
  | cons row rest ih =>
    rw [insertAll, List.foldlM_cons] at h
    obtain ⟨t₁, h₁, h⟩ := Except.exists_of_bind h
    rw [insert_ok h₁] at h
    exact ih h

theorem mem_customers_pushAll {c : Customer} :
    c ∈ (t.pushAll rows).customers ↔ c ∈ t.customers ∨ .customer c ∈ rows := by
  induction rows generalizing t with
  | nil => simp [pushAll]
  | cons row rest ih =>
    rw [pushAll, List.foldl_cons, ← pushAll, ih]
    cases row <;> simp [push, or_assoc]

end LeaseTables

/-! ## Rows of a customer -/

/-- What belongs to a customer: its own row, and the rows that refer to such as belong to it. All
that is referred to is among some rows. -/
inductive LeaseRow.Under (rows : List LeaseRow) (customer : Uuid) : LeaseRow → Prop
  | customer (c : Customer) (own : c.id = customer) : Under rows customer (.customer c)
  | lease (l : Lease) (hangs : l.customerId = customer) : Under rows customer (.lease l)
  | rider (r : Rider) (l : Lease) (held : .lease l ∈ rows) (refers : r.leaseId = l.id)
      (above : Under rows customer (.lease l)) : Under rows customer (.rider r)
  | amendment (a : Amendment) (l : Lease) (held : .lease l ∈ rows) (refers : a.leaseId = some l.id)
      (above : Under rows customer (.lease l))
      (beside : ∀ id ∈ a.riderId, ∃ r, .rider r ∈ rows ∧ r.id = id ∧ r.leaseId = l.id) :
      Under rows customer (.amendment a)
  | placement (p : Placement) (r : Rider) (held : .rider r ∈ rows) (refers : p.riderId = r.id)
      (above : Under rows customer (.rider r)) : Under rows customer (.placement p)

/-- What belongs to a customer by some rows belongs to it by more of them. -/
theorem LeaseRow.Under.mono {rows more : List LeaseRow} {customer : Uuid} {row : LeaseRow}
    (h : row.Under rows customer) (sub : rows ⊆ more) : row.Under more customer := by
  induction h with
  | customer c own => exact .customer c own
  | lease l hangs => exact .lease l hangs
  | rider r l held refers _ ih => exact .rider r l (sub held) refers ih
  | amendment a l held refers _ beside ih =>
    refine .amendment a l (sub held) refers ih fun id hid => ?_
    obtain ⟨r, hr, hrider⟩ := beside id hid
    exact ⟨r, sub hr, hrider⟩
  | placement p r held refers _ ih => exact .placement p r (sub held) refers ih

/-- Where rows are gathered from one item after the other, each row is from one of the items, whose
rows are all gathered. -/
theorem mem_of_gathered {α : Type} (rows : IdSupply → α → Except Error (List LeaseRow))
    (gather : IdSupply → List α → Except Error (List LeaseRow))
    (nil : ∀ ids, gather ids [] = .ok [])
    (cons : ∀ ids a rest, gather ids (a :: rest) = do
      let own ← rows ids a
      pure (own ++ (← gather (ids.skip own.length) rest)))
    {ids : IdSupply} {items : List α} {made : List LeaseRow} (h : gather ids items = .ok made) :
    ∀ row ∈ made, ∃ a ids' own, rows ids' a = .ok own ∧ own ⊆ made ∧ row ∈ own := by
  induction items generalizing ids made with
  | nil =>
    obtain rfl := Except.ok.inj ((nil ids).symm.trans h)
    exact nofun
  | cons a rest ih =>
    obtain ⟨first, hfirst, h⟩ := Except.exists_of_bind ((cons ids a rest).symm.trans h)
    obtain ⟨later, hlater, h⟩ := Except.exists_of_bind h
    obtain rfl := Except.ok.inj h
    intro row hrow
    rcases List.mem_append.mp hrow with hrow | hrow
    · exact ⟨a, ids, first, hfirst, List.subset_append_left first later, hrow⟩
    · obtain ⟨b, ids', own, hown, hsub, hrow⟩ := ih hlater row hrow
      have hsub := List.Subset.trans hsub (List.subset_append_right first later)
      exact ⟨b, ids', own, hown, hsub, hrow⟩

section
variable {today : Date} {all made : List LeaseRow} {customer : Uuid}

section
variable {l : Lease} (held : .lease l ∈ all) (above : LeaseRow.Under all customer (.lease l))
include held above

theorem SampleAmendment.rows_under {ids : IdSupply} {amendments : List SampleAmendment}
    {rider : Option Uuid} (h : rows today l.id rider ids amendments = .ok made)
    (beside : ∀ id ∈ rider, ∃ r, .rider r ∈ all ∧ r.id = id ∧ r.leaseId = l.id) :
    ∀ row ∈ made, row.Under all customer := by
  intro row hrow
  obtain ⟨⟨a, n⟩, _, ha⟩ := Except.mem_of_mapM h row hrow
  simp only [SampleAmendment.row] at ha
  split at ha
  · rw [← Except.ok.inj ha]
    exact .amendment _ l held rfl above beside
  · cases ha

theorem SampleRider.rows_under {ids : IdSupply} {r : SampleRider}
    (h : r.rows today l.id ids = .ok made) (sub : made ⊆ all) :
    ∀ row ∈ made, row.Under all customer := by
  obtain ⟨amendments, hamendments, h⟩ := Except.exists_of_bind h
  obtain rfl := Except.ok.inj h
  let own : Rider := ⟨ids 0, l.id, r.code, r.name, activeStatus⟩
  have hown : .rider own ∈ all := sub (List.mem_append_left _ List.mem_cons_self)
  have hrider : LeaseRow.Under all customer (.rider own) := .rider own l held rfl above
  intro row hrow
  rcases List.mem_append.mp hrow with hrow | hrow
  · rcases List.mem_cons.mp hrow with rfl | hcar
    · exact hrider
    · obtain ⟨⟨car, n⟩, _, rfl⟩ := List.mem_map.mp hcar
      exact .placement _ own hown rfl hrider
  · refine SampleAmendment.rows_under held above hamendments (fun id hid => ?_) row hrow
    exact ⟨own, hown, Option.some.inj hid, rfl⟩

theorem SampleRider.allRows_under {ids : IdSupply} {riders : List SampleRider}
    (h : allRows today l.id ids riders = .ok made) (sub : made ⊆ all) :
    ∀ row ∈ made, row.Under all customer := by
  intro row hrow
  obtain ⟨r, ids', own, hown, hsub, hrow⟩ :=
    mem_of_gathered (fun ids r => r.rows today l.id ids) (allRows today l.id) (fun _ => rfl)
      (fun _ _ _ => rfl) h row hrow
  exact rows_under held above hown (List.Subset.trans hsub sub) row hrow

end

theorem SampleLease.rows_under {ids : IdSupply} {l : SampleLease}
    (h : l.rows today customer ids = .ok made) (sub : made ⊆ all) :
    ∀ row ∈ made, row.Under all customer := by
  obtain ⟨amendments, hamendments, h⟩ := Except.exists_of_bind h
  obtain ⟨riders, hriders, h⟩ := Except.exists_of_bind h
  obtain rfl := Except.ok.inj h
  let own : Lease := ⟨ids 0, customer, l.code, l.name, l.status⟩
  obtain ⟨hfront, hsubRiders⟩ := List.append_subset.mp sub
  have hown : .lease own ∈ all := hfront List.mem_cons_self
  have hlease : LeaseRow.Under all customer (.lease own) := .lease own rfl
  intro row hrow
  rcases List.mem_append.mp hrow with hrow | hrow
  · rcases List.mem_cons.mp hrow with rfl | hrow
    · exact hlease
    · exact SampleAmendment.rows_under hown hlease hamendments nofun row hrow
  · exact SampleRider.allRows_under hown hlease hriders hsubRiders row hrow

theorem SampleLease.allRows_under {ids : IdSupply} {leases : List SampleLease}
    (h : allRows today customer ids leases = .ok made) (sub : made ⊆ all) :
    ∀ row ∈ made, row.Under all customer := by
  intro row hrow
  obtain ⟨l, ids', own, hown, hsub, hrow⟩ :=
    mem_of_gathered (fun ids l => l.rows today customer ids) (allRows today customer)
      (fun _ => rfl) (fun _ _ _ => rfl) h row hrow
  exact rows_under hown (List.Subset.trans hsub sub) row hrow

end

/-- The rows of a sample customer are its own, and such as belong to it. -/
theorem SampleCustomer.rows_under {today : Date} {ids : IdSupply} {c : SampleCustomer}
    {made : List LeaseRow} (h : c.rows today ids = .ok made) :
    .customer ⟨ids 0, c.code, c.name, true⟩ ∈ made ∧ ∀ row ∈ made, row.Under made (ids 0) := by
  obtain ⟨leases, hleases, h⟩ := Except.exists_of_bind h
  obtain rfl := Except.ok.inj h
  refine ⟨List.mem_cons_self, fun row hrow => ?_⟩
  rcases List.mem_cons.mp hrow with rfl | hrow
  · exact .customer _ rfl
  · exact SampleLease.allRows_under hleases (List.subset_cons_self _ _) row hrow

/-! ## Loading -/

/-- Whether a row that is added belongs to a sample customer that was absent: its own row is added
as well, and no customer before had its code. -/
def LeaseRow.Owed (t : LeaseTables) (samples : List SampleCustomer) (added : List LeaseRow)
    (row : LeaseRow) : Prop :=
  ∃ c, .customer c ∈ added ∧ row.Under added c.id ∧ (∃ s ∈ samples, s.code = c.code)
    ∧ ∀ old ∈ t.customers, old.code ≠ c.code

/-- What is owed for some samples is owed for more of them, with more rows, and to tables with fewer
customers. -/
theorem LeaseRow.Owed.mono {t t' : LeaseTables} {samples more : List SampleCustomer}
    {added wider : List LeaseRow} {row : LeaseRow} (h : row.Owed t samples added)
    (samplesSub : samples ⊆ more) (sub : added ⊆ wider) (fewer : t'.customers ⊆ t.customers) :
    row.Owed t' more wider := by
  obtain ⟨c, hc, hunder, ⟨s, hs, hcode⟩, habsent⟩ := h
  exact ⟨c, sub hc, hunder.mono sub, ⟨s, samplesSub hs, hcode⟩,
    fun old hold => habsent old (fewer hold)⟩

namespace Samples
variable {today : Date} {ids : IdSupply} {samples : List SampleCustomer} {t t' : LeaseTables}
  {count : Nat}

/-- Loading goes on with the tables as they are if the first customer is there, and else with its
rows added. -/
theorem loadCustomers_cons_ok {s : SampleCustomer} {rest : List SampleCustomer}
    (h : loadCustomers today ids (s :: rest) t = .ok (count, t')) :
    ((∃ c ∈ t.customers, c.code = s.code) ∧ loadCustomers today ids rest t = .ok (count, t'))
      ∨ ((∀ c ∈ t.customers, c.code ≠ s.code) ∧ ∃ own later, s.rows today ids = .ok own
        ∧ loadCustomers today (ids.skip own.length) rest (t.pushAll own) = .ok (later, t')
        ∧ count = own.length + later) := by
  rw [loadCustomers] at h
  split at h
  · rename_i hpresent
    obtain ⟨c, hc, hcode⟩ := List.any_eq_true.mp hpresent
    exact .inl ⟨⟨c, hc, beq_iff_eq.mp hcode⟩, h⟩
  · rename_i habsent
    obtain ⟨own, hown, h⟩ := Except.exists_of_bind h
    dsimp only at h
    split at h
    · rename_i hinsert
      obtain rfl := LeaseTables.insertAll_ok hinsert
      obtain ⟨_, hpure, h⟩ := Except.exists_of_bind h
      obtain rfl := Except.ok.inj hpure
      obtain ⟨⟨later, _⟩, hlater, h⟩ := Except.exists_of_bind h
      obtain ⟨rfl, rfl⟩ := Prod.mk.inj (Except.ok.inj h)
      refine .inr ⟨fun c hc hcode => ?_, own, later, hown, hlater, rfl⟩
      exact habsent (List.any_eq_true.mpr ⟨c, hc, beq_iff_eq.mpr hcode⟩)
    · cases h

/-- Loading adds rows that belong to customers whose codes were absent, and leaves no code of a
sample customer absent. -/
theorem loadCustomers_ok (h : loadCustomers today ids samples t = .ok (count, t')) :
    ∃ added, t' = t.pushAll added ∧ added.length = count ∧ (∀ row ∈ added, row.Owed t samples added)
      ∧ ∀ s ∈ samples, ∃ c ∈ t'.customers, c.code = s.code := by
  -- What is owed for the later samples is owed for all, as their tables have more customers.
  induction samples generalizing ids t count with
  | nil =>
    obtain ⟨rfl, rfl⟩ := Prod.mk.inj (Except.ok.inj h)
    exact ⟨[], rfl, rfl, nofun, nofun⟩
  | cons s rest ih =>
    have hrest : rest ⊆ s :: rest := List.subset_cons_self s rest
    rcases loadCustomers_cons_ok h with ⟨⟨c, hc, hcode⟩, hlater⟩ |
      ⟨habsent, own, later, hown, hlater, rfl⟩
    · obtain ⟨added, rfl, hlength, howed, hloaded⟩ := ih hlater
      have hkept : c ∈ (t.pushAll added).customers :=
        LeaseTables.mem_customers_pushAll.mpr (.inl hc)
      refine ⟨added, rfl, hlength, fun row hrow => ?_,
        List.forall_mem_cons.mpr ⟨⟨c, hkept, hcode⟩, hloaded⟩⟩
      exact (howed row hrow).mono hrest (List.Subset.refl added) (List.Subset.refl t.customers)
    · obtain ⟨hself, hunder⟩ := SampleCustomer.rows_under hown
      obtain ⟨added, rfl, hlength, howed, hloaded⟩ := ih hlater
      rw [← t.pushAll_append] at hloaded ⊢
      have hkept : ∀ {row : LeaseRow}, row ∈ own → row ∈ own ++ added :=
        fun hrow => List.mem_append_left added hrow
      refine ⟨own ++ added, rfl, by rw [List.length_append, hlength], fun row hrow => ?_,
        List.forall_mem_cons.mpr ⟨?_, hloaded⟩⟩
      · rcases List.mem_append.mp hrow with hrow | hrow
        · exact ⟨_, hkept hself, (hunder row hrow).mono (List.subset_append_left own added),
            ⟨s, List.mem_cons_self, rfl⟩, habsent⟩
        · exact (howed row hrow).mono hrest (List.subset_append_right own added)
            fun c hc => LeaseTables.mem_customers_pushAll.mpr (.inl hc)
      · exact ⟨_, LeaseTables.mem_customers_pushAll.mpr (.inr (hkept hself)), rfl⟩

theorem loadCustomers_done (loaded : ∀ s ∈ samples, ∃ c ∈ t.customers, c.code = s.code) :
    loadCustomers today ids samples t = .ok (0, t) := by
  induction samples generalizing ids with
  | nil => rfl
  | cons s rest ih =>
    obtain ⟨⟨c, hc, hcode⟩, hrest⟩ := List.forall_mem_cons.mp loaded
    have hpresent : t.customers.any (·.code == s.code) :=
      List.any_eq_true.mpr ⟨c, hc, beq_iff_eq.mpr hcode⟩
    rw [loadCustomers, if_pos hpresent]
    exact ih hrest

end Samples

end CarCare

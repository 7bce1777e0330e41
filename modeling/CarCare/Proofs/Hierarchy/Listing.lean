import CarCare.Hierarchy.Rows
import CarCare.Proofs.Hierarchy.Ancestry
import CarCare.Proofs.Keys

/-!
Scopes of the leasing tables: finding one and listing them all come to the same, as long as the tables
keep ids distinct.

What is proved:
  1. `LeaseTables.insertAll_keyed`: tables that are filled row by row keep ids distinct.
  2. `LeaseTables.graded`: the directory over any tables is graded, dangling references or not.
  3. `LeaseTables.Keyed.scopes_nodup` and `LeaseTables.Keyed.mem_scopes_iff`: no address is listed
     twice, and what is listed is what is found.
-/
namespace CarCare

namespace LeaseTables

def ids (t : LeaseTables) : Level → List Uuid
  | .customer => t.customers.map (·.id)
  | .masterLease => t.leases.map (·.id)
  | .rider => t.riders.map (·.id)
  | .amendment => t.amendments.map (·.id)

/-- Tables in which ids are distinct, as the tables of a database keep them. References between
tables may dangle. -/
structure Keyed (t : LeaseTables) : Prop where
  scopes : ∀ level, (t.ids level).Nodup
  placements : (t.placements.map (·.id)).Nodup

variable {t t' : LeaseTables} {row : LeaseRow}

/-- A list of ids as it is after a row is added: the same, or with one more that is new. -/
def Grown (ids ids' : List Uuid) : Prop := ids' = ids ∨ ∃ id ∉ ids, ids' = ids ++ [id]

theorem Grown.nodup {ids ids' : List Uuid} (h : Grown ids ids') (nodup : ids.Nodup) :
    ids'.Nodup := by
  rcases h with rfl | ⟨id, hid, rfl⟩
  · exact nodup
  · rw [← List.concat_eq_append]
    exact nodup.concat hid

theorem eq_ok_of_guard {c : Prop} [Decidable c] {e : Constraint}
    {passed : Except Constraint LeaseTables} (h : (if c then .error e else passed) = .ok t') :
    ¬ c ∧ passed = .ok t' := by
  split at h
  · cases h
  · exact ⟨‹_›, h⟩

/-- A row is added if its id is new, and then only its own table grows. -/
theorem insert_grown (h : t.insert row = .ok t') : (∀ level, Grown (t.ids level) (t'.ids level)) ∧
    Grown (t.placements.map (·.id)) (t'.placements.map (·.id)) := by
  have hgrown : ∀ {α : Type} (key : α → Uuid) (rows : List α) (a : α),
      ¬ rows.any (key · == key a) → Grown (rows.map key) ((rows ++ [a]).map key) := by
    intro α key rows a hany
    exact .inr ⟨key a, by simpa using hany, by simp⟩
  cases row with
  | customer c =>
    obtain ⟨hid, h⟩ := eq_ok_of_guard h
    obtain ⟨_, h⟩ := eq_ok_of_guard h
    obtain rfl := Except.ok.inj h
    refine ⟨fun level => ?_, .inl rfl⟩
    cases level with
    | customer => exact hgrown (·.id) _ c hid
    | masterLease | rider | amendment => exact .inl rfl
  | lease l =>
    obtain ⟨hid, h⟩ := eq_ok_of_guard h
    obtain rfl := Except.ok.inj h
    refine ⟨fun level => ?_, .inl rfl⟩
    cases level with
    | masterLease => exact hgrown (·.id) _ l hid
    | customer | rider | amendment => exact .inl rfl
  | rider r =>
    obtain ⟨hid, h⟩ := eq_ok_of_guard h
    obtain rfl := Except.ok.inj h
    refine ⟨fun level => ?_, .inl rfl⟩
    cases level with
    | rider => exact hgrown (·.id) _ r hid
    | customer | masterLease | amendment => exact .inl rfl
  | amendment a =>
    obtain ⟨hid, h⟩ := eq_ok_of_guard h
    obtain rfl := Except.ok.inj h
    refine ⟨fun level => ?_, .inl rfl⟩
    cases level with
    | amendment => exact hgrown (·.id) _ a hid
    | customer | masterLease | rider => exact .inl rfl
  | placement p =>
    obtain ⟨hid, h⟩ := eq_ok_of_guard h
    obtain rfl := Except.ok.inj h
    exact ⟨fun level => by cases level <;> exact .inl rfl, hgrown (·.id) _ p hid⟩

theorem insertAll_keyed {rows : List LeaseRow} (keyed : t.Keyed) (h : t.insertAll rows = .ok t') :
    t'.Keyed := by
  -- A row is only taken with a new id, so each of them keeps the tables keyed.
  induction rows generalizing t with
  | nil =>
    obtain rfl := Except.ok.inj h
    exact keyed
  | cons row rest ih =>
    obtain ⟨t₁, h₁, h₂⟩ : ∃ t₁, t.insert row = .ok t₁ ∧ t₁.insertAll rest = .ok t' := by
      unfold insertAll at h ⊢
      rw [List.foldlM_cons] at h
      cases h₁ : t.insert row with
      | error e => rw [h₁] at h; cases h
      | ok t₁ => rw [h₁] at h; exact ⟨t₁, rfl, h⟩
    obtain ⟨hscopes, hplacements⟩ := insert_grown h₁
    exact ih ⟨fun level => (hscopes level).nodup (keyed.scopes level),
      hplacements.nodup keyed.placements⟩ h₂

end LeaseTables

theorem Amendment.toScope_parent? (a : Amendment) (customer : Option Uuid) (today : Date) :
    (a.toScope customer today).parent? = a.parent? := by
  unfold Scope.parent? toScope
  cases a.parent? <;> rfl

namespace LeaseTables
variable {t : LeaseTables} {today : Date} {level : Level} {id : Uuid} {s : Scope}

theorem riderScope?_key {r : Rider} (h : t.riderScope? r = some s) : s.key = (.rider, r.id) := by
  obtain ⟨lease, _, rfl⟩ := Option.map_eq_some_iff.mp h
  rfl

theorem graded (t : LeaseTables) (today : Date) : Graded (t.directory today).scope? where
  key := by
    intro level id s h
    cases level with
    | customer =>
      obtain ⟨c, hc, rfl⟩ := Option.map_eq_some_iff.mp h
      have : c.id = id := by simpa using List.find?_some hc
      exact congrArg (Level.customer, ·) this
    | masterLease =>
      obtain ⟨l, hl, rfl⟩ := Option.map_eq_some_iff.mp h
      have : l.id = id := by simpa using List.find?_some hl
      exact congrArg (Level.masterLease, ·) this
    | rider =>
      obtain ⟨r, hr, hs⟩ := Option.bind_eq_some_iff.mp h
      have : r.id = id := by simpa using List.find?_some hr
      rw [riderScope?_key hs, this]
    | amendment =>
      obtain ⟨a, ha, rfl⟩ := Option.map_eq_some_iff.mp h
      have : a.id = id := by simpa using List.find?_some ha
      exact congrArg (Level.amendment, ·) this
  parent := by
    intro level id s p h hp
    cases level with
    | customer =>
      obtain ⟨c, _, rfl⟩ := Option.map_eq_some_iff.mp h
      cases hp
    | masterLease =>
      obtain ⟨l, _, rfl⟩ := Option.map_eq_some_iff.mp h
      obtain rfl := Option.some.inj hp
      exact (by decide : Level.customer.rank < Level.masterLease.rank)
    | rider =>
      obtain ⟨r, _, hs⟩ := Option.bind_eq_some_iff.mp h
      obtain ⟨l, _, rfl⟩ := Option.map_eq_some_iff.mp hs
      obtain rfl := Option.some.inj hp
      exact (by decide : Level.masterLease.rank < Level.rider.rank)
    | amendment =>
      obtain ⟨a, _, rfl⟩ := Option.map_eq_some_iff.mp h
      rw [amendmentScope, Amendment.toScope_parent?] at hp
      unfold Amendment.parent? at hp
      split at hp
      · obtain rfl := Option.some.inj hp
        exact (by decide : Level.rider.rank < Level.amendment.rank)
      · obtain rfl := Option.some.inj hp
        exact (by decide : Level.masterLease.rank < Level.amendment.rank)
      · cases hp

/-! ## The list of scopes -/

def addresses (t : LeaseTables) : List (Level × Uuid) :=
  Level.all.flatMap fun level => (t.ids level).map (level, ·)

theorem Keyed.addresses_nodup (keyed : t.Keyed) : t.addresses.Nodup := by
  refine List.nodup_flatMap.mpr ⟨fun level _ => ?_, ?_⟩
  · exact (keyed.scopes level).map fun a b hab => (Prod.mk.inj hab).2
  · refine List.Pairwise.imp (fun {l m} (hne : l ≠ m) address hl hm => ?_)
      (by decide : Level.all.Nodup)
    obtain ⟨_, _, rfl⟩ := List.mem_map.mp hl
    obtain ⟨_, _, heq⟩ := List.mem_map.mp hm
    exact hne (Prod.mk.inj heq).1.symm

/-- Listed scopes keep the order of the rows, whatever customer is asked for. -/
theorem scopes_addresses (t : LeaseTables) (today : Date) (customer : Option Uuid) :
    ((t.scopes today customer).map Scope.key).Sublist t.addresses := by
  unfold scopes addresses
  simp only [List.map_append, List.append_assoc, Level.all, List.flatMap_cons, List.flatMap_nil,
    List.append_nil, ids, List.map_map]
  refine .append ?_ (.append ?_ (.append ?_ ?_))
  · exact List.filter_sublist.map _
  · exact List.filter_sublist.map _
  · refine map_key_filterMap (fun r s h => ?_) t.riders
    obtain ⟨lease, hlease, h⟩ := Option.bind_eq_some_iff.mp h
    split at h
    · obtain rfl := Option.some.inj h
      rfl
    · cases h
  · exact List.filter_sublist.map _

theorem Keyed.scopes_nodup (keyed : t.Keyed) (today : Date) (customer : Option Uuid) :
    ((t.scopes today customer).map Scope.key).Nodup :=
  keyed.addresses_nodup.sublist (t.scopes_addresses today customer)

theorem mem_scopes : s ∈ t.scopes today none ↔
    (∃ c ∈ t.customers, c.toScope = s) ∨ (∃ l ∈ t.leases, l.toScope = s) ∨
      (∃ r ∈ t.riders, t.riderScope? r = some s) ∨
        ∃ a ∈ t.amendments, t.amendmentScope today a = s := by
  simp [scopes, wanted, wantsAmendment, riderScope?, Option.bind_eq_some_iff]

theorem mem_scopes_of_found (h : (t.directory today).scope? level id = some s) :
    s ∈ t.scopes today none := by
  rw [mem_scopes]
  cases level with
  | customer =>
    obtain ⟨x, hx, hs⟩ := Option.map_eq_some_iff.mp h
    exact .inl ⟨x, List.mem_of_find?_eq_some hx, hs⟩
  | masterLease =>
    obtain ⟨l, hl, hs⟩ := Option.map_eq_some_iff.mp h
    exact .inr (.inl ⟨l, List.mem_of_find?_eq_some hl, hs⟩)
  | rider =>
    obtain ⟨r, hr, hs⟩ := Option.bind_eq_some_iff.mp h
    exact .inr (.inr (.inl ⟨r, List.mem_of_find?_eq_some hr, hs⟩))
  | amendment =>
    obtain ⟨a, ha, hs⟩ := Option.map_eq_some_iff.mp h
    exact .inr (.inr (.inr ⟨a, List.mem_of_find?_eq_some ha, hs⟩))

theorem Keyed.mem_scopes_iff (keyed : t.Keyed) :
    s ∈ t.scopes today none ↔ (t.directory today).scope? s.level s.id = some s := by
  rw [mem_scopes]
  constructor
  · rintro (⟨c, hc, rfl⟩ | ⟨l, hl, rfl⟩ | ⟨r, hr, hs⟩ | ⟨a, ha, rfl⟩)
    · have hfound := (find?_key_eq_some (keyed.scopes .customer)).mpr ⟨hc, rfl⟩
      exact congrArg (Option.map Customer.toScope) hfound
    · have hfound := (find?_key_eq_some (keyed.scopes .masterLease)).mpr ⟨hl, rfl⟩
      exact congrArg (Option.map Lease.toScope) hfound
    · have hfound := (find?_key_eq_some (keyed.scopes .rider)).mpr ⟨hr, rfl⟩
      obtain ⟨hlevel, hid⟩ := Prod.mk.inj (riderScope?_key hs)
      rw [hlevel, hid]
      show (t.rider? r.id).bind t.riderScope? = some s
      rw [rider?, hfound]
      exact hs
    · have hfound := (find?_key_eq_some (keyed.scopes .amendment)).mpr ⟨ha, rfl⟩
      exact congrArg (Option.map (t.amendmentScope today)) hfound
  · exact fun h => mem_scopes.mp (mem_scopes_of_found h)

end LeaseTables

/-- Tables with references that dangle at each level, and names that are missing or empty. -/
def danglingTables : LeaseTables where
  customers := [⟨⟨1⟩, "ACME", "Acme", true⟩]
  leases := [⟨⟨10⟩, ⟨1⟩, "L10", some "", "Active"⟩, ⟨⟨11⟩, ⟨9⟩, "L11", none, "Active"⟩]
  riders := [⟨⟨20⟩, ⟨10⟩, "R20", none, "Active"⟩, ⟨⟨21⟩, ⟨9⟩, "R21", none, "Active"⟩,
    ⟨⟨22⟩, ⟨11⟩, "R22", some "North", "Active"⟩]
  amendments := [⟨⟨30⟩, some ⟨20⟩, some ⟨11⟩, "A30", some "", ⟨5⟩⟩,
    ⟨⟨31⟩, some ⟨9⟩, some ⟨10⟩, "A31", none, ⟨5⟩⟩, ⟨⟨32⟩, none, some ⟨10⟩, "A32", some "Wash", ⟨5⟩⟩,
    ⟨⟨33⟩, none, none, "A33", none, ⟨5⟩⟩]
  placements := [⟨⟨40⟩, ⟨21⟩, "TILX 7", true⟩, ⟨⟨41⟩, ⟨22⟩, "TILX 7", true⟩,
    ⟨⟨42⟩, ⟨20⟩, "TILX 7", true⟩]

theorem danglingTables_keyed : danglingTables.Keyed where
  scopes level := by cases level <;> decide
  placements := by decide

end CarCare

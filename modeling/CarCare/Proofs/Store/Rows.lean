import CarCare.Proofs.Keys
import CarCare.Session

/-!
Rows of the instruction store under its operations: what the finders answer, and what is in the
store after a row is put in the place of another.
-/
namespace CarCare

/-! ## Sections of one row -/

namespace InstructionRow

theorem section?_eq_some {r : InstructionRow} {kind : SectionKind} {id : Uuid} {x : SectionRow}
    (h : r.section? kind id = some x) : x ∈ r.sections kind ∧ x.id = id :=
  ⟨List.mem_of_find?_eq_some h, by simpa using List.find?_some h⟩

theorem section?_eq_none {r : InstructionRow} {kind : SectionKind} {id : Uuid} :
    r.section? kind id = none ↔ ∀ x ∈ r.sections kind, x.id ≠ id := by
  simp [section?]

theorem hasCommodity_eq_true {r : InstructionRow} {kind : SectionKind} {commodity : String} :
    r.hasCommodity kind commodity ↔ ∃ x ∈ r.sections kind, x.commodity = commodity := by
  simp [hasCommodity]

theorem hasCommodity_eq_false {r : InstructionRow} {kind : SectionKind} {commodity : String} :
    r.hasCommodity kind commodity = false ↔ ∀ x ∈ r.sections kind, x.commodity ≠ commodity := by
  simp [hasCommodity]

/-! ## Other sections, other fields -/

theorem withSections_frame (r : InstructionRow) (kind : SectionKind)
    (l : List SectionRow) : (r.withSections kind l).id = r.id ∧
      (r.withSections kind l).level = r.level ∧ (r.withSections kind l).scopes = r.scopes ∧
      (r.withSections kind l).version = r.version ∧
      (r.withSections kind l).isCurrent = r.isCurrent := by
  cases kind <;> exact ⟨rfl, rfl, rfl, rfl, rfl⟩

theorem withSections_fields (r : InstructionRow) (kind : SectionKind) (l : List SectionRow) :
    (r.withSections kind l).fields = r.fields := by
  cases kind <;> rfl

theorem withSections_withSections (r : InstructionRow) (kind : SectionKind)
    (l l' : List SectionRow) :
    (r.withSections kind l).withSections kind l' = r.withSections kind l' := by
  cases kind <;> rfl

end InstructionRow

theorem Session.newRow_sections {stamp : Stamp} {level : Level} {scope : Uuid}
    {name : Option String} {fields : Fields} {actor : Option Uuid} (kind : SectionKind) :
    (newRow stamp level scope name fields actor).sections kind = [] := by
  cases kind <;> rfl

theorem Session.renamedOnto?_eq_some {kind : SectionKind} {row : InstructionRow} {old : SectionRow}
    {change : SectionChange} {c : String} : renamedOnto? kind row old change = some c ↔
      change.named? = some c ∧ c ≠ old.commodity ∧
        ∃ y ∈ row.sections kind, y.id ≠ old.id ∧ y.commodity = c := by
  rw [renamedOnto?, Option.filter_eq_some_iff]
  simp

theorem Session.renamedOnto?_eq_none {kind : SectionKind} {row : InstructionRow} {old : SectionRow}
    {change : SectionChange} : renamedOnto? kind row old change = none ↔
      ∀ c, change.named? = some c → c = old.commodity ∨
        ∀ y ∈ row.sections kind, y.id ≠ old.id → y.commodity ≠ c := by
  rw [Option.eq_none_iff_forall_ne_some]
  constructor
  · intro hnone c hnamed
    by_cases hsame : c = old.commodity
    · exact .inl hsame
    · right
      intro y hy hne heq
      exact hnone c (renamedOnto?_eq_some.mpr ⟨hnamed, hsame, y, hy, hne, heq⟩)
  · intro hfree c hsome
    obtain ⟨hnamed, hother, y, hy, hne, heq⟩ := renamedOnto?_eq_some.mp hsome
    rcases hfree c hnamed with hsame | hnone
    · exact hother hsame
    · exact hnone y hy hne heq

theorem Session.overlaid_eq (now : Timestamp) (change : Fields) (r : InstructionRow) :
    ∃ age, overlaid now change r =
      { r with fields := change.overlay r.fields, updatedAt := age } := by
  unfold overlaid
  dsimp only
  split
  · rename_i hsame
    rw [Fields.same_iff.mp hsame]
    exact ⟨r.updatedAt, rfl⟩
  · exact ⟨now, rfl⟩

theorem Session.overlaid_frame (now : Timestamp) (change : Fields) (r : InstructionRow) :
    (overlaid now change r).id = r.id ∧ (overlaid now change r).level = r.level ∧
      (overlaid now change r).scopes = r.scopes ∧ (overlaid now change r).version = r.version ∧
      (overlaid now change r).isCurrent = r.isCurrent ∧
      ∀ kind, (overlaid now change r).sections kind = r.sections kind := by
  obtain ⟨age, heq⟩ := overlaid_eq now change r
  rw [heq]
  exact ⟨rfl, rfl, rfl, rfl, rfl, fun kind => by cases kind <;> rfl⟩

namespace Store
variable {s : Store} {r new : InstructionRow} {id : Uuid} {kind : SectionKind}

/-! ## Finding -/

theorem row?_eq_some (h : s.row? id = some r) : r ∈ s.rows ∧ r.id = id :=
  ⟨List.mem_of_find?_eq_some h, by simpa using List.find?_some h⟩

theorem row?_eq_none : s.row? id = none ↔ ∀ r ∈ s.rows, r.id ≠ id := by
  simp [row?]

theorem row?_of_mem (ids : (s.rows.map (·.id)).Nodup) (h : r ∈ s.rows) :
    s.row? r.id = some r :=
  (find?_key_eq_some ids).mpr ⟨h, rfl⟩

theorem current?_eq_some : s.current? id = some r ↔ s.row? id = some r ∧ r.isCurrent := by
  simp [current?, Option.filter_eq_some_iff]

theorem current?_id (h : s.current? id = some r) : r.id = id :=
  (row?_eq_some (current?_eq_some.mp h).1).2

/-- Where ids are distinct, a current row is found by its id, and what is not found is not there. -/
theorem current?_of_mem (ids : (s.rows.map (·.id)).Nodup) (h : r ∈ s.rows) (current : r.isCurrent) :
    s.current? r.id = some r :=
  current?_eq_some.mpr ⟨row?_of_mem ids h, current⟩

theorem current?_eq_none (ids : (s.rows.map (·.id)).Nodup) :
    s.current? id = none ↔ ∀ r ∈ s.rows, r.id = id → r.isCurrent = false := by
  constructor
  · rintro hnone r hr rfl
    by_contra hcurrent
    rw [current?_of_mem ids hr (Bool.not_eq_false _ ▸ hcurrent)] at hnone
    cases hnone
  · intro hretired
    rw [Option.eq_none_iff_forall_ne_some]
    intro r hr
    obtain ⟨hrow, hcurrent⟩ := current?_eq_some.mp hr
    obtain ⟨hmem, hid⟩ := row?_eq_some hrow
    rw [hretired r hmem hid] at hcurrent
    cases hcurrent

theorem byScope?_eq_none {level : Level} {scope : Uuid} :
    s.byScope? level scope = none ↔
      ∀ r ∈ s.rows, r.isCurrent → r.scopes.get level ≠ some scope := by
  simp [byScope?]

theorem byScope?_eq_some {level : Level} {scope : Uuid} (h : s.byScope? level scope = some r) :
    r ∈ s.rows ∧ r.isCurrent ∧ r.scopes.get level = some scope :=
  ⟨List.mem_of_find?_eq_some h, by simpa using List.find?_some h⟩

theorem section?_eq_some {x : SectionRow} (h : s.section? kind id = some (r, x)) :
    r ∈ s.rows ∧ x ∈ r.sections kind ∧ x.id = id := by
  obtain ⟨a, ha, hx⟩ := List.exists_of_findSome?_eq_some h
  obtain ⟨y, hy, heq⟩ := Option.map_eq_some_iff.mp hx
  obtain ⟨rfl, rfl⟩ := Prod.mk.inj heq
  exact ⟨ha, InstructionRow.section?_eq_some hy⟩

theorem section?_eq_none :
    s.section? kind id = none ↔ ∀ r ∈ s.rows, ∀ x ∈ r.sections kind, x.id ≠ id := by
  simp [section?, InstructionRow.section?_eq_none]

theorem hasSection_eq_false :
    s.hasSection kind id = false ↔ ∀ r ∈ s.rows, ∀ x ∈ r.sections kind, x.id ≠ id := by
  rw [← section?_eq_none, hasSection, Option.isSome_eq_false_iff, Option.isNone_iff_eq_none]

/-! ## Replacing -/

theorem mem_replace (h : r ∈ (s.replace new).rows) :
    r = new ∨ (r ∈ s.rows ∧ r.id ≠ new.id) := by
  obtain ⟨a, ha, rfl⟩ := List.mem_map.mp h
  by_cases hid : a.id = new.id
  · exact .inl (if_pos hid)
  · rw [if_neg hid]
    exact .inr ⟨ha, hid⟩

theorem mem_replace_self (held : r ∈ s.rows) (same : r.id = new.id) : new ∈ (s.replace new).rows :=
  List.mem_map.mpr ⟨r, held, if_pos same⟩

theorem replace_ids : (s.replace new).rows.map (·.id) = s.rows.map (·.id) := by
  unfold replace
  rw [List.map_map]
  refine List.map_congr_left fun a _ => ?_
  by_cases hid : a.id = new.id <;> simp [hid]

theorem row?_replace_self (h : s.row? new.id = some r) :
    (s.replace new).row? new.id = some new := by
  unfold row? replace at *
  rw [List.find?_map]
  have hid : (fun a : InstructionRow => (if a.id = new.id then new else a).id == new.id) =
      fun a => a.id == new.id := by
    funext a
    by_cases ha : a.id = new.id <;> simp [ha]
  simp only [Function.comp_def, hid, h, Option.map_some]
  rw [if_pos (by simpa using List.find?_some h)]

theorem row?_replace_of_ne (h : id ≠ new.id) : (s.replace new).row? id = s.row? id := by
  have hid : (new.id == id) = false := by simpa using Ne.symm h
  unfold row? replace
  induction s.rows with
  | nil => rfl
  | cons a rest ih =>
    rw [List.map_cons, List.find?_cons, List.find?_cons, ih]
    by_cases ha : a.id = new.id <;> simp [ha, hid]

/-- Of two rows of one id that are put in one place, the later one stays. -/
theorem replace_replace (same : r.id = new.id) : (s.replace r).replace new = s.replace new := by
  unfold replace
  rw [List.map_map]
  congr 1
  apply List.map_congr_left
  intro a _
  by_cases hid : a.id = new.id <;> simp [same, hid]

/-! ## Adding -/

theorem row?_append (h : s.row? id = some r) (new : InstructionRow) :
    (⟨s.rows ++ [new]⟩ : Store).row? id = some r := by
  unfold row? at *
  rw [List.find?_append, h, Option.some_or]

theorem row?_append_self (fresh : s.row? new.id = none) :
    (⟨s.rows ++ [new]⟩ : Store).row? new.id = some new := by
  unfold row? at *
  rw [List.find?_append, fresh, Option.none_or]
  exact List.find?_cons_of_pos (beq_self_eq_true new.id)

theorem byScope?_append_self {level : Level} {scope : Uuid} (free : s.byScope? level scope = none)
    (current : new.isCurrent) (declared : new.scopes.get level = some scope) :
    (⟨s.rows ++ [new]⟩ : Store).byScope? level scope = some new := by
  unfold byScope? at *
  rw [List.find?_append, free, Option.none_or]
  exact List.find?_cons_of_pos (by simp [current, declared])

theorem replace_append (fresh : s.row? new.id = none) (same : r.id = new.id) :
    (⟨s.rows ++ [r]⟩ : Store).replace new = ⟨s.rows ++ [new]⟩ := by
  have hkept : (s.rows.map fun a => if a.id = new.id then new else a) = s.rows :=
    (List.map_congr_left fun a ha => if_neg (row?_eq_none.mp fresh a ha)).trans (List.map_id _)
  rw [replace, List.map_append, hkept, List.map_singleton, if_pos same]

theorem hasSection_append (old : s.hasSection kind id = false)
    (own : ∀ x ∈ new.sections kind, x.id ≠ id) :
    (⟨s.rows ++ [new]⟩ : Store).hasSection kind id = false := by
  apply hasSection_eq_false.mpr
  intro a ha x hx
  rcases List.mem_append.mp ha with hold | hnew
  · exact hasSection_eq_false.mp old a hold x hx
  · rw [List.mem_singleton.mp hnew] at hx
    exact own x hx

theorem insert_eq {t : Store} (h : s.insert new = .ok t) :
    s.fault? new = none ∧ t = ⟨s.rows ++ [new]⟩ := by
  unfold insert at h
  cases hf : s.fault? new with
  | some broken => simp [hf] at h
  | none =>
    simp only [hf, Except.ok.injEq] at h
    exact ⟨rfl, h.symm⟩

theorem fault?_eq_none_id (h : s.fault? new = none) : s.row? new.id = none := by
  unfold fault? at h
  split at h
  · cases h
  · split at h
    · cases h
    · rename_i hid
      simpa using hid

end Store

def Database.put (db : Database) (row : InstructionRow) : Database :=
  { db with instructions := db.instructions.replace row }

theorem Database.put_put {db : Database} {row new : InstructionRow} (same : row.id = new.id) :
    (db.put row).put new = db.put new := by
  unfold put
  rw [Store.replace_replace same]

theorem Database.current?_put {db : Database} {row new : InstructionRow}
    (found : db.instructions.current? row.id = some row) (same : new.id = row.id)
    (current : new.isCurrent = row.isCurrent) :
    (db.put new).instructions.current? new.id = some new := by
  obtain ⟨hrow, hcurrent⟩ := Store.current?_eq_some.mp found
  apply Store.current?_eq_some.mpr
  exact ⟨Store.row?_replace_self (same ▸ hrow), current.trans hcurrent⟩

end CarCare

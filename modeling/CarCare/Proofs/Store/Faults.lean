import CarCare.Proofs.Store.Outcomes

/-!
How requests of a session fail. The store answers in words of its own for what it finds before it
has changed anything, and for new rows that the tables refuse. What the tables or their driver
refuse otherwise shows as it is.

What is proved:
  1. `SectionChange.fault?_eq_some` and `SectionChange.create_eq_error`: what a change of a section
     and a new section fail for, whatever is stored.
  2. `Session.addSection_of_taken`, `Session.updateSection_of_fault` and the like: what a request on
     a section comes to, case by case.
  3. `Session.create_error`, `Session.addSection_error`, `Session.updateSection_error` and
     `Session.removeSection_error`: every error of a request, with its cause and with what becomes
     of the session.
-/
namespace CarCare

namespace Error

/-- Whether an error tells what a write has found in the store, before it changed anything. -/
def isFinding : Error → Bool
  | scopeNotFound .. | instructionNotFound _ | scopeTaken .. | commodityTaken .. => true
  | _ => false

/-- Whether an error tells in words of the store that the tables have refused a new row. -/
def isCollision : Error → Bool
  | instructionExists | sectionExists => true
  | _ => false

end Error

/-! ## Changes of sections -/

namespace SectionChange
variable {c : SectionChange} {kind : SectionKind} {e : Error}

/-- Whether a change gives a section a place that no column can hold. -/
def overflows (c : SectionChange) : Bool := c.sortOrder.any (!Store.storable ·)

theorem fault?_eq_some : c.fault? kind = some e ↔
    (c.overflows ∧ e = .integerTooLarge) ∨ (c.overflows = false ∧ c.commodity = some none ∧
      e = .constraint (.notNull (Store.sectionColumn kind "commodity"))) := by
  unfold fault? overflows
  cases c.sortOrder.any (!Store.storable ·) with
  | true => simp [eq_comm]
  | false => by_cases hcleared : c.commodity = some none <;> simp [hcleared, eq_comm]

theorem fault?_eq_none :
    c.fault? kind = none ↔ c.overflows = false ∧ c.commodity ≠ some none := by
  unfold fault? overflows
  cases c.sortOrder.any (!Store.storable ·) <;> simp

theorem apply_eq_error {s : SectionRow} : c.apply kind s = .error e ↔ c.fault? kind = some e := by
  unfold apply
  cases c.fault? kind <;> simp

theorem apply_eq_ok {s new : SectionRow} : c.apply kind s = .ok new ↔ c.fault? kind = none ∧
    new = c.applyDetails { s with commodity := c.named?.getD s.commodity } := by
  unfold apply
  cases c.fault? kind <;> simp [eq_comm]

theorem create_eq_error {stamp : Stamp} : c.create kind stamp = .error e ↔
    (c.overflows ∧ e = .integerTooLarge) ∨ (c.overflows = false ∧ c.named? = none ∧
      e = .constraint (.notNull (Store.sectionColumn kind "commodity"))) := by
  rw [create, apply_eq_error, fault?_eq_some, Option.some.injEq]
  rfl

theorem create_of_named {commodity : String} (named : c.named? = some commodity)
    (fits : c.overflows = false) (kind : SectionKind) (stamp : Stamp) :
    ∃ new, c.create kind stamp = .ok new ∧ new.id = stamp.id ∧ new.commodity = commodity := by
  have hfault : fault? { c with commodity := some c.named? } kind = none := by
    apply fault?_eq_none.mpr
    refine ⟨fits, ?_⟩
    rw [named]
    nofun
  refine ⟨_, apply_eq_ok.mpr ⟨hfault, rfl⟩, rfl, ?_⟩
  show (Option.join (some c.named?)).getD "" = commodity
  rw [named]
  rfl

end SectionChange

namespace Store
variable {s : Store} {row : InstructionRow} {kind : SectionKind} {new : SectionRow}

theorem hasSection_of_fault (held : row ∈ s.rows)
    (other : row.hasCommodity kind new.commodity = false) {broken : Constraint}
    (fault : s.sectionFault? kind (row.sections kind) new = some broken) :
    s.hasSection kind new.id := by
  unfold sectionFault? at fault
  split at fault
  · rename_i hused
    rw [Bool.or_eq_true] at hused
    rcases hused with hstored | hsibling
    · exact hstored
    · obtain ⟨x, hx, hid⟩ := List.any_eq_true.mp hsibling
      by_contra hnew
      exact hasSection_eq_false.mp (Bool.eq_false_iff.mpr hnew) row held x hx (beq_iff_eq.mp hid)
  · have hfree : ((row.sections kind).any fun x => x.commodity == new.commodity) = false := other
    rw [hfree] at fault
    cases fault

end Store

/-! ## Requests of a session -/

namespace Session
variable {s s' : Session} {e : Error}

/-! ### Sections, case by case -/

section
variable {kind : SectionKind} {stamp : Stamp} {id : Uuid} {row : InstructionRow} {old : SectionRow}
  {new : SectionRow} {change : SectionChange} {commodity : String}

theorem addSection_of_unknown (unknown : s.store.current? id = none) :
    addSection kind stamp id change s = (.error (.instructionNotFound id), s) := by
  rw [addSection, unknown]

theorem addSection_of_taken (current : s.store.current? id = some row)
    (taken : change.named?.filter (row.hasCommodity kind) = some commodity) :
    addSection kind stamp id change s = (.error (.commodityTaken commodity id), s) := by
  rw [addSection, current]
  dsimp only
  rw [taken]

/-- The driver refuses a place before the tables look at the row. -/
theorem addSection_of_overflow (current : s.store.current? id = some row)
    (free : change.named?.filter (row.hasCommodity kind) = none) (overflow : change.overflows) :
    addSection kind stamp id change s = (.error .integerTooLarge, s.rollback) := by
  rw [addSection, current]
  dsimp only
  rw [free]
  dsimp only
  rw [SectionChange.create_eq_error.mpr (.inl ⟨overflow, rfl⟩)]

theorem addSection_of_blank (current : s.store.current? id = some row)
    (blank : change.named? = none) (fits : change.overflows = false) :
    addSection kind stamp id change s = (.error .sectionExists, s.rollback) := by
  rw [addSection, current, blank]
  dsimp only
  rw [show none.filter (row.hasCommodity kind) = none from rfl]
  dsimp only
  rw [SectionChange.create_eq_error.mpr (.inr ⟨fits, blank, rfl⟩)]

theorem addSection_of_fault (current : s.store.current? id = some row)
    (free : change.named?.filter (row.hasCommodity kind) = none)
    (made : change.create kind stamp = .ok new) {broken : Constraint}
    (fault : s.store.sectionFault? kind (row.sections kind) new = some broken) :
    addSection kind stamp id change s = (.error .sectionExists, s.rollback) := by
  rw [addSection, current]
  dsimp only
  rw [free]
  dsimp only
  rw [made]
  dsimp only
  rw [fault]

theorem addSection_of_legal (current : s.store.current? id = some row)
    (free : change.named?.filter (row.hasCommodity kind) = none)
    (made : change.create kind stamp = .ok new)
    (legal : s.store.sectionFault? kind (row.sections kind) new = none) :
    addSection kind stamp id change s = (.ok (new.toSection id),
      s.withStore (s.store.replace (row.withSections kind (row.sections kind ++ [new])))) := by
  rw [addSection, current]
  dsimp only
  rw [free]
  dsimp only
  rw [made]
  dsimp only
  rw [legal]

theorem updateSection_of_unknown (unknown : s.store.section? kind id = none) :
    updateSection kind id change s = (.ok none, s) := by
  rw [updateSection, unknown]

theorem updateSection_of_retired (found : s.store.section? kind id = some (row, old))
    (retired : row.isCurrent = false) :
    updateSection kind id change s = (.error (.instructionNotFound row.id), s) := by
  rw [updateSection, found]
  dsimp only
  rw [retired]
  exact if_neg Bool.false_ne_true

theorem updateSection_of_taken (found : s.store.section? kind id = some (row, old))
    (current : row.isCurrent) (taken : renamedOnto? kind row old change = some commodity) :
    updateSection kind id change s = (.error (.commodityTaken commodity row.id), s) := by
  rw [updateSection, found]
  dsimp only
  rw [if_pos current, taken]

theorem updateSection_of_fault (found : s.store.section? kind id = some (row, old))
    (current : row.isCurrent) (free : renamedOnto? kind row old change = none)
    (fault : change.fault? kind = some e) :
    updateSection kind id change s = (.error e, s.rollback) := by
  rw [updateSection, found]
  dsimp only
  rw [if_pos current, free]
  dsimp only
  rw [SectionChange.apply_eq_error.mpr fault]

end

/-! ### Every error -/

theorem create_error {today : Date} {stamp : Stamp} {level : Level} {scope : Uuid} {fields : Fields}
    {actor : Option Uuid} (h : create today stamp level scope fields actor s = (.error e, s')) :
    (e.isFinding ∧ s' = s) ∨
      (e = .instructionExists ∧ s' = s.rollback ∧ (s.store.row? stamp.id).isSome) := by
  unfold create at h
  cases hinfo : (s.directory today).scope? level scope with
  | none =>
    rw [hinfo] at h
    cases h
    exact .inl ⟨rfl, rfl⟩
  | some info =>
    rw [hinfo] at h
    dsimp only at h
    cases hfree : s.store.byScope? level scope with
    | some taken =>
      rw [hfree] at h
      cases h
      exact .inl ⟨rfl, rfl⟩
    | none =>
      rw [hfree] at h
      have hlegal := s.store.fault?_newRow stamp level scope info.name fields actor
      rw [and_iff_left hfree] at hlegal
      cases hid : s.store.row? stamp.id with
      | none =>
        rw [Store.insert, hlegal.mpr hid] at h
        cases h
      | some used =>
        cases hfault : s.store.fault? (newRow stamp level scope info.name fields actor) with
        | none =>
          rw [hlegal.mp hfault] at hid
          cases hid
        | some broken =>
          rw [Store.insert, hfault] at h
          cases h
          exact .inr ⟨rfl, rfl, rfl⟩

theorem update_ok (now : Timestamp) (id : Uuid) (change : Fields) (s : Session) :
    (update now id change s).1.isOk := by
  unfold update
  split <;> rfl

theorem retire_ok (now : Timestamp) (id : Uuid) (s : Session) : (retire now id s).1.isOk := by
  unfold retire
  split <;> rfl

theorem addSection_error {kind : SectionKind} {stamp : Stamp} {id : Uuid} {change : SectionChange}
    (h : addSection kind stamp id change s = (.error e, s')) :
    (e.isFinding ∧ s' = s) ∨
      (e = .sectionExists ∧ s' = s.rollback ∧
        (change.named? = none ∨ s.store.hasSection kind stamp.id)) ∨
      (e = .integerTooLarge ∧ change.overflows) := by
  cases hrow : s.store.current? id with
  | none =>
    rw [addSection_of_unknown hrow] at h
    cases h
    exact .inl ⟨rfl, rfl⟩
  | some row =>
    have hheld : row ∈ s.store.rows := (Store.row?_eq_some (Store.current?_eq_some.mp hrow).1).1
    cases htaken : change.named?.filter (row.hasCommodity kind) with
    | some commodity =>
      rw [addSection_of_taken hrow htaken] at h
      cases h
      exact .inl ⟨rfl, rfl⟩
    | none =>
      right
      cases hplace : change.overflows with
      | true =>
        rw [addSection_of_overflow hrow htaken hplace] at h
        cases h
        exact .inr ⟨rfl, rfl⟩
      | false =>
        left
        cases hnamed : change.named? with
        | none =>
          rw [addSection_of_blank hrow hnamed hplace] at h
          cases h
          exact ⟨rfl, rfl, .inl rfl⟩
        | some commodity =>
          obtain ⟨new, hmade, hid, hcommodity⟩ :=
            SectionChange.create_of_named hnamed hplace kind stamp
          have hother : row.hasCommodity kind new.commodity = false := by
            rw [hnamed, Option.filter_eq_none_iff] at htaken
            rw [hcommodity]
            exact Bool.eq_false_iff.mpr (htaken commodity rfl)
          cases hfault : s.store.sectionFault? kind (row.sections kind) new with
          | none =>
            rw [addSection_of_legal hrow htaken hmade hfault] at h
            cases h
          | some broken =>
            rw [addSection_of_fault hrow htaken hmade hfault] at h
            cases h
            exact ⟨rfl, rfl, .inr (hid ▸ Store.hasSection_of_fault hheld hother hfault)⟩

theorem updateSection_error {kind : SectionKind} {id : Uuid} {change : SectionChange}
    (h : updateSection kind id change s = (.error e, s')) :
    (e.isFinding ∧ s' = s) ∨ change.fault? kind = some e := by
  unfold updateSection at h
  split at h
  · cases h
  · rename_i row old _
    split at h
    · split at h
      · cases h
        exact .inl ⟨rfl, rfl⟩
      · split at h
        · rename_i happlied
          cases h
          exact .inr (SectionChange.apply_eq_error.mp happlied)
        · cases h
    · cases h
      exact .inl ⟨rfl, rfl⟩

theorem removeSection_error {kind : SectionKind} {id : Uuid}
    (h : removeSection kind id s = (.error e, s')) : e.isFinding ∧ s' = s := by
  unfold removeSection at h
  split at h
  · cases h
  · split at h
    · cases h
    · cases h
      exact ⟨rfl, rfl⟩

end Session

end CarCare

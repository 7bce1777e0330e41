import CarCare.Desk
import CarCare.Proofs.Store.Faults

/-!
Requests at a desk. They commit nothing. What is found before anything is written leaves the desk as
it is. What the tables refuse takes back everything since the last commit, and if it is a new row,
the store has words of its own for it; for a value that no column takes it has none.

What is proved:
  1. `Affinity.write_error`: the store has no words for what the columns refuse.
  2. `Desk.create_committed` and its like: what was committed last stays committed.
  3. `Desk.create_error`, `Desk.addSection_error`, `Desk.updateSection_error` and
     `Desk.removeSection_error`: every error of a request, with its cause and with what becomes of
     the desk.
-/
namespace CarCare

/-! ## Columns -/

section
variable {value : Value} {e : Error}

theorem keepFlag_error (h : keepFlag value = .error e) : e.isRefusal = false := by
  unfold keepFlag at h
  split at h
  · cases h
  · split at h
    · cases h
    · split at h
      · cases h
      · cases h
        rfl

theorem keepInteger_error {n : Int} (h : keepInteger n value = .error e) :
    e.isRefusal = false := by
  unfold keepInteger at h
  split at h
  · cases h
  · cases h
    rfl

end

namespace Affinity
variable {a : Affinity} {value : Value} {e : Error}

theorem keepText_error (h : a.keepText value = .error e) : e.isRefusal = false := by
  cases value with
  | list _ | map _ =>
    cases h
    rfl
  | scalar x =>
    cases x with
    | int n => exact keepInteger_error h
    | float x => cases x <;> cases h
    | null | bool _ | text _ | date _ => cases h

theorem keepNumber_error (h : a.keepNumber value = .error e) : e.isRefusal = false := by
  cases value with
  | list _ | map _ =>
    cases h
    rfl
  | scalar x =>
    cases x with
    | int n => exact keepInteger_error h
    | float x => cases x <;> cases h
    | null | bool _ | text _ | date _ => cases h

theorem keep_error {kind : ColumnKind} (h : a.keep kind value = .error e) :
    e.isRefusal = false := by
  cases kind with
  | flag => exact keepFlag_error h
  | text => exact keepText_error h
  | integer => exact keepNumber_error h

theorem write_error {shown : String → Option Value} {given : List (Column × Value)}
    (h : a.write shown given = .error e) : e.isRefusal = false := by
  induction given with
  | nil => cases h
  | cons head rest ih =>
    obtain ⟨c, value⟩ := head
    rw [write] at h
    split at h
    · exact ih h
    · cases hkept : a.keep c.kind value with
      | error fault =>
        rw [hkept] at h
        cases h
        exact keep_error hkept
      | ok stored =>
        rw [hkept] at h
        cases hrest : a.write shown rest with
        | error fault =>
          rw [hrest] at h
          cases h
          exact ih hrest
        | ok others =>
          rw [hrest] at h
          cases h

end Affinity

/-! ## What requests commit -/

namespace Desk
section
variable (a : Affinity) (d : Desk)

theorem request_committed {α : Type} {found : Option Error} {write : Except Error (α × Desk)}
    (h : ∀ answer d', write = .ok (answer, d') → d'.committed = d.committed) :
    (d.request found write).2.committed = d.committed := by
  cases found with
  | some e => rfl
  | none =>
    cases write with
    | error e => rfl
    | ok done => exact h done.1 done.2 rfl

theorem create_committed (today : Date) (stamp : Stamp) (level : Level) (scope : Uuid)
    (data : Members) (actor : Option Uuid) :
    (d.create a today stamp level scope data actor).2.committed = d.committed := by
  refine request_committed d fun i d' h => ?_
  obtain ⟨kept, _, h⟩ := Except.exists_of_bind h
  obtain ⟨_, _, h⟩ := Except.exists_of_bind h
  cases h
  rfl

theorem update_committed (now : Timestamp) (id : Uuid) (data : Members) :
    (d.update a now id data).2.committed = d.committed := by
  unfold update
  split
  · rfl
  · refine request_committed d fun i d' h => ?_
    obtain ⟨kept, _, h⟩ := Except.exists_of_bind h
    cases h
    rfl

theorem addSection_committed (kind : SectionKind) (stamp : Stamp) (id : Uuid) (data : Members) :
    (d.addSection a kind stamp id data).2.committed = d.committed := by
  unfold addSection
  split
  · rfl
  · refine request_committed d fun added d' h => ?_
    obtain ⟨kept, _, h⟩ := Except.exists_of_bind h
    dsimp only at h
    split at h
    · cases h
    · obtain ⟨_, _, h⟩ := Except.exists_of_bind h
      cases h
      rfl

theorem updateSection_committed (kind : SectionKind) (id : Uuid) (data : Members) :
    (d.updateSection a kind id data).2.committed = d.committed := by
  unfold updateSection
  split
  · rfl
  · refine request_committed d fun changed d' h => ?_
    obtain ⟨kept, _, h⟩ := Except.exists_of_bind h
    dsimp only at h
    split at h
    · cases h
    · obtain ⟨_, _, h⟩ := Except.exists_of_bind h
      cases h
      rfl

theorem removeSection_committed (kind : SectionKind) (id : Uuid) :
    (d.removeSection kind id).2.committed = d.committed := by
  unfold removeSection
  split <;> rfl

end

/-! ## How requests fail -/

variable {a : Affinity} {d d' : Desk} {e : Error}

theorem writes_error {α : Type} {out : Session.Outcome α} (h : writes out = .error e) :
    ∃ s, out = (.error e, s) := by
  obtain ⟨answer, s⟩ := out
  cases answer with
  | error fault =>
    cases h
    exact ⟨s, rfl⟩
  | ok a => cases h

theorem request_error {α : Type} {found : Option Error} {write : Except Error (α × Desk)}
    (h : d.request found write = (.error e, d')) :
    (found = some e ∧ d' = d) ∨ (found = none ∧ write = .error e ∧ d' = d.rollback) := by
  cases found with
  | some fault =>
    cases h
    exact .inl ⟨rfl, rfl⟩
  | none =>
    cases write with
    | error fault =>
      cases h
      exact .inr ⟨rfl, rfl, rfl⟩
    | ok done => cases h

theorem occupied?_isFinding {today : Date} {level : Level} {scope : Uuid}
    (h : d.occupied? today level scope = some e) : e.isFinding := by
  unfold occupied? at h
  split at h
  · cases h
    rfl
  · split at h
    · cases h
      rfl
    · cases h

/-- Where nothing is found against a declaration, the tables refuse it only if its id is in use. -/
theorem create_of_free {today : Date} {stamp : Stamp} {level : Level} {scope : Uuid}
    {fields : Fields} {actor : Option Uuid} {s : Session}
    (free : d.occupied? today level scope = none)
    (h : d.session.create today stamp level scope fields actor = (.error e, s)) :
    e = .instructionExists ∧ (d.store.row? stamp.id).isSome := by
  have hexists : e = .instructionExists := by
    unfold occupied? at free
    unfold Session.create at h
    split at h
    · rename_i hunknown
      rw [hunknown] at free
      cases free
    · rename_i hknown
      rw [hknown] at free
      split at h
      · rename_i htaken
        have hsome : (d.store.byScope? level scope).isSome := htaken
        rw [hsome] at free
        cases free
      · dsimp only at h
        split at h
        · cases h
        · exact (Except.error.inj (Prod.ext_iff.mp h).1).symm
  rcases Session.create_error h with ⟨hfinding, _⟩ | ⟨_, _, hused⟩
  · rw [hexists] at hfinding
    cases hfinding
  · exact ⟨hexists, hused⟩

/-- A declaration is refused for what is found, because its id is in use, or because a column does
not take a value. -/
theorem create_error {today : Date} {stamp : Stamp} {level : Level} {scope : Uuid} {data : Members}
    {actor : Option Uuid} (h : d.create a today stamp level scope data actor = (.error e, d')) :
    (e.isFinding ∧ d' = d) ∨
      (e = .instructionExists ∧ d' = d.rollback ∧ (d.store.row? stamp.id).isSome) ∨
      e.isRefusal = false := by
  rcases request_error h with ⟨hfound, rfl⟩ | ⟨hfree, hwrite, rfl⟩
  · exact .inl ⟨occupied?_isFinding hfound, rfl⟩
  · right
    rcases Except.error_of_bind hwrite with hkept | ⟨kept, _, hwrite⟩
    · exact .inr (Affinity.write_error hkept)
    · rcases Except.error_of_bind hwrite with hmade | ⟨_, _, hpure⟩
      · obtain ⟨s, hsession⟩ := writes_error hmade
        obtain ⟨hexists, hused⟩ := create_of_free hfree hsession
        exact .inl ⟨hexists, rfl, hused⟩
      · cases hpure

theorem update_error {now : Timestamp} {id : Uuid} {data : Members}
    (h : d.update a now id data = (.error e, d')) : e.isRefusal = false := by
  unfold update at h
  split at h
  · cases h
  · rcases request_error h with ⟨hfound, _⟩ | ⟨_, hwrite, _⟩
    · cases hfound
    · rcases Except.error_of_bind hwrite with hkept | ⟨_, _, hpure⟩
      · exact Affinity.write_error hkept
      · cases hpure

theorem retire_ok (now : Timestamp) (id : Uuid) (d : Desk) : (d.retire now id).1.isOk :=
  d.session.retire_ok now id

/-- Where the tables have nothing against what they keep of a new section, they refuse it only if
its id is in use. -/
theorem addSection_of_fitting {kind : SectionKind} {stamp : Stamp} {row : InstructionRow}
    {kept : Members} {s : Session} (current : d.store.current? row.id = some row)
    (fits : crowds kind row kept = false)
    (h : d.session.addSection kind stamp row.id (.ofMembers kind kept) = (.error e, s)) :
    (e = .sectionExists ∧ d.store.hasSection kind stamp.id) ∨ e.isRefusal = false := by
  rw [crowds, Bool.or_eq_false_iff] at fits
  cases hnamed : (SectionChange.ofMembers kind kept).named? with
  | none =>
    rw [hnamed] at fits
    cases fits.2
  | some commodity =>
    have hother : row.hasCommodity kind commodity = false := by
      rw [hnamed] at fits
      exact fits.2
    have hrow : d.session.store.current? row.id = some row := current
    have hheld : row ∈ d.store.rows := (Store.row?_eq_some (Store.current?_eq_some.mp current).1).1
    let change := SectionChange.ofMembers kind kept
    have hfree : change.named?.filter (row.hasCommodity kind) = none := by
      rw [hnamed, Option.filter_some, hother]
      rfl
    cases hlarge : change.overflows with
    | true =>
      rw [Session.addSection_of_overflow hrow hfree hlarge] at h
      cases h
      exact .inr rfl
    | false =>
      obtain ⟨new, hmade, hid, hcommodity⟩ :=
        SectionChange.create_of_named hnamed hlarge kind stamp
      cases hfault : d.session.store.sectionFault? kind (row.sections kind) new with
      | none =>
        rw [Session.addSection_of_legal hrow hfree hmade hfault] at h
        cases h
      | some broken =>
        rw [Session.addSection_of_fault hrow hfree hmade hfault] at h
        cases h
        rw [← hcommodity] at hother
        exact .inl ⟨rfl, hid ▸ Store.hasSection_of_fault hheld hother hfault⟩

/-- A new section is refused for what is found, because its id is in use, because of what the
columns keep of it, or because a column does not take a value. -/
theorem addSection_error {kind : SectionKind} {stamp : Stamp} {id : Uuid} {data : Members}
    (h : d.addSection a kind stamp id data = (.error e, d')) :
    (e.isFinding ∧ d' = d) ∨
      (e = .sectionExists ∧ d' = d.rollback ∧
        (d.store.hasSection kind stamp.id ∨ ∃ row kept, d.store.current? id = some row ∧
          a.write (fun _ => none) (Column.given (Column.sections kind) data) = .ok kept ∧
          crowds kind row kept)) ∨
      e.isRefusal = false := by
  unfold addSection at h
  split at h
  · cases h
    exact .inl ⟨rfl, rfl⟩
  · rename_i row hrow
    rcases request_error h with ⟨hfound, rfl⟩ | ⟨_, hwrite, rfl⟩
    · left
      split at hfound
      · cases hfound
        exact ⟨rfl, rfl⟩
      · cases hfound
    · right
      rcases Except.error_of_bind hwrite with hkept | ⟨kept, hkept, hwrite⟩
      · exact .inr (Affinity.write_error hkept)
      · dsimp only at hwrite
        split at hwrite
        · rename_i hcrowds
          cases hwrite
          exact .inl ⟨rfl, rfl, .inr ⟨row, kept, hrow, hkept, hcrowds⟩⟩
        · rename_i hfits
          rcases Except.error_of_bind hwrite with hadded | ⟨_, _, hpure⟩
          · obtain ⟨s, hsession⟩ := writes_error hadded
            obtain rfl := Store.current?_id hrow
            rcases addSection_of_fitting hrow (Bool.eq_false_iff.mpr hfits) hsession with
              ⟨rfl, hused⟩ | hraw
            · exact .inl ⟨rfl, rfl, .inl hused⟩
            · exact .inr hraw
          · cases hpure

theorem misfit?_error {kind : SectionKind} {row : InstructionRow} {old : SectionRow}
    {kept : Members} (h : misfit? kind row old kept = some e) : e.isRefusal = false := by
  rcases Option.or_eq_some_iff.mp h with hfault | ⟨_, h⟩
  · rcases SectionChange.fault?_eq_some.mp hfault with ⟨_, rfl⟩ | ⟨_, _, rfl⟩ <;> rfl
  · split at h
    · cases h
      rfl
    · obtain ⟨_, _, rfl⟩ := Option.map_eq_some_iff.mp h
      rfl

theorem updateSection_of_fitting {kind : SectionKind} {id : Uuid} {row : InstructionRow}
    {old : SectionRow} {kept : Members} (found : d.store.section? kind id = some (row, old))
    (current : row.isCurrent) (fits : misfit? kind row old kept = none) :
    (d.session.updateSection kind id (.ofMembers kind kept)).1.isOk := by
  obtain ⟨hfault, h⟩ := Option.or_eq_none_iff.mp fits
  have hrenamed : Session.renamedOnto? kind row old (.ofMembers kind kept) = none := by
    split at h
    · cases h
    · exact Option.map_eq_none_iff.mp h
  rw [Session.updateSection, show d.session.store.section? kind id = some (row, old) from found]
  dsimp only
  rw [if_pos current, hrenamed]
  dsimp only
  rw [SectionChange.apply_eq_ok.mpr ⟨hfault, rfl⟩]
  rfl

/-- A change of a section is refused for what is found, or because a column does not take a value
or the tables do not take the section. -/
theorem updateSection_error {kind : SectionKind} {id : Uuid} {data : Members}
    (h : d.updateSection a kind id data = (.error e, d')) :
    (e.isFinding ∧ d' = d) ∨ e.isRefusal = false := by
  unfold updateSection at h
  split at h
  · cases h
  · rename_i row old hsection
    rcases request_error h with ⟨hfound, rfl⟩ | ⟨hfree, hwrite, rfl⟩
    · left
      split at hfound
      · cases hfound
        exact ⟨rfl, rfl⟩
      · split at hfound
        · cases hfound
          exact ⟨rfl, rfl⟩
        · cases hfound
    · right
      rcases Except.error_of_bind hwrite with hkept | ⟨kept, hkept, hwrite⟩
      · exact Affinity.write_error hkept
      · dsimp only at hwrite
        split at hwrite
        · rename_i hmisfit
          cases hwrite
          exact misfit?_error hmisfit
        · rename_i hfits
          rcases Except.error_of_bind hwrite with hchanged | ⟨_, _, hpure⟩
          · obtain ⟨s, hsession⟩ := writes_error hchanged
            have hcurrent : row.isCurrent := by
              by_contra hretired
              rw [Bool.not_eq_true] at hretired
              rw [hretired] at hfree
              cases hfree
            have hok := updateSection_of_fitting hsection hcurrent
              (Option.eq_none_iff_forall_ne_some.mpr hfits)
            rw [hsession] at hok
            cases hok
          · cases hpure

theorem removeSection_error {kind : SectionKind} {id : Uuid}
    (h : d.removeSection kind id = (.error e, d')) : e.isFinding ∧ d' = d := by
  unfold removeSection at h
  split at h
  · cases h
  · rename_i hsession
    cases h
    exact ⟨(Session.removeSection_error hsession).1, rfl⟩

end Desk

end CarCare

import CarCare.Proofs.Desk.Requests

/-!
Units of work: several calls of the store at one desk. Their owner goes on where the store refuses a
call, and commits in the end.

What is proved:
  1. `Call.make_refused`: what becomes of the desk of a refused call. It stays as it is, or, if the
     tables have refused a new row, it goes back to what was committed last; and when they do.
  2. `Desk.makeAll_committed`: on the way nothing is committed.
  3. `refused_call_in_unit_of_work`: so a refused call is in general as if it had not been made; but
     where the tables refuse a row it is the calls before it that are as if they had not been made.
-/
namespace CarCare

/-- A call of the store. Fields and sections are given by members that no schema has looked at, and
new rows are stamped. Of what a read is asked for only the level can be refused, if it takes one.
Between two calls a record that nobody holds any more may be let go of, and is then read again. -/
inductive Call where
  | read (level : Option Value)
  | forget (table : String) (id : Uuid)
  | create (today : Date) (stamp : Stamp) (level : Value) (scope : Uuid) (fields : Members)
      (actor : Option Uuid)
  | update (now : Timestamp) (id : Uuid) (fields : Members)
  | retire (now : Timestamp) (id : Uuid)
  | addSection (kind : SectionKind) (stamp : Stamp) (id : Uuid) (data : Members)
  | updateSection (kind : SectionKind) (id : Uuid) (data : Members)
  | removeSection (kind : SectionKind) (id : Uuid)

def Desk.Outcome.done {α : Type} (out : Desk.Outcome α) : Desk.Outcome Unit :=
  (out.1.map fun _ => (), out.2)

namespace Call
variable (a : Affinity)

/-- Whether a call succeeds, and the desk after it. -/
def make (d : Desk) : Call → Desk.Outcome Unit
  | .read none => (.ok (), d)
  | .read (some level) => ((Level.parse level).map fun _ => (), d)
  | .forget table id => (.ok (), d.forget table id)
  | .create today stamp level scope fields actor =>
    match Level.parse level with
    | .error e => (.error e, d)
    | .ok level => (d.create a today stamp level scope fields actor).done
  | .update now id fields => (d.update a now id fields).done
  | .retire now id => (d.retire now id).done
  | .addSection kind stamp id data => (d.addSection a kind stamp id data).done
  | .updateSection kind id data => (d.updateSection a kind id data).done
  | .removeSection kind id => (d.removeSection kind id).done

/-- Whether the tables have something against the new row of a call that the store does not look at
itself. Its id is in use, or it is a section of which the columns keep no commodity, no place, or
the commodity of another section of its instruction. -/
def collides (d : Desk) : Call → Bool
  | .create _ stamp _ _ _ _ => (d.store.row? stamp.id).isSome
  | .addSection kind stamp id data =>
    let given := Column.given (Column.sections kind) data
    d.store.hasSection kind stamp.id ||
      match d.store.current? id, a.write (fun _ => none) given with
      | some row, .ok kept => Desk.crowds kind row kept
      | _, _ => false
  | _ => false

end Call

/-- The desk after several calls, of which the store may refuse some. There is none if another error
ends them. -/
def Desk.makeAll (a : Affinity) (d : Desk) : List Call → Option Desk
  | [] => some d
  | c :: rest =>
    match c.make a d with
    | (.ok _, d') => d'.makeAll a rest
    | (.error e, d') => if e.isRefusal then d'.makeAll a rest else none

/-- What a unit of work leaves, which commits its calls in the end. One that an error has ended
leaves nothing behind. -/
def Shelf.unitOfWork (a : Affinity) (shelf : Shelf) (calls : List Call) : Shelf :=
  match (Desk.start shelf).makeAll a calls with
  | some d => d.commit.committed
  | none => shelf

/-! ## One call -/

theorem Error.isCollision_of_finding {e : Error} (h : e.isFinding) : e.isCollision = false := by
  cases e <;> first | rfl | cases h

theorem Desk.Outcome.done_error {α : Type} {out : Desk.Outcome α} {d : Desk} {e : Error}
    (h : out.done = (.error e, d)) : out = (.error e, d) := by
  obtain ⟨answer, d'⟩ := out
  cases answer with
  | error e' =>
    cases h
    rfl
  | ok a => cases h

theorem Desk.Outcome.done_ok {α : Type} {out : Desk.Outcome α} {d : Desk} {e : Error}
    (ok : out.1.isOk) : out.done ≠ (.error e, d) := by
  intro h
  rw [done_error h] at ok
  cases ok

theorem Level.parse_error {value : Value} {e : Error} (h : Level.parse value = .error e) :
    e = .invalidLevel value := by
  unfold parse at h
  split at h
  · cases h
  · exact (Except.error.inj h).symm

namespace Call
variable {a : Affinity} {c : Call} {d d' : Desk} {e : Error}

theorem make_committed (c : Call) (d : Desk) : (c.make a d).2.committed = d.committed := by
  cases c with
  | read level => cases level <;> rfl
  | forget _ _ => rfl
  | create today stamp level scope fields actor =>
    rw [make]
    split
    · rfl
    · exact d.create_committed ..
  | update _ _ _ => exact d.update_committed ..
  | retire _ _ => rfl
  | addSection _ _ _ _ => exact d.addSection_committed ..
  | updateSection _ _ _ => exact d.updateSection_committed ..
  | removeSection _ _ => exact d.removeSection_committed ..

/-- A refused call leaves the desk as it is, unless the tables have refused a new row. Then the desk
goes back to what was committed last. -/
theorem make_refused (refused : c.make a d = (.error e, d')) (caught : e.isRefusal) :
    (e.isCollision = false ∧ d' = d) ∨
      (e.isCollision ∧ d' = d.rollback ∧ c.collides a d) := by
  have hfound : e.isFinding ∧ d' = d → e.isCollision = false ∧ d' = d :=
    fun ⟨hfinding, hsame⟩ => ⟨Error.isCollision_of_finding hfinding, hsame⟩
  have hraw : e.isRefusal ≠ false := ne_false_of_eq_true caught
  cases c with
  | read level =>
    cases level with
    | none => cases refused
    | some level =>
      cases hlevel : Level.parse level with
      | ok l =>
        rw [make, hlevel] at refused
        cases refused
      | error fault =>
        rw [make, hlevel] at refused
        cases refused
        rw [Level.parse_error hlevel]
        exact .inl ⟨rfl, rfl⟩
  | forget table id => cases refused
  | create today stamp level scope fields actor =>
    rw [make] at refused
    split at refused
    · rename_i hlevel
      cases refused
      rw [Level.parse_error hlevel]
      exact .inl ⟨rfl, rfl⟩
    · rcases Desk.create_error (Desk.Outcome.done_error refused) with
        h | ⟨rfl, rfl, hused⟩ | h
      · exact .inl (hfound h)
      · exact .inr ⟨rfl, rfl, hused⟩
      · exact absurd h hraw
  | update now id fields =>
    exact absurd (Desk.update_error (Desk.Outcome.done_error refused)) hraw
  | retire now id => exact absurd refused (Desk.Outcome.done_ok (d.retire_ok now id))
  | addSection kind stamp id data =>
    rcases Desk.addSection_error (Desk.Outcome.done_error refused) with h | ⟨rfl, rfl, hcause⟩ | h
    · exact .inl (hfound h)
    · refine .inr ⟨rfl, rfl, ?_⟩
      rw [collides, Bool.or_eq_true]
      refine hcause.imp_right fun ⟨row, kept, hrow, hkept, hcrowds⟩ => ?_
      rw [hrow, hkept]
      exact hcrowds
    · exact absurd h hraw
  | updateSection kind id data =>
    rcases Desk.updateSection_error (Desk.Outcome.done_error refused) with h | h
    · exact .inl (hfound h)
    · exact absurd h hraw
  | removeSection kind id =>
    exact .inl (hfound (Desk.removeSection_error (Desk.Outcome.done_error refused)))

end Call

/-! ## Units of work -/

namespace Desk
variable {a : Affinity} {d d' : Desk}

theorem makeAll_append (d : Desk) (before after : List Call) :
    d.makeAll a (before ++ after) = (d.makeAll a before).bind (·.makeAll a after) := by
  -- A call that is refused hands its desk on like one that succeeds; other errors end both sides.
  induction before generalizing d with
  | nil => rfl
  | cons c rest ih =>
    rw [List.cons_append, makeAll, makeAll]
    obtain ⟨answer, next⟩ := c.make a d
    cases answer with
    | ok _ => exact ih next
    | error e =>
      dsimp only
      split
      · exact ih next
      · rfl

theorem makeAll_committed {calls : List Call} (h : d.makeAll a calls = some d') :
    d'.committed = d.committed := by
  induction calls generalizing d with
  | nil =>
    obtain rfl := Option.some.inj h
    rfl
  | cons c rest ih =>
    have hkept : (c.make a d).2.committed = d.committed := c.make_committed d
    rw [makeAll] at h
    revert h hkept
    obtain ⟨answer, next⟩ := c.make a d
    intro h hkept
    cases answer with
    | ok _ => exact (ih h).trans hkept
    | error e =>
      dsimp only at h
      split at h
      · exact (ih h).trans hkept
      · cases h

end Desk

/-- What a call that the store refuses does in a unit of work that goes on and commits, whatever the
dictionaries of its calls hold. If the store has found what was wrong, the outcome is as if the call
had not been made. But if the tables have refused a row, which they do only for what a schema or a
fresh id would have prevented, or what the columns turn into the commodity of another section, then
whatever was done before is lost: the outcome is that of the later calls alone. -/
theorem refused_call_in_unit_of_work (a : Affinity) (shelf : Shelf) (before after : List Call)
    (c : Call) (d d' : Desk) (e : Error) (reached : (Desk.start shelf).makeAll a before = some d)
    (refused : c.make a d = (.error e, d')) (caught : e.isRefusal) :
    (e.isCollision = false ∨ c.collides a d = false →
      shelf.unitOfWork a (before ++ c :: after) = shelf.unitOfWork a (before ++ after)) ∧
    (e.isCollision → c.collides a d ∧
      shelf.unitOfWork a (before ++ c :: after) = shelf.unitOfWork a after) := by
  have hcommitted : d.committed = shelf := Desk.makeAll_committed reached
  have hafter : (Desk.start shelf).makeAll a (before ++ after) = d.makeAll a after := by
    rw [Desk.makeAll_append, reached]
    rfl
  have hwith : (Desk.start shelf).makeAll a (before ++ c :: after) = d'.makeAll a after := by
    rw [Desk.makeAll_append, reached]
    show d.makeAll a (c :: after) = _
    rw [Desk.makeAll, refused]
    exact if_pos caught
  -- Either the desk goes on as it was, or it goes on as at the start of the unit of work.
  rcases c.make_refused refused caught with ⟨hfinding, rfl⟩ | ⟨hcollision, rfl, hcollides⟩
  · refine ⟨fun _ => ?_, fun hcollision => ?_⟩
    · rw [Shelf.unitOfWork, Shelf.unitOfWork, hwith, hafter]
    · rw [hfinding] at hcollision
      cases hcollision
  · refine ⟨fun hneither => ?_, fun _ => ⟨hcollides, ?_⟩⟩
    · rw [hcollision, hcollides] at hneither
      rcases hneither with h | h <;> cases h
    · rw [Shelf.unitOfWork, Shelf.unitOfWork, hwith, Desk.rollback, hcommitted]

def acmeDeclaring (id : Uuid) (seconds : Nat) : Call :=
  .create ⟨1⟩ ⟨id, ⟨seconds⟩⟩ (.text "customer") ⟨1⟩ [("food_grade", .bool false)] none

def acmeSealing (id : Uuid) (seconds : Nat) (data : Members) : Call :=
  .addSection .sealing ⟨id, ⟨seconds⟩⟩ ⟨10⟩ data

/-- A second declaration, a section that names no commodity, and the text 5 after the number 5. The
text is found to be taken once the section with the number has been read again. -/
theorem refused_call_in_unit_of_work_acme :
    let shelf : Shelf := { database := { leases := acmeTables } }
    let outcome := shelf.unitOfWork .standard
    let declare := acmeDeclaring ⟨10⟩ 0
    let number := acmeSealing ⟨11⟩ 1 [("commodity", .int 5)]
    let numeral := acmeSealing ⟨12⟩ 2 [("commodity", .text "5")]
    let reread := Call.forget SectionKind.sealing.table ⟨11⟩
    let later := [acmeSealing ⟨13⟩ 3 [("commodity", .text "Latex")], acmeDeclaring ⟨14⟩ 4]
    outcome ([declare] ++ acmeDeclaring ⟨12⟩ 2 :: later) = outcome ([declare] ++ later) ∧
    outcome ([declare] ++ acmeSealing ⟨12⟩ 2 [] :: later) = outcome later ∧
    outcome ([declare, number] ++ numeral :: later) = outcome later ∧
    outcome ([declare, number, reread] ++ numeral :: later) =
      outcome ([declare, number, reread] ++ later) ∧
    (outcome later).database.instructions.rows.map (·.id) = [⟨14⟩] ∧
    (outcome ([declare, number, reread] ++ later)).database.instructions.rows.flatMap
      (·.sealing.map (·.commodity)) = ["5", "Latex"] := by
  intro shelf outcome declare number numeral reread later
  have hagain := refused_call_in_unit_of_work .standard shelf [declare] later
    (acmeDeclaring ⟨12⟩ 2) _ _ _ rfl rfl rfl
  have hblank := refused_call_in_unit_of_work .standard shelf [declare] later
    (acmeSealing ⟨12⟩ 2 []) _ _ _ rfl rfl rfl
  have hnumeral := refused_call_in_unit_of_work .standard shelf [declare, number] later numeral
    _ _ _ rfl rfl rfl
  have hreread := refused_call_in_unit_of_work .standard shelf [declare, number, reread] later
    numeral _ _ _ rfl rfl rfl
  exact ⟨hagain.1 (.inl rfl), (hblank.2 rfl).2, (hnumeral.2 rfl).2, hreread.1 (.inl rfl),
    by decide +kernel, by decide +kernel⟩

/-- A section that names no commodity is refused, and what was declared before it is lost. -/
theorem blank_section_undoes_declaration :
    let shelf : Shelf := { database := { leases := acmeTables } }
    let ids (calls : List Call) :=
      (shelf.unitOfWork .standard calls).database.instructions.rows.map (·.id)
    let declare := acmeDeclaring ⟨10⟩ 0
    let blank := acmeSealing ⟨12⟩ 2 []
    ∃ d d' e, (Desk.start shelf).makeAll .standard [declare] = some d ∧
      blank.make .standard d = (.error e, d') ∧ e.isRefusal ∧
      ids [declare] = [⟨10⟩] ∧ ids [declare, blank] = [] := by
  intro shelf ids declare blank
  exact ⟨_, _, _, rfl, rfl, rfl, by decide +kernel, by decide +kernel⟩

end CarCare

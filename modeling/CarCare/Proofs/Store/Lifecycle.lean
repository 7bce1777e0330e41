import CarCare.Proofs.Store.Outcomes
import CarCare.Proofs.Store.Soundness
import Mathlib.Data.List.Infix

/-!
The life of an instruction: it is declared, it is retired, and then it stays in the store as it is.

What is proved:
  1. `Store.Move.extends` and `Database.run_extends`: a move, and so every run, forgets no row,
     brings none back and changes no retired one. This is `Store.Extends`.
  2. `InstructionRow.closed`: no request reads or changes a retired row of a sound store.
  3. `Service.delete_answer`: what deleting answers, for every id.
  4. `lifecycle_one_way`: the three together, for every run after every run.
-/
namespace CarCare

/-! ## Going on -/

/-- A store that goes on from another: every row is found by its id as before, current only if it was
current, and the same row if it was not. -/
def Store.Extends (s s' : Store) : Prop :=
  ∀ id r, s.row? id = some r → ∃ r', s'.row? id = some r' ∧
    (r'.isCurrent → r.isCurrent) ∧ (r.isCurrent = false → r' = r)

namespace Store
variable {s s' s'' : Store} {t : LeaseTables}

theorem Extends.refl (s : Store) : s.Extends s := fun _ r h => ⟨r, h, id, fun _ => rfl⟩

theorem Extends.trans (h : s.Extends s') (h' : s'.Extends s'') : s.Extends s'' := by
  intro id r hr
  obtain ⟨r', hr', hcurrent, hfrozen⟩ := h id r hr
  obtain ⟨r'', hr'', hcurrent', hfrozen'⟩ := h' id r' hr'
  refine ⟨r'', hr'', fun hc => hcurrent (hcurrent' hc), fun hretired => ?_⟩
  obtain rfl := hfrozen hretired
  exact hfrozen' hretired

theorem Move.extends {aim : Option Aim} (move : s.Move t aim s') : s.Extends s' := by
  intro id r hr
  obtain ⟨r', hr', hmade⟩ := move.row?_after hr
  rcases hmade with rfl | ⟨hcurrent, hrevision⟩
  · exact ⟨r', hr', fun hkept => hkept, fun _ => rfl⟩
  · -- Only a current row is revised, so nothing is asked of the revision of a retired one.
    obtain ⟨_, _, _, _, hkept⟩ := hrevision.frame
    exact ⟨r', hr', hkept, fun hretired => absurd hcurrent (by simp [hretired])⟩

end Store

theorem Database.run_append (db : Database) (before after : List Write) :
    db.run (before ++ after) = (db.run before).run after :=
  List.foldl_append

theorem Database.run_extends (db : Database) (h : db.Sound) (writes : List Write) :
    db.instructions.Extends (db.run writes).instructions := by
  -- Each write is one move, and the database it leaves is sound again.
  induction writes generalizing db with
  | nil => exact .refl _
  | cons w rest ih =>
    obtain ⟨_, hmove⟩ := w.move db h.ids
    exact hmove.extends.trans (ih (w.perform db) (w.perform_sound db h).2)

/-! ## Requests on a retired row -/

/-- A row that is closed to requests: it is not found, by its own id or by those of its sections, by
whatever reads or changes instructions, and deleting it answers that it was not current. Nothing is
changed by asking. -/
structure InstructionRow.Closed (db : Database) (r : InstructionRow) : Prop where
  get : Service.instruction db r.id = .error (.instructionNotFound r.id)
  update : ∀ now payload members, Service.accept .fields payload = .ok members →
    Service.update now db r.id payload = (.error (.instructionNotFound r.id), db)
  delete : ∀ now, Service.delete now db r.id = (.ok false, db)
  addSection : ∀ kind stamp payload members,
    Service.accept (.ofSection kind false) payload = .ok members →
      Service.addSection kind stamp db r.id payload = (.error (.instructionNotFound r.id), db)
  updateSection : ∀ kind, ∀ x ∈ r.sections kind, ∀ payload members,
    Service.accept (.ofSection kind true) payload = .ok members →
      Service.updateSection kind db x.id payload = (.error (.instructionNotFound r.id), db)
  removeSection : ∀ kind, ∀ x ∈ r.sections kind,
    Service.removeSection kind db x.id = (.error (.instructionNotFound r.id), db)

theorem Store.current?_eq_none_of_retired {s : Store} {r : InstructionRow} {id : Uuid}
    (found : s.row? id = some r) (retired : r.isCurrent = false) : s.current? id = none := by
  simp [current?, found, retired]

theorem InstructionRow.closed {db : Database} {r : InstructionRow} (h : db.Sound)
    (hr : r ∈ db.instructions.rows) (retired : r.isCurrent = false) :
    r.Closed db := by
  have hrow := Store.row?_of_mem h.ids hr
  have hcurrent := Store.current?_eq_none_of_retired hrow retired
  constructor
  case get => simp only [Service.instruction, hcurrent]
  case update =>
    intro now payload members haccept
    simp only [Service.update, Service.write, haccept]
    refine db.transact_refused ?_
    simp [Session.update, hcurrent, Service.existing]
  case delete =>
    intro now
    simp only [Service.delete, Database.transact, Session.store_start, hrow, Option.isSome_some,
      if_true, Session.retire, hcurrent]
    rfl
  case addSection =>
    intro kind stamp payload members haccept
    simp only [Service.addSection, Service.write, haccept]
    refine db.transact_refused ?_
    simp [Session.addSection, hcurrent]
  case updateSection =>
    intro kind x hx payload members haccept
    simp only [Service.updateSection, Service.write, haccept]
    refine db.transact_refused ?_
    simp [Session.updateSection, h.section?_of_mem hr hx, retired]
  case removeSection =>
    intro kind x hx
    refine db.transact_refused ?_
    simp [Session.removeSection, h.section?_of_mem hr hx, retired]

/-! ## Deleting -/

theorem Service.delete_answer (now : Timestamp) (db : Database) (id : Uuid) :
    (delete now db id).1 = match db.instructions.row? id with
      | none => .error (.instructionNotFound id)
      | some r => .ok r.isCurrent := by
  cases hrow : db.instructions.row? id with
  | none => simp [delete, Database.transact, hrow]
  | some r =>
    cases hr : r.isCurrent with
    | false =>
      have hcurrent := Store.current?_eq_none_of_retired hrow hr
      simp [delete, Database.transact, Session.retire, hrow, hcurrent, hr]
    | true =>
      rw [delete_of_current (Store.current?_eq_some.mpr ⟨hrow, hr⟩)]
      exact congrArg Except.ok hr.symm

theorem Service.delete_answer_ok {now : Timestamp} {db : Database} {id : Uuid} {b : Bool} :
    (delete now db id).1 = .ok b ↔
      ∃ r, db.instructions.row? id = some r ∧ r.isCurrent = b := by
  rw [delete_answer]
  cases db.instructions.row? id <;> simp

theorem Service.delete_answer_error {now : Timestamp} {db : Database} {id : Uuid} :
    (delete now db id).1 = .error (.instructionNotFound id) ↔ db.instructions.row? id = none := by
  rw [delete_answer]
  cases db.instructions.row? id <;> simp

/-! ## Runs -/

theorem Database.run_row?_eq_none (db : Database) (h : db.Sound) (writes : List Write) (id : Uuid) :
    (db.run writes).instructions.row? id = none ↔
      ∀ earlier, earlier <+: writes → (db.run earlier).instructions.row? id = none := by
  refine ⟨fun hnone earlier hprefix => ?_, fun hall => hall writes List.prefix_rfl⟩
  obtain ⟨later, rfl⟩ := hprefix
  cases hrow : (db.run earlier).instructions.row? id with
  | none => rfl
  | some r =>
    -- A row that was there once would still be found.
    obtain ⟨r', hr', _⟩ := (db.run earlier).run_extends (db.run_sound h earlier).2 later id r hrow
    rw [db.run_append, hr'] at hnone
    cases hnone

/-- The life of instructions over leasing tables, from a store without any, after every run of writes
and through every further one: no id is forgotten, no retired instruction comes back, and none of its
columns and sections change any more; requests on a retired instruction and on its sections are
refused; and deleting answers whether the instruction was current, if there ever was one. -/
theorem lifecycle_one_way (leases : LeaseTables) (before after : List Write) :
    let db := Database.run { leases } before
    (∀ id r, db.instructions.row? id = some r →
      ∃ r', (db.run after).instructions.row? id = some r' ∧
        (r'.isCurrent → r.isCurrent) ∧ (r.isCurrent = false → r' = r)) ∧
    (∀ r ∈ db.instructions.rows, db.instructions.row? r.id = some r) ∧
    (∀ r ∈ db.instructions.rows, r.isCurrent = false → r.Closed db) ∧
    ∀ now id,
      ((Service.delete now db id).1 = .ok true ↔
        ∃ r, db.instructions.row? id = some r ∧ r.isCurrent) ∧
      ((Service.delete now db id).1 = .error (.instructionNotFound id) ↔
        ∀ earlier, earlier <+: before →
          (Database.run { leases } earlier).instructions.row? id = none) := by
  intro db
  have hstart : ({ leases } : Database).Sound := .empty leases
  obtain ⟨_, hsound⟩ := Database.run_sound { leases } hstart before
  refine ⟨db.run_extends hsound after, fun r => Store.row?_of_mem hsound.ids,
    fun r => InstructionRow.closed hsound, fun now id => ⟨Service.delete_answer_ok, ?_⟩⟩
  rw [Service.delete_answer_error]
  exact Database.run_row?_eq_none { leases } hstart before id

/-- Writes that ask for the retired instruction of that customer to be changed, and for another one of
its id. -/
def acmeLater : List Write :=
  [.update ⟨6⟩ ⟨10⟩ (.object [("food_grade", .bool true)]), .removeSection .sealing ⟨11⟩,
   .delete ⟨7⟩ ⟨13⟩, acmeCreate ⟨10⟩ 8]

theorem lifecycle_one_way_redeclared :
    let db := Database.run { leases := acmeTables } acmeWrites
    ∃ r, db.instructions.row? ⟨10⟩ = some r ∧ r.isCurrent = false ∧
      (db.run acmeLater).instructions.row? ⟨10⟩ = some r ∧
      (∃ x ∈ r.sections .sealing,
        Service.removeSection .sealing db x.id = (.error (.instructionNotFound r.id), db)) ∧
      (Service.delete ⟨9⟩ db ⟨13⟩).1 = .ok true ∧
      (Service.delete ⟨9⟩ db ⟨14⟩).1 = .error (.instructionNotFound ⟨14⟩) := by
  intro db
  obtain ⟨hextends, hfound, hclosed, hdelete⟩ := lifecycle_one_way acmeTables acmeWrites acmeLater
  have hretired : ∃ r ∈ db.instructions.rows, r.id = ⟨10⟩ ∧ r.isCurrent = false ∧
      ∃ x ∈ r.sections .sealing, x.id = ⟨11⟩ := by decide +kernel
  obtain ⟨r, hr, hid, hcurrent, x, hx, _⟩ := hretired
  have hrow : db.instructions.row? ⟨10⟩ = some r := hid ▸ hfound r hr
  obtain ⟨r', hr', _, hfrozen⟩ := hextends ⟨10⟩ r hrow
  have hheld : ∃ r ∈ db.instructions.rows, r.id = ⟨13⟩ ∧ r.isCurrent := by decide +kernel
  obtain ⟨a, ha, haid, hacurrent⟩ := hheld
  have hunknown : ∀ earlier ∈ acmeWrites.inits,
      ((Database.run { leases := acmeTables } earlier).instructions.row? ⟨14⟩).isNone := by
    decide +kernel
  refine ⟨r, hrow, hcurrent, hfrozen hcurrent ▸ hr', ⟨x, hx, ?_⟩, ?_, ?_⟩
  · exact (hclosed r hr hcurrent).removeSection .sealing x hx
  · exact (hdelete ⟨9⟩ ⟨13⟩).1.mpr ⟨a, haid ▸ hfound a ha, hacurrent⟩
  · refine (hdelete ⟨9⟩ ⟨14⟩).2.mpr fun earlier hprefix => ?_
    exact Option.isNone_iff_eq_none.mp (hunknown earlier ((List.mem_inits _ _).mpr hprefix))

end CarCare

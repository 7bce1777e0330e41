import CarCare.Proofs.Hierarchy.Listing
import CarCare.Proofs.Store.Outcomes
import CarCare.Proofs.Store.Readers
import CarCare.Proofs.Store.Soundness

/-!
Deleting an instruction undoes its declaration. The row and its sections stay in the store, but no
reader sees them, whatever was done to the instruction in between.

What is proved:
  1. `Store.Adds.move`: while an instruction is edited, the store is the one that it was declared in,
     with one current row added. `Store.Adds` is the invariant.
  2. `Database.edits_adds`: so it is after every run of edits.
  3. `deleting_undoes_creating`: hence, after the row is retired, every read answers as before, and
     the scope is free again.
-/
namespace CarCare

/-! ## One row more -/

/-- A store that has one row more than another, a current one of a new id. -/
structure Store.Adds (old s : Store) (row : InstructionRow) : Prop where
  rows : s.rows = old.rows ++ [row]
  fresh : ∀ r ∈ old.rows, r.id ≠ row.id
  current : row.isCurrent

namespace Store.Adds
variable {old s s' : Store} {t : LeaseTables} {row new : InstructionRow}

theorem current? (h : old.Adds s row) : s.current? row.id = some row := by
  have hrow : (⟨old.rows ++ [row]⟩ : Store).row? row.id = some row :=
    row?_append_self (row?_eq_none.mpr h.fresh)
  rw [← h.rows] at hrow
  exact current?_eq_some.mpr ⟨hrow, h.current⟩

theorem replace_rows (h : old.Adds s row) (same : new.id = row.id) :
    (s.replace new).rows = old.rows ++ [new] := by
  have hfresh : old.row? new.id = none := same ▸ row?_eq_none.mpr h.fresh
  have hreplaced := replace_append hfresh same.symm
  rw [← h.rows] at hreplaced
  exact congrArg Store.rows hreplaced

theorem move (h : old.Adds s row) {aim : Option Aim} (own : ∀ a, aim = some a → a = .edit row.id)
    (move : s.Move t aim s') : ∃ new, new.id = row.id ∧ old.Adds s' new := by
  cases move with
  | stay => exact ⟨row, rfl, h⟩
  | declare _ _ _ _ _ _ _ _ _ _ _ => cases own _ rfl
  | retire _ _ _ => cases own _ rfl
  | revise edited new found revision kept =>
    have hid : edited.id = row.id := Aim.edit.inj (own _ rfl)
    have hnew : new.id = row.id := revision.frame.1.trans hid
    refine ⟨new, hnew, h.replace_rows hnew, fun r hr => ?_, kept⟩
    rw [hnew]
    exact h.fresh r hr

theorem shown_retired (h : old.Adds s row) (now : Timestamp) :
    (s.replace { row with isCurrent := false, updatedAt := now }).shown = old.shown := by
  have hrows : (s.replace { row with isCurrent := false, updatedAt := now }).rows =
      old.rows ++ [{ row with isCurrent := false, updatedAt := now }] := h.replace_rows rfl
  rw [shown, hrows, List.filter_append]
  exact List.append_nil _

end Store.Adds

/-! ## Runs of edits -/

/-- Whether the writes of a run are all for one instruction: to edit it or its sections. A write
that has no aim changes nothing. -/
def Database.edits (db : Database) (id : Uuid) : List Write → Bool
  | [] => true
  | w :: rest => (w.aim? db).all (· == .edit id) && (w.perform db).edits id rest

theorem Database.edits_adds {old : Store} {db : Database} {row : InstructionRow} {id : Uuid}
    (reached : db.instructions.Reached) (h : old.Adds db.instructions row)
    (hid : row.id = id) (edits : List Write) (own : db.edits id edits) :
    (db.run edits).leases = db.leases ∧
      ∃ new, new.id = id ∧ old.Adds (db.run edits).instructions new := by
  -- The row may be another one after each edit, but it keeps its id and its place at the end.
  induction edits generalizing db row with
  | nil => exact ⟨rfl, row, hid, h⟩
  | cons w rest ih =>
    obtain ⟨hw, hrest⟩ := Bool.and_eq_true_iff.mp own
    obtain ⟨hleases, hmove⟩ := w.move db reached.filed.ids
    have haim : ∀ a, w.aim? db = some a → a = .edit row.id := by
      intro a ha
      rw [ha] at hw
      rw [hid]
      exact beq_iff_eq.mp hw
    obtain ⟨new, hnew, hadds⟩ := h.move haim hmove
    obtain ⟨hrun, hlast⟩ := ih (.write reached db.leases w) hadds (hnew.trans hid) hrest
    exact ⟨hrun.trans hleases, hlast⟩

theorem Service.create_adds {service : Service} {stamp : Stamp} {db db' : Database}
    {level scope fields : Value} {actor : Option Uuid} {r : Instruction}
    (created : service.create stamp db level scope fields actor = (.ok r, db')) :
    r.id = some stamp.id ∧ db'.leases = db.leases ∧
      ∃ row, row.id = stamp.id ∧ db.instructions.Adds db'.instructions row := by
  obtain ⟨l, id, members, info, _, _, _, _, _, hnew, rfl, rfl⟩ := create_eq_ok.mp created
  exact ⟨rfl, rfl, _, rfl, rfl, Store.row?_eq_none.mp hnew, rfl⟩

/-- What could be declared in a database can be declared in one that is read alike, on any day and
with any id that is new there. -/
theorem Service.create_again {service service' : Service} {stamp stamp' : Stamp}
    {db db' db₁ : Database} {level scope fields : Value} {actor : Option Uuid} {r : Instruction}
    (created : service.create stamp db level scope fields actor = (.ok r, db₁))
    (leases : db'.leases = db.leases) (shown : db'.instructions.shown = db.instructions.shown)
    (fresh : db'.instructions.row? stamp'.id = none) :
    ∃ r' db₂, service'.create stamp' db' level scope fields actor = (.ok r', db₂) := by
  obtain ⟨l, id, members, info, hl, hid, haccepted, hinfo, hfree, _, _, _⟩ :=
    create_eq_ok.mp created
  have hknown : ((service'.directory db').scope? l id).isSome := by
    show ((db'.leases.directory service'.today).scope? l id).isSome
    rw [leases, LeaseTables.scope?_isSome _ service.today]
    exact Option.isSome_of_eq_some hinfo
  obtain ⟨info', hinfo'⟩ := Option.isSome_iff_exists.mp hknown
  have hfree' : db'.instructions.byScope? l id = none := by
    rw [Store.byScope?_shown, shown, ← Store.byScope?_shown]
    exact hfree
  exact ⟨_, _, create_eq_ok.mpr
    ⟨l, id, members, info', hl, hid, haccepted, hinfo', hfree', fresh, rfl, rfl⟩⟩

/-- Deleting undoes declaring for every reader, over any leasing tables and any store that writes
lead to. An instruction that was declared can be deleted, whatever writes have edited it and its
sections since; and then every read answers as it did before the declaration, whatever it asks for,
and the same can be declared again under any id that is new. -/
theorem deleting_undoes_creating (db : Database) (reached : db.instructions.Reached)
    (service : Service) (stamp : Stamp) (level scope fields : Value) (actor : Option Uuid)
    (r : Instruction) (db₁ : Database)
    (created : service.create stamp db level scope fields actor = (.ok r, db₁))
    (edits : List Write) (own : db₁.edits stamp.id edits) (now : Timestamp) :
    r.id = some stamp.id ∧
    ∃ db₂, Service.delete now (db₁.run edits) stamp.id = (.ok true, db₂) ∧
      db₂.ReadAlike db ∧
      ∀ (service' : Service) (stamp' : Stamp), db₂.instructions.row? stamp'.id = none →
        ∃ r' db₃, service'.create stamp' db₂ level scope fields actor = (.ok r', db₃) := by
  obtain ⟨hr, hleases, row, hrow, hadds⟩ := Service.create_adds created
  have hreached : db₁.instructions.Reached := by
    have hperform : (Write.create service stamp level scope fields actor).perform db = db₁ :=
      congrArg Prod.snd created
    rw [← hperform]
    exact .write reached db.leases _
  obtain ⟨hrun, new, hnew, hadds⟩ := Database.edits_adds hreached hadds hrow edits own
  have hcurrent : (db₁.run edits).instructions.current? stamp.id = some new := hnew ▸ hadds.current?
  have hshown := hadds.shown_retired now
  have hsame : (db₁.run edits).leases = db.leases := hrun.trans hleases
  refine ⟨hr, _, Service.delete_of_current hcurrent now,
    Database.readAlike_of_shown hsame hshown ?_ reached.filed.ids,
    fun service' stamp' hfresh => Service.create_again created hsame hshown hfresh⟩
  show ((Store.replace _ _).rows.map (·.id)).Nodup
  rw [Store.replace_ids]
  exact (Database.run_reached db₁ hreached edits).filed.ids

/-- Edits of an instruction, of which one fails: it gets a section that is changed, and a field. -/
def deletedEdits : List Write :=
  [.addSection .sealing ⟨⟨61⟩, ⟨4⟩⟩ ⟨60⟩ (.object [("commodity", .text "Latex")]),
   .update ⟨5⟩ ⟨60⟩ (.object [("kosher_wash", .bool true)]),
   .update ⟨6⟩ ⟨60⟩ (.object [("kosher_wash", .text "perhaps")]),
   .updateSection .sealing ⟨61⟩ (.object [("commodity", .text "Molasses")])]

theorem deleting_undoes_creating_amendment :
    let declared := Database.run { leases := danglingTables } [acmeCreate ⟨50⟩ 0]
    let db : Database := { leases := danglingTables, instructions := declared.instructions }
    let service : Service := { today := ⟨5⟩ }
    let create (stamp : Stamp) (db : Database) := service.create stamp db (.text "amendment")
      (.text "00000000-0000-0000-0000-000000000020") (.object [("food_grade", .bool true)]) none
    ∃ r db₁ db₂, create ⟨⟨60⟩, ⟨3⟩⟩ db = (.ok r, db₁) ∧
      Service.delete ⟨7⟩ (db₁.run deletedEdits) ⟨60⟩ = (.ok true, db₂) ∧
      db₂.instructions.rows.map (fun r => (r.id, r.isCurrent, r.sealing.map (·.commodity))) =
        [(⟨50⟩, true, []), (⟨60⟩, false, ["Molasses"])] ∧
      service.resolveScope db₂ (.text "amendment") ⟨32⟩ =
        service.resolveScope db (.text "amendment") ⟨32⟩ ∧
      Service.instruction db₂ ⟨60⟩ = Service.instruction db ⟨60⟩ ∧
      ∃ r' db₃, create ⟨⟨70⟩, ⟨8⟩⟩ db₂ = (.ok r', db₃) := by
  intro declared db service create
  have hreached : db.instructions.Reached :=
    Database.run_reached { leases := danglingTables } .empty _
  have hok : (create ⟨⟨60⟩, ⟨3⟩⟩ db).1.isOk := by decide +kernel
  have hown : (create ⟨⟨60⟩, ⟨3⟩⟩ db).2.edits ⟨60⟩ deletedEdits := by decide +kernel
  have hrows : ((Service.delete ⟨7⟩ ((create ⟨⟨60⟩, ⟨3⟩⟩ db).2.run deletedEdits) ⟨60⟩).2
      ).instructions.rows.map (fun r => (r.id, r.isCurrent, r.sealing.map (·.commodity))) =
        [(⟨50⟩, true, []), (⟨60⟩, false, ["Molasses"])] := by decide +kernel
  cases hcreated : create ⟨⟨60⟩, ⟨3⟩⟩ db with
  | mk answer db₁ =>
    rw [hcreated] at hok hown hrows
    cases answer with
    | error e => cases hok
    | ok r =>
      obtain ⟨_, db₂, hdelete, halike, hagain⟩ :=
        deleting_undoes_creating db hreached service ⟨⟨60⟩, ⟨3⟩⟩ _ _ _ _ r db₁ hcreated
          deletedEdits hown ⟨7⟩
      rw [hdelete] at hrows
      have hfresh : db₂.instructions.row? ⟨70⟩ = none := by
        refine Store.row?_eq_none.mpr fun x hx hid => ?_
        have hlisted := List.mem_map_of_mem (f := fun r : InstructionRow =>
          (r.id, r.isCurrent, r.sealing.map (·.commodity))) hx
        rw [hrows, hid] at hlisted
        simp at hlisted
      exact ⟨r, db₁, db₂, rfl, hdelete, hrows, halike.resolveScope service _ _,
        halike.instruction _, hagain service ⟨⟨70⟩, ⟨8⟩⟩ hfresh⟩

end CarCare

import CarCare.Proofs.Resolution.Requests
import CarCare.Proofs.Store.Reached

/-!
Isolation of scopes: a write is seen at the scope it acts at, and nowhere else. All levels share one
table with a column for each, so this rests on a row having one of the columns, that of its level.

What is proved:
  1. `Store.Move.byScope?_of_ne`: a move leaves the current rows of all other scopes as they are.
  2. `resolve_congr`: a path resolves to the same where its own scopes have the same records.
  3. `writes_stay_in_their_scope`: so a path without the scope of a write resolves as before, and so
     is the record of every other scope.
-/
namespace CarCare

/-! ## The scope of a write -/

def InstructionRow.scope? (r : InstructionRow) : Option (Level × Uuid) :=
  (r.scopes.get r.level).map (r.level, ·)

/-- The scope of an aim in a store: the one to be declared, or that of the instruction it names. -/
def Aim.scope? (s : Store) : Aim → Option (Level × Uuid)
  | .declare level scope => some (level, scope)
  | .edit id | .retire id => (s.row? id).bind (·.scope?)

def Write.scope? (db : Database) (w : Write) : Option (Level × Uuid) :=
  (w.aim? db).bind (·.scope? db.instructions)

theorem InstructionRow.Filed.scope?_eq_some {r : InstructionRow} (h : r.Filed) {level : Level}
    {scope : Uuid} : r.scope? = some (level, scope) ↔ r.scopes.get level = some scope := by
  obtain ⟨own, hown⟩ := h.scopes
  rw [scope?, hown, ScopeIds.get_only_self, Option.map_some]
  by_cases hlevel : level = r.level
  · subst hlevel
    rw [ScopeIds.get_only_self]
    simp
  · rw [ScopeIds.get_only_of_ne hlevel]
    simp [Ne.symm hlevel]

/-! ## Current rows of other scopes -/

namespace Store
variable {s s' : Store} {t : LeaseTables} {row new : InstructionRow} {level : Level} {scope : Uuid}

theorem byScope?_append_of_ne (other : new.scopes.get level ≠ some scope) :
    (⟨s.rows ++ [new]⟩ : Store).byScope? level scope = s.byScope? level scope := by
  have hnew : (new.isCurrent && new.scopes.get level == some scope) = false := by simp [other]
  rw [byScope?, byScope?, List.find?_append, List.find?_singleton, hnew]
  exact Option.or_none

theorem byScope?_replace_of_ne (ids : (s.rows.map (·.id)).Nodup) (found : s.row? new.id = some row)
    (same : new.scopes = row.scopes) (other : row.scopes.get level ≠ some scope) :
    (s.replace new).byScope? level scope = s.byScope? level scope := by
  refine find?_map_of_unfit fun a ha => ?_
  by_cases hid : a.id = new.id
  · -- The row with this id is the one that is replaced, and neither is declared at the scope.
    have hrow : a = row := by
      have ha := row?_of_mem ids ha
      rw [hid, found] at ha
      exact (Option.some.inj ha).symm
    rw [if_pos hid, hrow]
    exact .inr ⟨by simp [other], by simp [same, other]⟩
  · exact .inl (if_neg hid)

theorem Revision.byScope?_of_ne (filed : s.Filed) (found : s.current? row.id = some row)
    (revision : s.Revision row new) (other : row.scope? ≠ some (level, scope)) :
    (s.replace new).byScope? level scope = s.byScope? level scope := by
  obtain ⟨hid, _, hscopes, _, _⟩ := revision.frame
  have hrow := (current?_eq_some.mp found).1
  rw [ne_eq, (filed.rows row (row?_eq_some hrow).1).scope?_eq_some] at other
  exact byScope?_replace_of_ne filed.ids (hid ▸ hrow) hscopes other

theorem Move.byScope?_of_ne (filed : s.Filed) {aim : Option Aim} (move : s.Move t aim s')
    (other : aim.bind (·.scope? s) ≠ some (level, scope)) :
    s'.byScope? level scope = s.byScope? level scope := by
  -- A write that is aimed at a row is aimed at the scope of this row.
  have haimed : ∀ row : InstructionRow, s.current? row.id = some row →
      (s.row? row.id).bind (·.scope?) = row.scope? := by
    intro row hfound
    rw [(current?_eq_some.mp hfound).1, Option.bind_some]
  cases move with
  | stay => rfl
  | declare today stamp l id info fields actor known free accepted legal =>
    refine byScope?_append_of_ne fun hnew => other ?_
    have hnew : (ScopeIds.only l id).get level = some scope := hnew
    by_cases hl : level = l
    · subst hl
      rw [ScopeIds.get_only_self] at hnew
      rw [← Option.some.inj hnew]
      rfl
    · rw [ScopeIds.get_only_of_ne hl] at hnew
      cases hnew
  | revise row new found revision _ =>
    exact revision.byScope?_of_ne filed found (haimed row found ▸ other)
  | retire row now found =>
    exact (Revision.retired now).byScope?_of_ne filed found (haimed row found ▸ other)

end Store

theorem Write.perform_read_of_ne {db : Database} (filed : db.instructions.Filed) (w : Write)
    {level : Level} {scope : Uuid} (other : w.scope? db ≠ some (level, scope)) :
    (w.perform db).instructions.read level scope = db.instructions.read level scope := by
  have hmove := (w.move db filed.ids).2
  rw [Store.read, Store.read, hmove.byScope?_of_ne filed other]

/-! ## Paths through other scopes -/

theorem resolve_congr {look look' : Level → Uuid → Option Instruction} {path : Path}
    (same : ∀ l i, (path.step l).id = some i → look' l i = look l i) :
    resolve (m := Id) look' path = resolve (m := Id) look path := by
  have hlayers : path.layers look' = path.layers look := by
    rw [Path.layers_eq, Path.layers_eq]
    refine List.map_congr_left fun l _ => ?_
    have hrecord : path.record? look' l = path.record? look l := by
      unfold Path.record?
      cases hid : (path.step l).id with
      | none => rfl
      | some i => exact same l i hid
    rw [hrecord]
  cases hcustomer : path.customer.id with
  | none => simp only [resolve, hcustomer]
  | some c =>
    have rooted : path.customer.id.isSome := Option.isSome_iff_exists.mpr ⟨c, hcustomer⟩
    rw [resolve_id look' path rooted, resolve_id look path rooted, hlayers]

/-- A write acts at one scope, over any leasing tables and any store that writes lead to: that of the
instruction it declares, changes or retires, or whose section it adds, changes or removes. Every path
that does not have this scope at its level resolves to the same before and after, and the current
record of every other scope is the same. An id of another level is another scope, even if the two
are equal. -/
theorem writes_stay_in_their_scope (db : Database) (reached : db.instructions.Reached) (w : Write) :
    (∀ path : Path, (∀ l i, w.scope? db = some (l, i) → (path.step l).id ≠ some i) →
      resolve (m := Id) (Service.reader (w.perform db)) path =
        resolve (m := Id) (Service.reader db) path) ∧
    ∀ (level : Value) (scope : Uuid),
      (∀ l, Level.parse level = .ok l → w.scope? db ≠ some (l, scope)) →
        Service.instructionAt (w.perform db) level scope = Service.instructionAt db level scope := by
  refine ⟨fun path hpath => resolve_congr fun l i hid => ?_, fun level scope hscope => ?_⟩
  · exact w.perform_read_of_ne reached.filed fun h => hpath l i h hid
  · unfold Service.instructionAt
    cases hl : Level.parse level with
    | error e => rfl
    | ok l =>
      have hread := w.perform_read_of_ne reached.filed (hscope l hl)
      simp only [bind, Except.bind, hread]

/-- Leasing tables in which a rider has the id of a customer that it does not belong to. -/
def sharedIdTables : LeaseTables where
  customers := [⟨⟨1⟩, "ACME", "Acme", true⟩, ⟨⟨2⟩, "GRNR", "Granary", true⟩]
  leases := [⟨⟨10⟩, ⟨2⟩, "L10", none, activeStatus⟩]
  riders := [⟨⟨1⟩, ⟨10⟩, "R1", none, activeStatus⟩]

/-- Declares an instruction with a sealing for that customer, and one for that rider. -/
def sharedIdWrites : List Write :=
  [acmeCreate ⟨50⟩ 0,
   .addSection .sealing ⟨⟨51⟩, ⟨1⟩⟩ ⟨50⟩ (.object [("commodity", .text "Latex")]),
   .create { today := ⟨1⟩ } ⟨⟨60⟩, ⟨2⟩⟩ (.text "rider")
     (.text "00000000-0000-0000-0000-000000000001") (.object [("food_grade", .bool true)]) none]

theorem writes_stay_in_their_scope_shared_id :
    let v : Service := { today := ⟨5⟩ }
    let declared := Database.run { leases := sharedIdTables } sharedIdWrites
    let db : Database := { leases := sharedIdTables, instructions := declared.instructions }
    let rename : Write := .updateSection .sealing ⟨51⟩ (.object [("commodity", .text "Molasses")])
    rename.scope? db = some (.customer, ⟨1⟩) ∧
    ((rename.perform db).instructions.read .customer ⟨1⟩).map (·.sealing.map (·.commodity)) =
      some ["Molasses"] ∧
    (∃ path e, (v.directory db).pathForScope .rider ⟨1⟩ = .ok path ∧ path.rider.id = some ⟨1⟩ ∧
      resolve (m := Id) (Service.reader db) path = .ok e ∧
      resolve (m := Id) (Service.reader (rename.perform db)) path = .ok e ∧
      e.fields .foodGrade = some ⟨.flag true, .rider⟩) ∧
    Service.instructionAt (rename.perform db) (.text "rider") ⟨1⟩ =
      Service.instructionAt db (.text "rider") ⟨1⟩ := by
  intro v declared db rename
  have hreached : db.instructions.Reached :=
    Database.run_reached { leases := sharedIdTables } .empty sharedIdWrites
  have hscope : rename.scope? db = some (.customer, ⟨1⟩) := by decide +kernel
  obtain ⟨hpaths, hrecords⟩ := writes_stay_in_their_scope db hreached rename
  refine ⟨hscope, by decide +kernel, ?_, ?_⟩
  · have hresolved := resolve_id (Service.reader db)
      ⟨⟨some ⟨2⟩, some "Granary"⟩, ⟨some ⟨10⟩, some "L10"⟩, ⟨some ⟨1⟩, some "R1"⟩, {}⟩ rfl
    refine ⟨_, _, rfl, rfl, hresolved, (hpaths _ fun l i hl => ?_).trans hresolved,
      by decide +kernel⟩
    obtain ⟨rfl, rfl⟩ := Prod.mk.inj (Option.some.inj (hscope.symm.trans hl))
    decide
  · refine hrecords _ _ fun l hl => ?_
    obtain rfl : Level.rider = l := Except.ok.inj hl
    rw [hscope]
    decide

end CarCare

import CarCare.Proofs.Store.Rows
import CarCare.Proofs.Store.Write

/-!
What writes can do.

What is proved: `Write.move`, that a write leaves the leasing tables alone and makes at most one
`Store.Move`. A move adds one new row for a free scope, puts one `Store.Revision` of a current row in
its place, or retires a current row; and it does so where the write is aimed. This says once what the
nine requests can do; whatever holds of every run is shown of moves, and nothing else has to look
into the requests.
-/
namespace CarCare

/-- Fields that a write sets: those of a payload that the schema accepts. -/
def Fields.Accepted (fields : Fields) : Prop :=
  ∃ payload members, Service.accept .fields payload = .ok members ∧ fields = .ofMembers members

/-- A change of a section, or what a new one holds: that of a payload that the schema accepts. -/
def SectionChange.Accepted (kind : SectionKind) (existing : Bool) (c : SectionChange) : Prop :=
  ∃ payload members, Service.accept (.ofSection kind existing) payload = .ok members ∧
    c = .ofMembers kind members

/-- What a write is made for: to declare the instruction of a scope, to edit a stored instruction or
its sections, or to retire one. -/
inductive Aim where
  | declare (level : Level) (scope : Uuid)
  | edit (instruction : Uuid)
  | retire (instruction : Uuid)
deriving DecidableEq

/-- The aim of a write. There is none if it names a scope that cannot be read, or a section that is
not in the database. -/
def Write.aim? (db : Database) : Write → Option Aim
  | .create _ _ level scope _ _ =>
    match Level.parse level, Service.acceptScopeId scope with
    | .ok level, .ok scope => some (.declare level scope)
    | _, _ => none
  | .update _ id _ | .addSection _ _ id _ => some (.edit id)
  | .delete _ id => some (.retire id)
  | .updateSection kind id _ | .removeSection kind id =>
    (db.instructions.section? kind id).map fun held => .edit held.1.id

namespace Store

/-- What a write can make of a row. -/
inductive Revision (s : Store) (row : InstructionRow) : InstructionRow → Prop
  | overlaid (now : Timestamp) (change : Fields) (accepted : change.Accepted) :
      Revision s row (Session.overlaid now change row)
  | retired (now : Timestamp) :
      Revision s row { row with isCurrent := false, updatedAt := now }
  | sectionAdded (kind : SectionKind) (stamp : Stamp) (change : SectionChange) (new : SectionRow)
      (accepted : change.Accepted kind false)
      (made : change.create kind stamp = .ok new)
      (legal : s.sectionFault? kind (row.sections kind) new = none) :
      Revision s row (row.withSections kind (row.sections kind ++ [new]))
  | sectionChanged (kind : SectionKind) (change : SectionChange) (old new : SectionRow)
      (accepted : change.Accepted kind true)
      (found : s.section? kind old.id = some (row, old))
      (free : Session.renamedOnto? kind row old change = none)
      (applied : change.apply kind old = .ok new) :
      Revision s row (row.withSections kind
        ((row.sections kind).map fun x => if x.id = old.id then new else x))
  | sectionRemoved (kind : SectionKind) (old : SectionRow)
      (found : s.section? kind old.id = some (row, old)) :
      Revision s row (row.withSections kind ((row.sections kind).filter (·.id != old.id)))

/-- What a write with an aim can make of a store over leasing tables. -/
inductive Move (t : LeaseTables) (s : Store) : Option Aim → Store → Prop
  | stay (aim : Option Aim) : Move t s aim s
  | declare (today : Date) (stamp : Stamp) (level : Level) (scope : Uuid) (info : Scope)
      (fields : Fields) (actor : Option Uuid)
      (known : (t.directory today).scope? level scope = some info)
      (free : s.byScope? level scope = none)
      (accepted : fields.Accepted)
      (legal : s.fault? (Session.newRow stamp level scope info.name fields actor) = none) :
      Move t s (some (.declare level scope))
        ⟨s.rows ++ [Session.newRow stamp level scope info.name fields actor]⟩
  | revise (row new : InstructionRow)
      (found : s.current? row.id = some row)
      (revision : s.Revision row new)
      (kept : new.isCurrent) :
      Move t s (some (.edit row.id)) (s.replace new)
  | retire (row : InstructionRow) (now : Timestamp)
      (found : s.current? row.id = some row) :
      Move t s (some (.retire row.id))
        (s.replace { row with isCurrent := false, updatedAt := now })

end Store

/-! ## Requests of a session -/

/-- A request with an aim that has made a move if it succeeds. -/
structure Session.Moves (s : Session) (aim : Option Aim) {α : Type} (out : Session.Outcome α) :
    Prop where
  leases : out.1.isOk → out.2.working.leases = s.working.leases
  store : out.1.isOk → s.store.Move s.working.leases aim out.2.store

namespace Session
variable {s : Session} {aim : Option Aim} {α : Type}

theorem Moves.refused (e : Error) : s.Moves aim ((.error e, s) : Outcome α) :=
  ⟨nofun, nofun⟩

theorem Moves.undone (e : Error) : s.Moves aim ((.error e, s.rollback) : Outcome α) :=
  ⟨nofun, nofun⟩

theorem Moves.unchanged (a : α) : s.Moves aim ((.ok a, s) : Outcome α) :=
  ⟨fun _ => rfl, fun _ => .stay aim⟩

theorem Moves.changed (a : α) {store : Store} (h : s.store.Move s.working.leases aim store) :
    s.Moves aim ((.ok a, s.withStore store) : Outcome α) :=
  ⟨fun _ => rfl, fun _ => h⟩

theorem create_moves (today : Date) (stamp : Stamp) (level : Level) (scope : Uuid) (fields : Fields)
    (actor : Option Uuid) (accepted : fields.Accepted) :
    s.Moves (some (.declare level scope)) (create today stamp level scope fields actor s) := by
  unfold create
  split
  · exact .refused _
  · rename_i info hinfo
    split
    · exact .refused _
    · rename_i hfree
      simp only [Bool.not_eq_true, Option.isSome_eq_false_iff, Option.isNone_iff_eq_none] at hfree
      dsimp only
      split
      · rename_i store hinsert
        obtain ⟨hlegal, rfl⟩ := Store.insert_eq hinsert
        exact .changed _ (.declare today stamp level scope info fields actor hinfo hfree accepted
          hlegal)
      · exact .undone _

theorem update_moves (now : Timestamp) (id : Uuid) (change : Fields)
    (accepted : change.Accepted) : s.Moves (some (.edit id)) (update now id change s) := by
  unfold update
  split
  · exact .unchanged _
  · rename_i row hrow
    obtain rfl := Store.current?_id hrow
    obtain ⟨_, _, _, _, hcurrent, _⟩ := overlaid_frame now change row
    exact .changed _ (.revise row _ hrow (.overlaid now change accepted)
      (hcurrent.trans (Store.current?_eq_some.mp hrow).2))

theorem retire_moves (now : Timestamp) (id : Uuid) :
    s.Moves (some (.retire id)) (retire now id s) := by
  unfold retire
  split
  · exact .unchanged _
  · rename_i row hrow
    obtain rfl := Store.current?_id hrow
    exact .changed _ (.retire row now hrow)

theorem Moves.sections {row : InstructionRow} (found : s.store.current? row.id = some row)
    (kind : SectionKind) (l : List SectionRow)
    (revision : s.store.Revision row (row.withSections kind l)) (a : α) :
    s.Moves (some (.edit row.id))
      ((.ok a, s.withStore (s.store.replace (row.withSections kind l))) : Outcome α) := by
  obtain ⟨_, _, _, _, hcurrent⟩ := row.withSections_frame kind l
  exact .changed _ (.revise row _ found revision
    (hcurrent.trans (Store.current?_eq_some.mp found).2))

theorem addSection_moves (kind : SectionKind) (stamp : Stamp) (id : Uuid) (change : SectionChange)
    (accepted : change.Accepted kind false) :
    s.Moves (some (.edit id)) (addSection kind stamp id change s) := by
  unfold addSection
  split
  · exact .refused _
  · rename_i row hrow
    split
    · exact .refused _
    · split
      · exact .undone _
      · exact .undone _
      · rename_i new hmade
        split
        · exact .undone _
        · rename_i hlegal
          obtain rfl := Store.current?_id hrow
          exact .sections hrow kind _ (.sectionAdded kind stamp change new accepted hmade hlegal) _

theorem updateSection_moves (ids : (s.store.rows.map (·.id)).Nodup) (kind : SectionKind) (id : Uuid)
    (change : SectionChange) (accepted : change.Accepted kind true) :
    s.Moves ((s.store.section? kind id).map fun held => .edit held.1.id)
      (updateSection kind id change s) := by
  unfold updateSection
  split
  · exact .unchanged _
  · rename_i row old hfound
    rw [hfound]
    split
    · rename_i hcurrent
      split
      · exact .refused _
      · rename_i hfree
        split
        · exact .undone _
        · rename_i new happlied
          obtain ⟨hmem, _, rfl⟩ := Store.section?_eq_some hfound
          have hrow := Store.current?_eq_some.mpr ⟨Store.row?_of_mem ids hmem, hcurrent⟩
          exact .sections hrow kind _
            (.sectionChanged kind change old new accepted hfound hfree happlied) _
    · exact .refused _

theorem removeSection_moves (ids : (s.store.rows.map (·.id)).Nodup) (kind : SectionKind)
    (id : Uuid) : s.Moves ((s.store.section? kind id).map fun held => .edit held.1.id)
      (removeSection kind id s) := by
  unfold removeSection
  split
  · exact .unchanged _
  · rename_i row old hfound
    rw [hfound]
    split
    · rename_i hcurrent
      obtain ⟨hmem, _, rfl⟩ := Store.section?_eq_some hfound
      have hrow := Store.current?_eq_some.mpr ⟨Store.row?_of_mem ids hmem, hcurrent⟩
      exact .sections hrow kind _ (.sectionRemoved kind old hfound) _
    · exact .refused _

theorem existing_moves (id : Uuid) {out : Outcome (Option α)} (h : s.Moves aim out) :
    s.Moves aim (Service.existing id out) := by
  obtain ⟨answer, s'⟩ := out
  cases answer with
  | error e => exact ⟨nofun, nofun⟩
  | ok found =>
    cases found with
    | none => exact ⟨nofun, nofun⟩
    | some a => exact ⟨fun _ => h.leases rfl, fun _ => h.store rfl⟩

end Session

/-! ## Writes -/

/-- A database that differs from another in one move of its store. -/
def Database.Moves (db : Database) (aim : Option Aim) (db' : Database) : Prop :=
  db'.leases = db.leases ∧ db.instructions.Move db.leases aim db'.instructions

theorem Database.Moves.refl (db : Database) (aim : Option Aim) : db.Moves aim db :=
  ⟨rfl, .stay aim⟩

namespace Service
variable {α β : Type} {db : Database} {aim : Option Aim}

/-- An outcome that is a move away from a database if it is no error. -/
def Moved (db : Database) (aim : Option Aim) (out : Outcome α) : Prop :=
  out.1.isOk → db.Moves aim out.2

theorem Moved.reply {out : Outcome α} (h : Moved db aim out) (wrap : α → Reply) :
    Moved db aim (Service.reply wrap out) := by
  obtain ⟨answer, after⟩ := out
  cases answer with
  | ok a => exact fun _ => h rfl
  | error e => exact nofun

theorem Moved.moves {out : Outcome α} (h : Moved db aim out) (atomic : Atomic db out) :
    db.Moves aim out.2 := by
  cases ho : out.1 with
  | ok a => exact h (by rw [ho]; rfl)
  | error e =>
    rw [atomic e ho]
    exact .refl db aim

theorem transact_moved {request : Session → Session.Outcome α}
    (h : (Session.start db).Moves aim (request (.start db))) :
    Moved db aim (db.transact request) := by
  unfold Moved Database.transact
  revert h
  obtain ⟨answer, s⟩ := request (.start db)
  cases answer with
  | ok a => exact fun h _ => ⟨h.leases rfl, h.store rfl⟩
  | error e => exact fun _ => nofun

theorem write_moved {arguments : Except Error α} {request : α → Session → Session.Outcome β}
    (h : ∀ a, arguments = .ok a → (Session.start db).Moves aim (request a (.start db))) :
    Moved db aim (write db arguments request) := by
  cases arguments with
  | error e => exact nofun
  | ok a => exact transact_moved (h a rfl)

theorem create_arguments {level scope fields : Value} {l : Level} {id : Uuid} {f : Fields} :
    (do
      let level ← Level.parse level
      let scope ← acceptScopeId scope
      let members ← accept .fields fields
      pure (level, scope, Fields.ofMembers members)) = Except.ok (ε := Error) (l, id, f) ↔
    Level.parse level = .ok l ∧ acceptScopeId scope = .ok id ∧
      ∃ members, accept .fields fields = .ok members ∧ f = .ofMembers members := by
  cases hl : Level.parse level with
  | error e => simp [bind, Except.bind]
  | ok l' =>
    cases hs : acceptScopeId scope with
    | error e => simp [bind, Except.bind]
    | ok id' =>
      cases hm : accept .fields fields with
      | error e => simp [bind, Except.bind]
      | ok members =>
        simp only [bind, Except.bind, pure, Except.pure, Except.ok.injEq, Prod.mk.injEq,
          exists_eq_left']
        rw [eq_comm (a := f)]

end Service

theorem Write.serve_moved (db : Database) (ids : (db.instructions.rows.map (·.id)).Nodup)
    (w : Write) : Service.Moved db (w.aim? db) (w.serve db) := by
  cases w with
  | create service stamp level scope fields actor =>
    refine .reply (Service.write_moved fun (l, id, f) harguments => ?_) _
    obtain ⟨hl, hs, members, hmembers, rfl⟩ := Service.create_arguments.mp harguments
    have haim : aim? db (.create service stamp level scope fields actor) =
        some (.declare l id) := by simp only [aim?, hl, hs]
    rw [haim]
    exact Session.create_moves service.today stamp l id _ actor ⟨fields, members, hmembers, rfl⟩
  | update now id fields =>
    refine .reply (Service.write_moved fun members hmembers => ?_) _
    exact Session.existing_moves id (Session.update_moves now id _ ⟨fields, members, hmembers, rfl⟩)
  | delete now id =>
    refine .reply (Service.transact_moved ?_) _
    split
    · exact Session.retire_moves now id
    · exact .refused _
  | addSection kind stamp id data =>
    refine .reply (Service.write_moved fun members hmembers => ?_) _
    exact Session.addSection_moves kind stamp id _ ⟨data, members, hmembers, rfl⟩
  | updateSection kind id data =>
    refine .reply (Service.write_moved fun members hmembers => ?_) _
    exact Session.updateSection_moves (s := .start db) ids kind id _ ⟨data, members, hmembers, rfl⟩
  | removeSection kind id =>
    refine .reply (Service.transact_moved ?_) _
    exact Session.removeSection_moves (s := .start db) ids kind id

/-- Whatever a write is and however it ends, it makes one move at most, and where it is aimed. -/
theorem Write.move (db : Database) (ids : (db.instructions.rows.map (·.id)).Nodup) (w : Write) :
    db.Moves (w.aim? db) (w.perform db) := by
  rw [← w.serve_perform]
  exact (w.serve_moved db ids).moves (w.serve_atomic db)

end CarCare

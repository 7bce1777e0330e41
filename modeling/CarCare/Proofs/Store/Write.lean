import CarCare.Service

/-!
Writes: the requests of clients that may change the instruction store. A run is any list of writes,
each of which may fail.

What is proved:
  1. `Write.serve_atomic`: a write that fails leaves the database as it was, whatever made it fail
     and however far it had come.
  2. `Database.serve_succeeding`: hence the writes that fail can be struck out of any run: the others
     answer the same, and the database ends up the same.
  3. `failed_writes_leave_no_trace`: both, for every database and every run.
-/
namespace CarCare

/-- A request that may change the store, with all its arguments. A declaration is made through a
service, whose day it takes as today; new rows are stamped with an id and the time. -/
inductive Write where
  | create (service : Service) (stamp : Stamp) (level scope fields : Value) (actor : Option Uuid)
  | update (now : Timestamp) (id : Uuid) (fields : Value)
  | delete (now : Timestamp) (id : Uuid)
  | addSection (kind : SectionKind) (stamp : Stamp) (id : Uuid) (data : Value)
  | updateSection (kind : SectionKind) (id : Uuid) (data : Value)
  | removeSection (kind : SectionKind) (id : Uuid)

/-- The database after a write, which may have failed. -/
def Write.perform (db : Database) : Write → Database
  | .create service stamp level scope fields actor =>
    (service.create stamp db level scope fields actor).2
  | .update now id fields => (Service.update now db id fields).2
  | .delete now id => (Service.delete now db id).2
  | .addSection kind stamp id data => (Service.addSection kind stamp db id data).2
  | .updateSection kind id data => (Service.updateSection kind db id data).2
  | .removeSection kind id => (Service.removeSection kind db id).2

/-- The database after a run of writes. -/
def Database.run (db : Database) (writes : List Write) : Database := writes.foldl Write.perform db

/-! ## Answers -/

/-- What a write answers if it succeeds: the instruction or the section that it made or changed, or
whether there was anything to delete or to remove. -/
inductive Reply where
  | instruction (record : Instruction)
  | newSection (record : Section)
  | changedSection (record : Option Section)
  | done (wasThere : Bool)

/-- The outcome of a request as that of a write. -/
def Service.reply {α : Type} (wrap : α → Reply) (out : Outcome α) : Outcome Reply :=
  (out.1.map wrap, out.2)

/-- What a write answers, and the database after it. -/
def Write.serve (db : Database) : Write → Service.Outcome Reply
  | .create service stamp level scope fields actor =>
    Service.reply .instruction (service.create stamp db level scope fields actor)
  | .update now id fields => Service.reply .instruction (Service.update now db id fields)
  | .delete now id => Service.reply .done (Service.delete now db id)
  | .addSection kind stamp id data =>
    Service.reply .newSection (Service.addSection kind stamp db id data)
  | .updateSection kind id data =>
    Service.reply .changedSection (Service.updateSection kind db id data)
  | .removeSection kind id => Service.reply .done (Service.removeSection kind db id)

theorem Write.serve_perform (db : Database) (w : Write) : (w.serve db).2 = w.perform db := by
  cases w <;> rfl

namespace Database

/-- What the writes of a run answer, in order, and the database after them. -/
def serve (db : Database) : List Write → List (Except Error Reply) × Database
  | [] => ([], db)
  | w :: rest =>
    let later := (w.serve db).2.serve rest
    ((w.serve db).1 :: later.1, later.2)

/-- The writes of a run that succeed. -/
def succeeding (db : Database) : List Write → List Write
  | [] => []
  | w :: rest =>
    let later := (w.serve db).2.succeeding rest
    if (w.serve db).1.isOk then w :: later else later

end Database

/-! ## Failing -/

namespace Service
variable {α β : Type} {db : Database}

/-- An outcome that leaves the database as it was if it is an error. -/
def Atomic (db : Database) (out : Outcome α) : Prop := ∀ e, out.1 = .error e → out.2 = db

theorem Atomic.reply {out : Outcome α} (h : Atomic db out) (wrap : α → Reply) :
    Atomic db (Service.reply wrap out) := by
  intro e failed
  obtain ⟨answer, after⟩ := out
  cases answer with
  | error e => exact h e rfl
  | ok a => cases failed

/-- A transaction leaves nothing behind if it fails: a request commits nothing itself. -/
theorem transact_atomic {request : Session → Session.Outcome α}
    (kept : (request (.start db)).2.committed = db) : Atomic db (db.transact request) := by
  intro e failed
  unfold Database.transact at failed ⊢
  revert kept failed
  obtain ⟨answer, s⟩ := request (.start db)
  cases answer with
  | error e => exact fun kept _ => kept
  | ok a => exact nofun

/-- Arguments that are not accepted are refused before there is a transaction. -/
theorem write_atomic {arguments : Except Error α} {request : α → Session → Session.Outcome β}
    (kept : ∀ a, (request a (.start db)).2.committed = db) :
    Atomic db (write db arguments request) := by
  cases arguments with
  | error e => exact fun _ _ => rfl
  | ok a => exact transact_atomic (kept a)

theorem existing_committed (id : Uuid) (out : Session.Outcome (Option α)) :
    (existing id out).2.committed = out.2.committed := by
  obtain ⟨answer, s⟩ := out
  cases answer with
  | error e => rfl
  | ok found => cases found <;> rfl

end Service

/-- A write that fails leaves the database as it was, whatever made it fail. -/
theorem Write.serve_atomic (db : Database) (w : Write) : Service.Atomic db (w.serve db) := by
  cases w with
  | create service stamp level scope fields actor =>
    exact .reply (Service.write_atomic fun _ => Session.create_committed ..) _
  | update now id fields =>
    refine .reply (Service.write_atomic fun members => ?_) _
    exact (Service.existing_committed ..).trans (Session.update_committed ..)
  | delete now id =>
    refine .reply (Service.transact_atomic ?_) _
    split
    · exact Session.retire_committed ..
    · rfl
  | addSection kind stamp id data =>
    exact .reply (Service.write_atomic fun _ => Session.addSection_committed ..) _
  | updateSection kind id data =>
    exact .reply (Service.write_atomic fun _ => Session.updateSection_committed ..) _
  | removeSection kind id =>
    exact .reply (Service.transact_atomic (Session.removeSection_committed ..)) _

/-! ## Runs -/

/-- The writes that fail can be struck out of a run: the others answer as they did, and the database
ends up the same. -/
theorem Database.serve_succeeding (db : Database) (writes : List Write) :
    db.serve (db.succeeding writes) =
      ((db.serve writes).1.filter (·.isOk), (db.serve writes).2) := by
  -- A write that fails leaves the others the database that they had without it.
  induction writes generalizing db with
  | nil => rfl
  | cons w rest ih =>
    cases h : (w.serve db).1 with
    | ok reply =>
      have hok : (w.serve db).1.isOk = true := by rw [h]; rfl
      simp only [succeeding, hok, if_true, serve, ih, List.filter_cons_of_pos]
    | error e =>
      have hok : (w.serve db).1.isOk = false := by rw [h]; rfl
      have hsame : (w.serve db).2 = db := w.serve_atomic db e h
      simp only [succeeding, hok, serve, hsame, ih, Bool.false_eq_true, if_false,
        not_false_eq_true, List.filter_cons_of_neg]

/-- Writes that fail leave no trace in any database, whichever of the requests they are, whatever
their arguments and whatever makes them fail: the database afterwards is the one before, row for row,
and whatever is written later answers and ends as if they had never been made. So they can be struck
out of any run. -/
theorem failed_writes_leave_no_trace (db : Database) :
    (∀ (w : Write) (e : Error), (w.serve db).1 = .error e →
      (w.serve db).2 = db ∧
      ∀ later, db.serve (w :: later) = (.error e :: (db.serve later).1, (db.serve later).2)) ∧
    ∀ writes, db.serve (db.succeeding writes) =
      ((db.serve writes).1.filter (·.isOk), (db.serve writes).2) := by
  refine ⟨fun w e failed => ?_, db.serve_succeeding⟩
  have hsame : (w.serve db).2 = db := w.serve_atomic db e failed
  refine ⟨hsame, fun later => ?_⟩
  rw [Database.serve, failed, hsame]

def acmeTables : LeaseTables where
  customers := [⟨⟨1⟩, "ACME", "Acme", true⟩]

def acmeCreate (id : Uuid) (seconds : Nat) : Write :=
  .create { today := ⟨1⟩ } ⟨id, ⟨seconds⟩⟩ (.text "customer")
    (.text "00000000-0000-0000-0000-000000000001") (.object [("food_grade", .bool false)]) none

/-- The messages of the errors among answers. -/
def complaints (answers : List (Except Error Reply)) : List String :=
  answers.filterMap fun
    | .error e => some e.message
    | .ok _ => none

def acmeDatabase : Database :=
  Database.run { leases := acmeTables }
    [acmeCreate ⟨10⟩ 0, .addSection .sealing ⟨⟨11⟩, ⟨1⟩⟩ ⟨10⟩ (.object [("commodity", .text "Latex")])]

/-- Changes the sealing's commodity, and then its place to one that no column can hold. -/
def acmeOverflow : Write :=
  .updateSection .sealing ⟨11⟩
    (.object [("commodity", .text "Molasses"), ("sort_order", .int 9223372036854775808)])

/-- Writes that fail there, each for a reason of its own, in order of how far they come. -/
def acmeFailing : List Write :=
  [.create { today := ⟨1⟩ } ⟨⟨12⟩, ⟨2⟩⟩ (.text "yard") .null .null none,
   .update ⟨3⟩ ⟨10⟩ (.object [("food_grade", .text "perhaps")]),
   .create { today := ⟨1⟩ } ⟨⟨12⟩, ⟨4⟩⟩ (.text "rider")
     (.text "00000000-0000-0000-0000-000000000001") (.object []) none,
   acmeCreate ⟨12⟩ 5,
   .delete ⟨6⟩ ⟨12⟩,
   .addSection .sealing ⟨⟨12⟩, ⟨7⟩⟩ ⟨10⟩ (.object [("commodity", .text "Latex")]),
   .updateSection .sealing ⟨11⟩ (.object [("inherit_from_parent", .bool true), ("commodity", .null)]),
   acmeOverflow]

theorem failed_writes_leave_no_trace_acme :
    (∃ e, (acmeOverflow.serve acmeDatabase).1 = .error e ∧
      (acmeOverflow.serve acmeDatabase).2 = acmeDatabase) ∧
    complaints (acmeDatabase.serve acmeFailing).1 =
      ["Invalid scope type: 'yard'", "Invalid input",
       "Scope not found: rider 00000000-0000-0000-0000-000000000001",
       "Scope already has a current CCM instruction: customer 00000000-0000-0000-0000-000000000001",
       "CCM instruction not found: 00000000-0000-0000-0000-00000000000c",
       "Commodity 'Latex' already has a section on instruction 00000000-0000-0000-0000-00000000000a",
       "NOT NULL constraint failed: ccm_instruction_sealing.commodity",
       Error.integerTooLarge.message] ∧
    (acmeDatabase.serve acmeFailing).2 = acmeDatabase := by
  obtain ⟨hfailed, hruns⟩ := failed_writes_leave_no_trace acmeDatabase
  have hoverflow : (acmeOverflow.serve acmeDatabase).1.isOk = false := by decide +kernel
  have hnone : (acmeDatabase.succeeding acmeFailing).isEmpty := by decide +kernel
  refine ⟨?_, by decide +kernel, ?_⟩
  · cases h : (acmeOverflow.serve acmeDatabase).1 with
    | ok reply => rw [h] at hoverflow; cases hoverflow
    | error e => exact ⟨e, rfl, (hfailed acmeOverflow e h).1⟩
  · have hstruck := hruns acmeFailing
    rw [List.isEmpty_iff.mp hnone] at hstruck
    exact (congrArg Prod.snd hstruck).symm

end CarCare

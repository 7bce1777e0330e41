import CarCare.Store.Change

/-!
Sessions: work on the database that is kept or given up as a whole. A session holds what was last
committed and what it has made of it since. A refused request leaves the session as it was, but a
row that the tables refuse takes back everything since the last commit.
-/
namespace CarCare

/-- What was committed last, and the database as the session sees it. -/
structure Session where
  committed : Database
  working : Database

namespace Session

/-- A session that has done nothing yet. -/
def start (db : Database) : Session := ⟨db, db⟩

def commit (s : Session) : Session := ⟨s.working, s.working⟩

def rollback (s : Session) : Session := ⟨s.committed, s.committed⟩

def withStore (s : Session) (store : Store) : Session :=
  { s with working := { s.working with instructions := store } }

def store (s : Session) : Store := s.working.instructions

def directory (s : Session) (today : Date) : Directory := s.working.leases.directory today

/-- What a request answers, and the session after it. -/
abbrev Outcome (α : Type) := Except Error α × Session

/-! ## Instructions -/

/-- A new row for a scope. -/
def newRow (stamp : Stamp) (level : Level) (scope : Uuid) (name : Option String) (fields : Fields)
    (actor : Option Uuid) : InstructionRow where
  id := stamp.id
  level := level
  scopes := .only level scope
  scopeName := name
  fields := fields
  version := 1
  isCurrent := true
  supersedes := none
  createdBy := actor
  createdAt := stamp.now
  updatedAt := stamp.now
  sealing := []
  lining := []

def create (today : Date) (stamp : Stamp) (level : Level) (scope : Uuid) (fields : Fields)
    (actor : Option Uuid) (s : Session) : Outcome Instruction :=
  match (s.directory today).scope? level scope with
  | none => (.error (.scopeNotFound level scope), s)
  | some info =>
    if (s.store.byScope? level scope).isSome then (.error (.scopeTaken level scope), s)
    else
      let row := newRow stamp level scope info.name fields actor
      match s.store.insert row with
      | .ok store => (.ok row.read, s.withStore store)
      -- The scope is known and free, so it can only be the id that is refused.
      | .error _ => (.error .instructionExists, s.rollback)

/-- A row after a change of fields. Its age is renewed only if a field really changes. -/
def overlaid (now : Timestamp) (change : Fields) (row : InstructionRow) : InstructionRow :=
  let fields := change.overlay row.fields
  if fields.same row.fields then row else { row with fields := fields, updatedAt := now }

/-- Sets fields of a current instruction; answers none if there is no such instruction. -/
def update (now : Timestamp) (id : Uuid) (change : Fields) (s : Session) :
    Outcome (Option Instruction) :=
  match s.store.current? id with
  | none => (.ok none, s)
  | some row =>
    let row := overlaid now change row
    (.ok (some row.read), s.withStore (s.store.replace row))

/-- Retires a current instruction for good; answers whether there was one. -/
def retire (now : Timestamp) (id : Uuid) (s : Session) : Outcome Bool :=
  match s.store.current? id with
  | none => (.ok false, s)
  | some row =>
    (.ok true, s.withStore (s.store.replace { row with isCurrent := false, updatedAt := now }))

/-! ## Sections -/

def addSection (kind : SectionKind) (stamp : Stamp) (id : Uuid) (change : SectionChange)
    (s : Session) : Outcome Section :=
  match s.store.current? id with
  | none => (.error (.instructionNotFound id), s)
  | some row =>
    match change.named?.filter (row.hasCommodity kind) with
    | some commodity => (.error (.commodityTaken commodity id), s)
    | none =>
      match change.create kind stamp with
      -- The driver refuses a place before the tables look at the row.
      | .error .integerTooLarge => (.error .integerTooLarge, s.rollback)
      | .error _ => (.error .sectionExists, s.rollback)
      | .ok new =>
        match s.store.sectionFault? kind (row.sections kind) new with
        | some _ => (.error .sectionExists, s.rollback)
        | none =>
          let row := row.withSections kind (row.sections kind ++ [new])
          (.ok (new.toSection id), s.withStore (s.store.replace row))

/-- The commodity of another section of the row that a change would rename a section to. -/
def renamedOnto? (kind : SectionKind) (row : InstructionRow) (old : SectionRow)
    (change : SectionChange) : Option String :=
  change.named?.filter fun c =>
    c != old.commodity && ((row.sections kind).filter (·.id != old.id)).any (·.commodity == c)

/-- Changes a section of a current instruction; answers none if there is no such section. -/
def updateSection (kind : SectionKind) (id : Uuid) (change : SectionChange) (s : Session) :
    Outcome (Option Section) :=
  match s.store.section? kind id with
  | none => (.ok none, s)
  | some (row, old) =>
    if row.isCurrent then
      match renamedOnto? kind row old change with
      | some commodity => (.error (.commodityTaken commodity row.id), s)
      | none =>
        match change.apply kind old with
        -- The store has no words of its own for what is refused of a change.
        | .error e => (.error e, s.rollback)
        | .ok new =>
          let sections := (row.sections kind).map fun r => if r.id = id then new else r
          (.ok (some (new.toSection row.id)),
            s.withStore (s.store.replace (row.withSections kind sections)))
    else (.error (.instructionNotFound row.id), s)

def removeSection (kind : SectionKind) (id : Uuid) (s : Session) : Outcome Bool :=
  match s.store.section? kind id with
  | none => (.ok false, s)
  | some (row, _) =>
    if row.isCurrent then
      let sections := (row.sections kind).filter (·.id != id)
      (.ok true, s.withStore (s.store.replace (row.withSections kind sections)))
    else (.error (.instructionNotFound row.id), s)

/-! ## What requests commit

Requests work on what the session sees. However they end, what was committed last stays committed. -/

section
variable (s : Session)

theorem create_committed (today : Date) (stamp : Stamp) (level : Level) (scope : Uuid)
    (fields : Fields) (actor : Option Uuid) :
    (create today stamp level scope fields actor s).2.committed = s.committed := by
  unfold create
  split
  · rfl
  · split
    · rfl
    · dsimp only
      split <;> rfl

theorem update_committed (now : Timestamp) (id : Uuid) (change : Fields) :
    (update now id change s).2.committed = s.committed := by
  unfold update
  split <;> rfl

theorem retire_committed (now : Timestamp) (id : Uuid) :
    (retire now id s).2.committed = s.committed := by
  unfold retire
  split <;> rfl

theorem addSection_committed (kind : SectionKind) (stamp : Stamp) (id : Uuid)
    (change : SectionChange) : (addSection kind stamp id change s).2.committed = s.committed := by
  unfold addSection
  split
  · rfl
  · split
    · rfl
    · split
      · rfl
      · rfl
      · split <;> rfl

theorem updateSection_committed (kind : SectionKind) (id : Uuid) (change : SectionChange) :
    (updateSection kind id change s).2.committed = s.committed := by
  unfold updateSection
  split
  · rfl
  · split
    · split
      · rfl
      · split <;> rfl
    · rfl

theorem removeSection_committed (kind : SectionKind) (id : Uuid) :
    (removeSection kind id s).2.committed = s.committed := by
  unfold removeSection
  split
  · rfl
  · split <;> rfl

end

end Session

/-- Runs a request in a session of its own and commits it; a request that fails leaves nothing
behind. -/
def Database.transact (db : Database) (request : Session → Session.Outcome α) :
    Except Error α × Database :=
  match request (.start db) with
  | (.ok a, s) => (.ok a, s.commit.committed)
  | (.error e, s) => (.error e, s.rollback.committed)

end CarCare

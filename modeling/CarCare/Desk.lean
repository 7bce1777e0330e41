import CarCare.Session
import CarCare.Store.Column

/-!
Desks: a session as its owner works with it, with dictionaries that no schema has looked at. Of a
record that has been written the desk has the values in hand as they were given, until the record
is let go of and read again. New values are compared with those in hand, and not with what the
tables have kept of them.
-/
namespace CarCare

/-- A column of one record of a table. -/
structure Cell where
  table : String
  id : Uuid
  column : String
deriving DecidableEq, Repr

/-- A database with what its rows have no room for: the places in the display order that are no
integers. -/
structure Shelf where
  database : Database
  odd : Cell → Option Value := fun _ => none

/-- What was committed last, what has been made of it since, and the values in hand. -/
structure Desk where
  committed : Shelf
  working : Shelf
  held : Cell → Option Value := fun _ => none

namespace Desk

/-- What a request answers, as the tables hold it, and the desk after it. -/
abbrev Outcome (α : Type) := Except Error α × Desk

/-- A desk with nothing on it yet. -/
def start (shelf : Shelf) : Desk := { committed := shelf, working := shelf }

def commit (d : Desk) : Desk := { d with committed := d.working }

/-- Takes back everything since the last commit. All records are read again. -/
def rollback (d : Desk) : Desk := start d.committed

/-- The desk without the values in hand. -/
def session (d : Desk) : Session := ⟨d.committed.database, d.working.database⟩

def store (d : Desk) : Store := d.working.database.instructions

/-- Lets go of a record. -/
def forget (d : Desk) (table : String) (id : Uuid) : Desk :=
  { d with held := fun cell =>
      if cell.table = table ∧ cell.id = id then none else d.held cell }

/-! ## What records show -/

/-- The value that a cell shows, where its row holds the given columns: the one in hand, else what
the tables hold. -/
def shown (d : Desk) (table : String) (id : Uuid) (columns : Members) (column : String) :
    Option Value :=
  let cell : Cell := ⟨table, id, column⟩
  ((d.held cell).or (d.working.odd cell)).or (columns.lookup column)

def shownFields (d : Desk) (row : InstructionRow) : String → Option Value :=
  d.shown Store.table row.id row.fields.members

def shownColumns (d : Desk) (kind : SectionKind) (owner : Uuid) (row : SectionRow) :
    String → Option Value :=
  d.shown kind.table row.id ((row.toSection owner).columns kind)

def showsCommodity (d : Desk) (kind : SectionKind) (owner : Uuid) (commodity : Value)
    (row : SectionRow) : Bool :=
  (d.shownColumns kind owner row Column.commodity.name).any commodity.equals

/-- The desk after a record has been written: what was given for it is in hand, and what the row
could not take of it lies beside. -/
def wrote (d : Desk) (s : Session) (table : String) (id : Uuid) (given : List (Column × Value))
    (kept : Members) : Desk :=
  let place : Cell := ⟨table, id, Column.place.name⟩
  { d with
    working :=
      { database := s.working
        odd := fun cell =>
          if cell = place then
            match kept.lookup Column.place.name with
            -- An integer has room in the row itself.
            | some (.scalar (.int _)) => none
            | some value => some value
            | none => d.working.odd place
          else d.working.odd cell }
    held := fun cell =>
      if cell.table = table ∧ cell.id = id then
        ((given.find? (·.1.name == cell.column)).map (·.2)).or (d.held cell)
      else d.held cell }

/-! ## Requests

What is found before anything is written leaves the desk as it is. A write that fails takes back
everything since the last commit. -/

/-- A request that looks for a reason to refuse, and writes if it finds none. -/
def request (d : Desk) (found : Option Error) (write : Except Error (α × Desk)) : Outcome α :=
  match found, write with
  | some e, _ => (.error e, d)
  | none, .error e => (.error e, d.rollback)
  | none, .ok (a, d') => (.ok a, d')

def writes : Session.Outcome α → Except Error (α × Session)
  | (.ok a, s) => .ok (a, s)
  | (.error e, _) => .error e

/-! ### Instructions -/

/-- The fields of a row after writing to it. -/
def setFields (kept : Members) (fields : Fields) : Fields := fun f =>
  match kept.lookup f.name with
  | some value => FieldValue.ofValue? value
  | none => fields f

/-- What is found against declaring the instruction of a scope: the scope does not exist, or it has
a current one. -/
def occupied? (today : Date) (level : Level) (scope : Uuid) (d : Desk) : Option Error :=
  if ((d.session.directory today).scope? level scope).isNone then some (.scopeNotFound level scope)
  else if (d.store.byScope? level scope).isSome then some (.scopeTaken level scope)
  else none

variable (a : Affinity)

def create (today : Date) (stamp : Stamp) (level : Level) (scope : Uuid) (data : Members)
    (actor : Option Uuid) (d : Desk) : Outcome Instruction :=
  d.request (d.occupied? today level scope) do
    let given := Column.given Column.fields data
    -- A new record shows nothing, so that all of it is written.
    let kept ← a.write (fun _ => none) given
    let (i, s) ← writes (d.session.create today stamp level scope (.ofMembers kept) actor)
    pure (i, d.wrote s Store.table stamp.id given kept)

/-- Sets fields of a current instruction; answers none if there is no such instruction. Its age is
renewed if it is written to. -/
def update (now : Timestamp) (id : Uuid) (data : Members) (d : Desk) :
    Outcome (Option Instruction) :=
  match d.store.current? id with
  | none => (.ok none, d)
  | some row =>
    d.request none do
      let given := Column.given Column.fields data
      let kept ← a.write (d.shownFields row) given
      let row := { row with
        fields := setFields kept row.fields
        updatedAt := if kept.isEmpty then row.updatedAt else now }
      pure (some row.read,
        d.wrote (d.session.withStore (d.store.replace row)) Store.table id given kept)

def retire (now : Timestamp) (id : Uuid) (d : Desk) : Outcome Bool :=
  let (answer, s) := d.session.retire now id
  (answer, { d with working := { d.working with database := s.working } })

/-! ### Sections -/

/-- The commodity that members name for a section; none is as good as a null one. -/
def commodityOf (data : Members) : Value := (data.lookup Column.commodity.name).getD .null

/-- Whether writing leaves a section without a place. -/
def clearsPlace (kept : Members) : Bool := (kept.lookup Column.place.name).any (·.isNull)

/-- Whether the tables refuse a new section of a row for what the columns keep of it: it has no
commodity or no place, or a section of the row has the commodity. The tables compare what they
keep, whatever the sections show. -/
def crowds (kind : SectionKind) (row : InstructionRow) (kept : Members) : Bool :=
  clearsPlace kept || (SectionChange.ofMembers kind kept).named?.all (row.hasCommodity kind)

/-- Adds a section to a current instruction none of whose sections shows the commodity. -/
def addSection (kind : SectionKind) (stamp : Stamp) (id : Uuid) (data : Members) (d : Desk) :
    Outcome Section :=
  match d.store.current? id with
  | none => (.error (.instructionNotFound id), d)
  | some row =>
    let taken := (row.sections kind).any (d.showsCommodity kind id (commodityOf data))
    d.request (if taken then some (.commodityTaken (commodityOf data).display id) else none) do
      let given := Column.given (Column.sections kind) data
      let kept ← a.write (fun _ => none) given
      -- What was compared so far is what the sections show, and not what the tables hold.
      if crowds kind row kept then throw .sectionExists
      let (added, s) ← writes (d.session.addSection kind stamp id (.ofMembers kind kept))
      pure (added, d.wrote s kind.table stamp.id given kept)

/-- Whether members rename a section to a commodity that another section of its row shows. -/
def renames (kind : SectionKind) (row : InstructionRow) (old : SectionRow) (data : Members)
    (d : Desk) : Bool :=
  let commodity := commodityOf data
  !commodity.isNull && !d.showsCommodity kind row.id commodity old
    && ((row.sections kind).filter (·.id != old.id)).any (d.showsCommodity kind row.id commodity)

/-- What the tables refuse a changed section for: it has no commodity or no place, or another
section of its row has the commodity. -/
def misfit? (kind : SectionKind) (row : InstructionRow) (old : SectionRow) (kept : Members) :
    Option Error :=
  let change := SectionChange.ofMembers kind kept
  (change.fault? kind).or <|
    if clearsPlace kept then
      some (.constraint (.notNull (Store.sectionColumn kind Column.place.name)))
    else (Session.renamedOnto? kind row old change).map fun _ =>
      .constraint (.unique
        [Store.sectionColumn kind "ccm_instruction_id",
         Store.sectionColumn kind Column.commodity.name])

/-- Changes a section of a current instruction; answers none if there is no such section. -/
def updateSection (kind : SectionKind) (id : Uuid) (data : Members) (d : Desk) :
    Outcome (Option Section) :=
  match d.store.section? kind id with
  | none => (.ok none, d)
  | some (row, old) =>
    let found :=
      if !row.isCurrent then some (.instructionNotFound row.id)
      else if d.renames kind row old data then
        some (.commodityTaken (commodityOf data).display row.id)
      else none
    d.request found do
      let given := Column.given (Column.sections kind) data
      let kept ← a.write (d.shownColumns kind row.id old) given
      if let some e := misfit? kind row old kept then throw e
      let (changed, s) ← writes (d.session.updateSection kind id (.ofMembers kind kept))
      pure (changed, d.wrote s kind.table id given kept)

/-- Removes a section of a current instruction; answers whether there was such a section. -/
def removeSection (kind : SectionKind) (id : Uuid) (d : Desk) : Outcome Bool :=
  match d.session.removeSection kind id with
  | (.ok removed, s) =>
    let odd (cell : Cell) : Option Value :=
      if cell.table = kind.table ∧ cell.id = id then none else d.working.odd cell
    (.ok removed, { d.forget kind.table id with working := ⟨s.working, odd⟩ })
  | (.error e, _) => (.error e, d)

end Desk

/-- Runs a request at a desk of its own and commits it; a request that fails leaves nothing
behind. -/
def Database.atDesk (db : Database) (request : Desk → Desk.Outcome α) : Except Error α × Shelf :=
  match request (.start { database := db }) with
  | (.ok a, d) => (.ok a, d.commit.committed)
  | (.error e, d) => (.error e, d.rollback.committed)

end CarCare

import CarCare.Resolution.Effective
import CarCare.Resolution.Preview
import CarCare.Session
import CarCare.Tree

/-!
The service: the requests that clients make. A read looks at the database as it is; a write checks
its arguments before it looks anything up, and then works in a transaction of its own.
-/
namespace CarCare

/-- A service as it is set up: whether trees hide inactive scopes, and the day it takes as today. -/
structure Service where
  hideInactive : Bool := false
  today : Date

namespace Service

/-! ## Reads -/

def directory (v : Service) (db : Database) : Directory := db.leases.directory v.today

def reader (db : Database) : Reader Id := fun level id => db.instructions.read level id

def instruction (db : Database) (id : Uuid) : Except Error Instruction :=
  match db.instructions.current? id with
  | some row => .ok row.read
  | none => .error (.instructionNotFound id)

def instructionAt (db : Database) (level : Value) (scope : Uuid) :
    Except Error (Option Instruction) := do
  let level ← Level.parse level
  pure (db.instructions.read level scope)

/-- The current instructions that pass the given filters. A level that is null is no filter. -/
def instructions (db : Database) (level : Value) (scope customer : Option Uuid) :
    Except Error (List Instruction) := do
  let level ← match level with
    | .scalar .null => pure none
    | level => (Level.parse level).map some
  pure ((db.instructions.list db.leases level scope customer).map (·.read))

def tree (v : Service) (db : Database) (customer : Option Uuid) : List Node :=
  let outline : Outline :=
    { listed := (v.directory db).scopes customer
      overrides := db.instructions.currentScopes
      hideInactive := v.hideInactive }
  outline.tree customer

def preview (v : Service) (db : Database) (level : Value) (scope : Uuid) :
    Except Error (Option Instruction) := do
  let level ← Level.parse level
  pure (parentPreview (v.directory db) (reader db) level scope)

/-- The effective instruction for a car, on a day or today. -/
def resolveCar (v : Service) (db : Database) (car : String) (asOf : Option Date) :
    Except Error Effective :=
  resolveForCar (v.directory db) (reader db) car (some (asOf.getD v.today))

def resolveScope (v : Service) (db : Database) (level : Value) (scope : Uuid) :
    Except Error Effective := do
  let level ← Level.parse level
  resolveForScope (v.directory db) (reader db) level scope

/-! ## Arguments of writes -/

/-- A payload that its schema accepts, converted. -/
def accept (schema : Schema) (payload : Value) : Except Error Members :=
  match payload.members? with
  | none => .error .notAMapping
  | some members =>
    match schema.validate members with
    | .ok accepted => .ok accepted
    | .error faults => .error (.invalidInput faults)

/-- The id of a scope, converted. -/
def acceptScopeId (scope : Value) : Except Error Uuid :=
  let refuse (complaint : Schema.Complaint) : Except Error Uuid :=
    .error (.invalidInput [⟨"id", complaint⟩])
  match scope with
  | .scalar s =>
    match Schema.readId s with
    | .ok id => .ok id
    | .error complaint => refuse complaint
  | _ => refuse .idType

/-! ## Writes -/

/-- What a write answers, and the database after it. -/
abbrev Outcome (α : Type) := Except Error α × Database

/-- Runs a write whose arguments are accepted; one whose arguments are not changes nothing. -/
def write (db : Database) (arguments : Except Error α) (request : α → Session → Session.Outcome β) :
    Outcome β :=
  match arguments with
  | .error e => (.error e, db)
  | .ok a => db.transact (request a)

/-- Fails where a request answers that the instruction does not exist. -/
def existing (id : Uuid) : Session.Outcome (Option α) → Session.Outcome α
  | (.ok (some a), s) => (.ok a, s)
  | (.ok none, s) => (.error (.instructionNotFound id), s)
  | (.error e, s) => (.error e, s)

/-- Declares the instruction of a scope. The level is checked first, then the id, then the
fields. -/
def create (v : Service) (stamp : Stamp) (db : Database) (level scope fields : Value)
    (actor : Option Uuid) : Outcome Instruction :=
  let arguments := do
    let level ← Level.parse level
    let scope ← acceptScopeId scope
    let members ← accept .fields fields
    pure (level, scope, Fields.ofMembers members)
  write db arguments fun (level, scope, fields) =>
    Session.create v.today stamp level scope fields actor

/-- Sets fields of a current instruction; null values leave a field as it is. -/
def update (now : Timestamp) (db : Database) (id : Uuid) (fields : Value) : Outcome Instruction :=
  write db (accept .fields fields) fun members s =>
    existing id (s.update now id (Fields.ofMembers members))

/-- Retires an instruction; answers whether it was current. -/
def delete (now : Timestamp) (db : Database) (id : Uuid) : Outcome Bool :=
  db.transact fun s =>
    if (s.store.row? id).isSome then s.retire now id
    else (.error (.instructionNotFound id), s)

def addSection (kind : SectionKind) (stamp : Stamp) (db : Database) (id : Uuid) (data : Value) :
    Outcome Section :=
  write db (accept (.ofSection kind false) data) fun members =>
    Session.addSection kind stamp id (.ofMembers kind members)

/-- Changes a section; answers none if there is no such section. -/
def updateSection (kind : SectionKind) (db : Database) (id : Uuid) (data : Value) :
    Outcome (Option Section) :=
  write db (accept (.ofSection kind true) data) fun members =>
    Session.updateSection kind id (.ofMembers kind members)

def removeSection (kind : SectionKind) (db : Database) (id : Uuid) : Outcome Bool :=
  db.transact (Session.removeSection kind id)

end Service

end CarCare

import CarCare.Schema

/-!
What can go wrong with a request, and the wording of each cause.
-/
namespace CarCare

/-- A rule that the tables keep: distinct values, a value present, or a condition on a row. -/
inductive Constraint where
  | unique (columns : List String)
  | notNull (column : String)
  | check (name : String)
deriving DecidableEq, Repr

def Constraint.message : Constraint → String
  | unique columns => "UNIQUE constraint failed: " ++ ", ".intercalate columns
  | notNull column => "NOT NULL constraint failed: " ++ column
  | check name => "CHECK constraint failed: " ++ name

/-- The cause of a failed request. -/
inductive Error where
  /-- A value that names no level. -/
  | invalidLevel (value : Value)
  /-- A payload that its schema refuses. -/
  | invalidInput (faults : List Fault)
  /-- A payload that is no mapping. -/
  | notAMapping
  | scopeNotFound (level : Level) (id : Uuid)
  | instructionNotFound (id : Uuid)
  | carNotPlaced (car : String)
  | pathWithoutCustomer
  /-- The scope already has a current instruction. -/
  | scopeTaken (level : Level) (id : Uuid)
  /-- The tables refuse a new instruction. -/
  | instructionExists
  /-- The instruction already has a section of the kind for the commodity. -/
  | commodityTaken (commodity : String) (instruction : Uuid)
  /-- The tables refuse a new section. -/
  | sectionExists
  | constraint (broken : Constraint)
  /-- An integer that does not fit into 64 bits was to be stored. -/
  | integerTooLarge
  /-- A value that is no flag was to be stored as one. -/
  | notAFlag (value : Value)
  /-- A list or a mapping was to be stored. -/
  | unsupported (value : Value)
  /-- A day before the first one of the calendar. -/
  | dayOutOfRange

namespace Error

def message : Error → String
  | invalidLevel value => "Invalid scope type: " ++ value.literal
  | invalidInput _ => "Invalid input"
  | notAMapping => "Not a mapping"
  | scopeNotFound level id => "Scope not found: " ++ level.name ++ " " ++ id.text
  | instructionNotFound id => "CCM instruction not found: " ++ id.text
  | carNotPlaced car =>
    if car = "" then "Hierarchy path has no customer"
    else "Car has no active hierarchy placement: " ++ car
  | pathWithoutCustomer => "Hierarchy path has no customer"
  | scopeTaken level id =>
    "Scope already has a current CCM instruction: " ++ level.name ++ " " ++ id.text
  | instructionExists => "CCM instruction already exists"
  | commodityTaken commodity id =>
    "Commodity '" ++ commodity ++ "' already has a section on instruction " ++ id.text
  | sectionExists => "Section already exists"
  | constraint broken => broken.message
  | integerTooLarge => "Python int too large to convert to SQLite INTEGER"
  | notAFlag value =>
    match value with
    | .scalar (.int _) => "Value " ++ value.literal ++ " is not None, True, or False"
    | .list _ => "unhashable type: 'list'"
    | .map _ => "unhashable type: 'dict'"
    | _ => "Not a boolean value: " ++ value.literal
  | unsupported value =>
    match value with
    | .list _ => "type 'list' is not supported"
    | _ => "type 'dict' is not supported"
  | dayOutOfRange => "date value out of range"

/-- Whether something that the request names does not exist. -/
def isNotFound : Error → Bool
  | scopeNotFound .. | instructionNotFound _ | carNotPlaced _ | pathWithoutCustomer => true
  | _ => false

/-- Whether the store itself refuses a request, rather than the tables underneath. -/
def isRefusal : Error → Bool
  | scopeNotFound .. | instructionNotFound _ | carNotPlaced _ | pathWithoutCustomer
  | invalidLevel _ | scopeTaken .. | instructionExists | commodityTaken ..
  | sectionExists => true
  | _ => false

end Error

/-- The level that a value names. One that names none is put in words by the refusal. That integers
of too many digits have none (`Value.isWritable`) is left out of account here. -/
def Level.parse (value : Value) : Except Error Level :=
  match Level.ofValue? value with
  | some level => .ok level
  | none => .error (.invalidLevel value)

end CarCare

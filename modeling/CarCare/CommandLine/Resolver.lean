import CarCare.CommandLine.Exit
import CarCare.Json.Writer
import CarCare.Service

/-!
The resolver: a command line that answers what holds for a car or a scope, what a scope would
inherit, and the scope tree. The answer is written as JSON. Status 1 means that the car or the
scope was not found, and status 2 that an argument is not valid.
-/
namespace CarCare.CommandLine

inductive Command where
  | car (number : String) (asOf : Option Date)
  | scope (level : String) (id : Uuid)
  | preview (level : String) (id : Uuid)
  | tree (customer : Option Uuid)
deriving DecidableEq, Repr

namespace Command

def asOfOption : OptionForm := { names := ["--as-of"], takesValue := true }

def customerOption : OptionForm := { names := ["--customer-id"], takesValue := true }

/-- Converts a value; one that cannot be converted is a mistake. -/
def convert (read : String → Option α) (value : String) : Except Usage α :=
  match read value with
  | some a => .ok a
  | none => .error .mistaken

/-- Converts the value of an option, if it was given. All values have to be convertible, though
only the last one counts. -/
def optionValue (a : Arguments) (f : OptionForm) (read : String → Option α) :
    Except Usage (Option α) := do
  pure (← (a.values f.name).mapM (convert read)).getLast?

def readId (s : String) : Option Uuid := Uuid.ofLoose? s.toList

def readScope (args : List String) : Except Usage (String × Uuid) := do
  match (← Arguments.parse [] 2 args).words with
  | [level, id] => pure (level, ← convert readId id)
  | _ => throw .mistaken

def parse (name : String) (args : List String) : Except Usage Command :=
  match name with
  | "car" => do
    let a ← Arguments.parse [asOfOption] 1 args
    pure (.car (a.words.headD "") (← optionValue a asOfOption Date.read?))
  | "scope" => (readScope args).map fun (level, id) => .scope level id
  | "preview" => (readScope args).map fun (level, id) => .preview level id
  | "tree" => do
    let a ← Arguments.parse [customerOption] 0 args
    pure (.tree (← optionValue a customerOption readId))
  | _ => .error .mistaken

/-- Why a command is refused before the database is asked: it names a level that there is not. -/
def mistake? : Command → Option Error
  | scope level _ | preview level _ =>
    match Level.parse (.text level) with
    | .ok _ => none
    | .error e => some e
  | car .. | tree _ => none

def answer (service : Service) (db : Database) : Command → Except Error Value
  | car number asOf => (service.resolveCar db number asOf).map Effective.toValue
  | scope level id => (service.resolveScope db (.text level) id).map Effective.toValue
  | preview level id =>
    (service.preview db (.text level) id).map (Value.ofOption (Instruction.toValue · true))
  | tree customer => .ok (.list (Node.toValues (service.tree db customer)))

def exit : Except Error Value → Except Failure Exit
  | .ok value => .ok { status := 0, output := Json.indented value ++ "\n" }
  | .error (.invalidLevel _) => .ok { status := 2 }
  | .error e => if e.isNotFound then .ok { status := 1 } else .error (.request e)

end Command

namespace Resolver

/-- Reads the arguments: the configuration file, if one is named, and the command. -/
def parse (args : List String) : Except Usage (Option String × Command) := do
  let (a, name, rest) ← Arguments.parseCommand [configOption] args
  pure (a.configFile?, ← Command.parse name rest)

/-- Runs a command with a configuration: connects the shared provider, and closes it whatever the
answer is. Without tables there is none, but for a mistake. -/
def runCommand (v : Surroundings) (config : Config) (command : Command) (db : Database)
    (shared : SharedProvider) : Except Failure Exit × SharedProvider :=
  let (provider, shared) := shared.connect (.ofConfig v.environment config.database) (some db)
  let service : Service := ⟨config.tree.hideInactive, v.today⟩
  -- A level that there is not is noticed before the tables are asked for anything.
  let exit := match provider.database, command.mistake? with
    | some db, _ => Command.exit (command.answer service db)
    | none, some e => Command.exit (.error e)
    | none, none => .error .noTables
  (exit, shared.close)

/-- Runs the resolver. The arguments are looked at before the configuration, and that before the
database. -/
def run (v : Surroundings) (source : ConfigSource) (args : List String) (db : Database)
    (shared : SharedProvider) : Except Failure Exit × SharedProvider :=
  match parse args with
  | .error usage => (.ok usage.exit, shared)
  | .ok (file, command) =>
    match configure source file with
    | .error failure => (.error failure, shared)
    | .ok config => runCommand v config command db shared

end Resolver

end CarCare.CommandLine

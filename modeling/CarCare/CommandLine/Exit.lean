import CarCare.CommandLine.Arguments
import CarCare.Config.Logging
import CarCare.Error
import CarCare.Provider

/-!
How a run of the command line ends: with an exit status and an output, or with a failure that no
status stands for.
-/
namespace CarCare.CommandLine

structure Exit where
  status : Nat
  output : String := ""
deriving DecidableEq, Repr

/-- The status for arguments that are not taken. -/
def Usage.exit : Usage → Exit
  | .help => { status := 0 }
  | .mistaken => { status := 2 }

/-- A failure that no exit status stands for. -/
inductive Failure where
  | config (e : ConfigError)
  | logging (e : LoggingError)
  | request (e : Error)
  /-- The database was asked for something before it had tables. -/
  | noTables

def Failure.message : Failure → String
  | config e => e.message
  | logging e => e.message
  | request e => e.message
  | noTables => "no such table"

def configOption : OptionForm := { names := ["--config"], takesValue := true }

/-- The configuration file that the arguments name; an empty name names none. -/
def Arguments.configFile? (a : Arguments) : Option String :=
  (a.value? configOption.name).filter (· != "")

/-- How a run gets its configuration: from a named file, or from the usual place. -/
abbrev ConfigSource := Option String → Except ConfigError Config

/-- Gets the configuration and sets up the log that it asks for. -/
def configure (source : ConfigSource) (file : Option String) : Except Failure Config :=
  match source file with
  | .error e => .error (.config e)
  | .ok config =>
    match config.logging.fault? with
    | some e => .error (.logging e)
    | none => .ok config

/-- What a run takes from its surroundings. -/
structure Surroundings where
  today : Date
  environment : Environment := []

end CarCare.CommandLine

import CarCare.Text.UpperCase
import CarCare.Value
import CarCare.Yaml.Reader

/-!
Configuration: the three sections of the configuration file with their defaults, and the limits
that a configuration has to keep. The values of most keys are taken as they stand in the file;
only the logging level and the mark for hidden scopes are converted.
-/
namespace CarCare

/-- How to reach the database and how many connections to keep. -/
structure DatabaseConfig where
  host : Value := .text "localhost"
  port : Value := .int 5432
  user : Value := .text "ccm_user"
  password : Value := .text "ccm_password"
  name : Value := .text "ccm_database"
  url : Value := .null
  poolSize : Value := .int 5
  maxOverflow : Value := .int 10
  poolTimeout : Value := .int 30
  poolRecycle : Value := .int 1800
  echo : Value := .bool false

/-- What is logged, and where to. -/
structure LoggingConfig where
  level : String := "INFO"
  file : Value := .text "logs/ccm.log"
  console : Value := .bool true
  format : Value := .text "%(asctime)s - %(name)s - %(levelname)s - %(message)s"

/-- How the scope tree is shown. -/
structure TreeConfig where
  hideInactive : Bool := false

structure Config where
  database : DatabaseConfig := {}
  logging : LoggingConfig := {}
  tree : TreeConfig := {}

/-- Why a configuration is refused. -/
inductive ConfigError where
  /-- The text cannot be read. -/
  | unreadable
  /-- The file holds something else than a mapping. -/
  | notAMapping
  /-- A section holds something else than a mapping. -/
  | sectionNotAMapping
  /-- The level, or a value that the refusal would show, cannot be put in words. -/
  | tooManyDigits
  | level (name : String)
  | notPositive (key : String) (value : Value)
  | negative (key : String) (value : Value)
  | port (value : Value)

namespace Config

def levelNames : List String := ["DEBUG", "INFO", "WARNING", "ERROR", "CRITICAL"]

end Config

namespace ConfigError

def message : ConfigError → String
  | unreadable => "Invalid YAML in config file"
  | notAMapping => "Config file must contain a mapping at the top level"
  | sectionNotAMapping => "Config section must be a mapping"
  | tooManyDigits =>
    "Exceeds the limit (" ++ toString Text.digitLimit ++ " digits) for integer string conversion; "
      ++ "use sys.set_int_max_str_digits() to increase the limit"
  | level name =>
    "Invalid logging level '" ++ name ++ "', expected one of " ++ ", ".intercalate Config.levelNames
  | notPositive key value =>
    "database." ++ key ++ " must be a positive integer, got " ++ value.literal
  | negative key value =>
    "database." ++ key ++ " must be a non-negative integer, got " ++ value.literal
  | port value => "database.port out of range: " ++ value.literal

/-- Whether a refusal is reported as one of the configuration. The other two are faults of the
program that leave it as they are. -/
def isReported : ConfigError → Bool
  | sectionNotAMapping | tooManyDigits => false
  | _ => true

end ConfigError

abbrev ConfigSection := List (Scalar × Value)

namespace ConfigSection

/-- The value of a key, or its default if the key is absent. -/
def getOr (s : ConfigSection) (key : String) (default : Value) : Value :=
  (s.lookup (.text key)).getD default

end ConfigSection

namespace Config

/-- The members of a mapping. Anything empty has none; anything else is refused. -/
def entriesOf (refusal : ConfigError) : Value → Except ConfigError ConfigSection
  | .map entries => .ok entries
  | value => if value.isFull then .error refusal else .ok []

/-- A section of the file; one that is absent or empty has no keys. -/
def sectionOf (file : ConfigSection) (name : String) : Except ConfigError ConfigSection :=
  entriesOf .sectionNotAMapping (file.getOr name .null)

def readDatabase (s : ConfigSection) : DatabaseConfig :=
  let d : DatabaseConfig := {}
  { host := s.getOr "host" d.host
    port := s.getOr "port" d.port
    user := s.getOr "user" d.user
    password := s.getOr "password" d.password
    name := s.getOr "name" d.name
    url := s.getOr "url" d.url
    poolSize := s.getOr "pool_size" d.poolSize
    maxOverflow := s.getOr "max_overflow" d.maxOverflow
    poolTimeout := s.getOr "pool_timeout" d.poolTimeout
    poolRecycle := s.getOr "pool_recycle" d.poolRecycle
    echo := s.getOr "echo" d.echo }

/-- The level may be written in any case, and as any value that can be put in words. -/
def readLogging (s : ConfigSection) : Except ConfigError LoggingConfig :=
  let d : LoggingConfig := {}
  let level := s.getOr "level" (.text d.level)
  if level.isWritable then
    .ok
      { level := Text.upperCase level.display
        file := s.getOr "file" d.file
        console := s.getOr "console" d.console
        format := s.getOr "format" d.format }
  else .error .tooManyDigits

def readTree (s : ConfigSection) : TreeConfig where
  hideInactive := (s.getOr "hide_inactive" (.bool false)).isFull

/-- What a file says, before its limits are looked at. An empty file has only defaults. -/
def read (file : Value) : Except ConfigError Config := do
  let entries ← entriesOf .notAMapping file
  -- Sections are read in this order, and the first that is refused ends the reading.
  let database ← sectionOf entries "database"
  let logging ← readLogging (← sectionOf entries "logging")
  let tree ← sectionOf entries "hierarchy_tree"
  pure { database := readDatabase database, logging := logging, tree := readTree tree }

end Config

/-- The numbers of the database section that have a limit. -/
inductive LimitedNumber where
  | poolSize
  | poolTimeout
  | poolRecycle
  | maxOverflow
  | port
deriving DecidableEq, Repr

namespace LimitedNumber

def all : List LimitedNumber := [poolSize, poolTimeout, poolRecycle, maxOverflow, port]

def key : LimitedNumber → String
  | poolSize => "pool_size"
  | poolTimeout => "pool_timeout"
  | poolRecycle => "pool_recycle"
  | maxOverflow => "max_overflow"
  | port => "port"

def value (d : DatabaseConfig) : LimitedNumber → Value
  | poolSize => d.poolSize
  | poolTimeout => d.poolTimeout
  | poolRecycle => d.poolRecycle
  | maxOverflow => d.maxOverflow
  | port => d.port

/-- Whether a number is within its limit. -/
def allows (n : Int) : LimitedNumber → Bool
  | maxOverflow => 0 ≤ n
  | port => 0 < n && n < 65536
  | _ => 0 < n

/-- The refusal of a value that is no number within its limit. -/
def refusal (v : Value) : LimitedNumber → ConfigError
  | maxOverflow => .negative maxOverflow.key v
  | port => .port v
  | number => .notPositive number.key v

/-- The number that a value counts as in a limit: an integer, or a truth value as 0 or 1. -/
def wholeNumber? : Value → Option Int
  | .scalar (.int n) => some n
  | .scalar (.bool b) => some b.toNat
  | _ => none

/-- Whether a value counts as a number within its limit. -/
def admits (v : Value) (number : LimitedNumber) : Bool :=
  (wholeNumber? v).any number.allows

/-- Refuses a database section that does not keep one limit. The refusal shows the value. -/
def check (d : DatabaseConfig) (number : LimitedNumber) : Except ConfigError Unit :=
  let v := number.value d
  if number.admits v then .ok ()
  else if v.isWritable then .error (number.refusal v)
  else .error .tooManyDigits

end LimitedNumber

namespace Config

/-- Refuses a configuration outside its limits. The level is looked at first. -/
def check (c : Config) : Except ConfigError Unit := do
  if !levelNames.contains c.logging.level then throw (.level c.logging.level)
  LimitedNumber.all.forM (LimitedNumber.check c.database)

/-- The configuration that the value of a file describes. -/
def ofValue (file : Value) : Except ConfigError Config := do
  let c ← read file
  c.check
  pure c

/-- The configuration that the text of a file describes. -/
def ofText (text : String) : Except ConfigError Config :=
  match Yaml.read? text with
  | some file => ofValue file
  | none => .error .unreadable

def databaseMembers (d : DatabaseConfig) : List (String × Value) :=
  [("host", d.host), ("port", d.port), ("user", d.user), ("password", d.password),
   ("name", d.name), ("url", d.url), ("pool_size", d.poolSize), ("max_overflow", d.maxOverflow),
   ("pool_timeout", d.poolTimeout), ("pool_recycle", d.poolRecycle), ("echo", d.echo)]

def loggingMembers (l : LoggingConfig) : List (String × Value) :=
  [("level", .text l.level), ("file", l.file), ("console", l.console), ("format", l.format)]

def treeMembers (t : TreeConfig) : List (String × Value) := [("hide_inactive", .bool t.hideInactive)]

/-- What may be shown of a configuration: the password is masked, and neither the address of the
database nor the times of the pool are given. -/
def exported (c : Config) : Value :=
  let d := c.database
  .object
    [("database", .object
      [("host", d.host), ("port", d.port), ("user", d.user), ("password", .text "***"),
       ("name", d.name), ("pool_size", d.poolSize), ("max_overflow", d.maxOverflow),
       ("echo", d.echo)]),
     ("logging", .object
      [("level", .text c.logging.level), ("file", c.logging.file),
       ("console", c.logging.console)]),
     ("hierarchy_tree", .object (treeMembers c.tree))]

end Config

end CarCare

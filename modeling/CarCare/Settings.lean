import CarCare.Config
import CarCare.Text.Integer

/-!
Connection settings: the target and the pool sizes, taken from the environment or from the database
section of the configuration, and the address that they make up.
-/
namespace CarCare

/-- The environment variables that are set. -/
abbrev Environment := List (String × String)

structure Settings where
  host : Value := .text "localhost"
  port : Value := .int 5432
  database : Value := .text "ccm_database"
  user : Value := .text "ccm_user"
  password : Value := .text "ccm_password"
  url : Value := .null
  poolSize : Value := .int 5
  maxOverflow : Value := .int 10
  poolTimeout : Value := .int 30
  poolRecycle : Value := .int 1800
  echo : Value := .bool false

/-- Why the environment gives no settings: a variable that should hold a number does not. -/
inductive SettingsError where
  | notANumber (text : String)
  | tooManyDigits (count : Nat)
deriving DecidableEq, Repr

namespace SettingsError

def message : SettingsError → String
  | notANumber text => "invalid literal for int() with base 10: " ++ Text.quoted text
  | tooManyDigits count =>
    "Exceeds the limit (" ++ toString Text.digitLimit
      ++ " digits) for integer string conversion: value has " ++ toString count
      ++ " digits; use sys.set_int_max_str_digits() to increase the limit"

end SettingsError

namespace Settings

/-- Reads a whole number in decimal. The number of digits is limited, which is looked at before
what stands behind them. -/
def readInteger (s : String) : Except SettingsError Int :=
  let (negative, body) := Text.splitSign (Text.bareNumber s.toList)
  let run := body.takeWhile fun c => c.isDigit || c == '_'
  match Text.digitsOf? run with
  | none => .error (.notANumber s)
  | some digits =>
    if Text.digitLimit < digits.length then .error (.tooManyDigits digits.length)
    else if run.length = body.length then
      match Text.ofDigits? 10 digits with
      | some n => .ok (Text.signed negative n)
      | none => .error (.notANumber s)
    -- Something stands behind the digits.
    else .error (.notANumber s)

/-- The address that the environment gives, if it is not empty. -/
def urlOf (env : Environment) : Value :=
  match env.lookup "DATABASE_URL" with
  | some url => if url = "" then .null else .text url
  | none => .null

/-- Settings from the environment. The port is read first, then the sizes of the pool. -/
def ofEnvironment (env : Environment) : Except SettingsError Settings := do
  let get (name default : String) := (env.lookup name).getD default
  let port ← readInteger (get "DB_PORT" "5432")
  let poolSize ← readInteger (get "DB_POOL_SIZE" "5")
  let maxOverflow ← readInteger (get "DB_MAX_OVERFLOW" "10")
  let poolTimeout ← readInteger (get "DB_POOL_TIMEOUT" "30")
  let poolRecycle ← readInteger (get "DB_POOL_RECYCLE" "1800")
  pure
    { host := .text (get "DB_HOST" "localhost")
      port := .int port
      database := .text (get "DB_NAME" "ccm_database")
      user := .text (get "DB_USER" "ccm_user")
      password := .text (get "DB_PASSWORD" "ccm_password")
      url := urlOf env
      poolSize := .int poolSize
      maxOverflow := .int maxOverflow
      poolTimeout := .int poolTimeout
      poolRecycle := .int poolRecycle
      echo := .bool ((get "DB_ECHO" "false").toLower == "true") }

/-- Settings from the database section; an address in the environment wins over the file's. -/
def ofConfig (env : Environment) (d : DatabaseConfig) : Settings where
  host := d.host
  port := d.port
  database := d.name
  user := d.user
  password := d.password
  url := if (urlOf env).isFull then urlOf env else d.url
  poolSize := d.poolSize
  maxOverflow := d.maxOverflow
  poolTimeout := d.poolTimeout
  poolRecycle := d.poolRecycle
  echo := d.echo

/-- The address of the database: the one that is given, or the parts of the target in a row. -/
def address (s : Settings) : Value :=
  if s.url.isFull then s.url
  else .text ("postgresql+psycopg2://" ++ s.user.display ++ ":" ++ s.password.display ++ "@"
    ++ s.host.display ++ ":" ++ s.port.display ++ "/" ++ s.database.display)

def members (s : Settings) : List (String × Value) :=
  [("host", s.host), ("port", s.port), ("database", s.database), ("user", s.user),
   ("password", s.password), ("url", s.url), ("pool_size", s.poolSize),
   ("max_overflow", s.maxOverflow), ("pool_timeout", s.poolTimeout),
   ("pool_recycle", s.poolRecycle), ("echo", s.echo)]

/-- What the pool of connections is set up with. -/
def poolMembers (s : Settings) : List (String × Value) :=
  [("poolclass", .text "QueuePool"), ("pool_size", s.poolSize), ("max_overflow", s.maxOverflow),
   ("pool_timeout", s.poolTimeout), ("pool_recycle", s.poolRecycle), ("pool_pre_ping", .bool true)]

end Settings

end CarCare

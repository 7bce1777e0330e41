import CarCare.Config

/-!
Setting up the log: the level and the handlers that a logging section asks for, and what the
section has to keep for that. A layout of messages has to hold a placeholder: a name in parentheses
behind a percent sign, then marks, a width, a precision and the letter of a conversion.
-/
namespace CarCare

/-- Where log messages go. -/
inductive LogHandler where
  | stream
  | file
  | null
deriving DecidableEq, Repr

/-- Why no log can be set up. -/
inductive LoggingError where
  /-- The file is given by something else than a text. -/
  | fileNotText
  /-- The layout is something else than a text. -/
  | formatNotText
  /-- The layout has no placeholder. -/
  | noPlaceholder (format : String)

def LoggingError.message : LoggingError → String
  | fileNotText => "Log file is not a path"
  | formatNotText => "Log format is not a text"
  | noPlaceholder format => "Invalid format '" ++ format ++ "' for '%' style"

namespace LoggingConfig

/-- The number of a logging level; an unknown name counts as INFO. -/
def levelNumber (name : String) : Nat :=
  let known : List (String × Nat) :=
    [("NOTSET", 0), ("DEBUG", 10), ("INFO", 20), ("WARN", 30), ("WARNING", 30), ("ERROR", 40),
     ("FATAL", 50), ("CRITICAL", 50)]
  (known.lookup (Text.upperCase name)).getD 20

/-- The handlers of a logging section: the console, then the file, and if there is neither one that
drops everything. -/
def handlers (l : LoggingConfig) : List LogHandler :=
  let asked := (if l.console.isFull then [.stream] else []) ++ if l.file.isFull then [.file] else []
  if asked.isEmpty then [.null] else asked

/-! ## Layouts of messages -/

/-- Whether a character may stand in the name of a placeholder. -/
def isNameCharacter (c : Char) : Bool := c.isAlphanum || c == '_'

/-- Drops a width or a precision: digits, or a star. -/
def afterWidth : List Char → List Char
  | '*' :: rest => rest
  | s => s.dropWhile Char.isDigit

/-- Whether a text goes on with what follows the name of a placeholder: marks, a width, a precision
behind a point, and the letter of a conversion. -/
def isConversion (s : List Char) : Bool :=
  let isMark (c : Char) : Bool := c == '#' || c == '0' || c == '+' || c == ' ' || c == '-'
  let s := match afterWidth (s.dropWhile isMark) with
    | '.' :: rest => if afterWidth rest = rest then '.' :: rest else afterWidth rest
    | rest => rest
  s.head?.any fun c => "diouxefgcrsaDIOUXEFGCRSA%".toList.contains c

def isPlaceholder : List Char → Bool
  | '%' :: '(' :: rest =>
    let name := rest.takeWhile isNameCharacter
    match rest.drop name.length with
    | ')' :: rest => !name.isEmpty && isConversion rest
    | _ => false
  | _ => false

def hasPlaceholder : List Char → Bool
  | [] => false
  | c :: rest => isPlaceholder (c :: rest) || hasPlaceholder rest

/-- The cause for which no log can be set up. The file is looked at first. A file that is empty
names none, and a layout that is empty is the usual one. -/
def fault? (l : LoggingConfig) : Option LoggingError :=
  let file : Option LoggingError := match l.file with
    | .scalar (.text _) => none
    | file => if file.isFull then some .fileNotText else none
  let format : Option LoggingError := match l.format with
    | .scalar (.text s) =>
      if s = "" || hasPlaceholder s.toList then none else some (.noPlaceholder s)
    | format => if format.isFull then some .formatNotText else none
  file.or format

end LoggingConfig

end CarCare

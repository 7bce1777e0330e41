import CarCare.Text.DecimalDigit

/-!
Arguments of a command line. An argument that starts with a hyphen is an option, unless it is the
hyphen alone, looks like a negative number or holds a blank; all others are words. Long options may
be abbreviated as long as one name fits, letters of options without a value may be joined, and a
value follows its option as the next word or behind an equals sign. After a lone double hyphen
everything is a word.
-/
namespace CarCare.CommandLine

/-- An option: its names, the first of which it is known by, and whether it takes a value. -/
structure OptionForm where
  names : List String
  takesValue : Bool := false

/-- Why arguments are not taken. -/
inductive Usage where
  /-- Help was asked for. -/
  | help
  | mistaken
deriving DecidableEq, Repr

/-- The option that asks for help, which every command has. -/
def helpOption : OptionForm := { names := ["--help", "-h"] }

namespace OptionForm

def name (f : OptionForm) : String := f.names.headD ""

def find? (forms : List OptionForm) (name : List Char) : Option OptionForm :=
  forms.find? fun f => f.names.any (·.toList == name)

/-- The options that a beginning of a long name fits, each as often as it has such names. -/
def abbreviated (forms : List OptionForm) (name : List Char) : List OptionForm :=
  forms.flatMap fun f => (f.names.filter fun n => name.isPrefixOf n.toList).map fun _ => f

end OptionForm

/-- What an argument is. -/
inductive Argument where
  | word
  /-- An option, with the value behind its equals sign. -/
  | option (form : OptionForm) (value : Option (List Char))
  /-- An option of one letter, with the letters joined to it. -/
  | letters (form : OptionForm) (more : List Char)
  | mistaken

/-- Splits an argument at its first equals sign. -/
def splitValue (s : List Char) : List Char × Option (List Char) :=
  let name := s.takeWhile (· != '=')
  (name, (s.drop name.length).tail?)

/-- Whether a text reads as a negative number: a hyphen and digits, with a point at most before the
last run of digits. One line end may follow. -/
def looksNegative (s : List Char) : Bool :=
  let s := if s.getLast? = some '\n' then s.dropLast else s
  match s with
  | '-' :: body =>
    match body.dropWhile Text.isDecimalDigit with
    | [] => !body.isEmpty
    | '.' :: rest => !rest.isEmpty && rest.all Text.isDecimalDigit
    | _ => false
  | _ => false

namespace Argument

/-- Tells what an argument is that starts with a hyphen and names no option. -/
def withoutName (s : List Char) : Argument :=
  if looksNegative s || s.contains ' ' then .word else .mistaken

/-- Tells what an argument is, the lone double hyphen apart. -/
def read (forms : List OptionForm) (s : List Char) : Argument :=
  match s with
  | '-' :: c :: rest =>
    let (name, value) := splitValue s
    match OptionForm.find? forms s, value.bind fun _ => OptionForm.find? forms name with
    | some f, _ => .option f none
    | none, some f => .option f value
    | none, none =>
      if c == '-' then
        match OptionForm.abbreviated forms name with
        | [f] => .option f value
        | [] => withoutName s
        | _ => .mistaken
      else
        match OptionForm.find? forms ['-', c] with
        | some f => .letters f rest
        | none => withoutName s
  | _ => .word

def isWord (forms : List OptionForm) (s : String) : Bool :=
  match read forms s.toList with
  | .word => s != "--"
  | _ => false

end Argument

/-- Arguments that have been read: the options with their values, and the words. -/
structure Arguments where
  options : List (String × Option String) := []
  words : List String := []
deriving DecidableEq, Repr

namespace Arguments

/-- The value that an option was given last. -/
def value? (a : Arguments) (name : String) : Option String := (a.options.reverse.lookup name).join

def values (a : Arguments) (name : String) : List String :=
  a.options.filterMap fun (n, value) => if n == name then value else none

def has (a : Arguments) (name : String) : Bool := (a.options.lookup name).isSome

def addWord (a : Arguments) (word : String) : Arguments := { a with words := a.words ++ [word] }

/-- Notes an option without a value; the option for help ends the reading. -/
def addFlag (a : Arguments) (f : OptionForm) : Except Usage Arguments :=
  if f.takesValue then .error .mistaken
  else if f.name == helpOption.name then .error .help
  else .ok { a with options := a.options ++ [(f.name, none)] }

/-- Notes the options that joined letters name. -/
def addLetters (forms : List OptionForm) (a : Arguments) : List Char → Except Usage Arguments
  | [] => .ok a
  | c :: rest =>
    match OptionForm.find? forms ['-', c] with
    | some f => do (← a.addFlag f).addLetters forms rest
    | none => .error .mistaken

/-- Notes an option. Answers also whether the argument after it is taken as its value. -/
def addOption (a : Arguments) (forms : List OptionForm) (f : OptionForm)
    (value : Option (List Char)) (next : Option String) : Except Usage (Arguments × Bool) :=
  let give (value : String) : Arguments :=
    { a with options := a.options ++ [(f.name, some value)] }
  match f.takesValue, value, next with
  | true, some value, _ => .ok (give (String.ofList value), false)
  | true, none, some value =>
    if Argument.isWord forms value then .ok (give value, true) else .error .mistaken
  | true, none, none | false, some _, _ => .error .mistaken
  | false, none, _ => (a.addFlag f).map (·, false)

/-- Notes an argument that is no word. Answers also whether the one after it is taken with it. -/
def note (a : Arguments) (forms : List OptionForm) (next : Option String) :
    Argument → Except Usage (Arguments × Bool)
  | .option f value => a.addOption forms f value next
  | .letters f more => do pure (← (← a.addFlag f).addLetters forms more, false)
  | .word | .mistaken => .error .mistaken

/-- Reads arguments to their end. A double hyphen has to stand next to a word. -/
def readAll (forms : List OptionForm) (afterWord : Bool) (a : Arguments) :
    List String → Except Usage Arguments
  | [] => .ok a
  | s :: rest =>
    if s = "--" then
      if afterWord || !rest.isEmpty then .ok { a with words := a.words ++ rest }
      else .error .mistaken
    else
      match Argument.read forms s.toList with
      | .word => (a.addWord s).readAll forms true rest
      | argument =>
        match a.note forms rest.head? argument, rest with
        | .error usage, _ => .error usage
        | .ok (a, true), _ :: rest => a.readAll forms false rest
        | .ok (a, _), rest => a.readAll forms false rest

/-- Reads options and a given number of words. -/
def parse (forms : List OptionForm) (words : Nat) (args : List String) : Except Usage Arguments := do
  let a ← readAll (helpOption :: forms) false {} args
  if a.words.length = words then pure a else throw .mistaken

/-- Reads options up to the first word, which is a command; all that follows belongs to it. -/
def readCommand (forms : List OptionForm) (a : Arguments) :
    List String → Except Usage (Arguments × String × List String)
  | [] => .error .mistaken
  | s :: rest =>
    if s = "--" then .error .mistaken
    else
      match Argument.read forms s.toList with
      | .word => .ok (a, s, rest)
      | argument =>
        match a.note forms rest.head? argument, rest with
        | .error usage, _ => .error usage
        | .ok (a, true), _ :: rest => a.readCommand forms rest
        | .ok (a, _), rest => a.readCommand forms rest

/-- Reads options and a command with its own arguments. -/
def parseCommand (forms : List OptionForm) (args : List String) :
    Except Usage (Arguments × String × List String) :=
  readCommand (helpOption :: forms) {} args

end Arguments

end CarCare.CommandLine

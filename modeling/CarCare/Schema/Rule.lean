import CarCare.Level
import CarCare.Text.Blank
import CarCare.Uuid

/-!
Lax conversion of one payload value: each rule accepts several spellings of what it asks for and
brings them to one form, or names its complaint.
-/
namespace CarCare.Schema

/-- What is wrong with one key of a payload. -/
inductive Complaint where
  | missing
  | notAllowed
  | flagUnreadable
  | flagType
  | textType
  | textTooShort
  | textTooLong (limit : Nat)
  | integerType
  | integerUnreadable
  | integerFraction
  | integerTooLarge
  | integerNotFinite
  | idUnreadable
  | idType
  | level (value : Value)

namespace Complaint

def code : Complaint → String
  | missing => "missing"
  | notAllowed => "extra_forbidden"
  | flagUnreadable => "bool_parsing"
  | flagType => "bool_type"
  | textType => "string_type"
  | textTooShort => "string_too_short"
  | textTooLong _ => "string_too_long"
  | integerType => "int_type"
  | integerUnreadable => "int_parsing"
  | integerFraction => "int_from_float"
  | integerTooLarge => "int_parsing_size"
  | integerNotFinite => "finite_number"
  | idUnreadable => "uuid_parsing"
  | idType => "uuid_type"
  | level _ => "value_error"

def message : Complaint → String
  | missing => "Field required"
  | notAllowed => "Extra inputs are not permitted"
  | flagUnreadable => "Input should be a valid boolean, unable to interpret input"
  | flagType => "Input should be a valid boolean"
  | textType => "Input should be a valid string"
  | textTooShort => "String should have at least 1 character"
  | textTooLong limit => "String should have at most " ++ toString limit ++ " characters"
  | integerType => "Input should be a valid integer"
  | integerUnreadable => "Input should be a valid integer, unable to parse string as an integer"
  | integerFraction => "Input should be a valid integer, got a number with a fractional part"
  | integerTooLarge => "Unable to parse input string as an integer, exceeded maximum size"
  | integerNotFinite => "Input should be a finite number"
  | idUnreadable => "Input should be a valid UUID"
  | idType => "UUID input should be a string, bytes or UUID object"
  | level value => "Value error, Invalid scope type: " ++ value.literal

end Complaint

/-- What a key of a payload has to hold. -/
inductive Rule where
  | flag
  | text (required : Bool) (limit : Option Nat)
  | integer
  | id
  | level
deriving DecidableEq, Repr

def trueWords : List String := ["1", "t", "true", "y", "yes", "on"]

def falseWords : List String := ["0", "f", "false", "n", "no", "off"]

def isInt64 (n : Int) : Bool := -9223372036854775808 ≤ n && n ≤ 9223372036854775807

/-- Reads a flag: a truth value, the numbers 0 and 1, or one of the words in any case. -/
def readFlag : Scalar → Except Complaint Bool
  | .bool b => .ok b
  | .int n =>
    if n = 0 then .ok false
    else if n = 1 then .ok true
    -- An integer beyond 64 bits is not even looked at as a flag.
    else .error (if isInt64 n then .flagUnreadable else .flagType)
  | .float x =>
    if x.toInt? = some 0 then .ok false
    else if x.toInt? = some 1 then .ok true
    else .error .flagType
  | .text s =>
    let word := s.toLower
    if trueWords.contains word then .ok true
    else if falseWords.contains word then .ok false
    else .error .flagUnreadable
  | _ => .error .flagType

/-- Reads a text of limited length; a required one may not be empty. -/
def readText (required : Bool) (limit : Option Nat) : Scalar → Except Complaint String
  | .text s =>
    if required ∧ s.length = 0 then .error .textTooShort
    else match limit with
      | some n => if n < s.length then .error (.textTooLong n) else .ok s
      | none => .ok s
  | _ => .error .textType

/-- Takes single underscores between digits out of a run of digits. -/
def withoutUnderscores? : List Char → Option (List Char)
  | [] => some []
  | d :: '_' :: e :: rest =>
    if d.isDigit ∧ e.isDigit then (withoutUnderscores? (e :: rest)).map (d :: ·) else none
  | d :: rest => if d.isDigit then (withoutUnderscores? rest).map (d :: ·) else none

/-- The most digits that the text of an integer may have. -/
def digitLimit : Nat := 4300

/-- Whether a tail after the digits is empty or a point and zeros. -/
def isZeroTail : List Char → Bool
  | [] => true
  | '.' :: zeros => !zeros.isEmpty && zeros.all (· == '0')
  | _ => false

/-- Reads the text of an integer: digits, single underscores between them, an optional sign in
front, a point and zeros behind, white space around. -/
def readIntegerText (s : String) : Except Complaint Int :=
  let (negative, body) := match Text.trimBy Text.isBlank s.toList with
    | '-' :: rest => (true, rest)
    | '+' :: rest => (false, rest)
    | rest => (false, rest)
  let isBody (c : Char) := c.isDigit || c == '_'
  match withoutUnderscores? (body.takeWhile isBody) with
  | some digits =>
    match Text.ofDigits? 10 digits with
    | some n =>
      if !isZeroTail (body.dropWhile isBody) then .error .integerUnreadable
      else if digitLimit < (digits.dropWhile (· == '0')).length then .error .integerTooLarge
      else .ok (if negative then -(n : Int) else n)
    | none => .error .integerUnreadable
  | none => .error .integerUnreadable

/-- Reads an integer: an integer of any size, a truth value, a floating point number of 63 bits
without a fraction, or a text. -/
def readInteger : Scalar → Except Complaint Int
  | .int n => .ok n
  | .bool b => .ok b.toNat
  | .float x =>
    match x with
    | .finite .. =>
      match x.toInt? with
      | some n => if n.natAbs < 9223372036854775808 then .ok n else .error .integerTooLarge
      | none => .error .integerFraction
    | _ => .error .integerNotFinite
  | .text s => readIntegerText s
  | _ => .error .integerType

/-- Reads an identifier in one of its four forms. -/
def readId : Scalar → Except Complaint Uuid
  | .text s =>
    match Uuid.ofPayload? s.toList with
    | some u => .ok u
    | none => .error .idUnreadable
  | _ => .error .idType

/-- The complaint about a value that is no scalar. -/
def Rule.typeComplaint (value : Value) : Rule → Complaint
  | flag => .flagType
  | text .. => .textType
  | integer => .integerType
  | id => .idType
  | level => .level value

def Rule.convertScalar (s : Scalar) : Rule → Except Complaint Scalar
  | flag => (readFlag s).map .bool
  | text required limit => (readText required limit s).map .text
  | integer => (readInteger s).map .int
  | id => (readId s).map (.text ·.text)
  | level =>
    match Level.ofValue? (.scalar s) with
    | some l => .ok (.text l.name)
    | none => .error (.level (.scalar s))

/-- Converts a value that is not empty; lists and mappings never fit. -/
def Rule.convert (rule : Rule) : Value → Except Complaint Value
  | .scalar s => (rule.convertScalar s).map .scalar
  | value => .error (rule.typeComplaint value)

end CarCare.Schema

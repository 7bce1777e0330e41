import CarCare.Text.Digits
import CarCare.Value

/-!
What a scalar without quotes means: words for nothing and for truth values, whole numbers in four
bases and in sixties, decimal numbers, and days. Everything else is text.
-/
namespace CarCare.Yaml

/-- What a scalar is to be read as. -/
inductive ScalarTag where
  | null
  | bool
  | int
  | float
  | date
  | text
  | merge
  | default
deriving DecidableEq, Repr

def nullWords : List String := ["~", "null", "Null", "NULL", ""]

def trueWords : List String := ["yes", "Yes", "YES", "true", "True", "TRUE", "on", "On", "ON"]

def falseWords : List String :=
  ["no", "No", "NO", "false", "False", "FALSE", "off", "Off", "OFF"]

def isLooseDigit (c : Char) : Bool := c.isDigit || c == '_'

def unsigned : List Char → Bool × List Char
  | '-' :: rest => (true, rest)
  | '+' :: rest => (false, rest)
  | s => (false, s)

def splitColons (s : List Char) : List (List Char) :=
  s.foldr (fun c parts =>
    match c, parts with
    | ':', parts => [] :: parts
    | c, part :: rest => (c :: part) :: rest
    | c, [] => [[c]]) [[]]

/-- Whether a text is a place of a number in sixties: one digit, or two below sixty. -/
def isSixty : List Char → Bool
  | [d] => d.isDigit
  | [t, d] => '0' ≤ t && t ≤ '5' && d.isDigit
  | _ => false

/-- Whether a text starts with a digit and holds only digits and underscores. -/
def isDecimal : List Char → Bool
  | d :: rest => d.isDigit && rest.all isLooseDigit
  | [] => false

def isInteger (s : List Char) : Bool :=
  match s with
  | '0' :: 'b' :: digits => !digits.isEmpty && digits.all fun c => c == '0' || c == '1' || c == '_'
  | '0' :: 'x' :: digits =>
    !digits.isEmpty && digits.all fun c => (Text.hexValue? c).isSome || c == '_'
  | ['0'] => true
  | '0' :: digits => digits.all fun c => ('0' ≤ c && c ≤ '7') || c == '_'
  | s =>
    match splitColons s with
    | [digits] => isDecimal digits
    | first :: others => isDecimal first && others.all isSixty
    | [] => false

/-- Whether a text is the exponent of a decimal number, with its letter and its sign. -/
def isExponent : List Char → Bool
  | [] => true
  | e :: sign :: digits =>
    (e == 'e' || e == 'E') && (sign == '+' || sign == '-') && !digits.isEmpty
      && digits.all Char.isDigit
  | _ => false

/-- Whether a text with a sign at most in front is a decimal number. -/
def isFloat (s : List Char) : Bool :=
  let (_, body) := unsigned s
  let afterPoint (rest : List Char) := isExponent (rest.dropWhile isLooseDigit)
  if [".inf", ".Inf", ".INF"].contains (String.ofList body) then true
  else if [".nan", ".NaN", ".NAN"].contains (String.ofList s) then true
  else match s with
    | '.' :: d :: rest => d.isDigit && afterPoint rest
    | _ =>
      match splitColons body with
      | [body] =>
        let whole := body.takeWhile isLooseDigit
        match body.drop whole.length with
        | '.' :: rest => isDecimal whole && afterPoint rest
        | _ => false
      | first :: others =>
        let last := others.getLastD []
        let whole := last.takeWhile Char.isDigit
        match last.drop whole.length with
        | '.' :: rest =>
          isDecimal first && others.dropLast.all isSixty && isSixty whole && rest.all isLooseDigit
        | _ => false
      | [] => false

def isDate (s : List Char) : Bool :=
  match s with
  | [a, b, c, d, '-', e, f, '-', g, h] => [a, b, c, d, e, f, g, h].all Char.isDigit
  | _ => false

/-- What a scalar without quotes and without a tag is read as. -/
def implicitTag (s : String) : ScalarTag :=
  let chars := s.toList
  if nullWords.contains s then .null
  else if trueWords.contains s || falseWords.contains s then .bool
  else if isFloat chars then .float
  else if isInteger (unsigned chars).2 then .int
  else if isDate chars then .date
  else if s == "<<" then .merge
  else if s == "=" then .default
  else .text

/-- The number in a base that digits write, which may be parted by underscores. -/
def digitsOf? (base : Nat) (s : List Char) : Option Nat :=
  Text.ofDigits? base (s.filter (· != '_'))

/-- A number whose places are in sixties. -/
def sixties? (places : List (List Char)) : Option Nat :=
  places.foldlM (fun total place => (digitsOf? 10 place).map (total * 60 + ·)) 0

def integer? (s : List Char) : Option Nat :=
  match s.filter (· != '_') with
  | '0' :: 'b' :: digits => digitsOf? 2 digits
  | '0' :: 'x' :: digits => digitsOf? 16 digits
  | ['0'] => some 0
  | '0' :: digits => digitsOf? 8 digits
  | s => sixties? (splitColons s)

/-- A decimal number without its sign: the digits before and after the point, and the exponent. -/
def decimal? (negative : Bool) (s : List Char) : Option Number.Binary64 := do
  let s := s.filter (· != '_')
  let whole := s.takeWhile Char.isDigit
  let rest := (s.drop whole.length).dropWhile (· == '.')
  let fraction := rest.takeWhile Char.isDigit
  let exponent ← match rest.drop fraction.length with
    | [] => some 0
    | _ :: digits =>
      let (negative, digits) := unsigned digits
      (Text.ofDigits? 10 digits).map fun n => if negative then -(n : Int) else (n : Int)
  let digits ← Text.ofDigits? 10 (whole ++ fraction)
  some (.ofDecimal negative digits (exponent - fraction.length))

def decimalSixties? (negative : Bool) (places : List (List Char)) : Option Number.Binary64 := do
  let last := (places.getLastD []).filter (· != '_')
  let whole := last.takeWhile Char.isDigit
  let fraction := last.drop (whole.length + 1)
  let total ← sixties? (places.dropLast ++ [whole])
  let part ← if fraction.isEmpty then some 0 else Text.ofDigits? 10 fraction
  let unit := Nat.pow 10 fraction.length
  some (.ofQuotient negative (total * unit + part) unit)

def float? (s : String) : Option Number.Binary64 :=
  let (negative, body) := unsigned s.toList
  match (String.ofList body).toLower with
  | ".inf" => some (.infinite negative)
  | ".nan" => some .nan
  | _ =>
    match splitColons body with
    | [body] => decimal? negative body
    | places => decimalSixties? negative places

def date? (s : List Char) : Option Date := do
  let year ← Text.ofDigits? 10 (s.take 4)
  let month ← Text.ofDigits? 10 ((s.drop 5).take 2)
  let day ← Text.ofDigits? 10 (s.drop 8)
  Date.ofCivil? year month day

/-- The scalar that a text stands for under a tag. -/
def readScalar? (tag : ScalarTag) (s : String) : Option Scalar :=
  match tag with
  | .null => some .null
  | .bool =>
    if trueWords.contains s then some (.bool true)
    else if falseWords.contains s then some (.bool false)
    else none
  | .int =>
    let (negative, body) := unsigned s.toList
    (integer? body).map fun n => .int (if negative then -(n : Int) else n)
  | .float => (float? s).map .float
  | .date => if isDate s.toList then (date? s.toList).map .date else none
  | .text => some (.text s)
  | .merge | .default => none

end CarCare.Yaml

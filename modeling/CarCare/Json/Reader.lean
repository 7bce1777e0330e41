import CarCare.Value

/-!
Reading a JSON text. A number written with a point or an exponent is a floating point number, any
other one an integer of any size. Of two members with one key both are kept, in order.
-/
namespace CarCare.Json

/-- Drops white space in front. -/
def skipBlank (s : List Char) : List Char :=
  s.dropWhile fun c => c == ' ' || c == '\n' || c == '\r' || c == '\t'

/-- The character that a short escape stands for. -/
def shortEscape? : Char → Option Char
  | '"' => some '"'
  | '\\' => some '\\'
  | '/' => some '/'
  | 'b' => some '\x08'
  | 'f' => some '\x0c'
  | 'n' => some '\n'
  | 'r' => some '\r'
  | 't' => some '\t'
  | _ => none

/-- Reads up to and including the closing quote, as sixteen bit units where escapes give units and
as code points elsewhere. -/
def stringUnits? : List Char → Option (List Nat × List Char)
  | [] => none
  | '"' :: rest => some ([], rest)
  | '\\' :: 'u' :: a :: b :: c :: d :: rest => do
    let unit ← Text.ofDigits? 16 [a, b, c, d]
    let (units, rest) ← stringUnits? rest
    some (unit :: units, rest)
  | '\\' :: c :: rest => do
    let char ← shortEscape? c
    let (units, rest) ← stringUnits? rest
    some (char.toNat :: units, rest)
  | c :: rest => do
    let (units, rest) ← stringUnits? rest
    some (c.toNat :: units, rest)

/-- Joins the two halves of a surrogate pair; a half that stands alone is no text. -/
def joinUnits? : List Nat → Option (List Char)
  | [] => some []
  | high :: low :: rest =>
    if 0xD800 ≤ high ∧ high < 0xDC00 then
      if 0xDC00 ≤ low ∧ low < 0xE000 then
        (joinUnits? rest).map (Char.ofNat (0x10000 + (high - 0xD800) * 0x400 + (low - 0xDC00)) :: ·)
      else none
    else if 0xDC00 ≤ high ∧ high < 0xE000 then none
    else (joinUnits? (low :: rest)).map (Char.ofNat high :: ·)
  | [unit] => if 0xD800 ≤ unit ∧ unit < 0xE000 then none else some [Char.ofNat unit]

/-- Reads a string after its opening quote. -/
def string? (s : List Char) : Option (String × List Char) := do
  let (units, rest) ← stringUnits? s
  let chars ← joinUnits? units
  some (String.ofList chars, rest)

/-- A whole number with an optional sign in front. -/
def signed? : List Char → Option Int
  | '-' :: digits => (Text.ofDigits? 10 digits).map fun n => -(n : Int)
  | '+' :: digits => (Text.ofDigits? 10 digits).map Int.ofNat
  | digits => (Text.ofDigits? 10 digits).map Int.ofNat

def number? (s : List Char) : Option Scalar :=
  let (negative, magnitude) := match s with
    | '-' :: rest => (true, rest)
    | rest => (false, rest)
  let whole := magnitude.takeWhile Char.isDigit
  match magnitude.dropWhile Char.isDigit with
  | [] => (Text.ofDigits? 10 whole).map fun n => .int (if negative then -(n : Int) else n)
  | '.' :: rest =>
    let fraction := rest.takeWhile Char.isDigit
    let exponent := match rest.dropWhile Char.isDigit with
      | [] => some 0
      | e :: digits => if e = 'e' ∨ e = 'E' then signed? digits else none
    if whole.isEmpty ∨ fraction.isEmpty then none
    else do
      let exponent ← exponent
      let digits ← Text.ofDigits? 10 (whole ++ fraction)
      some (.float (.ofDecimal negative digits (exponent - fraction.length)))
  | e :: rest =>
    if e = 'e' ∨ e = 'E' then do
      let exponent ← signed? rest
      let digits ← Text.ofDigits? 10 whole
      some (.float (.ofDecimal negative digits exponent))
    else none

/-- Whether a character can be part of a number or of one of the three words. -/
def isWordChar (c : Char) : Bool :=
  c.isAlphanum || c == '+' || c == '-' || c == '.'

def word? (s : List Char) : Option Scalar :=
  if s = "null".toList then some .null
  else if s = "true".toList then some (.bool true)
  else if s = "false".toList then some (.bool false)
  else number? s

mutual

/-- Reads a value; the first argument bounds the nesting and the number of parts. -/
def value? : Nat → List Char → Option (Value × List Char)
  | 0, _ => none
  | fuel + 1, s =>
    match skipBlank s with
    | '"' :: rest => (string? rest).map fun (s, rest) => (.text s, rest)
    | '[' :: rest =>
      match skipBlank rest with
      | ']' :: rest => some (.list [], rest)
      | rest => (items? fuel rest).map fun (items, rest) => (.list items, rest)
    | '\x7b' :: rest =>
      match skipBlank rest with
      | '\x7d' :: rest => some (.map [], rest)
      | rest => (entries? fuel rest).map fun (entries, rest) => (.map entries, rest)
    | rest =>
      (word? (rest.takeWhile isWordChar)).map fun s => (.scalar s, rest.dropWhile isWordChar)

/-- Reads the items of a list and its closing bracket. -/
def items? : Nat → List Char → Option (List Value × List Char)
  | 0, _ => none
  | fuel + 1, s => do
    let (item, rest) ← value? fuel s
    match skipBlank rest with
    | ',' :: rest =>
      let (items, rest) ← items? fuel rest
      some (item :: items, rest)
    | ']' :: rest => some ([item], rest)
    | _ => none

/-- Reads the members of an object and its closing brace. -/
def entries? : Nat → List Char → Option (List (Scalar × Value) × List Char)
  | 0, _ => none
  | fuel + 1, s =>
    match skipBlank s with
    | '"' :: rest => do
      let (key, rest) ← string? rest
      match skipBlank rest with
      | ':' :: rest =>
        let (value, rest) ← value? fuel rest
        match skipBlank rest with
        | ',' :: rest =>
          let (entries, rest) ← entries? fuel rest
          some ((.text key, value) :: entries, rest)
        | '\x7d' :: rest => some ([(.text key, value)], rest)
        | _ => none
      | _ => none
    | _ => none

end

/-- The value that a whole text writes. A text has no more parts than characters. -/
def read? (s : String) : Option Value := do
  let chars := s.toList
  let (value, rest) ← value? (chars.length + 1) chars
  if (skipBlank rest).isEmpty then some value else none

end CarCare.Json

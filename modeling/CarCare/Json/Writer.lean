import CarCare.Value

/-!
Writing a value as a JSON text in the ASCII characters alone: any other character is written by
its code, and one beyond the sixteen bit range by the two halves of a surrogate pair.
-/
namespace CarCare.Json

def unitEscape (n : Nat) : List Char := '\\' :: 'u' :: Text.fixedDigits 16 4 n

/-- One character of a string. -/
def escapedChar (c : Char) : List Char :=
  let n := c.toNat
  if c = '"' ∨ c = '\\' then ['\\', c]
  else if c = '\n' then ['\\', 'n']
  else if c = '\r' then ['\\', 'r']
  else if c = '\t' then ['\\', 't']
  else if n = 0x08 then ['\\', 'b']
  else if n = 0x0C then ['\\', 'f']
  else if 0x20 ≤ n ∧ n < 0x7F then [c]
  else if n < 0x10000 then unitEscape n
  else unitEscape (0xD800 + (n - 0x10000) / 0x400) ++ unitEscape (0xDC00 + (n - 0x10000) % 0x400)

def string (s : String) : String :=
  String.ofList ('"' :: (s.toList.flatMap escapedChar ++ ['"']))

/-- What stands between the parts of a text. -/
structure Layout where
  /-- In front of each part at a depth, and in front of the closing bracket. -/
  lineBreak : Nat → String
  /-- Between a key and its value. -/
  colon : String

/-- Everything on one line without blanks. -/
def Layout.compact : Layout := ⟨fun _ => "", ":"⟩

/-- Every part on a line of its own, indented by two blanks for each level. -/
def Layout.indented : Layout :=
  ⟨fun depth => "\n" ++ String.ofList (List.replicate (2 * depth) ' '), ": "⟩

def float : Number.Binary64 → String
  | .nan => "NaN"
  | .infinite negative => if negative then "-Infinity" else "Infinity"
  | x => x.text

def scalar : Scalar → String
  | .null => "null"
  | .bool b => if b then "true" else "false"
  | .int n => toString n
  | .float x => float x
  | .text s => string s
  | .date d => string d.text

/-- The key of a member; a key that is no text is written as its text. -/
def key : Scalar → String
  | .text s => string s
  | .date d => string d.text
  | s => string (scalar s)

mutual

/-- A value at a depth. -/
def render (layout : Layout) (depth : Nat) : Value → String
  | .scalar s => scalar s
  | .list [] => "[]"
  | .list (item :: rest) =>
    "[" ++ layout.lineBreak (depth + 1) ++ render layout (depth + 1) item
      ++ renderItems layout (depth + 1) rest ++ layout.lineBreak depth ++ "]"
  | .map [] => "\x7b\x7d"
  | .map ((k, v) :: rest) =>
    "\x7b" ++ layout.lineBreak (depth + 1) ++ key k ++ layout.colon
      ++ render layout (depth + 1) v ++ renderEntries layout (depth + 1) rest
      ++ layout.lineBreak depth ++ "\x7d"

/-- The items of a list after the first. -/
def renderItems (layout : Layout) (depth : Nat) : List Value → String
  | [] => ""
  | item :: rest =>
    "," ++ layout.lineBreak depth ++ render layout depth item ++ renderItems layout depth rest

/-- The members of an object after the first. -/
def renderEntries (layout : Layout) (depth : Nat) : List (Scalar × Value) → String
  | [] => ""
  | (k, v) :: rest =>
    "," ++ layout.lineBreak depth ++ key k ++ layout.colon ++ render layout depth v
      ++ renderEntries layout depth rest

end

def compact (v : Value) : String := render .compact 0 v

def indented (v : Value) : String := render .indented 0 v

end CarCare.Json

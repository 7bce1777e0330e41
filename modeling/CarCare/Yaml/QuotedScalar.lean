import CarCare.Text.Digits
import CarCare.Yaml.Cursor

/-!
Quoted scalars. Between single quotes only the quote itself needs a spelling, twice in a row;
between double quotes a backslash starts an escape. Line ends inside are folded.
-/
namespace CarCare.Yaml

/-- The character that an escape of one letter stands for. -/
def escape? : Char → Option Char
  | '0' => some '\x00'
  | 'a' => some '\x07'
  | 'b' => some '\x08'
  | 't' | '\t' => some '\t'
  | 'n' => some '\n'
  | 'v' => some '\x0b'
  | 'f' => some '\x0c'
  | 'r' => some '\r'
  | 'e' => some '\x1b'
  | ' ' => some ' '
  | '"' => some '"'
  | '\\' => some '\\'
  | '/' => some '/'
  | 'N' => some '\u0085'
  | '_' => some '\u00a0'
  | 'L' => some '\u2028'
  | 'P' => some '\u2029'
  | _ => none

/-- The number of digits after the letter of a coded escape. -/
def escapeDigits? : Char → Option Nat
  | 'x' => some 2
  | 'u' => some 4
  | 'U' => some 8
  | _ => none

def coded? (digits : List Char) : Option Char :=
  (Text.ofDigits? 16 digits).bind fun n => if n.isValidChar then some (Char.ofNat n) else none

/-- Reads line ends with the blanks and tabulators around them; no document may end there. -/
def quotedBreaks : (fuel : Nat) → Cursor → Option (List Char × Cursor)
  | 0, c => some ([], c)
  | fuel + 1, c =>
    if c.column == 0 && atDocumentMark c.rest then none
    else
      let c := c.skipWhile fun char => char == ' ' || char == '\t'
      match c.rest with
      | char :: _ =>
        if isBreak char then
          (quotedBreaks fuel c.next).map fun (found, place) => (breakText char :: found, place)
        else some ([], c)
      | [] => some ([], c)

/-- Reads a run of blanks and tabulators, which stands for itself, or is folded at a line end. -/
def quotedGap (c : Cursor) : Option (List Char × Cursor) :=
  let blanks := c.rest.takeWhile fun char => char == ' ' || char == '\t'
  let after := c.skip blanks.length
  match after.rest with
  | [] => none
  | char :: _ =>
    if isBreak char then do
      let start := after.next
      let (others, place) ← quotedBreaks (start.rest.length + 1) start
      if breakText char != '\n' then some (breakText char :: others, place)
      else if others.isEmpty then some ([' '], place)
      else some (others, place)
    else some (blanks, after)

def readEscape (c : Cursor) : Option (List Char × Cursor) :=
  match c.rest with
  | [] => none
  | char :: rest =>
    match escape? char, escapeDigits? char with
    | some e, _ => some ([e], c.next)
    | none, some count =>
      if (rest.take count).length = count then
        (coded? (rest.take count)).map fun e => ([e], c.skip (count + 1))
      else none
    | none, none =>
      if isBreak char then quotedBreaks (c.next.rest.length + 1) c.next else none

/-- Reads up to and including the closing quote. -/
def quotedParts (isDouble : Bool) : (fuel : Nat) → Cursor → Option (List Char × Cursor)
  | 0, _ => none
  | fuel + 1, c =>
    match c.rest with
    | [] => none
    | char :: rest =>
      if isGap char then do
        let (gap, place) ← quotedGap c
        let (more, place) ← quotedParts isDouble fuel place
        some (gap ++ more, place)
      else if isDouble then
        if char == '"' then some ([], c.next)
        else if char == '\\' then do
          let (text, place) ← readEscape c.next
          let (more, place) ← quotedParts isDouble fuel place
          some (text ++ more, place)
        else (quotedParts isDouble fuel c.next).map fun (more, place) => (char :: more, place)
      else if char == '\'' then
        if rest.head? == some '\'' then
          (quotedParts isDouble fuel (c.skip 2)).map fun (more, place) => ('\'' :: more, place)
        else some ([], c.next)
      else (quotedParts isDouble fuel c.next).map fun (more, place) => (char :: more, place)

def quotedScalar (isDouble : Bool) (c : Cursor) : Option (List Char × Cursor) :=
  quotedParts isDouble (c.rest.length + 1) c.next

end CarCare.Yaml

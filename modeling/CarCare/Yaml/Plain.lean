import CarCare.Yaml.Cursor

/-!
Plain scalars: texts without quotes. They run over line ends as long as the lines are indented, and
a single line end inside becomes a blank.
-/
namespace CarCare.Yaml

/-- Whether a character parts entries inside brackets. -/
def isFlowMark (c : Char) : Bool :=
  c == ',' || c == '?' || c == '[' || c == ']' || c == '\x7b' || c == '\x7d'

/-- Whether a colon before this text ends a plain word. -/
def endsKey (inFlow : Bool) : List Char → Bool
  | [] => true
  | c :: _ => isGap c || (inFlow && c != '?' && isFlowMark c)

def plainWordLength (inFlow : Bool) : List Char → Nat
  | [] => 0
  | c :: rest =>
    if isGap c || (c == ':' && endsKey inFlow rest) || (inFlow && isFlowMark c) then 0
    else plainWordLength inFlow rest + 1

/-- What parts two words of a plain scalar: the text it stands for, the place after it, and whether
it holds a line end. An empty text ends the scalar. -/
structure PlainGap where
  text : List Char
  place : Cursor
  crossesLine : Bool

/-- The line ends and indentations after a first line end; none if a document mark comes up. -/
def plainBreaks : (fuel : Nat) → Cursor → List Char → Option (List Char) × Cursor
  | 0, c, found => (some found, c)
  | fuel + 1, c, found =>
    match c.rest with
    | ' ' :: _ => plainBreaks fuel c.next found
    | char :: _ =>
      if isBreak char then
        let c := c.next
        if atDocumentMark c.rest then (none, c)
        else plainBreaks fuel c (found ++ [breakText char])
      else (some found, c)
    | [] => (some found, c)

/-- The text that line ends fold into: the first of them alone becomes a blank. -/
def foldedBreaks (first : Char) (others : List Char) : List Char :=
  if breakText first != '\n' then breakText first :: others
  else if others.isEmpty then [' ']
  else others

/-- Reads what follows a word of a plain scalar. -/
def plainGap (c : Cursor) : PlainGap :=
  let blanks := c.rest.takeWhile (· == ' ')
  let after := c.skip blanks.length
  match after.rest with
  | char :: _ =>
    if isBreak char then
      let start := after.next
      if atDocumentMark start.rest then ⟨[], start, true⟩
      else match plainBreaks start.rest.length start [] with
        | (some others, place) => ⟨foldedBreaks char others, place, true⟩
        | (none, place) => ⟨[], place, true⟩
    else ⟨blanks, after, false⟩
  | [] => ⟨blanks, after, false⟩

/-- A plain scalar: its text, the place after it, and whether it is followed by a line end. -/
structure PlainScalar where
  text : List Char
  place : Cursor
  endsLine : Bool

def plainWords (inFlow : Bool) (indent : Int) : (fuel : Nat) → Cursor → (gap : List Char) →
    (endsLine : Bool) → PlainScalar
  | 0, c, _, endsLine => ⟨[], c, endsLine⟩
  | fuel + 1, c, gap, endsLine =>
    let length := if c.rest.head? == some '#' then 0 else plainWordLength inFlow c.rest
    if length = 0 then ⟨[], c, endsLine⟩
    else
      let word := gap ++ c.rest.take length
      let next := plainGap (c.skip length)
      if next.text.isEmpty || next.place.rest.head? == some '#'
          || (!inFlow && (next.place.column : Int) < indent) then
        ⟨word, next.place, next.crossesLine⟩
      else
        let more := plainWords inFlow indent fuel next.place next.text next.crossesLine
        ⟨word ++ more.text, more.place, more.endsLine⟩

def plainScalar (inFlow : Bool) (indent : Int) (c : Cursor) : PlainScalar :=
  plainWords inFlow indent (c.rest.length + 1) c [] false

end CarCare.Yaml

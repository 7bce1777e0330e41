import CarCare.Text.Digits
import CarCare.Yaml.Cursor

/-!
Block scalars: indented lines after a bar, which are kept as they are, or after a greater-than
sign, where single line ends between lines of text are folded into blanks.
-/
namespace CarCare.Yaml

/-- What becomes of the line ends at the end of a block scalar. -/
inductive Chomping where
  | strip
  | clip
  | keep
deriving DecidableEq

/-- The indicators after the mark of a block scalar. -/
structure BlockHeader where
  chomping : Chomping
  /-- The indentation relative to the parent, if it is given. -/
  increment : Option Nat

def chomping? : Char → Option Chomping
  | '+' => some .keep
  | '-' => some .strip
  | _ => none

/-- A digit other than zero. -/
def increment? (c : Char) : Option Nat :=
  if '1' ≤ c ∧ c ≤ '9' then some (c.toNat - '0'.toNat) else none

/-- Reads the indicators, in either order. -/
def blockHeader (s : List Char) : BlockHeader × List Char :=
  match s with
  | c :: rest =>
    match chomping? c, increment? c with
    | some chomping, _ =>
      match rest.head?.bind increment? with
      | some n => (⟨chomping, some n⟩, rest.tail)
      | none => (⟨chomping, none⟩, rest)
    | none, some n =>
      match rest.head?.bind chomping? with
      | some chomping => (⟨chomping, some n⟩, rest.tail)
      | none => (⟨.clip, some n⟩, rest)
    | none, none => (⟨.clip, none⟩, s)
  | [] => (⟨.clip, none⟩, [])

/-- Reads the rest of the header line, which may hold a comment, and its end. -/
def headerEnd? (c : Cursor) : Option Cursor :=
  let c := c.skipWhile (· == ' ')
  let c := if c.rest.head? == some '#' then c.skipWhile (!isBreak ·) else c
  match c.rest with
  | [] => some c
  | char :: _ => if isBreak char then some c.next else none

/-- Reads empty lines in front of a block, and finds how far its lines are indented. -/
def leadingBreaks : (fuel : Nat) → Cursor → (deepest : Nat) → List Char × Nat × Cursor
  | 0, c, deepest => ([], deepest, c)
  | fuel + 1, c, deepest =>
    match c.rest with
    | [] => ([], deepest, c)
    | char :: _ =>
      if isBreak char then
        let (found, deepest, place) := leadingBreaks fuel c.next deepest
        (breakText char :: found, deepest, place)
      else if char == ' ' then leadingBreaks fuel c.next (max deepest c.next.column)
      else ([], deepest, c)

/-- Skips blanks up to a column. -/
def indentTo (indent : Nat) : (fuel : Nat) → Cursor → Cursor
  | 0, c => c
  | fuel + 1, c =>
    if c.column < indent && c.rest.head? == some ' ' then indentTo indent fuel c.next else c

/-- Reads empty lines between the lines of a block, and the indentation of the next line. -/
def innerBreaks (indent : Nat) : (fuel : Nat) → Cursor → List Char × Cursor
  | 0, c => ([], c)
  | fuel + 1, c =>
    let c := indentTo indent indent c
    match c.rest with
    | [] => ([], c)
    | char :: _ =>
      if isBreak char then
        let (found, place) := innerBreaks indent fuel c.next
        (breakText char :: found, place)
      else ([], c)

def chomped (chomping : Chomping) (lineBreak breaks : List Char) : List Char :=
  match chomping with
  | .strip => []
  | .clip => lineBreak
  | .keep => lineBreak ++ breaks

/-- Whether a text starts with a blank or a tabulator. -/
def startsBlank (s : List Char) : Bool :=
  match s with
  | c :: _ => c == ' ' || c == '\t'
  | [] => false

/-- Reads the lines of a block. The line end and the empty lines before the current line have been
read already. -/
def blockLines (folded : Bool) (indent : Nat) (chomping : Chomping) :
    (fuel : Nat) → Cursor → (breaks : List Char) → List Char × Cursor
  | 0, c, _ => ([], c)
  | fuel + 1, c, breaks =>
    let line := c.rest.takeWhile (!isBreak ·)
    let after := c.skip line.length
    let lineBreak := (after.rest.take 1).map breakText
    let (next, place) := innerBreaks indent (after.rest.length + 1) after.next
    if place.column == indent && !place.rest.isEmpty then
      let folds := folded && lineBreak == ['\n'] && !startsBlank line && !startsBlank place.rest
      let joint := if folds then (if next.isEmpty then [' '] else []) else lineBreak
      let (more, place) := blockLines folded indent chomping fuel place next
      (breaks ++ line ++ joint ++ more, place)
    else (breaks ++ line ++ chomped chomping lineBreak next, place)

def blockScalar (folded : Bool) (parent : Int) (c : Cursor) : Option (List Char × Cursor) := do
  let start := c.next
  let (header, rest) := blockHeader start.rest
  let afterHeader := start.skip (start.rest.length - rest.length)
  if !atBlank afterHeader.rest then none
  let first ← headerEnd? afterHeader
  let least := (max (parent + 1) 1).toNat
  let (breaks, indent, place) := match header.increment with
    | some n =>
      let indent := least + n - 1
      let (breaks, place) := innerBreaks indent (first.rest.length + 1) first
      (breaks, indent, place)
    | none =>
      let (breaks, deepest, place) := leadingBreaks (first.rest.length + 1) first 0
      (breaks, max least deepest, place)
  if place.column == indent && !place.rest.isEmpty then
    some (blockLines folded indent header.chomping (place.rest.length + 1) place breaks)
  else some (chomped header.chomping [] breaks, place)

end CarCare.Yaml

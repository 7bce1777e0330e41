import CarCare.Yaml.BlockScalar
import CarCare.Yaml.Plain
import CarCare.Yaml.QuotedScalar
import CarCare.Yaml.Token

/-!
From a text to tokens. A key is only known as one when the colon after it is reached; so the lexer
remembers, for each depth of brackets, where the last possible key began, and enters the key token
there afterwards. Indentation opens and closes blocks.
-/
namespace CarCare.Yaml

/-- A place where a key may have begun. Where a block demands a key, it has to become one. -/
structure KeyCandidate where
  /-- The number of tokens in front of it. -/
  position : Nat
  isRequired : Bool
  line : Nat
  column : Nat
  index : Nat

/-- The state between two tokens. -/
structure Lexer where
  place : Cursor
  /-- The tokens so far, the last one first. -/
  tokens : List Token := []
  indent : Int := -1
  outer : List Int := []
  /-- How many brackets are open. -/
  depth : Nat := 0
  candidates : List (Nat × KeyCandidate) := []
  keyAllowed : Bool := true

namespace Lexer

/-- A key has to end on its line and within this many characters. -/
def keyLimit : Nat := 1024

def inFlow (x : Lexer) : Bool := x.depth != 0

def push (token : Token) (x : Lexer) : Lexer := { x with tokens := token :: x.tokens }

def skip (n : Nat) (x : Lexer) : Lexer := { x with place := x.place.skip n }

/-- Enters a token behind the first `position` ones. -/
def enter (position : Nat) (token : Token) (x : Lexer) : Lexer :=
  { x with tokens := x.tokens.insertIdx (x.tokens.length - position) token }

def closeBlocks (column : Int) (x : Lexer) : Lexer :=
  if x.inFlow then x
  else
    let rec close : List Int → Int → List Token → Lexer
      | outer, indent, tokens =>
        if column < indent then
          match outer with
          | next :: outer => close outer next (.blockEnd :: tokens)
          | [] => { x with indent, outer := [], tokens }
        else { x with indent, outer, tokens }
    close x.outer x.indent x.tokens

def opensBlock (column : Nat) (x : Lexer) : Bool := !x.inFlow && x.indent < column

def openBlock (column : Nat) (x : Lexer) : Lexer :=
  { x with indent := column, outer := x.indent :: x.outer }

/-- Drops the candidates that can no longer become keys; fails if one of them had to. -/
def dropStale (x : Lexer) : Option Lexer :=
  let isStale (k : KeyCandidate) : Bool :=
    k.line != x.place.line || keyLimit < x.place.index - k.index
  if x.candidates.any fun (_, k) => isStale k && k.isRequired then none
  else some { x with candidates := x.candidates.filter fun (_, k) => !isStale k }

def candidate? (x : Lexer) : Option KeyCandidate := x.candidates.lookup x.depth

def withoutCandidate (x : Lexer) : Lexer :=
  { x with candidates := x.candidates.filter (·.1 != x.depth) }

/-- Gives up the candidate at the present depth; fails if it had to become a key. -/
def dropCandidate (x : Lexer) : Option Lexer :=
  if x.candidate?.any (·.isRequired) then none else some x.withoutCandidate

/-- Remembers the present place as a candidate, if a key may begin here. -/
def saveCandidate (x : Lexer) : Option Lexer :=
  if x.keyAllowed then do
    let y ← x.dropCandidate
    let candidate : KeyCandidate :=
      { position := x.tokens.length
        isRequired := !x.inFlow && x.indent == x.place.column
        line := x.place.line, column := x.place.column, index := x.place.index }
    some { y with candidates := (x.depth, candidate) :: y.candidates }
  else some x

def allowKey (allowed : Bool) (x : Lexer) : Lexer := { x with keyAllowed := allowed }

/-- Skips blanks, comments and line ends; outside brackets a new line allows a key. -/
def skipGaps : (fuel : Nat) → Lexer → Lexer
  | 0, x => x
  | fuel + 1, x =>
    let place := x.place.skipWhile (· == ' ')
    let place := if place.rest.head? == some '#' then place.skipWhile (!isBreak ·) else place
    match place.rest with
    | c :: _ =>
      if isBreak c then
        skipGaps fuel { x with place := place.next, keyAllowed := x.keyAllowed || !x.inFlow }
      else { x with place }
    | [] => { x with place }

/-! ## Tokens -/

/-- A mark of a document, of three characters. -/
def documentMark (token : Token) (x : Lexer) : Option Lexer := do
  let x ← (x.closeBlocks (-1)).dropCandidate
  some ((x.allowKey false).skip 3 |>.push token)

/-- The version that a version directive names has to begin with 1. -/
def directiveFits (line : List Char) : Bool :=
  let words := (String.ofList line).splitOn " " |>.filter (· != "")
  match words with
  | "%YAML" :: version :: rest =>
    let parts := version.splitOn "."
    parts.length == 2 && parts.head? == some "1" && parts.all (fun p => p != "" && p.all Char.isDigit)
      && rest.all (·.startsWith "#")
  | "%YAML" :: [] | "%" :: _ => false
  | _ => true

def directive (x : Lexer) : Option Lexer := do
  let x ← (x.closeBlocks (-1)).dropCandidate
  let line := x.place.rest.takeWhile (!isBreak ·)
  if directiveFits line then some ((x.allowKey false).skip line.length |>.push .directive)
  else none

def flowStart (token : Token) (x : Lexer) : Option Lexer := do
  let x ← x.saveCandidate
  some (({ x with depth := x.depth + 1 }.allowKey true).skip 1 |>.push token)

def flowEnd (token : Token) (x : Lexer) : Option Lexer := do
  if x.depth = 0 then none
  let x ← x.dropCandidate
  some (({ x with depth := x.depth - 1 }.allowKey false).skip 1 |>.push token)

def flowEntry (x : Lexer) : Option Lexer := do
  let x ← x.dropCandidate
  some ((x.allowKey true).skip 1 |>.push .flowEntry)

/-- Opens a block at the present column, if it is deeper than the one that is open. -/
def openHere (start : Token) (x : Lexer) : Lexer :=
  if x.opensBlock x.place.column then (x.openBlock x.place.column).push start else x

def blockEntry (x : Lexer) : Option Lexer := do
  if !x.inFlow && !x.keyAllowed then none
  let x ← ((x.openHere .blockSequenceStart).allowKey true).dropCandidate
  some ((x.skip 1).push .blockEntry)

def key (x : Lexer) : Option Lexer := do
  if !x.inFlow && !x.keyAllowed then none
  let x ← ((x.openHere .blockMappingStart).allowKey (!x.inFlow)).dropCandidate
  some ((x.skip 1).push .key)

/-- A colon makes a key of the candidate; without one the key is empty or was marked itself. -/
def value (x : Lexer) : Option Lexer :=
  match x.candidate? with
  | some k =>
    let x := x.withoutCandidate.enter k.position .key
    let x :=
      if x.opensBlock k.column then (x.openBlock k.column).enter k.position .blockMappingStart
      else x
    some ((x.allowKey false).skip 1 |>.push .value)
  | none => do
    if !x.inFlow && !x.keyAllowed then none
    let x ← ((x.openHere .blockMappingStart).allowKey (!x.inFlow)).dropCandidate
    some ((x.skip 1).push .value)

/-- Whether a character may stand in the name of an anchor. -/
def isNameChar (c : Char) : Bool := c.isAlphanum || c == '-' || c == '_'

/-- Whether the name of an anchor may end before this text. -/
def endsName : List Char → Bool
  | [] => true
  | c :: _ => isGap c || "?:,]\x7d%@".toList.contains c || c.toNat == 0x60

/-- An anchor or an alias: a mark and a name. -/
def named (token : String → Token) (x : Lexer) : Option Lexer := do
  let x ← x.saveCandidate
  let name := x.place.rest.tail.takeWhile isNameChar
  if name.isEmpty || !endsName (x.place.rest.drop (name.length + 1)) then none
  some ((x.allowKey false).skip (name.length + 1) |>.push (token (String.ofList name)))

/-- The name space of the standard tags. -/
def standardTags : String := "tag:yaml.org,2002:"

def isTagChar (c : Char) : Bool :=
  c.isAlphanum || "-;/?:@&=+$,_.!~*'()[]%".toList.contains c

/-- Reads a tag: its name and its length. -/
def tagText? (s : List Char) : Option (String × Nat) :=
  match s.tail with
  | '<' :: rest =>
    let uri := rest.takeWhile isTagChar
    if uri.isEmpty || (rest.drop uri.length).head? != some '>' then none
    else some (String.ofList uri, uri.length + 3)
  | '!' :: rest =>
    let uri := rest.takeWhile isTagChar
    if uri.isEmpty then none else some (standardTags ++ String.ofList uri, uri.length + 2)
  | rest =>
    if atGap rest then some ("!", 1)
    else
      let uri := rest.takeWhile isTagChar
      if uri.isEmpty || uri.contains '!' then none
      else some ("!" ++ String.ofList uri, uri.length + 1)

def tag (x : Lexer) : Option Lexer := do
  let x ← x.saveCandidate
  let (name, length) ← tagText? x.place.rest
  if !atBlank (x.place.rest.drop length) then none
  some ((x.allowKey false).skip length |>.push (.tag name))

def block (folded : Bool) (x : Lexer) : Option Lexer := do
  let x ← (x.allowKey true).dropCandidate
  let (text, place) ← blockScalar folded x.indent x.place
  some ({ x with place }.push (.scalar (String.ofList text) false))

def quoted (isDouble : Bool) (x : Lexer) : Option Lexer := do
  let x ← x.saveCandidate
  let (text, place) ← quotedScalar isDouble x.place
  some (({ x with place }.allowKey false).push (.scalar (String.ofList text) false))

def plain (x : Lexer) : Option Lexer := do
  let x ← x.saveCandidate
  let s := plainScalar x.inFlow (x.indent + 1) x.place
  some (({ x with place := s.place }.allowKey s.endsLine).push (.scalar (String.ofList s.text) true))

/-- Whether a plain scalar may start here. -/
def startsPlain (x : Lexer) (c : Char) (rest : List Char) : Bool :=
  !(isGap c || "-?:,[]\x7b\x7d#&*!|>'\"%@".toList.contains c || c.toNat == 0x60)
    || (!atGap rest && (c == '-' || (!x.inFlow && (c == '?' || c == ':'))))

/-- Reads the token that starts with a character, at a place that is no gap. -/
def token (x : Lexer) (c : Char) (rest : List Char) : Option Lexer :=
  if c == '%' && x.place.column == 0 then x.directive
  else if x.place.column == 0 && atDocumentMark (c :: rest) then
    x.documentMark (if c == '-' then .documentStart else .documentEnd)
  else if c == '[' then x.flowStart .flowSequenceStart
  else if c == '\x7b' then x.flowStart .flowMappingStart
  else if c == ']' then x.flowEnd .flowSequenceEnd
  else if c == '\x7d' then x.flowEnd .flowMappingEnd
  else if c == ',' then x.flowEntry
  else if c == '-' && atGap rest then x.blockEntry
  else if c == '?' && (x.inFlow || atGap rest) then x.key
  else if c == ':' && (x.inFlow || atGap rest) then x.value
  else if c == '*' then x.named .alias
  else if c == '&' then x.named .anchor
  else if c == '!' then x.tag
  else if c == '|' && !x.inFlow then x.block false
  else if c == '>' && !x.inFlow then x.block true
  else if c == '\'' then x.quoted false
  else if c == '"' then x.quoted true
  else if x.startsPlain c rest then x.plain
  else none

/-- Reads all tokens to the end of the text. Each token takes a character at least. -/
def run : (fuel : Nat) → Lexer → Option (List Token)
  | 0, _ => none
  | fuel + 1, x => do
    let x ← (skipGaps (x.place.rest.length + 1) x).dropStale
    let x := x.closeBlocks x.place.column
    match x.place.rest with
    | [] =>
      let x ← (x.closeBlocks (-1)).dropCandidate
      some x.tokens.reverse
    | c :: rest => run fuel (← x.token c rest)

end Lexer

/-- The tokens of a text, if it has any reading. A byte order mark in front is passed over. -/
def tokens? (s : String) : Option (List Token) :=
  let chars := normalized s.toList
  if chars.all isAllowed then
    let place : Cursor := { rest := chars }
    let place := if chars.head?.any (·.toNat == 0xFEFF) then place.next else place
    Lexer.run (chars.length + 1) { place }
  else none

end CarCare.Yaml

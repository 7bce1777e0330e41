import CarCare.Yaml.Scalar
import CarCare.Yaml.Token

/-!
Nodes: the scalars, sequences and mappings that tokens lay out. Aliases are replaced by what their
anchors name, and every scalar knows what it is to be read as.
-/
namespace CarCare.Yaml

inductive Node where
  | scalar (tag : ScalarTag) (text : String)
  | list (items : List Node)
  | map (entries : List (Node × Node))

instance : Inhabited Node := ⟨.scalar .null ""⟩

/-- What is left to read, and the nodes that anchors have named so far. -/
structure Parse where
  tokens : List Token
  anchors : List (String × Node) := []

namespace Node

/-- The node of an omitted value. -/
def empty : Node := .scalar .null ""

/-- What a tag in the text stands for on a scalar. -/
def scalarTag? (name : String) : Option ScalarTag :=
  [("tag:yaml.org,2002:null", .null), ("tag:yaml.org,2002:bool", .bool),
   ("tag:yaml.org,2002:int", .int), ("tag:yaml.org,2002:float", .float),
   ("tag:yaml.org,2002:timestamp", .date), ("tag:yaml.org,2002:str", ScalarTag.text)].lookup name

/-- A scalar under its tag, if it has one. Without a tag only a plain scalar is looked at. -/
def ofScalar? (tag : Option String) (text : String) (isPlain : Bool) : Option Node :=
  match tag with
  | none => some (.scalar (if isPlain then implicitTag text else .text) text)
  | some "!" => some (.scalar (implicitTag text) text)
  | some name => (scalarTag? name).map (.scalar · text)

/-- Whether a tag may stand on a collection of a kind. -/
def fits (tag : Option String) (kind : String) : Bool :=
  tag.all fun name => name == "!" || name == "tag:yaml.org,2002:" ++ kind

/-- Reads the anchor and the tag in front of a node, in either order. -/
def properties : List Token → Option String × Option String × List Token
  | .anchor a :: .tag t :: rest => (some a, some t, rest)
  | .tag t :: .anchor a :: rest => (some a, some t, rest)
  | .anchor a :: rest => (some a, none, rest)
  | .tag t :: rest => (none, some t, rest)
  | rest => (none, none, rest)

/-- Whether an entry of a block sequence, or a key or value of a block mapping, is left out. -/
def isOmitted : List Token → Bool
  | .blockEntry :: _ | .key :: _ | .value :: _ | .blockEnd :: _ => true
  | _ => false

/-- Whether an item of a block sequence is left out. -/
def isOmittedItem : List Token → Bool
  | .blockEntry :: _ | .blockEnd :: _ => true
  | _ => false

/-- Whether a key or value of a block mapping is left out. -/
def isOmittedPart : List Token → Bool
  | .key :: _ | .value :: _ | .blockEnd :: _ => true
  | _ => false

/-- Whether a key or value inside brackets is left out. -/
def isOmittedFlow : List Token → Bool
  | .value :: _ | .flowEntry :: _ | .flowSequenceEnd :: _ | .flowMappingEnd :: _ => true
  | _ => false

mutual

/-- Reads a node. Blocks may start where `block` says so, and items without a block of their own
where `indentless` does. No two anchors of a text have one name. -/
def parse (block indentless : Bool) : (fuel : Nat) → Parse → Option (Node × Parse)
  | 0, _ => none
  | fuel + 1, p =>
    match p.tokens with
    | .alias name :: rest =>
      (p.anchors.lookup name).map fun node => (node, { p with tokens := rest })
    | tokens => do
      let (anchor, tag, tokens) := properties tokens
      let (node, p) ← content block indentless (anchor.isSome || tag.isSome) tag fuel { p with tokens }
      match anchor with
      | some a =>
        if (p.anchors.lookup a).isSome then none
        else some (node, { p with anchors := (a, node) :: p.anchors })
      | none => some (node, p)

/-- Reads what follows the properties of a node. -/
def content (block indentless hasProperties : Bool) (tag : Option String) :
    (fuel : Nat) → Parse → Option (Node × Parse)
  | 0, _ => none
  | fuel + 1, p =>
    let collect (kind : String) (node : Node) (p : Parse) : Option (Node × Parse) :=
      if fits tag kind then some (node, p) else none
    match p.tokens with
    | .scalar text isPlain :: rest =>
      (ofScalar? tag text isPlain).map fun node => (node, { p with tokens := rest })
    | .flowSequenceStart :: rest => do
      let (items, p) ← flowItems true fuel { p with tokens := rest }
      collect "seq" (.list items) p
    | .flowMappingStart :: rest => do
      let (entries, p) ← flowEntries true fuel { p with tokens := rest }
      collect "map" (.map entries) p
    | .blockSequenceStart :: rest =>
      if block then do
        let (items, p) ← blockItems fuel { p with tokens := rest }
        collect "seq" (.list items) p
      else none
    | .blockMappingStart :: rest =>
      if block then do
        let (entries, p) ← blockEntries fuel { p with tokens := rest }
        collect "map" (.map entries) p
      else none
    | .blockEntry :: _ =>
      if indentless then do
        let (items, p) ← looseItems fuel p
        collect "seq" (.list items) p
      else if hasProperties then (ofScalar? tag "" true).map (·, p)
      else none
    | _ => if hasProperties then (ofScalar? tag "" true).map (·, p) else none

def blockItems : (fuel : Nat) → Parse → Option (List Node × Parse)
  | 0, _ => none
  | fuel + 1, p =>
    match p.tokens with
    | .blockEntry :: rest => do
      let p := { p with tokens := rest }
      let (item, p) ← if isOmittedItem rest then some (empty, p) else parse true false fuel p
      let (items, p) ← blockItems fuel p
      some (item :: items, p)
    | .blockEnd :: rest => some ([], { p with tokens := rest })
    | _ => none

/-- Reads the items of a sequence that is not indented. -/
def looseItems : (fuel : Nat) → Parse → Option (List Node × Parse)
  | 0, _ => none
  | fuel + 1, p =>
    match p.tokens with
    | .blockEntry :: rest => do
      let p := { p with tokens := rest }
      let (item, p) ← if isOmitted rest then some (empty, p) else parse true false fuel p
      let (items, p) ← looseItems fuel p
      some (item :: items, p)
    | _ => some ([], p)

def blockEntries : (fuel : Nat) → Parse → Option (List (Node × Node) × Parse)
  | 0, _ => none
  | fuel + 1, p =>
    match p.tokens with
    | .key :: rest => do
      let p := { p with tokens := rest }
      let (key, p) ← if isOmittedPart rest then some (empty, p) else parse true true fuel p
      let (value, p) ← blockValue fuel p
      let (entries, p) ← blockEntries fuel p
      some ((key, value) :: entries, p)
    | .blockEnd :: rest => some ([], { p with tokens := rest })
    | _ => none

/-- Reads the value of an entry of a block mapping, if it has one. -/
def blockValue : (fuel : Nat) → Parse → Option (Node × Parse)
  | 0, _ => none
  | fuel + 1, p =>
    match p.tokens with
    | .value :: rest =>
      let p := { p with tokens := rest }
      if isOmittedPart rest then some (empty, p) else parse true true fuel p
    | _ => some (empty, p)

/-- Reads a key or value inside brackets, if it is not left out. -/
def flowPart : (fuel : Nat) → Parse → Option (Node × Parse)
  | 0, _ => none
  | fuel + 1, p => if isOmittedFlow p.tokens then some (empty, p) else parse false false fuel p

def flowValue : (fuel : Nat) → Parse → Option (Node × Parse)
  | 0, _ => none
  | fuel + 1, p =>
    match p.tokens with
    | .value :: rest => flowPart fuel { p with tokens := rest }
    | _ => some (empty, p)

def flowItems (isFirst : Bool) : (fuel : Nat) → Parse → Option (List Node × Parse)
  | 0, _ => none
  | fuel + 1, p =>
    match p.tokens with
    | .flowSequenceEnd :: rest => some ([], { p with tokens := rest })
    | tokens => do
      let tokens ← match isFirst, tokens with
        | true, tokens => some tokens
        | false, .flowEntry :: rest => some rest
        | false, _ => none
      let p := { p with tokens }
      match tokens with
      | .flowSequenceEnd :: rest => some ([], { p with tokens := rest })
      | .key :: rest =>
        let (key, p) ← flowPart fuel { p with tokens := rest }
        let (value, p) ← flowValue fuel p
        let (items, p) ← flowItems false fuel p
        some (.map [(key, value)] :: items, p)
      | _ =>
        let (item, p) ← parse false false fuel p
        let (items, p) ← flowItems false fuel p
        some (item :: items, p)

def flowEntries (isFirst : Bool) : (fuel : Nat) → Parse → Option (List (Node × Node) × Parse)
  | 0, _ => none
  | fuel + 1, p =>
    match p.tokens with
    | .flowMappingEnd :: rest => some ([], { p with tokens := rest })
    | tokens => do
      let tokens ← match isFirst, tokens with
        | true, tokens => some tokens
        | false, .flowEntry :: rest => some rest
        | false, _ => none
      let p := { p with tokens }
      match tokens with
      | .flowMappingEnd :: rest => some ([], { p with tokens := rest })
      | .key :: rest =>
        let (key, p) ← flowPart fuel { p with tokens := rest }
        let (value, p) ← flowValue fuel p
        let (entries, p) ← flowEntries false fuel p
        some ((key, value) :: entries, p)
      | _ =>
        let (key, p) ← parse false false fuel p
        let (entries, p) ← flowEntries false fuel p
        some ((key, empty) :: entries, p)

end

/-- Skips the directives in front of a document, which has to be marked then. -/
def afterDirectives : List Token → Option (List Token)
  | .directive :: rest => afterDirectives rest
  | .documentStart :: rest => some (.documentStart :: rest)
  | _ => none

/-- Whether nothing but marks of the end of documents is left. -/
def isFinished (tokens : List Token) : Bool := tokens.all (· == .documentEnd)

/-- The document of a whole text, or none if it is empty; more than one document is an error. -/
def ofTokens? (tokens : List Token) : Option (Option Node) :=
  let whole (tokens : List Token) : Option (Option Node) := do
    let (node, p) ← parse true false (4 * tokens.length + 8) { tokens }
    if isFinished p.tokens then some (some node) else none
  match tokens with
  | [] => some none
  | .directive :: _ | .documentStart :: _ => do
    match ← afterDirectives tokens with
    | .documentStart :: rest =>
      match rest with
      | [] => some (some empty)
      | .documentEnd :: rest => if isFinished rest then some (some empty) else none
      | rest => whole rest
    | _ => none
  | tokens => whole tokens

end Node

end CarCare.Yaml

import CarCare.Yaml.Lexer
import CarCare.Yaml.Node

/-!
Reading a configuration text into a value. Of several entries with one key the last counts, in the
place of the first; entries that are merged in from other mappings stand in front.
-/
namespace CarCare.Yaml

/-- Enters an entry in place of an earlier one with its key. -/
def putEntry (key : Scalar) (value : Value) : List (Scalar × Value) → List (Scalar × Value)
  | [] => [(key, value)]
  | (k, v) :: rest =>
    if k.sameKey key then (k, value) :: rest else (k, v) :: putEntry key value rest

namespace Node

/-- The entries of a mapping with those in front that it merges in; of merged mappings the first
counts most. Only mappings can be merged. -/
def flattened : (fuel : Nat) → List (Node × Node) → Option (List (Node × Node))
  | 0, _ => none
  | fuel + 1, entries => do
    let merged ← entries.mapM fun
      | (.scalar .merge _, .map inner) => flattened fuel inner
      | (.scalar .merge _, .list nodes) => do
        let parts ← nodes.mapM fun
          | .map inner => flattened fuel inner
          | _ => none
        some parts.reverse.flatten
      | (.scalar .merge _, _) => none
      | _ => some []
    some (merged.flatten ++ entries.filter fun
      | (.scalar .merge _, _) => false
      | _ => true)

/-- The scalar of a key; a lone equals sign is a text there. -/
def key? : Node → Option Scalar
  | scalar .default text => some (.text text)
  | scalar tag text => readScalar? tag text
  | _ => none

/-- The value of a node; the first argument bounds the nesting. -/
def value? : (fuel : Nat) → Node → Option Value
  | 0, _ => none
  | _ + 1, scalar tag text => (readScalar? tag text).map .scalar
  | fuel + 1, list items => (items.mapM (value? fuel)).map .list
  | fuel + 1, map entries => do
    let entries ← flattened (fuel + 1) entries
    let pairs ← entries.mapM fun (k, v) => do
      let key ← key? k
      let value ← value? fuel v
      some (key, value)
    some (.map (pairs.foldl (fun found (key, value) => putEntry key value found) []))

end Node

/-- The value that a text writes: null if it is empty, none if it cannot be read. A text with what is
no value here, a day with a time, binary data or a set, counts among those that cannot be read, and
so does one with a day that no calendar has or a number without digits. No text is nested deeper
than it is long. -/
def read? (s : String) : Option Value := do
  match ← Node.ofTokens? (← tokens? s) with
  | some node => node.value? (s.length + 2)
  | none => some .null

end CarCare.Yaml

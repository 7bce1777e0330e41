/-!
Tokens of the configuration language. Indentation is made explicit: a block opens with a start
token and closes with an end token.
-/
namespace CarCare.Yaml

inductive Token where
  | directive
  | documentStart
  | documentEnd
  | blockSequenceStart
  | blockMappingStart
  | blockEnd
  | flowSequenceStart
  | flowSequenceEnd
  | flowMappingStart
  | flowMappingEnd
  | blockEntry
  | flowEntry
  | key
  | value
  | alias (name : String)
  | anchor (name : String)
  | tag (name : String)
  | scalar (text : String) (isPlain : Bool)
deriving DecidableEq, Repr

end CarCare.Yaml

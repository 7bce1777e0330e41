import CarCare.Schema.Rule
import CarCare.Section

/-!
Input schemas. A payload is a mapping from keys to values; a schema says which keys there may be
and what each has to hold. Validation converts every value or names every offending key, each on
its own, and keeps exactly the keys that were given.
-/
namespace CarCare

/-- One key of a schema. A nullable key also accepts the empty value. -/
structure SchemaKey where
  name : String
  rule : Schema.Rule
  required : Bool := false
  nullable : Bool := true

/-- One offending key of a payload. -/
structure Fault where
  key : String
  complaint : Schema.Complaint

/-- The members of a payload or of what it was converted to. -/
abbrev Members := List (String × Value)

/-- The keys of a payload, in order. -/
abbrev Schema := List SchemaKey

namespace SchemaKey

def convert (key : SchemaKey) : Value → Except Schema.Complaint Value
  -- Where a null value is not accepted, the rule says what is wrong with it.
  | .scalar .null => if key.nullable then .ok .null else key.rule.convert .null
  | value => key.rule.convert value

/-- What a key says about a payload: nothing if it is left out, else its value converted. -/
def check (key : SchemaKey) (payload : Members) : Except Schema.Complaint (Option Value) :=
  match payload.lookup key.name with
  | some value => (key.convert value).map some
  | none => if key.required then .error .missing else .ok none

/-- The fault of a key, if it has one. -/
def fault? (payload : Members) (key : SchemaKey) : Option Fault :=
  match key.check payload with
  | .error complaint => some ⟨key.name, complaint⟩
  | .ok _ => none

/-- The converted member of a key, if it is given and fits. -/
def member? (payload : Members) (key : SchemaKey) : Option (String × Value) :=
  match key.check payload with
  | .ok (some value) => some (key.name, value)
  | _ => none

end SchemaKey

namespace Schema

/-- The rule of a field or of a section column. -/
def Rule.ofKind : Kind → Rule
  | .flag => .flag
  | .text limit => .text false limit

def scope : Schema :=
  [{ name := "type", rule := .level, required := true, nullable := false },
   { name := "id", rule := .id, required := true, nullable := false }]

/-- The fields of an instruction, each optional. -/
def fields : Schema := Field.all.map fun f => { name := f.name, rule := .ofKind f.kind }

/-- A section. A new one has to name its commodity; in a change every key is optional and may be
empty. -/
def ofSection (kind : SectionKind) (change : Bool) : Schema :=
  [{ name := "commodity", rule := .text true (some 200), required := !change, nullable := change }]
  ++ kind.details.map (fun d => { name := d.name, rule := .ofKind d.kind })
  ++ [{ name := "inherit_from_parent", rule := .flag, nullable := change },
      { name := "sort_order", rule := .integer, nullable := change }]

def hasKey (schema : Schema) (name : String) : Bool := schema.any (·.name == name)

def unknownKeys (schema : Schema) (payload : Members) : List String :=
  ((payload.map (·.1)).filter fun key => !schema.hasKey key).mergeSort (· ≤ ·)

/-- All faults of a payload: those of the schema's keys in order, then the unknown keys. -/
def faults (schema : Schema) (payload : Members) : List Fault :=
  schema.filterMap (SchemaKey.fault? payload)
  ++ (schema.unknownKeys payload).map fun key => ⟨key, .notAllowed⟩

/-- Converts a payload, or names all its faults. -/
def validate (schema : Schema) (payload : Members) : Except (List Fault) Members :=
  match schema.faults payload with
  | [] => .ok (schema.filterMap (SchemaKey.member? payload))
  | faults => .error faults

end Schema

end CarCare

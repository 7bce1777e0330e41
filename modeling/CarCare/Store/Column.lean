import CarCare.Store.Change

/-!
Columns: what the tables keep of values that no schema has looked at. A text column writes numbers
and days down as text. A flag column takes flags, and 0 and 1 for them. A column for integers makes
an integer of what is one, and keeps other numbers and texts. Lists and mappings fit nowhere.
-/
namespace CarCare

/-- How the tables turn a scalar into what a column is for. -/
structure Affinity where
  /-- The text that stands for a floating point number. -/
  floatText : Number.Binary64 → String
  /-- What a column for integers keeps of a floating point number or of a text. -/
  number : Scalar → Scalar

inductive ColumnKind where
  | flag
  | text
  | integer
deriving DecidableEq, Repr

/-- A column that values are given for. -/
structure Column where
  name : String
  kind : ColumnKind
  /-- Whether a null value counts as not given. -/
  skipsNull : Bool

namespace Column

def ofKind (name : String) (skipsNull : Bool) : Kind → Column
  | .flag => ⟨name, .flag, skipsNull⟩
  | .text _ => ⟨name, .text, skipsNull⟩

/-- The columns of the fields. Nothing returns a field to what it inherits. -/
def fields : List Column := Field.all.map fun f => ofKind f.name true f.kind

def commodity : Column := ⟨"commodity", .text, false⟩

def placeholder : Column := ⟨"inherit_from_parent", .flag, true⟩

def place : Column := ⟨"sort_order", .integer, true⟩

/-- The columns of a section of a kind. -/
def sections (kind : SectionKind) : List Column :=
  commodity :: kind.details.map (fun d => ofKind d.name false d.kind) ++ [placeholder, place]

/-- The order in which values are looked at: flags are, before the driver sees any of them. -/
def bound (columns : List Column) : List Column :=
  columns.filter (·.kind == .flag) ++ columns.filter (·.kind != .flag)

/-- The value that members give for a column. -/
def given? (c : Column) (data : Members) : Option Value :=
  (data.lookup c.name).filter fun value => !(c.skipsNull && value.isNull)

/-- What members give for columns. Other members are passed over. -/
def given (columns : List Column) (data : Members) : List (Column × Value) :=
  (bound columns).filterMap fun c => (c.given? data).map (c, ·)

end Column

/-! ## What is kept -/

def keepFlag (value : Value) : Except Error Value :=
  if value.isNull then .ok .null
  else if value.equals (.bool true) then .ok (.bool true)
  else if value.equals (.bool false) then .ok (.bool false)
  else .error (.notAFlag value)

/-- An integer is kept in 64 bits. -/
def keepInteger (n : Int) (value : Value) : Except Error Value :=
  if Store.storable n then .ok value else .error .integerTooLarge

namespace Affinity
variable (a : Affinity)

def keepText : Value → Except Error Value
  | .scalar .null | .scalar (.float .nan) => .ok .null
  | .scalar (.bool b) => .ok (.text (toString b.toNat))
  | .scalar (.int n) => keepInteger n (.text (toString n))
  | .scalar (.float x) => .ok (.text (a.floatText x))
  | .scalar (.text s) => .ok (.text s)
  | .scalar (.date d) => .ok (.text d.text)
  | value => .error (.unsupported value)

/-- What a column for integers keeps: an integer, another number, a text or nothing. -/
def keepNumber : Value → Except Error Value
  | .scalar .null | .scalar (.float .nan) => .ok .null
  | .scalar (.bool b) => .ok (.int b.toNat)
  | .scalar (.int n) => keepInteger n (.int n)
  | .scalar (.float x) => .ok (.scalar (a.number (.float x)))
  | .scalar (.text s) => .ok (.scalar (a.number (.text s)))
  | .scalar (.date d) => .ok (.scalar (a.number (.text d.text)))
  | value => .error (.unsupported value)

def keep : ColumnKind → Value → Except Error Value
  | .flag => keepFlag
  | .text => a.keepText
  | .integer => a.keepNumber

/-- What is written of the values given for a record, or the first fault. A record that shows a
value already is not written to; a new one shows nothing. -/
def write (shown : String → Option Value) : List (Column × Value) → Except Error Members
  | [] => .ok []
  | (c, value) :: rest =>
    if (shown c.name).any value.equals then write shown rest
    else do
      let stored ← a.keep c.kind value
      let others ← write shown rest
      pure ((c.name, stored) :: others)

/-- Floating point numbers are written with the fewest digits. Whole numbers become integers, and so
do the texts of integers. -/
def standard : Affinity where
  floatText := Number.Binary64.text
  number
    | .float x => (x.toInt?.filter Store.storable).elim (.float x) .int
    | .text s => (s.toInt?.filter Store.storable).elim (.text s) .int
    | other => other

end Affinity

end CarCare

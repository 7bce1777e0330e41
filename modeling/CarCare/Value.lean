import CarCare.Calendar
import CarCare.Number.Shortest
import CarCare.Text.Quoted

/-!
Values of the outside world: what a payload, a configuration file or an answer holds before it is
given a meaning. Mappings keep their order, and their keys are scalars.

What is said of values is said of these only. A text consists of Unicode scalar values, so a payload
with a lone surrogate lies outside. So do days with a time, binary data and sets, which a
configuration file could hold.
-/
namespace CarCare

/-- A value without parts. Texts hold no lone surrogates. -/
inductive Scalar where
  | null
  | bool (value : Bool)
  | int (value : Int)
  | float (value : Number.Binary64)
  | text (value : String)
  | date (value : Date)
deriving DecidableEq, Repr

/-- A scalar, a list, or a mapping. -/
inductive Value where
  | scalar (value : Scalar)
  | list (items : List Value)
  | map (entries : List (Scalar × Value))

namespace Scalar

/-- The text of a scalar inside a message: as it would be written in a list. -/
def literal : Scalar → String
  | null => "None"
  | bool true => "True"
  | bool false => "False"
  | int n => toString n
  | float x => x.text
  | text s => Text.quoted s
  | date d =>
    let (year, month, day) := d.civil
    "datetime.date(" ++ toString year ++ ", " ++ toString month ++ ", " ++ toString day ++ ")"

/-- The text of a scalar on its own: a text stands for itself. -/
def display : Scalar → String
  | text s => s
  | date d => d.text
  | other => other.literal

/-- Whether a scalar can be put in words: an integer of too many digits cannot. -/
def isWritable : Scalar → Bool
  | int n => n.natAbs < Nat.pow 10 Text.digitLimit
  | _ => true

/-- False, zero, the empty text and nothing are empty; all else is full. -/
def isFull : Scalar → Bool
  | null => false
  | bool b => b
  | int n => n != 0
  | float x => !x.isZero
  | text s => s != ""
  | date _ => true

/-- Whether two keys address one entry. Integers are compared exactly, and with floating point
numbers when those are whole. -/
def sameKey (a b : Scalar) : Bool :=
  let whole : Scalar → Option Int
    | bool b => some b.toNat
    | int n => some n
    | float x => x.toInt?
    | _ => none
  match whole a, whole b with
  | some m, some n => m == n
  | none, none => a == b
  | _, _ => false

/-- Whether two scalars are equal. They are if they address one entry, except that what is no
number is not equal to itself. -/
def equals (a b : Scalar) : Bool := a != .float .nan && a.sameKey b

end Scalar

namespace Value

instance : Inhabited Value := ⟨.scalar .null⟩

abbrev null : Value := .scalar .null
abbrev bool (b : Bool) : Value := .scalar (.bool b)
abbrev int (n : Int) : Value := .scalar (.int n)
abbrev text (s : String) : Value := .scalar (.text s)

/-- A mapping with text keys. -/
def object (members : List (String × Value)) : Value :=
  .map (members.map fun (key, value) => (.text key, value))

def isNull : Value → Bool
  | .scalar .null => true
  | _ => false

/-- Whether two values are equal scalars. -/
def equals : Value → Value → Bool
  | .scalar a, .scalar b => a.equals b
  | _, _ => false

def ofOption (encode : α → Value) : Option α → Value
  | some a => encode a
  | none => null

mutual

/-- The text of a value inside a message. -/
def literal : Value → String
  | .scalar s => s.literal
  | .list items => "[" ++ ", ".intercalate (literals items) ++ "]"
  | .map entries => "\x7b" ++ ", ".intercalate (entryLiterals entries) ++ "\x7d"

def literals : List Value → List String
  | [] => []
  | item :: rest => literal item :: literals rest

def entryLiterals : List (Scalar × Value) → List String
  | [] => []
  | (key, value) :: rest => (key.literal ++ ": " ++ literal value) :: entryLiterals rest

end

mutual

/-- Whether a value can be put in words, with everything in it. -/
def isWritable : Value → Bool
  | .scalar s => s.isWritable
  | .list items => areWritable items
  | .map entries => entriesAreWritable entries

def areWritable : List Value → Bool
  | [] => true
  | item :: rest => item.isWritable && areWritable rest

def entriesAreWritable : List (Scalar × Value) → Bool
  | [] => true
  | (key, value) :: rest => key.isWritable && value.isWritable && entriesAreWritable rest

end

def display : Value → String
  | .scalar s => s.display
  | other => other.literal

/-- Empty lists and mappings, and empty scalars, are empty; all else is full. -/
def isFull : Value → Bool
  | .scalar s => s.isFull
  | .list items => !items.isEmpty
  | .map entries => !entries.isEmpty

/-- The value under a key of a mapping. -/
def get? (key : String) : Value → Option Value
  | .map entries => entries.lookup (.text key)
  | _ => none

/-- The members of a mapping all of whose keys are texts. -/
def members? : Value → Option (List (String × Value))
  | .map entries => entries.mapM fun
    | (.text key, value) => some (key, value)
    | _ => none
  | _ => none

end Value

end CarCare

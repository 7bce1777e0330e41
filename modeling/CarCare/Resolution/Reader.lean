import CarCare.Hierarchy.Lookup
import CarCare.Instruction

/-!
Readers: the lookups from which resolution gets the current record of a scope.
-/
namespace CarCare

/-- Answers the current record of a scope. -/
abbrev Reader (m : Type → Type) := Lookup m Instruction

/-- Records that are kept by scope. Of two records of one scope the last counts, and a record that
is marked as not current is hidden; one without a mark is current. -/
structure RecordShelf where
  records : List Instruction

namespace RecordShelf

/-- The record that counts for a scope. -/
def last? (s : RecordShelf) (level : Level) (id : Option Uuid) : Option Instruction :=
  s.records.reverse.find? fun r => r.level == some level && r.scopeId == id

def isShown (r : Instruction) : Bool := r.isCurrent != some false

/-- The current record of a scope. -/
def read (s : RecordShelf) (level : Level) (id : Uuid) : Option Instruction :=
  (s.last? level (some id)).filter isShown

/-- The scopes that hold a current record. -/
def currentScopes (s : RecordShelf) : List (Level × Option Uuid) :=
  s.records.filterMap fun r => do
    let level ← r.level
    if (s.last? level r.scopeId).any isShown then some (level, r.scopeId) else none

end RecordShelf

end CarCare

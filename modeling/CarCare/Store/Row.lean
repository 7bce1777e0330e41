import CarCare.Error
import CarCare.Instruction

/-!
Rows of the instruction store. A row holds one record with its sections; reading it gives the
record with its sections in the order in which they are shown.
-/
namespace CarCare

/-- What a new row is stamped with. -/
structure Stamp where
  id : Uuid
  now : Timestamp

/-- A stored section. It belongs to the row that holds it. -/
structure SectionRow where
  id : Uuid
  commodity : String
  details : Detail → Option FieldValue
  inherits : Bool
  sortOrder : Int
  createdAt : Timestamp

/-- A stored record. -/
structure InstructionRow where
  id : Uuid
  level : Level
  scopes : ScopeIds
  scopeName : Option String
  fields : Fields
  version : Int
  isCurrent : Bool
  supersedes : Option Uuid
  createdBy : Option Uuid
  createdAt : Timestamp
  updatedAt : Timestamp
  sealing : List SectionRow
  lining : List SectionRow

namespace SectionRow

def toSection (owner : Uuid) (s : SectionRow) : Section where
  id := some s.id
  owner := some owner
  commodity := s.commodity
  details := s.details
  inherits := some s.inherits
  sortOrder := some s.sortOrder

/-- Sections are shown by their place, then by age, then by id. -/
def shownBefore (a b : SectionRow) : Bool :=
  a.sortOrder < b.sortOrder || (a.sortOrder == b.sortOrder
    && (a.createdAt.seconds < b.createdAt.seconds
      || (a.createdAt == b.createdAt && decide (a.id ≤ b.id))))

end SectionRow

namespace InstructionRow

def sections (r : InstructionRow) : SectionKind → List SectionRow
  | .sealing => r.sealing
  | .lining => r.lining

def withSections (r : InstructionRow) (kind : SectionKind) (sections : List SectionRow) :
    InstructionRow :=
  match kind with
  | .sealing => { r with sealing := sections }
  | .lining => { r with lining := sections }

/-- The record without a change in the order of its sections. -/
def asListed (r : InstructionRow) : Instruction where
  id := some r.id
  level := some r.level
  scopes := r.scopes
  scopeName := r.scopeName
  fields := r.fields
  version := some r.version
  isCurrent := some r.isCurrent
  supersedes := r.supersedes
  createdBy := r.createdBy
  createdAt := some r.createdAt
  updatedAt := some r.updatedAt
  sealing := r.sealing.map (·.toSection r.id)
  lining := r.lining.map (·.toSection r.id)

/-- The record with its sections in the order in which they are shown. -/
def read (r : InstructionRow) : Instruction :=
  asListed { r with
    sealing := r.sealing.mergeSort SectionRow.shownBefore
    lining := r.lining.mergeSort SectionRow.shownBefore }

def section? (r : InstructionRow) (kind : SectionKind) (id : Uuid) : Option SectionRow :=
  (r.sections kind).find? (·.id == id)

def hasCommodity (r : InstructionRow) (kind : SectionKind) (commodity : String) : Bool :=
  (r.sections kind).any (·.commodity == commodity)

theorem sections_withSections_self (r : InstructionRow) (k : SectionKind) (l : List SectionRow) :
    (r.withSections k l).sections k = l := by
  cases k <;> rfl

theorem sections_withSections_of_ne {j k : SectionKind} (h : j ≠ k) (r : InstructionRow)
    (l : List SectionRow) : (r.withSections k l).sections j = r.sections j := by
  cases j <;> cases k <;> first | rfl | exact absurd rfl h

end InstructionRow

end CarCare

import CarCare.Hierarchy.Tables
import CarCare.Store.Row

/-!
The instruction store: the rows in the order of insertion, what is read from them, and the rules
that every new row has to keep.
-/
namespace CarCare

structure Store where
  rows : List InstructionRow := []

namespace Store

/-! ## Reading -/

def row? (s : Store) (id : Uuid) : Option InstructionRow := s.rows.find? (·.id == id)

def current? (s : Store) (id : Uuid) : Option InstructionRow :=
  (s.row? id).filter (·.isCurrent)

/-- The current row that is declared at a scope, found by the column of its level. -/
def byScope? (s : Store) (level : Level) (scope : Uuid) : Option InstructionRow :=
  s.rows.find? fun r => r.isCurrent && r.scopes.get level == some scope

def read (s : Store) (level : Level) (scope : Uuid) : Option Instruction :=
  (s.byScope? level scope).map (·.read)

def currentScopes (s : Store) : List (Level × Option Uuid) :=
  (s.rows.filter (·.isCurrent)).map fun r => (r.level, r.scopes.get r.level)

/-- Whether a row is declared at a scope of an id: at the level that is asked for, or at any. -/
def atScope (level : Option Level) (scope : Uuid) (r : InstructionRow) : Bool :=
  match level with
  | some l => r.scopes.get l == some scope
  | none => Level.all.any fun l => r.scopes.get l == some scope

/-- Whether a row is declared at a customer or at one of its leases, riders and amendments. An
amendment belongs to the customer if its rider or its lease does. -/
def inSubtree (t : LeaseTables) (customer : Uuid) (r : InstructionRow) : Bool :=
  let leases := (t.leases.filter (·.customerId == customer)).map (·.id)
  let riders := (t.riders.filter (leases.contains ·.leaseId)).map (·.id)
  let amendments := (t.amendments.filter fun a =>
    a.riderId.any riders.contains || a.leaseId.any leases.contains).map (·.id)
  r.scopes.customer == some customer || r.scopes.masterLease.any leases.contains
    || r.scopes.rider.any riders.contains || r.scopes.amendment.any amendments.contains

/-- Rows are listed by level, then by the name kept for their scope, then by id. -/
def listedBefore (a b : InstructionRow) : Bool :=
  let name (r : InstructionRow) := r.scopeName.getD ""
  a.level.rank < b.level.rank || (a.level == b.level
    && (decide (name a < name b) || (name a == name b && decide (a.id ≤ b.id))))

/-- The current rows that pass every filter that is given. -/
def list (s : Store) (t : LeaseTables) (level : Option Level) (scope customer : Option Uuid) :
    List InstructionRow :=
  (s.rows.filter fun r =>
    r.isCurrent && level.all (r.level == ·) && scope.all (atScope level · r)
      && customer.all (inSubtree t · r)).mergeSort listedBefore

/-- The row that holds a section of a kind, with the section. -/
def section? (s : Store) (kind : SectionKind) (id : Uuid) : Option (InstructionRow × SectionRow) :=
  s.rows.findSome? fun r => (r.section? kind id).map (r, ·)

/-! ## Rules of the tables -/

/-- The range of integers that a column can hold. -/
def storable (n : Int) : Bool := Schema.isInt64 n

def table : String := "ccm_instructions"

def column (name : String) : String := table ++ "." ++ name

def sectionColumn (kind : SectionKind) (name : String) : String := kind.table ++ "." ++ name

/-- Whether the id of a section is in use. -/
def hasSection (s : Store) (kind : SectionKind) (id : Uuid) : Bool := (s.section? kind id).isSome

/-- The rule that a new section of a row breaks, if it breaks one. -/
def sectionFault? (s : Store) (kind : SectionKind) (siblings : List SectionRow) (new : SectionRow) :
    Option Constraint :=
  if s.hasSection kind new.id || siblings.any (·.id == new.id) then
    some (.unique [sectionColumn kind "id"])
  else if siblings.any (·.commodity == new.commodity) then
    some (.unique [sectionColumn kind "ccm_instruction_id", sectionColumn kind "commodity"])
  else none

/-- The rule that the sections of a new row break, if they break one. -/
def sectionsFault? (s : Store) (kind : SectionKind) : (siblings new : List SectionRow) →
    Option Constraint
  | _, [] => none
  | siblings, row :: rest =>
    (s.sectionFault? kind siblings row).or (s.sectionsFault? kind (row :: siblings) rest)

/-- The column in which a current row would meet another one. -/
def clash? (s : Store) (new : InstructionRow) : Option Level :=
  if new.isCurrent then
    -- Each column has an index of its own over the current rows.
    Level.all.find? fun l => (new.scopes.get l).any fun id => (s.byScope? l id).isSome
  else none

/-- The rule that a new row breaks, if it breaks one: its id is new, it is declared at one scope,
and if it is current no other current row is declared there. -/
def fault? (s : Store) (new : InstructionRow) : Option Constraint :=
  if new.scopes.count ≠ 1 then some (.check "ccm_instructions_scope_check")
  else if (s.row? new.id).isSome then some (.unique [column "id"])
  else match s.clash? new with
    | some l => some (.unique [column l.column])
    | none =>
      (s.sectionsFault? .sealing [] new.sealing).or (s.sectionsFault? .lining [] new.lining)

/-! ## Writing -/

/-- Adds a row that keeps the rules. -/
def insert (s : Store) (new : InstructionRow) : Except Constraint Store :=
  match s.fault? new with
  | some broken => .error broken
  | none => .ok ⟨s.rows ++ [new]⟩

/-- Puts a row in the place of the one with its id. -/
def replace (s : Store) (row : InstructionRow) : Store :=
  ⟨s.rows.map fun r => if r.id = row.id then row else r⟩

end Store

/-- Everything that is stored: the tables of the leasing system and the care instructions. -/
structure Database where
  leases : LeaseTables := {}
  instructions : Store := {}

end CarCare

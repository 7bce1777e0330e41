import CarCare.Hierarchy.Rows
import CarCare.Store.Draft

/-!
Snapshots: records, and whole databases, as values that a file can hold. A record is read from the
members that it is shown with; what is missing or null is absent. A database consists of the tables
of the leasing system and of the records, which are stored one after the other.
-/
namespace CarCare

namespace Members

def flag? (m : Members) (key : String) : Option Bool :=
  match m.lookup key with
  | some (.scalar (.bool b)) => some b
  | _ => none

def int? (m : Members) (key : String) : Option Int :=
  match m.lookup key with
  | some (.scalar (.int n)) => some n
  | _ => none

/-- The members of each item of a list. -/
def items (m : Members) (key : String) : List Members :=
  match m.lookup key with
  | some (.list items) => items.map fun v => v.members?.getD []
  | _ => []

end Members

def ScopeIds.ofMembers (m : Members) : ScopeIds where
  customer := m.id? Level.customer.column
  masterLease := m.id? Level.masterLease.column
  rider := m.id? Level.rider.column
  amendment := m.id? Level.amendment.column

def Section.ofMembers (kind : SectionKind) (m : Members) : Section where
  id := m.id? "id"
  owner := m.id? "ccm_instruction_id"
  commodity := (m.text? "commodity").getD ""
  details d := if kind.details.contains d then (m.lookup d.name).bind FieldValue.ofValue? else none
  inherits := m.flag? "inherit_from_parent"
  sortOrder := m.int? "sort_order"

/-- A record that was never stored. -/
def Instruction.ofMembers (m : Members) : Instruction where
  id := m.id? "id"
  level := (m.lookup "scope_level").bind Level.ofValue?
  scopes := .ofMembers m
  scopeName := m.text? "scope_name"
  fields := Fields.ofMembers m
  version := m.int? "version"
  isCurrent := m.flag? "is_current"
  supersedes := m.id? "supersedes_id"
  createdBy := m.id? "created_by_id"
  sealing := (m.items SectionKind.sealing.collection).map (.ofMembers .sealing)
  lining := (m.items SectionKind.lining.collection).map (.ofMembers .lining)

def Draft.ofMembers (m : Members) : Draft :=
  let rows (kind : SectionKind) := (m.items kind.collection).map fun s =>
    ((Members.id? s "id").getD ⟨0⟩, SectionChange.ofMembers kind s)
  ⟨.ofMembers m, rows .sealing, rows .lining⟩

namespace Database

/-- The name of the tables of the leasing system in a snapshot. -/
def hierarchyKey : String := "hierarchy"

/-- The name of the records in a snapshot. -/
def recordsKey : String := "records"

/-- The database of a snapshot, all records being of one age. -/
def ofSnapshot (now : Timestamp) (snapshot : Value) : Except Error Database := do
  let leases ← match LeaseTables.ofSnapshot ((snapshot.get? hierarchyKey).getD .null) with
    | .ok leases => pure leases
    | .error broken => throw (.constraint broken)
  let records := Members.items (snapshot.members?.getD []) recordsKey
  records.foldlM (fun db m =>
    match db.transact ((Draft.ofMembers m).insert now) with
    | (.ok _, db) => pure db
    | (.error e, _) => throw e) { leases }

def toSnapshot (db : Database) : Value :=
  .object
    [(hierarchyKey, .object
      [(Table.customers.name, .list (db.leases.customers.map fun c => .object c.members)),
       (Table.leases.name, .list (db.leases.leases.map fun l => .object l.members)),
       (Table.riders.name, .list (db.leases.riders.map fun r => .object r.members)),
       (Table.amendments.name, .list (db.leases.amendments.map fun a => .object a.members)),
       (Table.placements.name, .list (db.leases.placements.map fun p => .object p.members))]),
     (recordsKey, .list (db.instructions.rows.map fun row => row.asListed.toValue true))]

end Database

end CarCare

import CarCare.Hierarchy.Tables

/-!
Rows of the leasing tables as members: how a row is read from named columns, with the defaults of
the columns that may be left out, and how rows are added, changed and removed. Ids are distinct
within a table, and so are the codes of customers; references are not checked.
-/
namespace CarCare

/-- The tables of the leasing system. -/
inductive Table where
  | customers
  | leases
  | riders
  | amendments
  | placements
deriving DecidableEq, Repr

namespace Table

def all : List Table := [.customers, .leases, .riders, .amendments, .placements]

/-- The short name of a table, which snapshots use. -/
def name : Table → String
  | customers => "customers"
  | leases => "leases"
  | riders => "riders"
  | amendments => "amendments"
  | placements => "cars"

/-- The name of a table in the database. -/
def storedName : Table → String
  | customers => "customers"
  | leases => "master_leases"
  | riders => "lease_riders"
  | amendments => "lease_amendments"
  | placements => "rider_cars"

def ofName? (name : String) : Option Table := all.find? (·.name == name)

def column (t : Table) (name : String) : String := t.storedName ++ "." ++ name

end Table

/-! ## Columns -/

namespace Members

def text? (m : Members) (key : String) : Option String :=
  match m.lookup key with
  | some (.scalar (.text s)) => some s
  | _ => none

def id? (m : Members) (key : String) : Option Uuid :=
  (text? m key).bind fun s => Uuid.ofHyphenated? s.toList

def date? (m : Members) (key : String) : Option Date := (text? m key).bind Date.read?

/-- A flag column that is true unless said otherwise. -/
def flag (m : Members) (key : String) : Bool :=
  match m.lookup key with
  | some (.scalar (.bool b)) => b
  | _ => true

end Members

/-- A column that may not be left out. -/
def Table.required (t : Table) (name : String) : Option α → Except Constraint α
  | some a => .ok a
  | none => .error (.notNull (t.column name))

def Customer.ofMembers (m : Members) : Except Constraint Customer := do
  let id ← Table.customers.required "id" (m.id? "id")
  let code ← Table.customers.required "customer_code" (m.text? "customer_code")
  let name ← Table.customers.required "customer_name" (m.text? "customer_name")
  pure { id, code, name, isActive := m.flag "is_active" }

def Customer.members (c : Customer) : Members :=
  [("id", .text c.id.text), ("customer_code", .text c.code), ("customer_name", .text c.name),
   ("is_active", .bool c.isActive)]

def Lease.ofMembers (m : Members) : Except Constraint Lease := do
  let id ← Table.leases.required "id" (m.id? "id")
  let customerId ← Table.leases.required "customer_id" (m.id? "customer_id")
  let code ← Table.leases.required "lease_id" (m.text? "lease_id")
  pure { id, customerId, code, name := m.text? "lease_name",
         status := (m.text? "status").getD activeStatus }

def Lease.members (l : Lease) : Members :=
  [("id", .text l.id.text), ("customer_id", .text l.customerId.text), ("lease_id", .text l.code),
   ("lease_name", .ofOption .text l.name), ("status", .text l.status)]

def Rider.ofMembers (m : Members) : Except Constraint Rider := do
  let id ← Table.riders.required "id" (m.id? "id")
  let leaseId ← Table.riders.required "master_lease_id" (m.id? "master_lease_id")
  let code ← Table.riders.required "rider_id" (m.text? "rider_id")
  pure { id, leaseId, code, name := m.text? "rider_name",
         status := (m.text? "status").getD activeStatus }

def Rider.members (r : Rider) : Members :=
  [("id", .text r.id.text), ("master_lease_id", .text r.leaseId.text), ("rider_id", .text r.code),
   ("rider_name", .ofOption .text r.name), ("status", .text r.status)]

def Amendment.ofMembers (m : Members) : Except Constraint Amendment := do
  let id ← Table.amendments.required "id" (m.id? "id")
  let code ← Table.amendments.required "amendment_id" (m.text? "amendment_id")
  let effective ← Table.amendments.required "effective_date" (m.date? "effective_date")
  pure { id, riderId := m.id? "rider_id", leaseId := m.id? "master_lease_id", code,
         summary := m.text? "change_summary", effective }

def Amendment.members (a : Amendment) : Members :=
  [("id", .text a.id.text), ("rider_id", .ofOption (.text ·.text) a.riderId),
   ("master_lease_id", .ofOption (.text ·.text) a.leaseId), ("amendment_id", .text a.code),
   ("change_summary", .ofOption .text a.summary), ("effective_date", .text a.effective.text)]

def Placement.ofMembers (m : Members) : Except Constraint Placement := do
  let id ← Table.placements.required "id" (m.id? "id")
  let riderId ← Table.placements.required "rider_id" (m.id? "rider_id")
  let car ← Table.placements.required "car_number" (m.text? "car_number")
  pure { id, riderId, car, isActive := m.flag "is_active" }

def Placement.members (p : Placement) : Members :=
  [("id", .text p.id.text), ("rider_id", .text p.riderId.text), ("car_number", .text p.car),
   ("is_active", .bool p.isActive)]

/-- A row of one of the tables. -/
inductive LeaseRow where
  | customer (row : Customer)
  | lease (row : Lease)
  | rider (row : Rider)
  | amendment (row : Amendment)
  | placement (row : Placement)
deriving DecidableEq, Repr

/-- The row of a table that members describe. -/
def LeaseRow.ofMembers (m : Members) : Table → Except Constraint LeaseRow
  | .customers => (Customer.ofMembers m).map .customer
  | .leases => (Lease.ofMembers m).map .lease
  | .riders => (Rider.ofMembers m).map .rider
  | .amendments => (Amendment.ofMembers m).map .amendment
  | .placements => (Placement.ofMembers m).map .placement

/-! ## Rows -/

namespace LeaseTables

def addCustomer (t : LeaseTables) (c : Customer) : Except Constraint LeaseTables :=
  if t.customers.any (·.id == c.id) then .error (.unique [Table.customers.column "id"])
  else if t.customers.any (·.code == c.code) then
    .error (.unique [Table.customers.column "customer_code"])
  else .ok { t with customers := t.customers ++ [c] }

def addLease (t : LeaseTables) (l : Lease) : Except Constraint LeaseTables :=
  if t.leases.any (·.id == l.id) then .error (.unique [Table.leases.column "id"])
  else .ok { t with leases := t.leases ++ [l] }

def addRider (t : LeaseTables) (r : Rider) : Except Constraint LeaseTables :=
  if t.riders.any (·.id == r.id) then .error (.unique [Table.riders.column "id"])
  else .ok { t with riders := t.riders ++ [r] }

def addAmendment (t : LeaseTables) (a : Amendment) : Except Constraint LeaseTables :=
  if t.amendments.any (·.id == a.id) then .error (.unique [Table.amendments.column "id"])
  else .ok { t with amendments := t.amendments ++ [a] }

def addPlacement (t : LeaseTables) (p : Placement) : Except Constraint LeaseTables :=
  if t.placements.any (·.id == p.id) then .error (.unique [Table.placements.column "id"])
  else .ok { t with placements := t.placements ++ [p] }

/-- Adds a row that keeps the rules of its table. -/
def insert (t : LeaseTables) : LeaseRow → Except Constraint LeaseTables
  | .customer c => t.addCustomer c
  | .lease l => t.addLease l
  | .rider r => t.addRider r
  | .amendment a => t.addAmendment a
  | .placement p => t.addPlacement p

def insertAll (t : LeaseTables) (rows : List LeaseRow) : Except Constraint LeaseTables :=
  rows.foldlM insert t

def addRow (t : LeaseTables) (m : Members) (table : Table) : Except Constraint LeaseTables := do
  t.insert (← LeaseRow.ofMembers m table)

/-- Removes the row with an id; answers how many rows there were. -/
def deleteRow (t : LeaseTables) (id : Uuid) : Table → Nat × LeaseTables
  | .customers =>
    (t.customers.countP (·.id == id), { t with customers := t.customers.filter (·.id != id) })
  | .leases => (t.leases.countP (·.id == id), { t with leases := t.leases.filter (·.id != id) })
  | .riders => (t.riders.countP (·.id == id), { t with riders := t.riders.filter (·.id != id) })
  | .amendments =>
    (t.amendments.countP (·.id == id), { t with amendments := t.amendments.filter (·.id != id) })
  | .placements =>
    (t.placements.countP (·.id == id), { t with placements := t.placements.filter (·.id != id) })

/-- Puts changed rows in the place of those with an id. -/
def changeRows (id : Uuid) (idOf : α → Uuid) (members : α → Members)
    (read : Members → Except Constraint α) (change : Members) (rows : List α) :
    Except Constraint (List α) :=
  rows.mapM fun row => if idOf row == id then read (change ++ members row) else pure row

/-- Whether two values of a list are equal. -/
def hasRepeat [BEq α] : List α → Bool
  | [] => false
  | a :: rest => rest.contains a || hasRepeat rest

def setRow (t : LeaseTables) (id : Uuid) (change : Members) : Table → Except Constraint LeaseTables
  | .customers => do
    let rows ← changeRows id (·.id) Customer.members Customer.ofMembers change t.customers
    if hasRepeat (rows.map (·.code)) then
      throw (.unique [Table.customers.column "customer_code"])
    pure { t with customers := rows }
  | .leases => do
    pure { t with
      leases := ← changeRows id (·.id) Lease.members Lease.ofMembers change t.leases }
  | .riders => do
    pure { t with
      riders := ← changeRows id (·.id) Rider.members Rider.ofMembers change t.riders }
  | .amendments => do
    pure { t with amendments :=
      ← changeRows id (·.id) Amendment.members Amendment.ofMembers change t.amendments }
  | .placements => do
    pure { t with placements :=
      ← changeRows id (·.id) Placement.members Placement.ofMembers change t.placements }

/-- Reads a snapshot of all tables: under the name of each table a list of rows. -/
def ofSnapshot (snapshot : Value) : Except Constraint LeaseTables :=
  Table.all.foldlM (fun t table =>
    match snapshot.get? table.name with
    | some (.list rows) =>
      rows.foldlM (fun t row => t.addRow (row.members?.getD []) table) t
    | _ => pure t) {}

end LeaseTables

end CarCare

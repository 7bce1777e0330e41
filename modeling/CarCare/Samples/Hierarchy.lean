import CarCare.Hierarchy.Rows
import CarCare.Session

/-!
A sample hierarchy for development: customers with their leases, riders, amendments and cars. It is
described as a tree, which becomes rows in the order in which the tree is read. Each row takes the
next one of the ids that the loader is given. A customer whose code is taken is left out, with
everything below.
-/
namespace CarCare

structure SampleAmendment where
  code : String
  summary : Option String
  /-- How many days ago the amendment came into force. -/
  daysAgo : Nat

structure SampleRider where
  code : String
  name : Option String
  cars : List String
  amendments : List SampleAmendment

structure SampleLease where
  code : String
  name : Option String
  status : String := activeStatus
  amendments : List SampleAmendment
  riders : List SampleRider

structure SampleCustomer where
  code : String
  name : String
  leases : List SampleLease

/-- Ids for new rows. -/
abbrev IdSupply := Nat → Uuid

/-- The supply after so many ids have been taken. -/
def IdSupply.skip (ids : IdSupply) (taken : Nat) : IdSupply := fun n => ids (taken + n)

def SampleAmendment.row (today : Date) (lease : Uuid) (rider : Option Uuid) (id : Uuid)
    (a : SampleAmendment) : Except Error LeaseRow :=
  match today.daysAgo? a.daysAgo with
  | some effective => .ok (.amendment ⟨id, rider, some lease, a.code, a.summary, effective⟩)
  | none => .error .dayOutOfRange

def SampleAmendment.rows (today : Date) (lease : Uuid) (rider : Option Uuid) (ids : IdSupply)
    (amendments : List SampleAmendment) : Except Error (List LeaseRow) :=
  amendments.zipIdx.mapM fun (a, n) => a.row today lease rider (ids n)

/-- The rows of a rider: its own, its cars and its amendments. -/
def SampleRider.rows (today : Date) (lease : Uuid) (ids : IdSupply) (r : SampleRider) :
    Except Error (List LeaseRow) := do
  let id := ids 0
  let cars := r.cars.zipIdx.map fun (car, n) =>
    LeaseRow.placement ⟨ids.skip 1 n, id, car, true⟩
  let amendments ←
    SampleAmendment.rows today lease (some id) (ids.skip (1 + r.cars.length)) r.amendments
  pure (.rider ⟨id, lease, r.code, r.name, activeStatus⟩ :: cars ++ amendments)

def SampleRider.allRows (today : Date) (lease : Uuid) (ids : IdSupply) :
    List SampleRider → Except Error (List LeaseRow)
  | [] => pure []
  | r :: rest => do
    let rows ← r.rows today lease ids
    pure (rows ++ (← allRows today lease (ids.skip rows.length) rest))

/-- The rows of a lease: its own, its amendments and its riders. -/
def SampleLease.rows (today : Date) (customer : Uuid) (ids : IdSupply) (l : SampleLease) :
    Except Error (List LeaseRow) := do
  let id := ids 0
  let amendments ← SampleAmendment.rows today id none (ids.skip 1) l.amendments
  let riders ← SampleRider.allRows today id (ids.skip (1 + amendments.length)) l.riders
  pure (.lease ⟨id, customer, l.code, l.name, l.status⟩ :: amendments ++ riders)

def SampleLease.allRows (today : Date) (customer : Uuid) (ids : IdSupply) :
    List SampleLease → Except Error (List LeaseRow)
  | [] => pure []
  | l :: rest => do
    let rows ← l.rows today customer ids
    pure (rows ++ (← allRows today customer (ids.skip rows.length) rest))

/-- The rows of a customer: its own and its leases. -/
def SampleCustomer.rows (today : Date) (ids : IdSupply) (c : SampleCustomer) :
    Except Error (List LeaseRow) := do
  let id := ids 0
  let leases ← SampleLease.allRows today id (ids.skip 1) c.leases
  pure (.customer ⟨id, c.code, c.name, true⟩ :: leases)

namespace Samples

def customers : List SampleCustomer :=
  [{ code := "ACME", name := "Acme Chemical Co"
     leases :=
      [{ code := "ML-2024-001", name := some "Acme Tank Car Master Lease"
         amendments := [⟨"AMD-L01", none, 30⟩]
         riders :=
          [{ code := "R-001", name := some "Acme Food Grade Fleet"
             cars := ["ACMX100001", "ACMX100002"]
             amendments := [⟨"AMD-001", some "Kosher wash added", 90⟩] },
           { code := "R-002", name := none, cars := ["ACMX200001"], amendments := [] }] }] },
   { code := "GRNR", name := "Granary Foods"
     leases :=
      [{ code := "ML-2023-114", name := none, status := "Expired", amendments := [],
         riders := [] }] }]

/-- Adds the customers whose code is free; answers how many rows that took. -/
def loadCustomers (today : Date) : IdSupply → List SampleCustomer → LeaseTables →
    Except Error (Nat × LeaseTables)
  | _, [], t => .ok (0, t)
  | ids, c :: rest, t =>
    -- A customer that is there is passed over with all that belongs to it.
    if t.customers.any (·.code == c.code) then loadCustomers today ids rest t
    else do
      let rows ← c.rows today ids
      let t ← match t.insertAll rows with
        | .ok t => pure t
        | .error broken => throw (.constraint broken)
      let (count, t) ← loadCustomers today (ids.skip rows.length) rest t
      pure (rows.length + count, t)

/-- Loads the sample hierarchy; answers how many rows were added. -/
def loadHierarchy (today : Date) (ids : IdSupply) (s : Session) : Session.Outcome Nat :=
  match loadCustomers today ids customers s.working.leases with
  | .ok (count, leases) => (.ok count, { s with working := { s.working with leases } })
  | .error e => (.error e, s)

end Samples

end CarCare

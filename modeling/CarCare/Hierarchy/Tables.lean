import CarCare.Hierarchy.Directory

/-!
The tables of the leasing system: customers, master leases, riders, amendments and the placement
of cars on riders. References between rows may dangle. The directory over the tables joins rows by
their references: a rider without its lease is no scope, and an amendment hangs off its rider, or
off its lease if it names no rider.
-/
namespace CarCare

structure Customer where
  id : Uuid
  code : String
  name : String
  isActive : Bool
deriving DecidableEq, Repr

structure Lease where
  id : Uuid
  customerId : Uuid
  code : String
  name : Option String
  status : String
deriving DecidableEq, Repr

structure Rider where
  id : Uuid
  leaseId : Uuid
  code : String
  name : Option String
  status : String
deriving DecidableEq, Repr

structure Amendment where
  id : Uuid
  riderId : Option Uuid
  leaseId : Option Uuid
  code : String
  summary : Option String
  effective : Date
deriving DecidableEq, Repr

/-- The placement of a car on a rider. -/
structure Placement where
  id : Uuid
  riderId : Uuid
  car : String
  isActive : Bool
deriving DecidableEq, Repr

/-- The rows of the leasing system, each table in the order of insertion. -/
structure LeaseTables where
  customers : List Customer := []
  leases : List Lease := []
  riders : List Rider := []
  amendments : List Amendment := []
  placements : List Placement := []
deriving DecidableEq, Repr

def activeStatus : String := "Active"

/-- A name to show: the name itself, or the code if there is none or an empty one. -/
def shownName (name : Option String) (code : String) : String :=
  match name with
  | some name => if name = "" then code else name
  | none => code

/-- The first of the least elements of a list. -/
def leastBy (le : α → α → Bool) : List α → Option α
  | [] => none
  | a :: rest =>
    match leastBy le rest with
    | some b => some (if le a b then a else b)
    | none => some a

namespace LeaseTables

def customer? (t : LeaseTables) (id : Uuid) : Option Customer := t.customers.find? (·.id == id)

def lease? (t : LeaseTables) (id : Uuid) : Option Lease := t.leases.find? (·.id == id)

def rider? (t : LeaseTables) (id : Uuid) : Option Rider := t.riders.find? (·.id == id)

def amendment? (t : LeaseTables) (id : Uuid) : Option Amendment := t.amendments.find? (·.id == id)

def riderLease? (t : LeaseTables) (a : Amendment) : Option Lease := do
  let rider ← t.rider? (← a.riderId)
  t.lease? rider.leaseId

def ownLease? (t : LeaseTables) (a : Amendment) : Option Lease := a.leaseId.bind t.lease?

/-- The customer of an amendment: that of its rider's lease, else that of its own lease. -/
def amendmentCustomer? (t : LeaseTables) (a : Amendment) : Option Uuid :=
  ((t.riderLease? a).map (·.customerId)).or ((t.ownLease? a).map (·.customerId))

end LeaseTables

/-! ## Rows as scopes -/

def Customer.toScope (c : Customer) : Scope :=
  { level := .customer, id := c.id, name := some c.name, code := some c.code,
    isActive := c.isActive, customerId := some c.id }

def Lease.toScope (l : Lease) : Scope :=
  { level := .masterLease, id := l.id, name := some (shownName l.name l.code), code := some l.code,
    isActive := l.status == activeStatus, parentLevel := some .customer,
    parentId := some l.customerId, customerId := some l.customerId }

/-- A rider as a scope, given the customer of its lease. -/
def Rider.toScope (r : Rider) (customer : Uuid) : Scope :=
  { level := .rider, id := r.id, name := some (shownName r.name r.code), code := some r.code,
    isActive := r.status == activeStatus, parentLevel := some .masterLease,
    parentId := some r.leaseId, customerId := some customer }

/-- What an amendment hangs off: its rider, else its lease. -/
def Amendment.parent? (a : Amendment) : Option (Level × Uuid) :=
  match a.riderId, a.leaseId with
  | some id, _ => some (.rider, id)
  | none, some id => some (.masterLease, id)
  | none, none => none

/-- An amendment as a scope, given its customer; it is active from its effective date on. -/
def Amendment.toScope (a : Amendment) (customer : Option Uuid) (today : Date) : Scope :=
  { level := .amendment, id := a.id, name := some (shownName a.summary a.code),
    code := some a.code, isActive := decide (a.effective ≤ today),
    parentLevel := a.parent?.map (·.1), parentId := a.parent?.map (·.2), customerId := customer }

namespace LeaseTables

def riderScope? (t : LeaseTables) (r : Rider) : Option Scope :=
  (t.lease? r.leaseId).map fun lease => r.toScope lease.customerId

def amendmentScope (t : LeaseTables) (today : Date) (a : Amendment) : Scope :=
  a.toScope (t.amendmentCustomer? a) today

def scope? (t : LeaseTables) (today : Date) (level : Level) (id : Uuid) : Option Scope :=
  match level with
  | .customer => (t.customer? id).map (·.toScope)
  | .masterLease => (t.lease? id).map (·.toScope)
  | .rider => (t.rider? id).bind t.riderScope?
  | .amendment => (t.amendment? id).map (t.amendmentScope today)

/-- Whether a customer is asked for, or any. -/
def wanted (customer : Option Uuid) (id : Uuid) : Bool :=
  match customer with
  | some c => id == c
  | none => true

/-- Whether an amendment belongs to the customer that is asked for, by its rider's lease or by its
own. -/
def wantsAmendment (t : LeaseTables) (customer : Option Uuid) (a : Amendment) : Bool :=
  match customer with
  | some c =>
    (t.riderLease? a).any (·.customerId == c) || (t.ownLease? a).any (·.customerId == c)
  | none => true

/-- All scopes, or those of one customer, level by level. -/
def scopes (t : LeaseTables) (today : Date) (customer : Option Uuid) : List Scope :=
  (t.customers.filter (wanted customer ·.id)).map (·.toScope)
  ++ (t.leases.filter (wanted customer ·.customerId)).map (·.toScope)
  ++ (t.riders.filterMap fun r => do
      -- A rider without its lease has no customer, and is not listed.
      let lease ← t.lease? r.leaseId
      if wanted customer lease.customerId then some (r.toScope lease.customerId) else none)
  ++ (t.amendments.filter (t.wantsAmendment customer)).map (t.amendmentScope today)

/-! ## Cars -/

/-- A placement with the rows it leads to. -/
structure Placed where
  placement : Placement
  rider : Rider
  lease : Lease
  customer : Customer

/-- The rows that a placement leads to, if all of them exist. -/
def placed? (t : LeaseTables) (p : Placement) : Option Placed := do
  let rider ← t.rider? p.riderId
  let lease ← t.lease? rider.leaseId
  let customer ← t.customer? lease.customerId
  some ⟨p, rider, lease, customer⟩

/-- The active placement of a car with the smallest row id. -/
def activePlacement? (t : LeaseTables) (car : String) : Option Placed :=
  leastBy (fun a b => decide (a.placement.id ≤ b.placement.id))
    ((t.placements.filter fun p => p.car == car && p.isActive).filterMap t.placed?)

/-- Whether an amendment goes first: the later one, and of one day the smaller id. -/
def supersedes (a b : Amendment) : Bool :=
  b.effective.ordinal < a.effective.ordinal
    || (a.effective == b.effective && decide (a.id ≤ b.id))

/-- The amendment of a rider that is in force on a day. -/
def amendmentInForce? (t : LeaseTables) (rider : Uuid) (asOf : Date) : Option Amendment :=
  leastBy supersedes
    (t.amendments.filter fun a => a.riderId == some rider && decide (a.effective ≤ asOf))

/-- The path of a car on a day. -/
def carPath? (t : LeaseTables) (car : String) (asOf : Date) : Option Path :=
  (t.activePlacement? car).map fun p =>
    { customer := ⟨some p.customer.id, some p.customer.name⟩
      lease := ⟨some p.lease.id, some (shownName p.lease.name p.lease.code)⟩
      rider := ⟨some p.rider.id, some (shownName p.rider.name p.rider.code)⟩
      amendment := match t.amendmentInForce? p.rider.id asOf with
        | some a => ⟨some a.id, some (shownName a.summary a.code)⟩
        | none => {} }

def directory (t : LeaseTables) (today : Date) : Directory where
  scope? := t.scope? today
  scopes := t.scopes today
  carPath? car asOf := t.carPath? car (asOf.getD today)

end LeaseTables

end CarCare

import CarCare.Samples.Hierarchy

/-!
Sample care instructions, one for each level of the first sample customer. They are declared only
if all four scopes are there; a scope that already has a current instruction is passed over.
-/
namespace CarCare

structure SampleInstruction where
  level : Level
  fields : Members
  sealing : List Members := []
  lining : List Members := []

namespace SampleInstruction

def sections (i : SampleInstruction) : SectionKind → List Members
  | .sealing => i.sealing
  | .lining => i.lining

/-- How many ids an instruction takes: its own and those of its sections. -/
def size (i : SampleInstruction) : Nat := 1 + i.sealing.length + i.lining.length

def addSections (kind : SectionKind) (now : Timestamp) (id : Uuid) :
    IdSupply → List Members → Session → Session.Outcome Unit
  | _, [], s => (.ok (), s)
  | ids, m :: rest, s =>
    match s.addSection kind ⟨ids 0, now⟩ id (.ofMembers kind m) with
    | (.ok _, s) => addSections kind now id (ids.skip 1) rest s
    | (.error e, s) => (.error e, s)

/-- Declares an instruction with its sections; answers false if the scope has one already. -/
def declare (today : Date) (now : Timestamp) (ids : IdSupply) (scope : Uuid)
    (i : SampleInstruction) (s : Session) : Session.Outcome Bool :=
  match s.create today ⟨ids 0, now⟩ i.level scope (.ofMembers i.fields) none with
  -- Where there is an instruction already, nothing is left to do.
  | (.error (.scopeTaken ..), s) | (.error .instructionExists, s) => (.ok false, s)
  | (.error e, s) => (.error e, s)
  | (.ok _, s) =>
    match addSections .sealing now (ids 0) (ids.skip 1) i.sealing s with
    | (.error e, s) => (.error e, s)
    | (.ok _, s) =>
      match addSections .lining now (ids 0) (ids.skip (1 + i.sealing.length)) i.lining s with
      | (.error e, s) => (.error e, s)
      | (.ok _, s) => (.ok true, s)

/-- Declares instructions at their scopes; answers how many were declared. -/
def declareAll (today : Date) (now : Timestamp) (scopeOf : Level → Uuid) :
    IdSupply → List SampleInstruction → Session → Session.Outcome Nat
  | _, [], s => (.ok 0, s)
  | ids, i :: rest, s =>
    match i.declare today now ids (scopeOf i.level) s with
    | (.error e, s) => (.error e, s)
    | (.ok isNew, s) =>
      match declareAll today now scopeOf (ids.skip i.size) rest s with
      | (.error e, s) => (.error e, s)
      | (.ok count, s) => (.ok (isNew.toNat + count), s)

end SampleInstruction

namespace Samples

def instructions : List SampleInstruction :=
  [{ level := .customer
     fields :=
      [("food_grade", .bool true), ("kosher_wash", .bool false),
       ("primary_contact_name", .text "Dana Reyes"),
       ("primary_contact_email", .text "dana.reyes@acme.example"),
       ("nitrogen_applied", .bool true), ("nitrogen_psi", .text "15")]
     sealing :=
      [[("commodity", .text "Sulfuric Acid"), ("gasket_sealing_material", .text "PTFE"),
        ("vsp_ride_tight", .bool true)]] },
   { level := .masterLease
     fields := [("kosher_wash", .bool true)]
     lining :=
      [[("commodity", .text "Corn Syrup"), ("lining_required", .bool true),
        ("lining_type", .text "Epoxy phenolic")]] },
   { level := .rider
     fields :=
      [("dispo_contact_name", .text "Lee Park"),
       ("additional_notes", .text "Release only after wash certificate is on file")]
     sealing :=
      [[("commodity", .text "Sulfuric Acid"), ("gasket_sealing_material", .text "Viton"),
        ("alternate_material", .text "EPDM")]] },
   { level := .amendment
     fields := [("kosher_wipe", .bool true)]
     sealing := [[("commodity", .text "Sulfuric Acid"), ("inherit_from_parent", .bool true)]] }]

/-- The scopes of the sample instructions, if all of them are there: of each level the first row
with the sample's code. -/
def scopes? (t : LeaseTables) : Option (Level → Uuid) := do
  let customer ← t.customers.find? (·.code == "ACME")
  let lease ← t.leases.find? (·.code == "ML-2024-001")
  let rider ← t.riders.find? (·.code == "R-001")
  let amendment ← t.amendments.find? (·.code == "AMD-001")
  some fun
    | .customer => customer.id
    | .masterLease => lease.id
    | .rider => rider.id
    | .amendment => amendment.id

/-- Declares the sample instructions; answers how many were declared. -/
def loadInstructions (today : Date) (now : Timestamp) (ids : IdSupply) (s : Session) :
    Session.Outcome Nat :=
  match scopes? s.working.leases with
  | some scopeOf => SampleInstruction.declareAll today now scopeOf ids instructions s
  | none => (.ok 0, s)

/-- Loads the sample hierarchy and, if asked for, the sample instructions; answers how many rows
and how many instructions were added. -/
def load (withInstructions : Bool) (today : Date) (now : Timestamp) (ids : IdSupply) (s : Session) :
    Session.Outcome (Nat × Nat) :=
  match loadHierarchy today ids s with
  | (.error e, s) => (.error e, s)
  | (.ok rows, s) =>
    if withInstructions then
      match loadInstructions today now (ids.skip rows) s with
      | (.ok count, s) => (.ok (rows, count), s)
      | (.error e, s) => (.error e, s)
    else (.ok (rows, 0), s)

end Samples

end CarCare

import CarCare.Value

/-!
One-line descriptions of rows for logs: the name of a kind of row and a few of its attributes. An
attribute that is not set is shown as such.
-/
namespace CarCare

/-- One attribute in a description: the label it is shown under, the column it is in, and whether
its text stands in quotes. -/
structure DescriptionPart where
  label : String
  column : String
  inQuotes : Bool

/-- The parts of the description of each kind of row. -/
def descriptionParts : List (String × List DescriptionPart) :=
  [("Customer", [⟨"id", "id", false⟩, ⟨"code", "customer_code", true⟩]),
   ("MasterLease", [⟨"id", "id", false⟩, ⟨"lease_id", "lease_id", true⟩]),
   ("LeaseRider", [⟨"id", "id", false⟩, ⟨"rider_id", "rider_id", true⟩]),
   ("LeaseAmendment", [⟨"id", "id", false⟩, ⟨"amendment_id", "amendment_id", true⟩]),
   ("RiderCar", [⟨"car_number", "car_number", true⟩, ⟨"rider_id", "rider_id", false⟩]),
   ("CCMInstruction",
    [⟨"id", "id", false⟩, ⟨"scope_level", "scope_level", false⟩,
     ⟨"scope_name", "scope_name", true⟩, ⟨"is_current", "is_current", false⟩]),
   ("CCMInstructionSealing",
    [⟨"commodity", "commodity", true⟩, ⟨"inherit", "inherit_from_parent", false⟩]),
   ("CCMInstructionLining",
    [⟨"commodity", "commodity", true⟩, ⟨"inherit", "inherit_from_parent", false⟩])]

def DescriptionPart.text (attributes : List (String × Value)) (p : DescriptionPart) : String :=
  let shown := ((attributes.lookup p.column).getD .null).display
  p.label ++ "=" ++ if p.inQuotes then "'" ++ shown ++ "'" else shown

/-- The description of a row of a kind with some of its attributes. -/
def describe (kind : String) (attributes : List (String × Value)) : String :=
  let parts := (descriptionParts.lookup kind).getD []
  "<" ++ kind ++ "(" ++ ", ".intercalate (parts.map (·.text attributes)) ++ ")>"

end CarCare

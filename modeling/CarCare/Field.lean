import CarCare.Value

/-!
The fields of a care instruction that a scope may declare and that deeper scopes inherit. A scope
declares a field by holding a value for it; false and the empty text are values.
-/
namespace CarCare

/-- What a field or a section column holds: a flag, or a text of limited or any length. -/
inductive Kind where
  | flag
  | text (limit : Option Nat)
deriving DecidableEq, Repr

/-- The value of a field or of a section column. -/
inductive FieldValue where
  | flag (value : Bool)
  | text (value : String)
deriving DecidableEq, Repr

namespace FieldValue

def toValue : FieldValue → Value
  | flag b => .bool b
  | text s => .text s

def ofValue? : Value → Option FieldValue
  | .scalar (.bool b) => some (.flag b)
  | .scalar (.text s) => some (.text s)
  | _ => none

end FieldValue

/-- The fields that a scope may declare, in the order of the form. -/
inductive Field where
  | foodGrade
  | mineralWipe
  | kosherWash
  | kosherWipe
  | shopOilMaterial
  | oilProviderContact
  | rinseWaterTestProcedure
  | primaryContactName
  | primaryContactEmail
  | primaryContactPhone
  | estimateApprovalContactName
  | estimateApprovalContactEmail
  | estimateApprovalContactPhone
  | dispoContactName
  | dispoContactEmail
  | dispoContactPhone
  | decalRequirements
  | nitrogenApplied
  | nitrogenPsi
  | outboundDispoContactEmail
  | outboundDispoContactPhone
  | documentationRequiredPriorToRelease
  | specialFittingsVendorRequirements
  | additionalNotes
deriving DecidableEq, Repr

namespace Field

def all : List Field :=
  [.foodGrade, .mineralWipe, .kosherWash, .kosherWipe, .shopOilMaterial,
   .oilProviderContact, .rinseWaterTestProcedure,
   .primaryContactName, .primaryContactEmail, .primaryContactPhone,
   .estimateApprovalContactName, .estimateApprovalContactEmail, .estimateApprovalContactPhone,
   .dispoContactName, .dispoContactEmail, .dispoContactPhone,
   .decalRequirements, .nitrogenApplied, .nitrogenPsi,
   .outboundDispoContactEmail, .outboundDispoContactPhone,
   .documentationRequiredPriorToRelease,
   .specialFittingsVendorRequirements, .additionalNotes]

def name : Field → String
  | foodGrade => "food_grade"
  | mineralWipe => "mineral_wipe"
  | kosherWash => "kosher_wash"
  | kosherWipe => "kosher_wipe"
  | shopOilMaterial => "shop_oil_material"
  | oilProviderContact => "oil_provider_contact"
  | rinseWaterTestProcedure => "rinse_water_test_procedure"
  | primaryContactName => "primary_contact_name"
  | primaryContactEmail => "primary_contact_email"
  | primaryContactPhone => "primary_contact_phone"
  | estimateApprovalContactName => "estimate_approval_contact_name"
  | estimateApprovalContactEmail => "estimate_approval_contact_email"
  | estimateApprovalContactPhone => "estimate_approval_contact_phone"
  | dispoContactName => "dispo_contact_name"
  | dispoContactEmail => "dispo_contact_email"
  | dispoContactPhone => "dispo_contact_phone"
  | decalRequirements => "decal_requirements"
  | nitrogenApplied => "nitrogen_applied"
  | nitrogenPsi => "nitrogen_psi"
  | outboundDispoContactEmail => "outbound_dispo_contact_email"
  | outboundDispoContactPhone => "outbound_dispo_contact_phone"
  | documentationRequiredPriorToRelease => "documentation_required_prior_to_release"
  | specialFittingsVendorRequirements => "special_fittings_vendor_requirements"
  | additionalNotes => "additional_notes"

/-- What a field holds: names and addresses have at most 200 characters, telephone numbers and
pressures 50, and longer notes any number. -/
def kind : Field → Kind
  | foodGrade | mineralWipe | kosherWash | kosherWipe | shopOilMaterial | nitrogenApplied => .flag
  | oilProviderContact | rinseWaterTestProcedure | decalRequirements
  | documentationRequiredPriorToRelease | specialFittingsVendorRequirements
  | additionalNotes => .text none
  | primaryContactName | primaryContactEmail | estimateApprovalContactName
  | estimateApprovalContactEmail | dispoContactName | dispoContactEmail
  | outboundDispoContactEmail => .text (some 200)
  | primaryContactPhone | estimateApprovalContactPhone | dispoContactPhone | nitrogenPsi
  | outboundDispoContactPhone => .text (some 50)

def ofName? (name : String) : Option Field := all.find? (·.name == name)

theorem mem_all (f : Field) : f ∈ all := by cases f <;> decide

end Field

/-- The fields that a scope declares, with their values. -/
abbrev Fields := Field → Option FieldValue

namespace Fields

def none : Fields := fun _ => Option.none

def declared (fields : Fields) : List (Field × FieldValue) :=
  Field.all.filterMap fun f => (fields f).map (f, ·)

/-- The fields after a change: what the change declares is set, all else stays. -/
def overlay (change fields : Fields) : Fields := fun f => (change f).or (fields f)

/-- Whether two sets of fields declare the same. -/
def same (a b : Fields) : Bool := Field.all.all fun f => a f == b f

def members (fields : Fields) : List (String × Value) :=
  Field.all.map fun f => (f.name, .ofOption FieldValue.toValue (fields f))

/-- The fields that members name. The values are of the kinds of the fields, as a schema leaves them
or as the columns keep them. Members with other names are passed over, and an empty value declares
nothing. -/
def ofMembers (members : List (String × Value)) : Fields := fun f =>
  (members.lookup f.name).bind FieldValue.ofValue?

theorem same_iff {a b : Fields} : same a b = true ↔ a = b := by
  simp only [same, List.all_eq_true, beq_iff_eq]
  exact ⟨fun h => funext fun f => h f (Field.mem_all f), fun h _ _ => h ▸ rfl⟩

end Fields

end CarCare

import CarCare.Field
import CarCare.Uuid

/-!
Commodity sections of a care instruction. A scope can hold one sealing and one lining section for
each commodity; a section marked to inherit is a placeholder that declares nothing.
-/
namespace CarCare

/-- The two kinds of sections. -/
inductive SectionKind where
  | sealing
  | lining
deriving DecidableEq, Repr

/-- The columns that describe a sealing or a lining. -/
inductive Detail where
  | gasketSealingMaterial
  | alternateMaterial
  | preferredGasketVendor
  | alternateVendor
  | vspRideTight
  | sealingRequirements
  | liningRequired
  | liningInspectionInterval
  | liningType
  | liningPlanOnFile
  | liningRequirements
deriving DecidableEq, Repr

namespace Detail

def name : Detail → String
  | gasketSealingMaterial => "gasket_sealing_material"
  | alternateMaterial => "alternate_material"
  | preferredGasketVendor => "preferred_gasket_vendor"
  | alternateVendor => "alternate_vendor"
  | vspRideTight => "vsp_ride_tight"
  | sealingRequirements => "sealing_requirements"
  | liningRequired => "lining_required"
  | liningInspectionInterval => "lining_inspection_interval"
  | liningType => "lining_type"
  | liningPlanOnFile => "lining_plan_on_file"
  | liningRequirements => "lining_requirements"

def kind : Detail → Kind
  | vspRideTight | liningRequired | liningPlanOnFile => .flag
  | sealingRequirements | liningRequirements => .text none
  | liningInspectionInterval => .text (some 100)
  | gasketSealingMaterial | alternateMaterial | preferredGasketVendor | alternateVendor
  | liningType => .text (some 200)

end Detail

namespace SectionKind

def all : List SectionKind := [.sealing, .lining]

def collection : SectionKind → String
  | sealing => "sealing_sections"
  | lining => "lining_sections"

def table : SectionKind → String
  | sealing => "ccm_instruction_sealing"
  | lining => "ccm_instruction_lining"

/-- The columns that describe a section of a kind, in the order of the form. -/
def details : SectionKind → List Detail
  | sealing =>
    [.gasketSealingMaterial, .alternateMaterial, .preferredGasketVendor, .alternateVendor,
     .vspRideTight, .sealingRequirements]
  | lining =>
    [.liningRequired, .liningInspectionInterval, .liningType, .liningPlanOnFile,
     .liningRequirements]

end SectionKind

/-- A section as it is read. One that was never stored may lack an id, an owner, the placeholder
mark or a place in the display order. -/
structure Section where
  id : Option Uuid
  owner : Option Uuid
  commodity : String
  details : Detail → Option FieldValue
  inherits : Option Bool
  sortOrder : Option Int

namespace Section

/-- A placeholder declares nothing for its commodity. -/
def isPlaceholder (s : Section) : Bool := s.inherits.getD false

/-- The place in the display order; without one, 0. -/
def position (s : Section) : Int := s.sortOrder.getD 0

def columns (kind : SectionKind) (s : Section) : List (String × Value) :=
  ("commodity", .text s.commodity)
    :: kind.details.map (fun d => (d.name, .ofOption FieldValue.toValue (s.details d)))
    ++ [("inherit_from_parent", .ofOption .bool s.inherits),
        ("sort_order", .ofOption .int s.sortOrder)]

def toValue (kind : SectionKind) (s : Section) : Value :=
  .object <|
    [("id", .ofOption (.text ·.text) s.id),
     ("ccm_instruction_id", .ofOption (.text ·.text) s.owner),
     ("commodity", .text s.commodity)]
    ++ kind.details.map (fun d => (d.name, .ofOption FieldValue.toValue (s.details d)))
    ++ [("inherit_from_parent", .ofOption .bool s.inherits),
        ("sort_order", .ofOption .int s.sortOrder)]

/-- The order in which sections take part in resolution: by place, then by commodity. -/
def comesBefore (a b : Section) : Bool :=
  a.position < b.position || (a.position == b.position && a.commodity ≤ b.commodity)

/-- Sections in that order; equal ones stay as they were listed. -/
def ordered (sections : List Section) : List Section := sections.mergeSort comesBefore

end Section

end CarCare

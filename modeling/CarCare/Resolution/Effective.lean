import CarCare.Hierarchy.Directory
import CarCare.Resolution.Reader

/-!
The effective instruction of a path: the records declared along it, merged from the customer down.
A declared field replaces what more general levels declare and keeps the level it came from;
commodity sections merge alike, each as a whole, and placeholders leave everything in place.
-/
namespace CarCare

/-- A value and the level that supplied it. -/
structure Sourced (α : Type) where
  value : α
  source : Level
deriving DecidableEq

/-- What one level of a path contributes. -/
structure ChainItem where
  level : Level
  id : Option Uuid
  name : Option String
  defined : List Field
deriving DecidableEq, Repr

/-- The winning section of each commodity. -/
abbrev SectionMap := List (String × Sourced Section)

namespace SectionMap

/-- Enters a section for a commodity in place of any earlier one. -/
def put (commodity : String) (entry : Sourced Section) : SectionMap → SectionMap
  | [] => [(commodity, entry)]
  | (c, e) :: rest =>
    if c = commodity then (commodity, entry) :: rest else (c, e) :: put commodity entry rest

def get? (m : SectionMap) (commodity : String) : Option (Sourced Section) := m.lookup commodity

/-- Enters the sections that a level declares, in their order; placeholders declare nothing. -/
def layer (level : Level) (sections : List Section) (m : SectionMap) : SectionMap :=
  ((Section.ordered sections).filter (!·.isPlaceholder)).foldl
    (fun m s => m.put s.commodity ⟨s, level⟩) m

def toValue (kind : SectionKind) (m : SectionMap) : Value :=
  .object <| (m.mergeSort fun a b => decide (a.1 ≤ b.1)).map fun (commodity, entry) =>
    (commodity, .object [("data", entry.value.toValue kind), ("source", .text entry.source.name)])

theorem get?_put_self (m : SectionMap) (c : String) (e : Sourced Section) :
    (m.put c e).get? c = some e := by
  induction m with
  | nil => simp [put, get?]
  | cons head rest ih =>
    obtain ⟨c', e'⟩ := head
    by_cases h : c' = c
    · simp [put, get?, h]
    · have h' : (c == c') = false := by simpa using Ne.symm h
      simpa [put, get?, List.lookup_cons, h, h'] using ih

theorem get?_put_of_ne {c d : String} (h : d ≠ c) (m : SectionMap) (e : Sourced Section) :
    (m.put c e).get? d = m.get? d := by
  have hd : (d == c) = false := by simpa using h
  induction m with
  | nil => simp [put, get?, List.lookup_cons, hd]
  | cons head rest ih =>
    obtain ⟨c', e'⟩ := head
    by_cases hc : c' = c
    · simp [put, get?, List.lookup_cons, hc, hd]
    · simp only [get?] at ih
      simp [put, get?, List.lookup_cons, hc, ih]

end SectionMap

/-- The merged instruction of a path. -/
structure Effective where
  fields : Field → Option (Sourced FieldValue)
  chain : List ChainItem
  sealing : SectionMap
  lining : SectionMap
  path : Path

/-- A step of a path with the record found for it. -/
structure Layer where
  level : Level
  step : Step
  record : Option Instruction

namespace Layer

def fields (l : Layer) : Fields := (l.record.map (·.fields)).getD Fields.none

def sections (l : Layer) (kind : SectionKind) : List Section :=
  (l.record.map (·.sections kind)).getD []

/-- The chain item of a level. Its name is that of the path; only a level without a name there
shows the name that its record has kept. -/
def chainItem (l : Layer) : ChainItem where
  level := l.level
  id := l.step.id
  name := l.step.name.or (l.record.bind (·.scopeName))
  defined := l.fields.declared.map (·.1)

end Layer

namespace Effective

/-- Enters the fields that a level declares over those of more general levels. -/
def overlayFields (merged : Field → Option (Sourced FieldValue)) (l : Layer) :
    Field → Option (Sourced FieldValue) :=
  fun f => ((l.fields f).map (⟨·, l.level⟩)).or (merged f)

/-- The winning sections of a kind. -/
def mergeSections (kind : SectionKind) (layers : List Layer) : SectionMap :=
  layers.foldl (fun m l => m.layer l.level (l.sections kind)) []

/-- Merges layers from the most general to the most specific. -/
def merge (path : Path) (layers : List Layer) : Effective where
  fields := layers.foldl overlayFields fun _ => none
  chain := layers.map (·.chainItem)
  sealing := mergeSections .sealing layers
  lining := mergeSections .lining layers
  path := path

def sections (e : Effective) : SectionKind → SectionMap
  | .sealing => e.sealing
  | .lining => e.lining

def source? (e : Effective) (f : Field) : Option Level := (e.fields f).map (·.source)

/-- The level that supplied the field of a name; other names have none. -/
def sourceOf? (e : Effective) (name : String) : Option Level :=
  (Field.ofName? name).bind e.source?

def fieldMembers (e : Effective) (shown : Sourced FieldValue → Value) : Value :=
  .object (Field.all.filterMap fun f => (e.fields f).map fun v => (f.name, shown v))

def toValue (e : Effective) : Value :=
  let item (i : ChainItem) : Value := .object
    [("level", .text i.level.name),
     ("id", .ofOption (.text ·.text) i.id),
     ("name", .ofOption .text i.name),
     ("fields_defined", .list (i.defined.map (.text ·.name)))]
  .object
    [("effective", e.fieldMembers fun v => v.value.toValue),
     ("field_sources", e.fieldMembers fun v => .text v.source.name),
     ("inheritance_chain", .list (e.chain.map item)),
     ("sealing_by_commodity", e.sealing.toValue .sealing),
     ("lining_by_commodity", e.lining.toValue .lining),
     ("hierarchy", e.path.toValue)]

end Effective

/-! ## Resolution -/

section
variable {m : Type → Type} [Monad m]

/-- Looks up the record of a step; an absent step is not asked for. -/
def readLayer (read : Reader m) (level : Level) (step : Step) : m Layer :=
  match step.id with
  | some id => do
    let record ← read level id
    pure ⟨level, step, record⟩
  | none => pure ⟨level, step, none⟩

/-- Resolves a path, which has to reach a customer. -/
def resolve (read : Reader m) (path : Path) : m (Except Error Effective) :=
  match path.customer.id with
  | none => pure (.error .pathWithoutCustomer)
  | some _ => do
    -- Steps are asked for in this order, and absent ones not at all.
    let layers ← path.steps.mapM fun (level, step) => readLayer read level step
    pure (.ok (.merge path layers))

/-- Resolves the placement of a car on a day, or today. -/
def resolveForCar (d : Directory) (read : Reader m) (car : String) (asOf : Option Date) :
    m (Except Error Effective) :=
  match d.carPath? car asOf with
  | some path => resolve read path
  | none => pure (.error (.carNotPlaced car))

def resolveForScope (d : Directory) (read : Reader m) (level : Level) (id : Uuid) :
    m (Except Error Effective) :=
  match d.pathForScope level id with
  | .ok path => resolve read path
  | .error e => pure (.error e)

end

end CarCare

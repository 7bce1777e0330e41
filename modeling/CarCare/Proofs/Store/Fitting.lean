import CarCare.Proofs.Schema.RecordPayload
import CarCare.Proofs.Store.Faults
import CarCare.Proofs.Store.Reached

/-!
Rows that fit: what a stored row holds is what the rules of its columns keep, those of new sections
included, which are stricter than those of changes.

What is proved:
  1. `Fields.Accepted.fit` and `SectionChange.Accepted.fits`: what an accepted payload sets fits,
     whichever of the schemas has accepted it.
  2. `SectionChange.Fits.apply`: a change that fits leaves a section that fits.
  3. `Store.Reached.fits`: hence every row of every store that writes lead to fits.
  4. `InstructionRow.Fits.keeps`: what is read of a row that fits passes the schemas of input
     unchanged, and `SectionRow.Fits.create`: what is read of a section makes the same section again.
-/
namespace CarCare

open Schema (Rule)

/-! ## What fits -/

/-- The rule of a commodity, which may not be empty. -/
abbrev Schema.commodityRule : Rule := .text true (some 200)

def Fields.Fit (fields : Fields) : Prop :=
  ∀ f v, fields f = some v → (Rule.ofKind f.kind).Keeps v.toValue

/-- A change whose values are kept by the rules of the columns that a section of the kind has. -/
structure SectionChange.Fits (kind : SectionKind) (c : SectionChange) : Prop where
  commodity : ∀ s, c.named? = some s → Schema.commodityRule.Keeps (.text s)
  details : ∀ d v, c.details d = some (some v) →
    d ∈ kind.details ∧ (Rule.ofKind d.kind).Keeps v.toValue

/-- A stored section whose values are kept by the rules of the columns that its kind has, at a place
that the column can hold. -/
structure SectionRow.Fits (kind : SectionKind) (x : SectionRow) : Prop where
  commodity : Schema.commodityRule.Keeps (.text x.commodity)
  details : ∀ d v, x.details d = some v → d ∈ kind.details ∧ (Rule.ofKind d.kind).Keeps v.toValue
  place : Store.storable x.sortOrder

/-- A row whose fields and sections fit. -/
structure InstructionRow.Fits (r : InstructionRow) : Prop where
  fields : r.fields.Fit
  sections : ∀ kind, ∀ x ∈ r.sections kind, x.Fits kind

/-! ## What is accepted -/

theorem FieldValue.ofValue?_eq_some {value : Value} {v : FieldValue}
    (h : ofValue? value = some v) : value = v.toValue := by
  unfold ofValue? at h
  split at h
  · rw [← Option.some.inj h]
    rfl
  · rw [← Option.some.inj h]
    rfl
  · cases h

theorem Service.accept_fit {schema : Schema} {payload : Value} {members : Members}
    (accepted : accept schema payload = .ok members) (names : (schema.map (·.name)).Nodup)
    {name : String} {kind : Kind} (known : { name, rule := Rule.ofKind kind } ∈ schema)
    {v : FieldValue} (held : (members.lookup name).bind FieldValue.ofValue? = some v) :
    (Rule.ofKind kind).Keeps v.toValue := by
  obtain ⟨value, hlookup, hvalue⟩ := Option.bind_eq_some_iff.mp held
  obtain rfl := FieldValue.ofValue?_eq_some hvalue
  have hfull : v.toValue ≠ .null := by cases v <;> nofun
  exact (SchemaKey.keeps_of_ne_null hfull).mp (accept_kept accepted names known hlookup)

theorem Fields.Accepted.fit {fields : Fields} (h : fields.Accepted) : fields.Fit := by
  obtain ⟨payload, members, haccepted, rfl⟩ := h
  intro f v hv
  exact Service.accept_fit haccepted Schema.fields_names (List.mem_map_of_mem f.mem_all) hv

theorem SectionChange.Accepted.fits {kind : SectionKind} {existing : Bool} {c : SectionChange}
    (h : c.Accepted kind existing) : c.Fits kind := by
  obtain ⟨payload, members, haccepted, rfl⟩ := h
  have hnames := Service.section_names kind existing
  constructor
  · intro s hs
    obtain ⟨value, hlookup, hvalue⟩ := Option.map_eq_some_iff.mp (Option.join_eq_some_iff.mp hs)
    obtain rfl : value = .text s := by
      split at hvalue
      · rw [Option.some.inj hvalue]
      · cases hvalue
    have hfull : Value.text s ≠ .null := nofun
    exact (SchemaKey.keeps_of_ne_null hfull).mp
      (Service.accept_kept haccepted hnames (Schema.commodity_mem kind existing) hlookup)
  · intro d v hv
    by_cases hd : kind.details.contains d
    · have hdetail := (if_pos hd).symm.trans hv
      obtain ⟨value, hlookup, hvalue⟩ := Option.map_eq_some_iff.mp hdetail
      have hmem : d ∈ kind.details := List.contains_iff_mem.mp hd
      have hkey := Schema.detail_mem hmem existing
      exact ⟨hmem, Service.accept_fit haccepted hnames hkey (by rw [hlookup]; exact hvalue)⟩
    · cases (if_neg hd).symm.trans hv

/-! ## Rows -/

/-- A change that fits makes a section that fits of one whose details fit. The commodity and the
place of that one only matter where the change sets none. -/
theorem SectionChange.Fits.apply {kind : SectionKind} {c : SectionChange} (h : c.Fits kind)
    {old new : SectionRow} (applied : c.apply kind old = .ok new)
    (details : ∀ d v, old.details d = some v →
      d ∈ kind.details ∧ (Rule.ofKind d.kind).Keeps v.toValue)
    (commodity : c.named? = none → Schema.commodityRule.Keeps (.text old.commodity))
    (place : c.sortOrder = none → Store.storable old.sortOrder) : new.Fits kind := by
  obtain ⟨hfault, rfl⟩ := apply_eq_ok.mp applied
  obtain ⟨hplace, _⟩ := fault?_eq_none.mp hfault
  constructor
  case commodity =>
    show Schema.commodityRule.Keeps (.text (c.named?.getD old.commodity))
    cases hnamed : c.named? with
    | none => exact commodity hnamed
    | some s => exact h.commodity s hnamed
  case details =>
    intro d v hv
    change (c.details d).getD (old.details d) = some v at hv
    cases hset : c.details d with
    | none =>
      rw [hset] at hv
      exact details d v hv
    | some set =>
      rw [hset] at hv
      exact h.details d v (hset.trans (congrArg some hv))
  case place =>
    show Store.storable (c.sortOrder.getD old.sortOrder)
    unfold overflows at hplace
    cases hset : c.sortOrder with
    | none => exact place hset
    | some n => simpa [hset] using hplace

/-- A new section fits: it has a commodity, as there would be none without. -/
theorem SectionChange.Fits.create {kind : SectionKind} {c : SectionChange} (h : c.Fits kind)
    {stamp : Stamp} {new : SectionRow} (made : c.create kind stamp = .ok new) : new.Fits kind := by
  have hnamed : c.named? ≠ none := by
    obtain ⟨hfault, _⟩ := apply_eq_ok.mp made
    exact fun hnone => (fault?_eq_none.mp hfault).2 (congrArg some hnone)
  have hnew : Fits kind { c with commodity := some c.named? } := ⟨h.commodity, h.details⟩
  refine hnew.apply made (fun d v hv => by cases hv) (fun hnone => absurd hnone hnamed) fun _ => ?_
  show Store.storable 0
  decide

theorem InstructionRow.Fits.withSections {r : InstructionRow} (h : r.Fits) (kind : SectionKind)
    {l : List SectionRow} (sections : ∀ x ∈ l, x.Fits kind) : (r.withSections kind l).Fits where
  fields := by
    rw [r.withSections_fields]
    exact h.fields
  sections j := by
    by_cases hj : j = kind
    · subst hj
      rwa [r.sections_withSections_self]
    · rw [r.sections_withSections_of_ne hj]
      exact h.sections j

namespace Store
variable {s s' : Store} {t : LeaseTables} {row new : InstructionRow}

theorem Revision.fits (h : s.Revision row new) (hrow : row.Fits) : new.Fits := by
  cases h with
  | overlaid now change accepted =>
    obtain ⟨age, heq⟩ := Session.overlaid_eq now change row
    rw [heq]
    refine ⟨fun f v hv => ?_, fun kind x hx => hrow.sections kind x (by cases kind <;> exact hx)⟩
    rcases Option.or_eq_some_iff.mp hv with hset | ⟨_, hkept⟩
    · exact accepted.fit f v hset
    · exact hrow.fields f v hkept
  | retired now =>
    exact ⟨hrow.fields, fun kind x hx => hrow.sections kind x (by cases kind <;> exact hx)⟩
  | sectionAdded kind stamp change x accepted made legal =>
    refine hrow.withSections kind fun y hy => ?_
    rcases List.mem_append.mp hy with hold | hnew
    · exact hrow.sections kind y hold
    · rw [List.mem_singleton.mp hnew]
      exact accepted.fits.create made
  | sectionChanged kind change old x accepted found free applied =>
    have hold := hrow.sections kind old (section?_eq_some found).2.1
    refine hrow.withSections kind fun y hy => ?_
    obtain ⟨z, hz, rfl⟩ := List.mem_map.mp hy
    by_cases hid : z.id = old.id
    · rw [if_pos hid]
      exact accepted.fits.apply applied hold.details (fun _ => hold.commodity) fun _ => hold.place
    · rw [if_neg hid]
      exact hrow.sections kind z hz
  | sectionRemoved kind old found =>
    exact hrow.withSections kind fun y hy => hrow.sections kind y (List.mem_filter.mp hy).1

theorem Move.fits {aim : Option Aim} (move : s.Move t aim s') (h : ∀ r ∈ s.rows, r.Fits) :
    ∀ r ∈ s'.rows, r.Fits := by
  have hrevised : ∀ {row new : InstructionRow}, s.current? row.id = some row →
      s.Revision row new → ∀ r ∈ (s.replace new).rows, r.Fits := by
    intro row new found revision r hr
    rcases mem_replace hr with rfl | ⟨hold, _⟩
    · exact revision.fits (h row (row?_eq_some (current?_eq_some.mp found).1).1)
    · exact h r hold
  cases move with
  | stay => exact h
  | declare today stamp level scope info fields actor known free accepted legal =>
    intro r hr
    rcases List.mem_append.mp hr with hold | hnew
    · exact h r hold
    · rw [List.mem_singleton.mp hnew]
      refine ⟨accepted.fit, fun kind x hx => ?_⟩
      rw [Session.newRow_sections] at hx
      cases hx
  | revise row new found revision _ => exact hrevised found revision
  | retire row now found => exact hrevised found (.retired now)

theorem Reached.fits (h : s.Reached) : ∀ r ∈ s.rows, r.Fits :=
  h.invariant (fun _ hr => absurd hr List.not_mem_nil) fun ih _ move => move.fits ih

end Store

/-! ## What is read passes the schemas -/

/-- A payload that a schema accepts and that comes back unchanged, with a value for every key. -/
def Schema.Keeps (schema : Schema) (payload : Value) : Prop :=
  ∃ given, payload = .object given ∧ given.map (·.1) = schema.map (·.name) ∧
    Service.accept schema payload = .ok given

theorem SchemaKey.keeps_columns {α : Type} (columns : List α) (name : α → String) (kind : α → Kind)
    (value : α → Option FieldValue)
    (fit : ∀ a v, value a = some v → (Rule.ofKind (kind a)).Keeps v.toValue) :
    List.Forall₂ KeepsMember (columns.map fun a => { name := name a, rule := .ofKind (kind a) })
      (columns.map fun a => (name a, .ofOption FieldValue.toValue (value a))) := by
  rw [List.forall₂_map_left_iff, List.forall₂_map_right_iff, List.forall₂_same]
  intro a _
  refine ⟨rfl, ?_⟩
  cases hv : value a with
  | none => exact keeps_null rfl
  | some v => exact keeps_of_rule (fit a v hv)

theorem Fields.Fit.accept {fields : Fields} (h : fields.Fit) :
    Service.accept .fields (.object fields.members) = .ok fields.members :=
  Service.accept_of_keeps Schema.fields_names
    (SchemaKey.keeps_columns Field.all Field.name Field.kind fields h)

theorem SectionRow.Fits.accept {kind : SectionKind} {x : SectionRow} (h : x.Fits kind)
    (owner : Uuid) : Service.accept (.ofSection kind false)
      (.object ((x.toSection owner).columns kind)) = .ok ((x.toSection owner).columns kind) := by
  apply Service.accept_of_keeps (Service.section_names kind false)
  have hdetails := SchemaKey.keeps_columns kind.details Detail.name Detail.kind x.details
    fun d v hv => (h.details d v hv).2
  refine List.rel_append (.cons ⟨rfl, SchemaKey.keeps_of_rule h.commodity⟩ hdetails) ?_
  exact .cons ⟨rfl, rfl⟩ (.cons ⟨rfl, rfl⟩ .nil)

/-- What is read of a section that fits makes the same section again, under another stamp. -/
theorem SectionRow.Fits.create {kind : SectionKind} {x : SectionRow} (h : x.Fits kind)
    (owner : Uuid) (stamp : Stamp) :
    (SectionChange.ofMembers kind ((x.toSection owner).columns kind)).create kind stamp =
      .ok { x with id := stamp.id, createdAt := stamp.now } := by
  rw [SectionChange.ofMembers_columns]
  refine SectionChange.apply_eq_ok.mpr ⟨SectionChange.fault?_eq_none.mpr ⟨?_, nofun⟩, ?_⟩
  · show (!Store.storable x.sortOrder) = false
    rw [h.place]
    rfl
  · have hdetails : x.details = fun d =>
        (if kind.details.contains d then some (x.details d) else none).getD none := by
      funext d
      by_cases hd : kind.details.contains d
      · rw [if_pos hd]
        rfl
      · rw [if_neg hd]
        cases hv : x.details d with
        | none => rfl
        | some v => exact absurd (List.contains_iff_mem.mpr (h.details d v hv).1) hd
    exact congrArg (fun details => ({ x with id := stamp.id, createdAt := stamp.now, details } :
      SectionRow)) hdetails

/-- What is read of a row that fits passes the schemas of input unchanged: its fields, and the
columns of each section. -/
theorem InstructionRow.Fits.keeps {r : InstructionRow} (h : r.Fits) :
    Schema.fields.Keeps ((r.read.toValue true).cut .fields) ∧
    ∀ kind, ∀ x ∈ r.read.sections kind,
      (Schema.ofSection kind false).Keeps ((x.toValue kind).cut (.ofSection kind false)) := by
  constructor
  · rw [Instruction.cut_toValue]
    exact ⟨_, rfl, r.fields.members_names, h.fields.accept⟩
  · intro kind x hx
    rw [r.read_sections] at hx
    obtain ⟨y, hy, rfl⟩ := List.mem_map.mp hx
    rw [Section.cut_toValue]
    exact ⟨_, rfl, Section.columns_names kind _ false,
      (h.sections kind y (List.mem_mergeSort.mp hy)).accept r.id⟩

end CarCare

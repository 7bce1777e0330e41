import CarCare.Instruction
import CarCare.Proofs.Schema.FixedPoints

/-!
Payloads that are taken from what is read: the part of a record, or of one of its sections, that an
input schema has keys for.

What is proved:
  1. `Instruction.cut_toValue` and `Section.cut_toValue`: these parts are the fields of a record,
     and the columns of a section.
  2. `Fields.ofMembers_members` and `SectionChange.ofMembers_columns`: what they set is what they
     were taken from.
-/
namespace CarCare

/-! ## Parts of mappings -/

/-- The part of a mapping that a schema has keys for. -/
def Value.cut (schema : Schema) : Value → Value
  | .map entries => .map <| entries.filter fun
    | (.text key, _) => schema.hasKey key
    | _ => false
  | value => value

namespace Schema
variable {schema : Schema}

theorem cut_object (schema : Schema) (members : Members) :
    (Value.object members).cut schema = .object (members.filter fun m => schema.hasKey m.1) := by
  rw [Value.object, Value.object, Value.cut, List.filter_map]
  rfl

/-- The keys of a schema stand between members that it does not know. -/
theorem cut_infix (before : Members) {own after : Members}
    (names : own.map (·.1) = schema.map (·.name))
    (hbefore : ∀ name ∈ before.map (·.1), schema.hasKey name = false)
    (hafter : ∀ name ∈ after.map (·.1), schema.hasKey name = false) :
    (Value.object (before ++ own ++ after)).cut schema = .object own := by
  have hknown : own.filter (fun m => schema.hasKey m.1) = own := by
    refine List.filter_eq_self.mpr fun m hm => hasKey_iff.mpr ?_
    rw [← names]
    exact List.mem_map_of_mem hm
  have hunknown : ∀ members : Members, (∀ name ∈ members.map (·.1), schema.hasKey name = false) →
      members.filter (fun m => schema.hasKey m.1) = [] := fun members h =>
    List.filter_eq_nil_iff.mpr fun m hm => Bool.eq_false_iff.mp (h m.1 (List.mem_map_of_mem hm))
  rw [cut_object, List.filter_append, List.filter_append, hunknown _ hbefore, hknown,
    hunknown _ hafter, List.nil_append, List.append_nil]

end Schema

/-! ## Fields -/

theorem Fields.members_names (fields : Fields) :
    fields.members.map (·.1) = Schema.fields.map (·.name) := rfl

theorem Instruction.cut_toValue (i : Instruction) (withSections : Bool) :
    (i.toValue withSections).cut .fields = .object i.fields.members := by
  rw [toValue, members, List.append_assoc]
  refine Schema.cut_infix _ i.fields.members_names ?_ ?_
  · show ∀ name ∈ ["id", "scope_level", "scope_id", "scope_name"] ++ Level.all.map (·.column), _
    decide +kernel
  · cases withSections with
    | false =>
      show ∀ name ∈ ["version", "is_current", "supersedes_id", "created_by_id", "created_at",
        "updated_at"], _
      decide +kernel
    | true =>
      show ∀ name ∈ ["version", "is_current", "supersedes_id", "created_by_id", "created_at",
        "updated_at"] ++ SectionKind.all.map (·.collection), _
      decide +kernel

theorem Fields.ofMembers_members (fields : Fields) : ofMembers fields.members = fields := by
  funext f
  have hheld : (f.name, Value.ofOption FieldValue.toValue (fields f)) ∈ fields.members :=
    List.mem_map_of_mem f.mem_all
  have hnames : (fields.members.map (·.1)).Nodup := fields.members_names ▸ Schema.fields_names
  rw [ofMembers, (lookup_eq_some_iff_mem hnames).mpr hheld]
  cases fields f with
  | none => rfl
  | some v => exact v.ofValue?_toValue

/-! ## Sections -/

theorem Section.columns_names (kind : SectionKind) (s : Section) (change : Bool) :
    (s.columns kind).map (·.1) = (Schema.ofSection kind change).map (·.name) := by
  cases kind <;> rfl

theorem Section.cut_toValue (kind : SectionKind) (s : Section) :
    (s.toValue kind).cut (.ofSection kind false) = .object (s.columns kind) := by
  rw [toValue]
  refine (congrArg _ (congrArg _ (List.append_nil _).symm)).trans ?_
  refine Schema.cut_infix [_, _] (s.columns_names kind false) ?_ (by simp)
  show ∀ name ∈ ["id", "ccm_instruction_id"], _
  cases kind <;> decide +kernel

/-- What is looked up among the columns of a section. -/
structure Section.Columns (kind : SectionKind) (s : Section) (columns : Members) : Prop where
  commodity : columns.lookup "commodity" = some (.text s.commodity)
  detail : ∀ d ∈ kind.details,
    columns.lookup d.name = some (.ofOption FieldValue.toValue (s.details d))
  inherits : columns.lookup "inherit_from_parent" = some (.ofOption .bool s.inherits)
  place : columns.lookup "sort_order" = some (.ofOption .int s.sortOrder)

theorem Section.columns_lookup (kind : SectionKind) (s : Section) :
    s.Columns kind (s.columns kind) := by
  have hnames : ((s.columns kind).map (·.1)).Nodup :=
    s.columns_names kind false ▸ Service.section_names kind false
  have hlookup : ∀ member ∈ s.columns kind, (s.columns kind).lookup member.1 = some member.2 :=
    fun _ => (lookup_eq_some_iff_mem hnames).mpr
  constructor
  · exact hlookup ("commodity", .text s.commodity) List.mem_cons_self
  · intro d hd
    exact hlookup (d.name, _) (List.mem_append_left _
      (List.mem_cons_of_mem _ (List.mem_map.mpr ⟨d, hd, rfl⟩)))
  · exact hlookup ("inherit_from_parent", .ofOption .bool s.inherits)
      (List.mem_append_right _ List.mem_cons_self)
  · exact hlookup ("sort_order", .ofOption .int s.sortOrder)
      (List.mem_append_right _ (List.mem_cons_of_mem _ List.mem_cons_self))

theorem SectionChange.ofMembers_columns (kind : SectionKind) (s : Section) :
    ofMembers kind (s.columns kind) =
      { commodity := some (some s.commodity)
        details := fun d => if kind.details.contains d then some (s.details d) else none
        inherits := s.inherits
        sortOrder := s.sortOrder } := by
  obtain ⟨hcommodity, hdetail, hinherits, hplace⟩ := s.columns_lookup kind
  rw [ofMembers, SectionChange.mk.injEq]
  refine ⟨?_, funext fun d => ?_, ?_, ?_⟩
  · rw [textMember, hcommodity]
    rfl
  · by_cases hd : kind.details.contains d
    · rw [if_pos hd, if_pos hd, detailMember, hdetail d (List.contains_iff_mem.mp hd)]
      cases s.details d with
      | none => rfl
      | some v => exact congrArg some v.ofValue?_toValue
    · rw [if_neg hd, if_neg hd]
  · rw [flagMember, hinherits]
    cases s.inherits <;> rfl
  · rw [integerMember, hplace]
    cases s.sortOrder <;> rfl

end CarCare

import CarCare.Proofs.Schema.KeyByKey
import CarCare.Store.Change

/-!
Payloads that override one another: the later one goes first, key by key, wherever it says something
that counts. An empty value of the later one counts for some keys and not for others.

What is proved:
  1. `Members.lookup_override`: what is given for a key is given by one of the two.
  2. `Schema.validate_override`: so if both are accepted, their override is accepted, and each key
     is converted to what it has been converted to in that one.
  3. `Service.accept_fields_override` and `Service.accept_change_override`: hence what an override
     sets is what the later payload sets, and else what the earlier one sets.
-/
namespace CarCare

/-! ## Overriding -/

namespace Members
variable {counts : String → Bool} {later earlier : Members} {key : String}

/-- Whether a payload has the say on a key: it gives it a value, or an empty one that counts. -/
def decides (counts : String → Bool) (given : Members) (key : String) : Bool :=
  match given.lookup key with
  | none => false
  | some (.scalar .null) => counts key
  | some _ => true

/-- A payload overridden key by key by a later one, whose empty values count for some keys. -/
def override (counts : String → Bool) (later earlier : Members) : Members :=
  (later.filter fun member => later.decides counts member.1)
    ++ earlier.filter fun member => !later.decides counts member.1

theorem decides_eq_true : later.decides counts key ↔
    ∃ value, later.lookup key = some value ∧ (value = .null → counts key) := by
  unfold decides
  split
  · rename_i hnone
    simp [hnone]
  · rename_i hnull
    simp [hnull]
  · rename_i value hfull hvalue
    have : value ≠ .null := hfull
    simp [hvalue, this]

theorem decides_eq_false : later.decides counts key = false ↔
    later.lookup key = none ∨ later.lookup key = some .null ∧ counts key = false := by
  unfold decides
  split
  · rename_i hnone
    simp [hnone]
  · rename_i hnull
    simp [hnull]
  · rename_i value hfull hvalue
    have : value ≠ .null := hfull
    simp [hvalue, this]

theorem decides_of_null (h : later.lookup key = some .null) :
    later.decides counts key = counts key := by
  rw [decides, h]

theorem lookup_override : (later.override counts earlier).lookup key =
    if later.decides counts key then later.lookup key else earlier.lookup key := by
  rw [override, List.lookup_append, lookup_filter_key,
    lookup_filter_key fun name => !later.decides counts name]
  by_cases hdecides : later.decides counts key
  · obtain ⟨value, hvalue, _⟩ := decides_eq_true.mp hdecides
    simp [hdecides, hvalue]
  · simp [hdecides]

/-- What is read of an override is what is read of the later payload, where something is read of it
exactly if it has the say, and else what is read of the earlier one. -/
theorem read_override {α : Type} (read : Option Value → Option α)
    (same : (read (later.lookup key)).isSome = later.decides counts key) :
    read ((later.override counts earlier).lookup key) =
      (read (later.lookup key)).or (read (earlier.lookup key)) := by
  rw [lookup_override, ← same]
  cases hread : read (later.lookup key) with
  | none => simp
  | some a => simp [hread]

/-- So it is with what is written of the things that are read, if the earlier payload holds one. -/
theorem lookup_override_written {α : Type} (read : Option Value → Option α) (write : α → Value)
    {before : α} (same : (read (later.lookup key)).isSome = later.decides counts key)
    (written : ∀ a, read (later.lookup key) = some a → later.lookup key = some (write a))
    (held : earlier.lookup key = some (write before)) :
    (later.override counts earlier).lookup key =
      some (write ((read (later.lookup key)).getD before)) := by
  rw [lookup_override, ← same]
  cases hread : read (later.lookup key) with
  | none => simpa using held
  | some a => simpa using written a hread

theorem decides_of_counts (h : counts key) (given : Members) :
    given.decides counts key = (given.lookup key).isSome := by
  unfold decides
  split
  · rename_i hnone
    rw [hnone]
    rfl
  · rename_i hnull
    rw [hnull, h]
    rfl
  · rename_i hvalue
    rw [hvalue]
    rfl

/-- Where they do not, it is enough to read something of every full value and nothing else. -/
theorem isSome_read {given : Members} {α : Type} (read : Option Value → Option α)
    (ignored : counts key = false) (left : read none = none) (null : read (some .null) = none)
    (full : ∀ value, given.lookup key = some value → value ≠ .null → (read (some value)).isSome) :
    (read (given.lookup key)).isSome = given.decides counts key := by
  unfold decides
  split
  · rename_i hnone
    rw [hnone, left]
    rfl
  · rename_i hnull
    rw [hnull, null, ignored]
    rfl
  · rename_i value hfull hvalue
    rw [hvalue]
    exact full value hvalue hfull

end Members

/-! ## Acceptance -/

theorem Schema.Rule.refuses_null {rule : Rule} {converted : Value} :
    rule.convert .null ≠ .ok converted := by
  cases rule <;> nofun

/-- No rule makes an empty value of anything: it would have to keep it. -/
theorem Schema.Rule.convert_ne_null {rule : Rule} {value converted : Value}
    (h : rule.convert value = .ok converted) : converted ≠ .null := by
  rintro rfl
  exact refuses_null (convert_idem h)

theorem SchemaKey.convert_eq_ok {key : SchemaKey} {value converted : Value}
    (h : key.convert value = .ok converted) :
    (value = .null ∧ converted = .null) ∨
      (value ≠ .null ∧ converted ≠ .null ∧ key.rule.convert value = .ok converted) := by
  by_cases hnull : value = .null
  · subst hnull
    by_cases hnullable : key.nullable
    · exact .inl ⟨rfl, (Except.ok.inj ((if_pos hnullable).symm.trans h)).symm⟩
    · exact absurd ((if_neg hnullable).symm.trans h) Schema.Rule.refuses_null
  · have hrule := (key.convert_of_ne_null hnull).symm.trans h
    exact .inr ⟨hnull, Schema.Rule.convert_ne_null hrule, hrule⟩

namespace Schema
variable {schema : Schema} {given dump : Members} {name : String}

theorem held_accepted (names : (schema.map (·.name)).Nodup)
    (accepted : schema.validate given = .ok dump) (key : SchemaKey) (known : key ∈ schema)
    {value : Value} (held : dump.lookup key.name = some value) (full : value ≠ .null) :
    ∃ before, key.rule.convert before = .ok value := by
  obtain ⟨hgiven, hleft⟩ := given_accepted names accepted known
  cases hbefore : given.lookup key.name with
  | none =>
    rw [(hleft hbefore).2] at held
    cases held
  | some before =>
    obtain ⟨converted, hconvert, hkept⟩ := hgiven before hbefore
    obtain rfl := Option.some.inj (hkept.symm.trans held)
    rcases key.convert_eq_ok hconvert with ⟨_, hnull⟩ | ⟨_, _, hrule⟩
    · exact absurd hnull full
    · exact ⟨before, hrule⟩

theorem decides_dump (names : (schema.map (·.name)).Nodup)
    (accepted : schema.validate given = .ok dump) (counts : String → Bool) (name : String) :
    dump.decides counts name = given.decides counts name := by
  have hnone : given.lookup name = none → dump.lookup name = none := by
    intro hleft
    by_cases hname : name ∈ schema.map (·.name)
    · obtain ⟨key, hkey, rfl⟩ := List.mem_map.mp hname
      exact ((given_accepted names accepted hkey).2 hleft).2
    · exact lookup_of_unknown accepted hname
  cases hvalue : given.lookup name with
  | none => simp [Members.decides, hvalue, hnone hvalue]
  | some value =>
    have hname := known_of_accepted accepted (exists_lookup_iff.mp ⟨value, hvalue⟩)
    obtain ⟨key, hkey, rfl⟩ := List.mem_map.mp hname
    obtain ⟨converted, hconvert, hkept⟩ := (given_accepted names accepted hkey).1 value hvalue
    rw [Bool.eq_iff_iff, Members.decides_eq_true, Members.decides_eq_true, hvalue, hkept]
    rcases key.convert_eq_ok hconvert with ⟨rfl, rfl⟩ | ⟨hfull, hfull', _⟩
    · rfl
    · simp [hfull, hfull']

/-- An override of accepted payloads is accepted, and converted to the override of what they are
converted to. -/
theorem validate_override (names : (schema.map (·.name)).Nodup)
    {earlier later before after : Members} (hearlier : schema.validate earlier = .ok before)
    (hlater : schema.validate later = .ok after) (counts : String → Bool) :
    ∃ both, schema.validate (later.override counts earlier) = .ok both ∧
      ∀ name, both.lookup name = (after.override counts before).lookup name := by
  have hfaultless : schema.faults (later.override counts earlier) = [] := by
    apply List.eq_nil_iff_forall_not_mem.mpr
    rintro ⟨name, complaint⟩ hfault
    have hoffends := mem_faults.mp hfault
    -- The key is given as it is in one of the two, where it does not offend.
    have hoverride : (later.override counts earlier).lookup name = _ := Members.lookup_override
    split at hoverride
    · exact not_offends hlater (hoffends.congr hoverride.symm)
    · exact not_offends hearlier (hoffends.congr hoverride.symm)
  have hboth := validate_eq_ok.mpr ⟨hfaultless, rfl⟩
  refine ⟨_, hboth, ?_⟩
  intro name
  have hoverride : (later.override counts earlier).lookup name = _ := Members.lookup_override
  rw [Members.lookup_override, decides_dump names hlater]
  split at hoverride
  · rw [if_pos ‹_›]
    exact dump_congr names hlater hboth hoverride
  · rw [if_neg ‹_›]
    exact dump_congr names hearlier hboth hoverride

end Schema

theorem Service.accept_object {schema : Schema} {given members : Members} :
    accept schema (.object given) = .ok members ↔ schema.validate given = .ok members := by
  rw [accept_eq_ok, Schema.validate_eq_ok, Value.members?_object]
  simp

/-! ## Fields -/

/-- No empty value counts: setting a field to nothing leaves it as it is. -/
def Fields.counts (_ : String) : Bool := false

/-- What is held for a field is something exactly if the payload has the say on it. -/
theorem Fields.isSome_ofMembers {given dump : Members}
    (accepted : Schema.fields.validate given = .ok dump) (f : Field) :
    (ofMembers dump f).isSome = dump.decides counts f.name := by
  let key : SchemaKey := { name := f.name, rule := .ofKind f.kind }
  have hkey : key ∈ Schema.fields := List.mem_map_of_mem f.mem_all
  apply Members.isSome_read (fun value => value.bind FieldValue.ofValue?) rfl rfl rfl
  intro value hheld hfull
  obtain ⟨_, hrule⟩ := Schema.held_accepted Schema.fields_names accepted key hkey hheld hfull
  obtain ⟨v, rfl⟩ := Schema.convert_ofKind hrule
  simp [v.ofValue?_toValue]

/-- An override of accepted fields is accepted, and sets what the later ones set over what the
earlier ones set. -/
theorem Service.accept_fields_override {earlier later before after : Members}
    (hearlier : accept .fields (.object earlier) = .ok before)
    (hlater : accept .fields (.object later) = .ok after) :
    ∃ both, accept .fields (.object (later.override Fields.counts earlier)) = .ok both ∧
      Fields.ofMembers both = (Fields.ofMembers after).overlay (Fields.ofMembers before) := by
  obtain ⟨both, haccepted, hsame⟩ := Schema.validate_override Schema.fields_names
    (accept_object.mp hearlier) (accept_object.mp hlater) Fields.counts
  refine ⟨both, accept_object.mpr haccepted, ?_⟩
  funext f
  show (both.lookup f.name).bind FieldValue.ofValue? = _
  rw [hsame]
  exact Members.read_override (fun value => value.bind FieldValue.ofValue?)
    (Fields.isSome_ofMembers (accept_object.mp hlater) f)

/-! ## Sections -/

namespace SectionChange

/-- An empty value counts for the columns that can be cleared: for all but the placeholder mark and
the place. -/
def counts (name : String) : Bool := name != "inherit_from_parent" && name != "sort_order"

/-- Two changes as one: what the later one sets, and else what the earlier one sets. -/
def override (later earlier : SectionChange) : SectionChange where
  commodity := later.commodity.or earlier.commodity
  details d := (later.details d).or (earlier.details d)
  inherits := later.inherits.or earlier.inherits
  sortOrder := later.sortOrder.or earlier.sortOrder

theorem counts_detail (d : Detail) : counts d.name := by
  cases d <;> decide +kernel

def readTextMember : Option Value → Option String
  | some (.scalar (.text s)) => some s
  | _ => none

def readFlagMember : Option Value → Option Bool
  | some (.scalar (.bool b)) => some b
  | _ => none

def readIntegerMember : Option Value → Option Int
  | some (.scalar (.int n)) => some n
  | _ => none

theorem readTextMember_eq_some {given : Option Value} {s : String}
    (h : readTextMember given = some s) : given = some (.text s) := by
  unfold readTextMember at h
  split at h
  · rw [Option.some.inj h]
  · cases h

theorem readFlagMember_eq_some {given : Option Value} {b : Bool}
    (h : readFlagMember given = some b) : given = some (.bool b) := by
  unfold readFlagMember at h
  split at h
  · rw [Option.some.inj h]
  · cases h

theorem readIntegerMember_eq_some {given : Option Value} {n : Int}
    (h : readIntegerMember given = some n) : given = some (.int n) := by
  unfold readIntegerMember at h
  split at h
  · rw [Option.some.inj h]
  · cases h

theorem flagMember_eq (members : Members) (key : String) :
    flagMember members key = readFlagMember (members.lookup key) := rfl

theorem integerMember_eq (members : Members) (key : String) :
    integerMember members key = readIntegerMember (members.lookup key) := rfl

theorem named?_eq (kind : SectionKind) (members : Members) :
    (ofMembers kind members).named? = readTextMember (members.lookup "commodity") := by
  show (textMember members "commodity").join = _
  unfold textMember
  cases members.lookup "commodity" with
  | none => rfl
  | some value =>
    cases value with
    | scalar s => cases s <;> rfl
    | _ => rfl

end SectionChange

/-- What an accepted change sets the placeholder mark and the place to is something exactly if its
payload has the say on them. -/
theorem SectionChange.isSome_ofMembers {kind : SectionKind} {existing : Bool}
    {given dump : Members} (accepted : (Schema.ofSection kind existing).validate given = .ok dump) :
    (readFlagMember (dump.lookup "inherit_from_parent")).isSome =
      dump.decides counts "inherit_from_parent" ∧
    (readIntegerMember (dump.lookup "sort_order")).isSome = dump.decides counts "sort_order" := by
  have hheld := Schema.held_accepted (Service.section_names kind existing) accepted
  constructor
  · apply Members.isSome_read readFlagMember (by decide +kernel) rfl rfl
    intro value hvalue hfull
    obtain ⟨_, hrule⟩ := hheld _ (Schema.mark_mem kind existing) hvalue hfull
    obtain ⟨b, rfl⟩ := Schema.convert_flag hrule
    rfl
  · apply Members.isSome_read readIntegerMember (by decide +kernel) rfl rfl
    intro value hvalue hfull
    obtain ⟨_, hrule⟩ := hheld _ (Schema.place_mem kind existing) hvalue hfull
    obtain ⟨_, n, _, _, rfl⟩ := Schema.convert_integer hrule
    rfl

/-- An override of accepted changes is accepted, and is the later change over the earlier one. -/
theorem Service.accept_change_override {kind : SectionKind} {earlier later before after : Members}
    (hearlier : accept (.ofSection kind true) (.object earlier) = .ok before)
    (hlater : accept (.ofSection kind true) (.object later) = .ok after) :
    ∃ both, accept (.ofSection kind true) (.object (later.override SectionChange.counts earlier)) =
        .ok both ∧
      SectionChange.ofMembers kind both =
        (SectionChange.ofMembers kind after).override (.ofMembers kind before) := by
  obtain ⟨both, haccepted, hsame⟩ := Schema.validate_override (section_names kind true)
    (accept_object.mp hearlier) (accept_object.mp hlater) SectionChange.counts
  refine ⟨both, accept_object.mpr haccepted, ?_⟩
  obtain ⟨hinherits, hplace⟩ := SectionChange.isSome_ofMembers (accept_object.mp hlater)
  rw [SectionChange.override, SectionChange.ofMembers, SectionChange.mk.injEq]
  refine ⟨?_, ?_, ?_, ?_⟩
  · rw [SectionChange.textMember, hsame]
    apply Members.read_override fun value => value.map _
    rw [Option.isSome_map, Members.decides_of_counts (by decide +kernel)]
  · funext d
    by_cases hd : kind.details.contains d
    · simp only [SectionChange.ofMembers, if_pos hd]
      rw [SectionChange.detailMember, hsame]
      apply Members.read_override fun value => value.map _
      rw [Option.isSome_map, Members.decides_of_counts (SectionChange.counts_detail d)]
    · simp only [SectionChange.ofMembers, if_neg hd]
      rfl
  · rw [SectionChange.flagMember_eq, hsame]
    exact Members.read_override SectionChange.readFlagMember hinherits
  · rw [SectionChange.integerMember_eq, hsame]
    exact Members.read_override SectionChange.readIntegerMember hplace

end CarCare

import CarCare.Proofs.Keys
import CarCare.Service

/-!
Accepted payloads: what a schema makes of the members that it is given.

What is proved:
  1. `Schema.convert_flag`, `Schema.convert_text` and `Schema.convert_integer`: what the rules of
     flags, texts and integers make of what they accept.
  2. `Service.accept_eq_ok`: a payload is accepted if it is a mapping without faults, and then each
     key of the schema that it gives is kept with its value converted.
  3. `Schema.check_accepted` and `Schema.given_accepted`: hence what an accepted payload holds under
     a key.
  4. `Service.accept_fields`: hence what it sets each field of an instruction to.
-/
namespace CarCare

/-! ## Mappings -/

namespace Value

/-- The value that is given under a key; a null value gives nothing. -/
def given? (payload : Value) (key : String) : Option Value :=
  (payload.get? key).filter fun
    | .scalar .null => false
    | _ => true

theorem given?_eq_some {payload value : Value} {key : String} :
    payload.given? key = some value ↔ payload.get? key = some value ∧ value ≠ .null := by
  unfold given?
  rw [Option.filter_eq_some_iff]
  refine and_congr_right fun _ => ?_
  split
  · simp
  · rename_i hvalue
    simpa using hvalue

theorem given?_eq_none {payload : Value} {key : String} :
    payload.given? key = none ↔ payload.get? key = none ∨ payload.get? key = some .null := by
  constructor
  · intro hnone
    cases hvalue : payload.get? key with
    | none => exact .inl rfl
    | some value =>
      right
      by_contra hfull
      rw [given?_eq_some.mpr ⟨hvalue, fun h => hfull (congrArg some h)⟩] at hnone
      cases hnone
  · rintro (h | h) <;> rw [given?, h] <;> rfl

theorem members?_cons {k : Scalar} {value : Value} {rest : List (Scalar × Value)}
    {members : Members} (h : (map ((k, value) :: rest)).members? = some members) :
    ∃ key later, k = .text key ∧ (map rest).members? = some later ∧
      members = (key, value) :: later := by
  unfold members? at h
  dsimp only at h
  rw [List.mapM_cons] at h
  obtain ⟨member, hhead, h⟩ := Option.bind_eq_some_iff.mp h
  obtain ⟨later, hrest, h⟩ := Option.bind_eq_some_iff.mp h
  cases k with
  | text key =>
    obtain rfl := Option.some.inj hhead
    exact ⟨key, later, rfl, hrest, (Option.some.inj h).symm⟩
  | null | bool _ | int _ | float _ | date _ => cases hhead

theorem get?_of_members {payload : Value} {members : Members}
    (h : payload.members? = some members) (key : String) :
    payload.get? key = members.lookup key := by
  cases payload with
  | scalar _ | list _ => cases h
  | map entries =>
    show entries.lookup (.text key) = members.lookup key
    induction entries generalizing members with
    | nil =>
      obtain rfl := Option.some.inj h
      rfl
    | cons head rest ih =>
      obtain ⟨k, value⟩ := head
      obtain ⟨name, later, rfl, hrest, rfl⟩ := members?_cons h
      have hkey : (Scalar.text key == .text name) = (key == name) := by
        rw [Bool.eq_iff_iff, beq_iff_eq, beq_iff_eq]
        exact ⟨Scalar.text.inj, congrArg _⟩
      rw [List.lookup_cons, List.lookup_cons, hkey, ih hrest]

end Value

/-! ## Rules -/

theorem Schema.readText_eq_ok {required : Bool} {limit : Option Nat} {x : Scalar} {s : String}
    (h : readText required limit x = .ok s) : x = .text s := by
  cases x with
  | text given =>
    simp only [readText] at h
    split at h
    · cases h
    · split at h
      · split at h
        · cases h
        · rw [Except.ok.inj h]
      · rw [Except.ok.inj h]
  | null | bool _ | int _ | float _ | date _ => cases h

theorem Schema.convert_text {required : Bool} {limit : Option Nat} {value converted : Value}
    (h : (Rule.text required limit).convert value = .ok converted) :
    ∃ s, value = .text s ∧ converted = .text s := by
  cases value with
  | list _ | map _ => cases h
  | scalar x =>
    change ((readText required limit x).map Scalar.text).map Value.scalar = _ at h
    cases hread : readText required limit x with
    | error complaint =>
      rw [hread] at h
      cases h
    | ok s =>
      rw [hread] at h
      rw [readText_eq_ok hread]
      exact ⟨s, rfl, (Except.ok.inj h).symm⟩

theorem Schema.convert_flag {value converted : Value}
    (h : Rule.flag.convert value = .ok converted) : ∃ b, converted = .bool b := by
  cases value with
  | list _ | map _ => cases h
  | scalar x =>
    change ((readFlag x).map Scalar.bool).map Value.scalar = _ at h
    cases hread : readFlag x with
    | error complaint =>
      rw [hread] at h
      cases h
    | ok b =>
      rw [hread] at h
      exact ⟨b, (Except.ok.inj h).symm⟩

theorem Schema.convert_integer {value converted : Value}
    (h : Rule.integer.convert value = .ok converted) :
    ∃ x n, value = .scalar x ∧ readInteger x = .ok n ∧ converted = .int n := by
  cases value with
  | list _ | map _ => cases h
  | scalar x =>
    change ((readInteger x).map Scalar.int).map Value.scalar = _ at h
    cases hread : readInteger x with
    | error complaint =>
      rw [hread] at h
      cases h
    | ok n =>
      rw [hread] at h
      exact ⟨x, n, rfl, hread, (Except.ok.inj h).symm⟩

/-! ## Keys -/

namespace SchemaKey
variable {key : SchemaKey} {given : Members} {value : Value}

theorem convert_of_ne_null (key : SchemaKey) (full : value ≠ .null) :
    key.convert value = key.rule.convert value := by
  unfold convert
  split
  · exact absurd rfl full
  · rfl

theorem member?_eq_some {member : String × Value} :
    key.member? given = some member ↔
      key.name = member.1 ∧ key.check given = .ok (some member.2) := by
  obtain ⟨name, value⟩ := member
  unfold member?
  cases hcheck : key.check given with
  | error complaint => simp
  | ok found => cases found <;> simp

end SchemaKey

/-! ## Schemas -/

namespace Schema
variable {schema : Schema} {given : Members} {key : SchemaKey} {value : Value}

theorem validate_eq_ok {accepted : Members} : schema.validate given = .ok accepted ↔
    schema.faults given = [] ∧ accepted = schema.filterMap (SchemaKey.member? given) := by
  unfold validate
  cases schema.faults given with
  | nil => simp [eq_comm]
  | cons fault rest => simp

theorem check_of_faultless (faultless : schema.faults given = []) (known : key ∈ schema) :
    ∃ found, key.check given = .ok found := by
  have hnone := List.filterMap_eq_nil_iff.mp (List.append_eq_nil_iff.mp faultless).1 key known
  unfold SchemaKey.fault? at hnone
  cases hcheck : key.check given with
  | ok found => exact ⟨found, rfl⟩
  | error complaint =>
    rw [hcheck] at hnone
    cases hnone

theorem lookup_member (names : (schema.map (·.name)).Nodup) (known : key ∈ schema) :
    (schema.filterMap (SchemaKey.member? given)).lookup key.name = some value ↔
      key.check given = .ok (some value) := by
  have hkept : ((schema.filterMap (SchemaKey.member? given)).map (·.1)).Nodup :=
    names.sublist (map_key_filterMap (fun _ _ h => (SchemaKey.member?_eq_some.mp h).1.symm) schema)
  rw [lookup_eq_some_iff_mem hkept, List.mem_filterMap]
  constructor
  · rintro ⟨other, hother, hmember⟩
    obtain ⟨hname, hcheck⟩ := SchemaKey.member?_eq_some.mp hmember
    rwa [List.inj_on_of_nodup_map names hother known hname] at hcheck
  · exact fun hcheck => ⟨key, known, SchemaKey.member?_eq_some.mpr ⟨rfl, hcheck⟩⟩

theorem check_accepted {accepted : Members} (names : (schema.map (·.name)).Nodup)
    (h : schema.validate given = .ok accepted) (known : key ∈ schema) :
    key.check given = .ok (accepted.lookup key.name) := by
  obtain ⟨hfaultless, rfl⟩ := validate_eq_ok.mp h
  obtain ⟨found, hcheck⟩ := check_of_faultless hfaultless known
  have hlookup : (schema.filterMap (SchemaKey.member? given)).lookup key.name = found := by
    apply Option.ext
    intro value
    rw [lookup_member names known, hcheck, Except.ok.injEq]
  rw [hcheck, hlookup]

/-- What is given for a key is converted and kept; a key that is left out was not required, and
nothing is kept under it. -/
theorem given_accepted {accepted : Members} (names : (schema.map (·.name)).Nodup)
    (h : schema.validate given = .ok accepted) (known : key ∈ schema) :
    (∀ value, given.lookup key.name = some value →
      ∃ converted, key.convert value = .ok converted ∧
        accepted.lookup key.name = some converted) ∧
    (given.lookup key.name = none → key.required = false ∧ accepted.lookup key.name = none) := by
  have hcheck := check_accepted names h known
  unfold SchemaKey.check at hcheck
  constructor
  · intro value hvalue
    rw [hvalue] at hcheck
    dsimp only at hcheck
    cases hconvert : key.convert value with
    | error complaint =>
      rw [hconvert] at hcheck
      cases hcheck
    | ok converted =>
      rw [hconvert] at hcheck
      exact ⟨converted, rfl, (Except.ok.inj hcheck).symm⟩
  · intro hnone
    rw [hnone] at hcheck
    dsimp only at hcheck
    split at hcheck
    · cases hcheck
    · rename_i hoptional
      exact ⟨Bool.eq_false_iff.mpr hoptional, (Except.ok.inj hcheck).symm⟩

theorem fields_names : (fields.map (·.name)).Nodup := by decide +kernel

theorem convert_ofKind {kind : Kind} {converted : Value}
    (h : (Rule.ofKind kind).convert value = .ok converted) :
    ∃ v : FieldValue, converted = v.toValue := by
  cases kind with
  | flag =>
    obtain ⟨b, rfl⟩ := convert_flag h
    exact ⟨.flag b, rfl⟩
  | text limit =>
    obtain ⟨s, _, rfl⟩ := convert_text h
    exact ⟨.text s, rfl⟩

end Schema

theorem FieldValue.ofValue?_toValue (v : FieldValue) : ofValue? v.toValue = some v := by
  cases v <;> rfl

/-! ## Acceptance -/

namespace Service
variable {schema : Schema} {payload : Value} {members : Members}

theorem accept_eq_ok : accept schema payload = .ok members ↔
    ∃ given, payload.members? = some given ∧ schema.faults given = [] ∧
      members = schema.filterMap (SchemaKey.member? given) := by
  unfold accept
  cases hgiven : payload.members? with
  | none => simp
  | some given =>
    simp only [Option.some.injEq, exists_eq_left']
    rw [← Schema.validate_eq_ok]
    cases schema.validate given <;> simp

/-- What is given for a key of the schema is converted and kept; a key that is left out was not
required, and nothing is kept under it. -/
theorem accept_given (accepted : accept schema payload = .ok members)
    (names : (schema.map (·.name)).Nodup) {key : SchemaKey} (known : key ∈ schema) :
    (∀ value, payload.get? key.name = some value →
      ∃ converted, key.convert value = .ok converted ∧ members.lookup key.name = some converted) ∧
    (payload.get? key.name = none → key.required = false ∧ members.lookup key.name = none) := by
  obtain ⟨given, hgiven, hvalid⟩ := accept_eq_ok.mp accepted
  rw [Value.get?_of_members hgiven]
  exact Schema.given_accepted names (Schema.validate_eq_ok.mpr hvalid) known

/-- An accepted payload sets the fields that it gives a value, to this value in the form that the
field holds, and no others. -/
theorem accept_fields (accepted : accept .fields payload = .ok members) (f : Field) :
    (∀ value, payload.given? f.name = some value → ∃ v : FieldValue,
      (Schema.Rule.ofKind f.kind).convert value = .ok v.toValue ∧
        Fields.ofMembers members f = some v) ∧
    (payload.given? f.name = none → Fields.ofMembers members f = none) := by
  let key : SchemaKey := { name := f.name, rule := .ofKind f.kind }
  have hkey : key ∈ Schema.fields := List.mem_map_of_mem f.mem_all
  obtain ⟨hgiven, hleft⟩ := accept_given accepted Schema.fields_names hkey
  have hset : Fields.ofMembers members f = (members.lookup key.name).bind FieldValue.ofValue? := rfl
  rw [hset]
  constructor
  · intro value hvalue
    obtain ⟨hvalue, hfull⟩ := Value.given?_eq_some.mp hvalue
    obtain ⟨converted, hconvert, hkept⟩ := hgiven value hvalue
    rw [key.convert_of_ne_null hfull] at hconvert
    obtain ⟨v, rfl⟩ := Schema.convert_ofKind hconvert
    rw [hkept]
    exact ⟨v, hconvert, v.ofValue?_toValue⟩
  · intro hnone
    -- A key may be left out and may be null, and then there is nothing to hold.
    rcases Value.given?_eq_none.mp hnone with hvalue | hvalue
    · rw [(hleft hvalue).2]
      rfl
    · obtain ⟨converted, hconvert, hkept⟩ := hgiven .null hvalue
      obtain rfl := Except.ok.inj hconvert
      rw [hkept]
      rfl

end Service

end CarCare

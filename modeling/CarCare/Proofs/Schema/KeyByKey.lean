import CarCare.Proofs.Schema.FixedPoints

/-!
Validation goes key by key: what becomes of a key is decided by what is given for it alone.

What is proved:
  1. `Schema.mem_faults`: the faults of a payload are those of its keys, of which there are three
     kinds (`Schema.Offends`), and `Schema.faults_nodup`: each key has one fault at most.
  2. `Schema.dump_keys`: what an accepted payload is converted to has the keys that were given.
  3. `Schema.validate_dump`: it is accepted again and converted to itself.
  4. `validation_goes_key_by_key`: the three together, and that no key is judged by another one.
-/
namespace CarCare
open scoped List

namespace Schema

/-- The schemas of input: of scopes, of the fields of instructions, and of new and changed sections
of both kinds. -/
def inputs : List Schema :=
  [scope, fields, ofSection .sealing false, ofSection .sealing true, ofSection .lining false,
   ofSection .lining true]

theorem inputs_names : ∀ schema ∈ inputs, (schema.map (·.name)).Nodup := by decide +kernel

/-- How a key offends against a schema, and what is said of it: it is given although the schema does
not know it, it is given a value that does not fit, or it is left out although it is required. -/
inductive Offends (schema : Schema) (given : Members) : String → Complaint → Prop
  | unknown {name : String} {value : Value} (found : given.lookup name = some value)
      (unknown : name ∉ schema.map (·.name)) : Offends schema given name .notAllowed
  | unfit {key : SchemaKey} {value : Value} {complaint : Complaint} (known : key ∈ schema)
      (found : given.lookup key.name = some value)
      (unfit : key.convert value = .error complaint) : Offends schema given key.name complaint
  | missing {key : SchemaKey} (known : key ∈ schema) (left : given.lookup key.name = none)
      (required : key.required) : Offends schema given key.name .missing

/-- A payload is refused, and this is said of a key of it. -/
def Complains (schema : Schema) (given : Members) (name : String) (complaint : Complaint) : Prop :=
  ∃ faults, schema.validate given = .error faults ∧ ⟨name, complaint⟩ ∈ faults

section
variable {schema : Schema} {given dump : Members} {key : SchemaKey} {name : String}
  {complaint : Complaint}

/-! ## Faults -/

theorem mem_unknownKeys : name ∈ schema.unknownKeys given ↔
    (∃ value, given.lookup name = some value) ∧ name ∉ schema.map (·.name) := by
  rw [unknownKeys, List.mem_mergeSort, List.mem_filter, exists_lookup_iff, ← hasKey_iff]
  simp

theorem check_eq_error : key.check given = .error complaint ↔
    (∃ value, given.lookup key.name = some value ∧ key.convert value = .error complaint) ∨
      (given.lookup key.name = none ∧ key.required ∧ complaint = .missing) := by
  unfold SchemaKey.check
  cases given.lookup key.name with
  | none => by_cases hrequired : key.required <;> simp [hrequired, eq_comm]
  | some value =>
    cases hconvert : key.convert value <;> simp [hconvert, Except.map]

theorem fault?_eq_some {fault : Fault} : key.fault? given = some fault ↔
    key.name = fault.key ∧ key.check given = .error fault.complaint := by
  obtain ⟨name, complaint⟩ := fault
  unfold SchemaKey.fault?
  cases key.check given <;> simp

theorem mem_faults :
    ⟨name, complaint⟩ ∈ schema.faults given ↔ schema.Offends given name complaint := by
  rw [faults, List.mem_append, List.mem_filterMap, List.mem_map]
  constructor
  · rintro (⟨key, hkey, hfault⟩ | ⟨unknown, hunknown, hfault⟩)
    · obtain ⟨hname, hcheck⟩ := fault?_eq_some.mp hfault
      obtain rfl : key.name = name := hname
      rcases check_eq_error.mp hcheck with ⟨value, hfound, hunfit⟩ | ⟨hleft, hrequired, hmissing⟩
      · exact .unfit hkey hfound hunfit
      · obtain rfl : complaint = .missing := hmissing
        exact .missing hkey hleft hrequired
    · cases hfault
      obtain ⟨⟨value, hfound⟩, hunknown⟩ := mem_unknownKeys.mp hunknown
      exact .unknown hfound hunknown
  · intro hoffends
    cases hoffends with
    | unknown hfound hunknown =>
      exact .inr ⟨name, mem_unknownKeys.mpr ⟨⟨_, hfound⟩, hunknown⟩, rfl⟩
    | @unfit key value _ hkey hfound hunfit =>
      have hcheck := check_eq_error.mpr (.inl ⟨value, hfound, hunfit⟩)
      exact .inl ⟨key, hkey, fault?_eq_some.mpr ⟨rfl, hcheck⟩⟩
    | @missing key hkey hleft hrequired =>
      have hcheck := check_eq_error.mpr (.inr ⟨hleft, hrequired, rfl⟩)
      exact .inl ⟨key, hkey, fault?_eq_some.mpr ⟨rfl, hcheck⟩⟩

/-- No key has two faults: a key of the schema is checked once, and no other is given twice. -/
theorem faults_nodup (names : (schema.map (·.name)).Nodup) (keys : (given.map (·.1)).Nodup) :
    ((schema.faults given).map (·.key)).Nodup := by
  have hknown : ((schema.filterMap (SchemaKey.fault? given)).map (·.key)).Sublist
      (schema.map (·.name)) :=
    map_key_filterMap (fun _ _ h => (fault?_eq_some.mp h).1.symm) schema
  have hunknown : (schema.unknownKeys given).Nodup :=
    (List.mergeSort_perm _ _).nodup_iff.mpr (keys.filter _)
  have hkeys : ((schema.unknownKeys given).map fun key => (⟨key, .notAllowed⟩ : Fault)).map (·.key)
      = schema.unknownKeys given := by
    rw [List.map_map]
    exact List.map_id _
  rw [faults, List.map_append, hkeys]
  apply List.nodup_append.mpr
  refine ⟨names.sublist hknown, hunknown, ?_⟩
  intro a ha b hb hab
  subst hab
  exact (mem_unknownKeys.mp hb).2 (hknown.subset ha)

/-! ## What is made of an accepted payload -/

theorem dump_names (accepted : schema.validate given = .ok dump) :
    (dump.map (·.1)).Sublist (schema.map (·.name)) := by
  obtain ⟨_, rfl⟩ := validate_eq_ok.mp accepted
  exact map_key_filterMap (fun _ _ h => (SchemaKey.member?_eq_some.mp h).1.symm) schema

theorem lookup_of_unknown (accepted : schema.validate given = .ok dump)
    (unknown : name ∉ schema.map (·.name)) : dump.lookup name = none :=
  lookup_of_not_mem fun hname => unknown ((dump_names accepted).subset hname)

theorem not_offends (accepted : schema.validate given = .ok dump) :
    ¬ schema.Offends given name complaint := by
  intro hoffends
  have hfault := mem_faults.mpr hoffends
  rw [(validate_eq_ok.mp accepted).1] at hfault
  cases hfault

theorem known_of_accepted (accepted : schema.validate given = .ok dump)
    (found : name ∈ given.map (·.1)) : name ∈ schema.map (·.name) := by
  by_contra hunknown
  obtain ⟨value, hvalue⟩ := exists_lookup_iff.mpr found
  exact not_offends accepted (.unknown hvalue hunknown)

theorem dump_keys (names : (schema.map (·.name)).Nodup) (keys : (given.map (·.1)).Nodup)
    (accepted : schema.validate given = .ok dump) : dump.map (·.1) ~ given.map (·.1) := by
  have hnames := dump_names accepted
  apply (List.perm_ext_iff_of_nodup (names.sublist hnames) keys).mpr
  intro name
  constructor
  · intro hname
    obtain ⟨key, hkey, rfl⟩ := List.mem_map.mp (hnames.subset hname)
    obtain ⟨_, hleft⟩ := given_accepted names accepted hkey
    by_contra hnone
    rw [← exists_lookup_iff, ← Option.isSome_iff_exists, Bool.not_eq_true,
      Option.isSome_eq_false_iff, Option.isNone_iff_eq_none] at hnone
    obtain ⟨value, hvalue⟩ := exists_lookup_iff.mpr hname
    rw [(hleft hnone).2] at hvalue
    cases hvalue
  · intro hname
    obtain ⟨key, hkey, rfl⟩ := List.mem_map.mp (known_of_accepted accepted hname)
    obtain ⟨value, hvalue⟩ := exists_lookup_iff.mpr hname
    obtain ⟨converted, _, hkept⟩ := (given_accepted names accepted hkey).1 value hvalue
    exact exists_lookup_iff.mp ⟨converted, hkept⟩

theorem check_dump (names : (schema.map (·.name)).Nodup)
    (accepted : schema.validate given = .ok dump) (known : key ∈ schema) :
    key.check dump = key.check given := by
  obtain ⟨hgiven, hleft⟩ := given_accepted names accepted known
  rw [check_accepted names accepted known, SchemaKey.check]
  cases hvalue : given.lookup key.name with
  | none =>
    obtain ⟨hoptional, hnone⟩ := hleft hvalue
    simp [hnone, hoptional]
  | some value =>
    obtain ⟨converted, hconvert, hkept⟩ := hgiven value hvalue
    have hagain : key.convert converted = .ok converted := key.convert_idem hconvert
    simp [hkept, hagain, Except.map]

/-- What an accepted payload is converted to is accepted, and converted to itself. -/
theorem validate_dump (names : (schema.map (·.name)).Nodup)
    (accepted : schema.validate given = .ok dump) : schema.validate dump = .ok dump := by
  obtain ⟨hfaultless, hdump⟩ := validate_eq_ok.mp accepted
  have hsame : ∀ key ∈ schema, key.check dump = key.check given := fun key hkey =>
    check_dump names accepted hkey
  have hmembers : schema.filterMap (SchemaKey.member? dump)
      = schema.filterMap (SchemaKey.member? given) := by
    apply List.filterMap_congr
    intro key hkey
    rw [SchemaKey.member?, SchemaKey.member?, hsame key hkey]
  have hunknown : schema.unknownKeys dump = [] := by
    apply List.eq_nil_iff_forall_not_mem.mpr
    intro name hname
    obtain ⟨hfound, hother⟩ := mem_unknownKeys.mp hname
    exact hother ((dump_names accepted).subset (exists_lookup_iff.mp hfound))
  have hfaults : schema.filterMap (SchemaKey.fault? dump) = [] := by
    rw [← (List.append_eq_nil_iff.mp hfaultless).1]
    apply List.filterMap_congr
    intro key hkey
    rw [SchemaKey.fault?, SchemaKey.fault?, hsame key hkey]
  apply validate_eq_ok.mpr
  refine ⟨?_, ?_⟩
  · rw [faults, hfaults, hunknown]
    rfl
  · rw [hmembers, hdump]

/-! ## One key against the others -/

/-- What is made of a key depends on what is given for it only. -/
theorem dump_congr (names : (schema.map (·.name)).Nodup) {other dump' : Members}
    (accepted : schema.validate given = .ok dump) (accepted' : schema.validate other = .ok dump')
    (same : other.lookup name = given.lookup name) : dump'.lookup name = dump.lookup name := by
  by_cases hname : name ∈ schema.map (·.name)
  · obtain ⟨key, hkey, rfl⟩ := List.mem_map.mp hname
    have hcheck : key.check other = key.check given := by
      rw [SchemaKey.check, SchemaKey.check, same]
    rw [check_accepted names accepted hkey, check_accepted names accepted' hkey] at hcheck
    exact Except.ok.inj hcheck
  · rw [lookup_of_unknown accepted hname, lookup_of_unknown accepted' hname]

theorem validate_eq_error {found : List Fault} : schema.validate given = .error found ↔
    schema.faults given = found ∧ found ≠ [] := by
  unfold validate
  cases schema.faults given with
  | nil => simp [eq_comm]
  | cons fault rest =>
    simp only [Except.error.injEq]
    constructor
    · rintro rfl
      exact ⟨rfl, nofun⟩
    · exact fun h => h.1

theorem complains_iff :
    schema.Complains given name complaint ↔ schema.Offends given name complaint := by
  unfold Complains
  rw [← mem_faults]
  constructor
  · rintro ⟨found, herror, hmem⟩
    rwa [(validate_eq_error.mp herror).1]
  · intro hmem
    exact ⟨_, validate_eq_error.mpr ⟨rfl, List.ne_nil_of_mem hmem⟩, hmem⟩

/-- Whether a key offends depends on what is given for it only. -/
theorem Offends.congr {other : Members} (same : other.lookup name = given.lookup name)
    (h : schema.Offends given name complaint) : schema.Offends other name complaint := by
  cases h with
  | unknown hfound hunknown => exact .unknown (same.trans hfound) hunknown
  | unfit hkey hfound hunfit => exact .unfit hkey (same.trans hfound) hunfit
  | missing hkey hleft hrequired => exact .missing hkey (same.trans hleft) hrequired

end

end Schema

/-- What the schemas of input make of an object, whose keys are distinct. If it is accepted, it is
converted to an object with exactly its keys, which is accepted as well and converted to itself. If
it is refused, each key that offends has one fault, and no other key has any: a key offends if it is
given and unknown, if its value does not fit, or if it is required and left out. So another object
that gives the same for a key has the same said of this key, and the same made of it. -/
theorem validation_goes_key_by_key (schema : Schema) (input : schema ∈ Schema.inputs)
    (given : Members) (keys : (given.map (·.1)).Nodup) :
    (∀ dump, schema.validate given = .ok dump →
      dump.map (·.1) ~ given.map (·.1) ∧ schema.validate dump = .ok dump)
    ∧ (∀ faults, schema.validate given = .error faults →
      faults ≠ [] ∧ (faults.map (·.key)).Nodup)
    ∧ (∀ name complaint, schema.Complains given name complaint
      ↔ schema.Offends given name complaint)
    ∧ ∀ (other : Members) (name : String), other.lookup name = given.lookup name →
      (∀ complaint, schema.Complains other name complaint
        ↔ schema.Complains given name complaint)
      ∧ ∀ dump dump', schema.validate given = .ok dump → schema.validate other = .ok dump' →
        dump'.lookup name = dump.lookup name := by
  have hnames := Schema.inputs_names schema input
  refine ⟨?_, ?_, fun _ _ => Schema.complains_iff, ?_⟩
  · intro dump haccepted
    exact ⟨Schema.dump_keys hnames keys haccepted, Schema.validate_dump hnames haccepted⟩
  · intro faults hrefused
    obtain ⟨rfl, hsome⟩ := Schema.validate_eq_error.mp hrefused
    exact ⟨hsome, Schema.faults_nodup hnames keys⟩
  · intro other name hsame
    refine ⟨?_, ?_⟩
    · intro complaint
      rw [Schema.complains_iff, Schema.complains_iff]
      exact ⟨.congr hsame.symm, .congr hsame⟩
    · intro dump dump' haccepted hother
      exact Schema.dump_congr hnames haccepted hother hsame

/-- An id in braces and in upper case is written in one form, and that form is kept. Beside a name
of no level and an unknown key it is still not complained of. -/
theorem validation_goes_key_by_key_scope :
    let id : Value := .text "\x7b0000000A-0000-0000-0000-00000000000B\x7d"
    let given : Members := [("id", id), ("type", .text "rider")]
    let dump : Members :=
      [("type", .text "rider"), ("id", .text "0000000a-0000-0000-0000-00000000000b")]
    let other : Members := [("colour", .null), ("id", id), ("type", .text "yard")]
    Schema.scope.validate given = .ok dump ∧ Schema.scope.validate dump = .ok dump ∧
      Schema.scope.Complains other "colour" .notAllowed ∧
      Schema.scope.Complains other "type" (.level (.text "yard")) ∧
      ∀ complaint, ¬ Schema.scope.Complains other "id" complaint := by
  intro id given dump other
  have hscope : Schema.scope ∈ Schema.inputs := List.mem_cons_self
  have haccepted : Schema.scope.validate given = .ok dump := by
    apply Schema.validate_eq_ok.mpr
    exact ⟨List.isEmpty_iff.mp (by decide +kernel), rfl⟩
  obtain ⟨hkept, _, _, hcongr⟩ :=
    validation_goes_key_by_key Schema.scope hscope given (by decide +kernel)
  obtain ⟨_, _, hcomplains, _⟩ :=
    validation_goes_key_by_key Schema.scope hscope other (by decide +kernel)
  refine ⟨haccepted, (hkept dump haccepted).2, ?_, ?_, ?_⟩
  · exact (hcomplains "colour" _).mpr (.unknown rfl (by decide +kernel))
  · let key : SchemaKey := { name := "type", rule := .level, required := true, nullable := false }
    have hkey : key ∈ Schema.scope := List.mem_cons_self
    exact (hcomplains "type" _).mpr (.unfit hkey rfl rfl)
  · intro complaint hid
    obtain ⟨faults, hrefused, _⟩ := ((hcongr other "id" rfl).1 complaint).mp hid
    rw [haccepted] at hrefused
    cases hrefused

end CarCare

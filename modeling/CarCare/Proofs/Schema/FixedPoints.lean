import CarCare.Proofs.Schema.SectionPayload
import CarCare.Proofs.WrittenIds
import Mathlib.Data.List.Forall2

/-!
Fixed points of validation: values that a schema takes as they are.

What is proved:
  1. `Schema.Rule.convert_idem`: what a rule makes of a value is one that it leaves as it is.
  2. `Service.accept_kept`: hence what an accepted payload holds under a key is such a value.
  3. `Service.accept_of_keeps`: a payload that gives every key of a schema such a value is accepted
     and comes back unchanged.
-/
namespace CarCare

/-! ## Rules and keys -/

/-- A value that a rule leaves as it is. -/
def Schema.Rule.Keeps (rule : Rule) (value : Value) : Prop := rule.convert value = .ok value

def SchemaKey.Keeps (key : SchemaKey) (value : Value) : Prop := key.convert value = .ok value

theorem Schema.Rule.convert_idem {rule : Rule} {value converted : Value}
    (h : rule.convert value = .ok converted) : rule.Keeps converted := by
  cases rule with
  | id =>
    cases value with
    | list _ | map _ => cases h
    | scalar x =>
      change ((readId x).map fun u => Scalar.text u.text).map Value.scalar = _ at h
      cases hread : readId x with
      | error complaint =>
        rw [hread] at h
        cases h
      | ok u =>
        rw [hread] at h
        rw [← Except.ok.inj h]
        -- Whichever form the id was given in, it is written in one, which is read again.
        simp [Keeps, convert, convertScalar, readId, u.ofPayload?_text, Except.map]
  | text required limit =>
    obtain ⟨s, rfl, rfl⟩ := convert_text h
    exact h
  | integer =>
    obtain ⟨x, n, rfl, _, rfl⟩ := convert_integer h
    rfl
  | flag =>
    obtain ⟨b, rfl⟩ := convert_flag h
    rfl
  | level =>
    cases value with
    | list _ | map _ => cases h
    | scalar x =>
      simp only [convert, convertScalar] at h
      cases hlevel : Level.ofValue? (.scalar x) with
      | none =>
        rw [hlevel] at h
        cases h
      | some l =>
        rw [hlevel] at h
        rw [← Except.ok.inj h]
        simp [Keeps, convert, convertScalar, Level.ofValue?, Level.ofName?_name, Except.map]

namespace SchemaKey
variable {key : SchemaKey} {value converted : Value}

theorem keeps_null (nullable : key.nullable) : key.Keeps .null := if_pos nullable

theorem keeps_of_ne_null (full : value ≠ .null) : key.Keeps value ↔ key.rule.Keeps value := by
  rw [Keeps, key.convert_of_ne_null full]
  rfl

theorem keeps_of_rule (h : key.rule.Keeps value) : key.Keeps value := by
  by_cases hnull : value = .null
  · subst hnull
    by_cases hnullable : key.nullable
    · exact keeps_null hnullable
    · exact (if_neg hnullable).trans h
  · exact (keeps_of_ne_null hnull).mpr h

/-- Converting for a key is idempotent as well: an empty value that is accepted stays empty. -/
theorem convert_idem (h : key.convert value = .ok converted) : key.Keeps converted := by
  by_cases hempty : value = .null ∧ key.nullable
  · obtain ⟨rfl, hnullable⟩ := hempty
    obtain rfl : .null = converted := Except.ok.inj ((if_pos hnullable).symm.trans h)
    exact keeps_null hnullable
  · have hrule : key.rule.convert value = .ok converted := by
      by_cases hnull : value = .null
      · subst hnull
        exact (if_neg fun hnullable => hempty ⟨rfl, hnullable⟩).symm.trans h
      · exact (key.convert_of_ne_null hnull).symm.trans h
    exact keeps_of_rule (Schema.Rule.convert_idem hrule)

end SchemaKey

/-! ## Payloads -/

/-- A member that is given under the name of a key, with a value that the key keeps. -/
def SchemaKey.KeepsMember (key : SchemaKey) (member : String × Value) : Prop :=
  member.1 = key.name ∧ key.Keeps member.2

theorem Schema.hasKey_iff {schema : Schema} {name : String} :
    schema.hasKey name ↔ name ∈ schema.map (·.name) := by
  simp [hasKey]

theorem Value.members?_object (members : Members) : (object members).members? = some members := by
  unfold object members?
  induction members with
  | nil => rfl
  | cons member rest ih =>
    dsimp only at ih ⊢
    rw [List.map_cons, List.mapM_cons, ih]
    rfl

theorem Value.get?_object (members : Members) (key : String) :
    (object members).get? key = members.lookup key :=
  get?_of_members (members?_object members) key

namespace SchemaKey.KeepsMember
variable {schema : Schema} {given : Members}

theorem names (h : List.Forall₂ KeepsMember schema given) :
    given.map (·.1) = schema.map (·.name) := by
  induction h with
  | nil => rfl
  | cons hmember _ ih => rw [List.map_cons, List.map_cons, hmember.1, ih]

/-- Where each such member is what its name is looked up to, the keys find no fault with them, and
make the same members of them. -/
theorem checked {all : Members} (h : List.Forall₂ KeepsMember schema given)
    (found : ∀ m ∈ given, all.lookup m.1 = some m.2) :
    schema.filterMap (member? all) = given ∧ schema.filterMap (fault? all) = [] := by
  -- The payload that is looked into stays whole while the keys are gone through.
  induction h with
  | nil => exact ⟨rfl, rfl⟩
  | @cons key member keys rest hmember _ ih =>
    obtain ⟨hname, hkeeps⟩ := hmember
    obtain ⟨hmembers, hfaults⟩ := ih fun m hm => found m (List.mem_cons_of_mem _ hm)
    have hcheck : key.check all = .ok (some member.2) := by
      rw [check, ← hname, found member List.mem_cons_self]
      exact congrArg (Except.map some) hkeeps
    have hkept : key.member? all = some member := member?_eq_some.mpr ⟨hname.symm, hcheck⟩
    have hfault : key.fault? all = none := by rw [fault?, hcheck]
    exact ⟨by rw [List.filterMap_cons_some hkept, hmembers],
      by rw [List.filterMap_cons_none hfault, hfaults]⟩

end SchemaKey.KeepsMember

namespace Service
variable {schema : Schema}

theorem accept_kept {payload : Value} {members : Members}
    (accepted : accept schema payload = .ok members) (names : (schema.map (·.name)).Nodup)
    {key : SchemaKey} (known : key ∈ schema) {value : Value}
    (held : members.lookup key.name = some value) : key.Keeps value := by
  obtain ⟨hgiven, hleft⟩ := accept_given accepted names known
  cases hvalue : payload.get? key.name with
  | none =>
    rw [(hleft hvalue).2] at held
    cases held
  | some given =>
    obtain ⟨converted, hconvert, hlookup⟩ := hgiven given hvalue
    rw [hlookup] at held
    rw [← Option.some.inj held]
    exact key.convert_idem hconvert

/-- A payload that gives every key of a schema, in order, a value that the key keeps is accepted,
and comes back unchanged. -/
theorem accept_of_keeps {given : Members} (names : (schema.map (·.name)).Nodup)
    (keeps : List.Forall₂ SchemaKey.KeepsMember schema given) :
    accept schema (.object given) = .ok given := by
  have hnames : given.map (·.1) = schema.map (·.name) := SchemaKey.KeepsMember.names keeps
  have hkeys : (given.map (·.1)).Nodup := hnames ▸ names
  obtain ⟨hmembers, hfaults⟩ := SchemaKey.KeepsMember.checked keeps fun m hm =>
    (lookup_eq_some_iff_mem hkeys).mpr hm
  have hunknown : schema.unknownKeys given = [] := by
    have hknown : (schema.map (·.name)).filter (fun name => !schema.hasKey name) = [] :=
      List.filter_eq_nil_iff.mpr fun name hname => by simp [Schema.hasKey_iff.mpr hname]
    rw [Schema.unknownKeys, hnames, hknown, List.mergeSort_nil]
  refine accept_eq_ok.mpr ⟨given, Value.members?_object given, ?_, hmembers.symm⟩
  rw [Schema.faults, hfaults, hunknown]
  rfl

end Service

end CarCare

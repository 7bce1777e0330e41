import CarCare.Desk
import CarCare.Proofs.Schema.FixedPoints

/-!
Dictionaries whose values are of the kinds of their columns, as those are that a schema has
accepted. The columns keep such values as they are, but for integers that are too large.

What is proved:
  1. `Service.accept_fields_fitting` and `Service.accept_section_fitting`: what a schema accepts is
     such a dictionary.
  2. `Affinity.write_of_tooLarge` and `Affinity.write_of_storable`: what is written of one.
  3. `Fields.ofMembers_kept` and `SectionChange.ofMembers_kept`: what is written to a new record
     asks for the same as the dictionary does.
-/
namespace CarCare

/-! ## Values -/

/-- Whether a value is an integer that a column cannot hold. -/
def Value.overflows : Value → Bool
  | .scalar (.int n) => !Store.storable n
  | _ => false

theorem Value.isNull_iff {value : Value} : value.isNull ↔ value = .null := by
  unfold isNull
  split <;> simp_all

theorem Value.filter_full (given : Option Value) : given.filter (!·.isNull) = given ∨
    given = some .null ∧ given.filter (!·.isNull) = none := by
  cases given with
  | none => exact .inl rfl
  | some value =>
    by_cases hnull : value.isNull
    · exact .inr ⟨by rw [isNull_iff.mp hnull], by simp [hnull]⟩
    · exact .inl (by simp [hnull])

theorem Value.equals_text {value : Value} {s : String} :
    value.equals (.text s) ↔ value = .text s := by
  cases value with
  | list _ | map _ => exact ⟨nofun, nofun⟩
  | scalar x =>
    show (x != .float .nan && x.sameKey (.text s)) = true ↔ _
    rw [Bool.and_eq_true, Scalar.sameKey]
    constructor
    · rintro ⟨_, hkey⟩
      dsimp only at hkey
      split at hkey
      · rename_i hwhole
        cases hwhole
      · rw [beq_iff_eq.mp hkey]
      · cases hkey
    · intro h
      obtain rfl : x = .text s := Value.scalar.inj h
      exact ⟨rfl, beq_self_eq_true _⟩

theorem Value.eq_of_equals_bool : ∀ b b' : Bool, (Value.bool b).equals (.bool b') → b = b' := by
  decide

theorem FieldValue.equals_toValue (v : FieldValue) (held : Option FieldValue) :
    v.toValue.equals (.ofOption FieldValue.toValue held) = (held == some v) := by
  cases held with
  | none => cases v <;> rfl
  | some w =>
    rw [Bool.eq_iff_iff, beq_iff_eq, Option.some_inj]
    cases v with
    | flag b =>
      cases w with
      | flag b' => cases b <;> cases b' <;> decide
      | text _ => exact ⟨nofun, nofun⟩
    | text s =>
      cases w with
      | flag _ => exact ⟨nofun, nofun⟩
      | text s' =>
        show (true && (Scalar.text s == .text s')) = true ↔ _
        rw [Bool.true_and, beq_iff_eq, eq_comm, Scalar.text.injEq, FieldValue.text.injEq]

namespace Column

/-- Whether a value is of the kind of a column, or null. -/
def fits (c : Column) : Value → Bool
  | .scalar .null => true
  | .scalar (.bool _) => c.kind == .flag
  | .scalar (.text _) => c.kind == .text
  | .scalar (.int _) => c.kind == .integer
  | _ => false

/-- Members whose values are of the kinds of their columns. -/
def Fitting (columns : List Column) (data : Members) : Prop :=
  ∀ c ∈ columns, ∀ value, data.lookup c.name = some value → c.fits value

/-- The value that members give for a column of a record that does not show it already. -/
def fresh? (c : Column) (shown : String → Option Value) (data : Members) : Option Value :=
  (c.given? data).filter fun value => !(shown c.name).any value.equals

variable {c : Column} {value : Value} {columns : List Column} {data : Members}
  {shown : String → Option Value}

theorem keep_of_fits (a : Affinity) (fits : c.fits value) :
    a.keep c.kind value = if value.overflows then .error .integerTooLarge else .ok value := by
  cases value with
  | list _ | map _ => cases fits
  | scalar x =>
    cases x with
    | null => cases c.kind <;> rfl
    | bool b =>
      rw [show c.kind = .flag from beq_iff_eq.mp fits]
      cases b <;> rfl
    | text s =>
      rw [show c.kind = .text from beq_iff_eq.mp fits]
      rfl
    | int n =>
      rw [show c.kind = .integer from beq_iff_eq.mp fits]
      show keepInteger n (.int n) = if !Store.storable n then _ else _
      unfold keepInteger
      cases Store.storable n <;> rfl
    | float _ | date _ => cases fits

theorem toValue_of_fits {name : String} {skipsNull : Bool} {kind : Kind} {value : Value}
    (h : (ofKind name skipsNull kind).fits value) (full : value ≠ .null) :
    ∃ v : FieldValue, value = v.toValue := by
  cases value with
  | list _ | map _ => cases h
  | scalar x =>
    cases x with
    | null => exact absurd rfl full
    | bool b => exact ⟨.flag b, rfl⟩
    | text s => exact ⟨.text s, rfl⟩
    | int _ => cases kind <;> cases h
    | float _ | date _ => cases h

theorem ofValue?_of_equals {name : String} {skipsNull : Bool} {columnKind : Kind} {value : Value}
    (fits : (ofKind name skipsNull columnKind).fits value) {held : Option FieldValue}
    (h : value.equals (.ofOption FieldValue.toValue held)) : FieldValue.ofValue? value = held := by
  by_cases hnull : value = .null
  · subst hnull
    cases held with
    | none => rfl
    | some v => cases v <;> cases h
  · obtain ⟨v, rfl⟩ := toValue_of_fits fits hnull
    rw [FieldValue.equals_toValue, beq_iff_eq] at h
    rw [h, v.ofValue?_toValue]

theorem lookup_of_given (h : c.given? data = some value) : data.lookup c.name = some value :=
  (Option.filter_eq_some_iff.mp h).1

theorem Fitting.given (fitting : Fitting columns data) (hc : c ∈ columns)
    (h : c.given? data = some value) : c.fits value :=
  fitting c hc value (lookup_of_given h)

theorem bound_perm (columns : List Column) : (bound columns).Perm columns := by
  have hnot : (fun c : Column => c.kind != .flag) = fun c => !(c.kind == .flag) := rfl
  rw [bound, hnot]
  exact List.filter_append_perm _ columns

theorem mem_given : (c, value) ∈ given columns data ↔ c ∈ columns ∧ c.given? data = some value := by
  rw [given, List.mem_filterMap]
  constructor
  · rintro ⟨c', hc', h⟩
    obtain ⟨v, hv, heq⟩ := Option.map_eq_some_iff.mp h
    obtain ⟨rfl, rfl⟩ := Prod.mk.inj heq
    exact ⟨(bound_perm columns).mem_iff.mp hc', hv⟩
  · rintro ⟨hc, h⟩
    exact ⟨c, (bound_perm columns).mem_iff.mpr hc, by rw [h]; rfl⟩

theorem given_names (names : (columns.map name).Nodup) (data : Members) :
    ((given columns data).map (·.1.name)).Nodup := by
  have hbound : ((bound columns).map name).Nodup :=
    ((bound_perm columns).map name).nodup_iff.mpr names
  refine hbound.sublist (map_key_filterMap (fun c entry h => ?_) (bound columns))
  obtain ⟨_, _, rfl⟩ := Option.map_eq_some_iff.mp h
  rfl

end Column

/-! ## Writing -/

namespace Affinity
variable {a : Affinity} {columns : List Column} {data : Members} {shown : String → Option Value}

/-- What of given values a record does not show already. -/
def news (shown : String → Option Value) (given : List (Column × Value)) : List (Column × Value) :=
  given.filter fun entry => !(shown entry.1.name).any entry.2.equals

theorem news_cons_of_shown {entry : Column × Value} (rest : List (Column × Value))
    (h : (shown entry.1.name).any entry.2.equals) : news shown (entry :: rest) = news shown rest :=
  List.filter_cons_of_neg (by simp [h])

theorem news_cons_of_not {entry : Column × Value} (rest : List (Column × Value))
    (h : ¬(shown entry.1.name).any entry.2.equals) :
    news shown (entry :: rest) = entry :: news shown rest :=
  List.filter_cons_of_pos (by simp [h])

theorem write_eq (a : Affinity) (shown : String → Option Value) {given : List (Column × Value)}
    (fits : ∀ entry ∈ given, entry.1.fits entry.2) :
    a.write shown given = if (news shown given).any (·.2.overflows) then .error .integerTooLarge
      else .ok ((news shown given).map fun entry => (entry.1.name, entry.2)) := by
  -- A value that is shown already is passed over, and does not count as too large either.
  induction given with
  | nil => rfl
  | cons entry rest ih =>
    have ih := ih fun entry h => fits entry (List.mem_cons_of_mem _ h)
    by_cases hshown : (shown entry.1.name).any entry.2.equals
    · rw [write, if_pos hshown, ih, news_cons_of_shown rest hshown]
    · rw [write, if_neg hshown, ih, Column.keep_of_fits a (fits entry List.mem_cons_self),
        news_cons_of_not rest hshown, List.any_cons, List.map_cons]
      cases hlarge : entry.2.overflows with
      | true => rfl
      | false =>
        cases (news shown rest).any (·.2.overflows) <;> rfl

theorem mem_news {entry : Column × Value} :
    entry ∈ news shown (Column.given columns data) ↔
      entry.1 ∈ columns ∧ entry.1.fresh? shown data = some entry.2 := by
  rw [news, List.mem_filter, show entry = (entry.1, entry.2) from rfl, Column.mem_given,
    Column.fresh?, Option.filter_eq_some_iff, and_assoc]

/-- What a dictionary writes, where an integer that is given anew is too large. -/
theorem write_of_tooLarge (a : Affinity) (shown : String → Option Value)
    (fitting : Column.Fitting columns data) {c : Column} (hc : c ∈ columns)
    (large : (c.fresh? shown data).any Value.overflows) :
    a.write shown (Column.given columns data) = .error .integerTooLarge := by
  rw [a.write_eq shown fun entry h => fitting.given (Column.mem_given.mp h).1
    (Column.mem_given.mp h).2]
  refine if_pos (List.any_eq_true.mpr ?_)
  obtain ⟨value, hfresh, hlarge⟩ := (Option.any_eq_true _ _).mp large
  exact ⟨(c, value), mem_news.mpr ⟨hc, hfresh⟩, hlarge⟩

/-- What a dictionary writes where none is: the values that are given anew, each to its column. -/
theorem write_of_storable (a : Affinity) (shown : String → Option Value)
    (names : (columns.map Column.name).Nodup) (fitting : Column.Fitting columns data)
    (storable : ∀ c ∈ columns, (c.fresh? shown data).any Value.overflows = false) :
    ∃ kept, a.write shown (Column.given columns data) = .ok kept ∧
      (∀ c ∈ columns, kept.lookup c.name = c.fresh? shown data) ∧
      ∀ member ∈ kept, ∃ c ∈ columns, c.name = member.1 := by
  let written := news shown (Column.given columns data)
  let kept := written.map fun entry => (entry.1.name, entry.2)
  have hwrite : a.write shown (Column.given columns data) = .ok kept := by
    rw [a.write_eq shown fun entry h => fitting.given (Column.mem_given.mp h).1
      (Column.mem_given.mp h).2]
    refine if_neg fun hany => ?_
    obtain ⟨entry, hentry, hlarge⟩ := List.any_eq_true.mp hany
    obtain ⟨hc, hfresh⟩ := mem_news.mp hentry
    have hnone := storable entry.1 hc
    rw [hfresh, Option.any_some, hlarge] at hnone
    cases hnone
  have hkeys : (kept.map (·.1)).Nodup := by
    rw [List.map_map]
    exact (Column.given_names names data).sublist (List.filter_sublist.map _)
  refine ⟨kept, hwrite, fun c hc => Option.ext fun value => ?_, fun member hmember => ?_⟩
  · rw [lookup_eq_some_iff_mem hkeys, List.mem_map]
    constructor
    · rintro ⟨entry, hentry, heq⟩
      obtain ⟨hname, rfl⟩ := Prod.mk.inj heq
      obtain ⟨hcolumn, hfresh⟩ := mem_news.mp hentry
      rwa [List.inj_on_of_nodup_map names hcolumn hc hname] at hfresh
    · intro hfresh
      exact ⟨(c, value), mem_news.mpr ⟨hc, hfresh⟩, rfl⟩
  · obtain ⟨entry, hentry, rfl⟩ := List.mem_map.mp hmember
    exact ⟨entry.1, (mem_news.mp hentry).1, rfl⟩

end Affinity

/-! ## Columns of instructions and of sections -/

namespace Column
variable {c : Column} {data : Members} {kind : SectionKind}

@[simp]
theorem ofKind_name (name : String) (skipsNull : Bool) (kind : Kind) :
    (ofKind name skipsNull kind).name = name := by
  cases kind <;> rfl

theorem given?_of_keeping (keeping : c.skipsNull = false) : c.given? data = data.lookup c.name := by
  rw [given?, keeping]
  cases data.lookup c.name <;> rfl

theorem given?_of_skipping (skipping : c.skipsNull = true) :
    c.given? data = (data.lookup c.name).filter (!·.isNull) := by
  rw [given?, skipping]
  rfl

theorem fresh?_new (c : Column) (data : Members) :
    c.fresh? (fun _ => none) data = c.given? data := by
  rw [fresh?]
  cases c.given? data <;> rfl

theorem field_mem (f : Field) : ofKind f.name true f.kind ∈ fields := List.mem_map_of_mem f.mem_all

theorem commodity_mem : commodity ∈ sections kind := List.mem_cons_self

theorem detail_mem {d : Detail} (h : d ∈ kind.details) :
    ofKind d.name false d.kind ∈ sections kind :=
  List.mem_append_left _ (List.mem_cons_of_mem _ (List.mem_map_of_mem h))

theorem placeholder_mem : placeholder ∈ sections kind :=
  List.mem_append_right _ List.mem_cons_self

theorem place_mem : place ∈ sections kind :=
  List.mem_append_right _ (List.mem_cons_of_mem _ List.mem_cons_self)

theorem fields_names : (fields.map name).Nodup := by decide +kernel

theorem sections_names (kind : SectionKind) : ((sections kind).map name).Nodup := by
  cases kind <;> decide +kernel

theorem given?_field (f : Field) (data : Members) : (ofKind f.name true f.kind).given? data =
    (data.lookup f.name).filter (!·.isNull) := by
  rw [given?_of_skipping (by cases f.kind <;> rfl), ofKind_name]

theorem given?_detail (d : Detail) (data : Members) :
    (ofKind d.name false d.kind).given? data = data.lookup d.name := by
  rw [given?_of_keeping (by cases d.kind <;> rfl), ofKind_name]

end Column

theorem Fields.ofMembers_kept {kept data : Members}
    (h : ∀ c ∈ Column.fields, kept.lookup c.name = c.given? data) :
    ofMembers kept = ofMembers data := by
  funext f
  have hf := h _ (Column.field_mem f)
  rw [Column.ofKind_name, Column.given?_field] at hf
  rw [ofMembers, ofMembers, hf]
  rcases Value.filter_full (data.lookup f.name) with hfull | ⟨hnull, hnone⟩
  · rw [hfull]
  · rw [hnone, hnull]
    rfl

namespace SectionChange
variable {kind : SectionKind} {kept data : Members}

theorem textMember_kept
    (h : kept.lookup Column.commodity.name = Column.commodity.given? data) :
    textMember kept Column.commodity.name = textMember data Column.commodity.name := by
  rw [textMember, textMember, h, Column.given?_of_keeping rfl]

theorem detailMember_kept {d : Detail}
    (h : kept.lookup d.name = (Column.ofKind d.name false d.kind).given? data) :
    detailMember kept d = detailMember data d := by
  rw [detailMember, detailMember, h, Column.given?_detail]

theorem flagMember_kept
    (h : kept.lookup Column.placeholder.name = Column.placeholder.given? data) :
    flagMember kept Column.placeholder.name = flagMember data Column.placeholder.name := by
  rw [flagMember, flagMember, h, Column.given?_of_skipping rfl]
  rcases Value.filter_full (data.lookup Column.placeholder.name) with hfull | ⟨hnull, hnone⟩
  · rw [hfull]
  · rw [hnone, hnull]

theorem integerMember_kept (h : kept.lookup Column.place.name = Column.place.given? data) :
    integerMember kept Column.place.name = integerMember data Column.place.name := by
  rw [integerMember, integerMember, h, Column.given?_of_skipping rfl]
  rcases Value.filter_full (data.lookup Column.place.name) with hfull | ⟨hnull, hnone⟩
  · rw [hfull]
  · rw [hnone, hnull]

theorem ofMembers_kept (h : ∀ c ∈ Column.sections kind, kept.lookup c.name = c.given? data) :
    ofMembers kind kept = ofMembers kind data := by
  rw [ofMembers, ofMembers, SectionChange.mk.injEq]
  refine ⟨textMember_kept (h _ Column.commodity_mem), funext fun d => ?_,
    flagMember_kept (h _ Column.placeholder_mem), integerMember_kept (h _ Column.place_mem)⟩
  by_cases hd : kind.details.contains d
  · have hdetail := h _ (Column.detail_mem (List.contains_iff_mem.mp hd))
    rw [Column.ofKind_name] at hdetail
    rw [if_pos hd, if_pos hd, detailMember_kept hdetail]
  · rw [if_neg hd, if_neg hd]

end SectionChange

/-! ## Accepted payloads -/

namespace Service
variable {payload : Value} {members : Members}

theorem fits_ofKind {name : String} {skipsNull : Bool} {kind : Kind} {value : Value}
    (h : SchemaKey.Keeps { name, rule := Schema.Rule.ofKind kind } value) :
    (Column.ofKind name skipsNull kind).fits value := by
  by_cases hnull : value = .null
  · rw [hnull]
    rfl
  · have hrule := (SchemaKey.keeps_of_ne_null hnull).mp h
    cases kind with
    | flag =>
      obtain ⟨b, rfl⟩ := Schema.convert_flag hrule
      rfl
    | text limit =>
      obtain ⟨s, rfl, _⟩ := Schema.convert_text hrule
      rfl

theorem accept_fields_fitting (accepted : accept .fields payload = .ok members) :
    Column.Fitting Column.fields members := by
  intro c hc value hvalue
  obtain ⟨f, _, rfl⟩ := List.mem_map.mp hc
  rw [Column.ofKind_name] at hvalue
  have hkey : { name := f.name, rule := .ofKind f.kind } ∈ Schema.fields :=
    List.mem_map_of_mem f.mem_all
  exact fits_ofKind (accept_kept accepted Schema.fields_names hkey hvalue)

theorem accept_section_fitting {kind : SectionKind} {existing : Bool}
    (accepted : accept (.ofSection kind existing) payload = .ok members) :
    Column.Fitting (Column.sections kind) members := by
  intro c hc value hvalue
  have hkept : ∀ key ∈ Schema.ofSection kind existing, key.name = c.name → key.Keeps value := by
    intro key hkey hname
    exact accept_kept accepted (section_names kind existing) hkey (hname ▸ hvalue)
  by_cases hnull : value = .null
  · rw [hnull]
    rfl
  rcases List.mem_append.mp hc with hc | hc
  · rcases List.mem_cons.mp hc with rfl | hc
    · have hkeeps := hkept _ (Schema.commodity_mem kind existing) rfl
      obtain ⟨s, rfl, _⟩ := Schema.convert_text ((SchemaKey.keeps_of_ne_null hnull).mp hkeeps)
      rfl
    · obtain ⟨d, hd, rfl⟩ := List.mem_map.mp hc
      exact fits_ofKind (hkept _ (Schema.detail_mem hd existing) (Column.ofKind_name ..).symm)
  · rcases List.mem_pair.mp hc with rfl | rfl
    · have hkeeps := hkept _ (Schema.mark_mem kind existing) rfl
      obtain ⟨b, rfl⟩ := Schema.convert_flag ((SchemaKey.keeps_of_ne_null hnull).mp hkeeps)
      rfl
    · have hkeeps := hkept _ (Schema.place_mem kind existing) rfl
      obtain ⟨_, n, _, _, rfl⟩ :=
        Schema.convert_integer ((SchemaKey.keeps_of_ne_null hnull).mp hkeeps)
      rfl

end Service

end CarCare

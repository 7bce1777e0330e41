import CarCare.Proofs.Schema.Overriding
import CarCare.Proofs.Schema.RecordPayload
import CarCare.Proofs.Store.Faults
import CarCare.Proofs.Store.Reached

/-!
Updates of a section as patches of its columns. A column that a payload names is set to what it
gives, or cleared; but the placeholder mark and the place are not cleared.

What is proved:
  1. `SectionChange.columns_override`: the columns of a changed section are those that the payload
     sets over the old ones, and so `SectionChange.patchedBy`: what becomes of each key.
  2. `SectionChange.apply_override` and `Session.renamedOnto?_override`: two changes that can be made
     in turn can be made at once; and `SectionChange.apply_again`: one can be made again.
  3. `section_updates_compose`: hence so it is with updates.
-/
namespace CarCare

/-! ## Columns -/

theorem Section.Columns.unique {kind : SectionKind} {s : Section} {a b : Members}
    (ha : s.Columns kind a) (hb : s.Columns kind b) {key : SchemaKey} {existing : Bool}
    (known : key ∈ Schema.ofSection kind existing) : a.lookup key.name = b.lookup key.name := by
  simp only [Schema.ofSection, List.mem_append, List.mem_cons, List.mem_map, List.not_mem_nil,
    or_false] at known
  rcases known with (rfl | ⟨d, hd, rfl⟩) | rfl | rfl
  · exact ha.commodity.trans hb.commodity.symm
  · exact (ha.detail d hd).trans (hb.detail d hd).symm
  · exact ha.inherits.trans hb.inherits.symm
  · exact ha.place.trans hb.place.symm

theorem FieldValue.ofOption_ofValue? {value : Value} (h : value ≠ .null → ∃ v : FieldValue,
    value = v.toValue) : Value.ofOption toValue (ofValue? value) = value := by
  by_cases hnull : value = .null
  · subst hnull
    rfl
  · obtain ⟨v, rfl⟩ := h hnull
    rw [v.ofValue?_toValue]
    rfl

namespace SectionChange
variable {kind : SectionKind} {existing : Bool} {given members : Members}
  {old mid new : SectionRow}

theorem columns_override (accepted : (Schema.ofSection kind existing).validate given = .ok members)
    (applied : (ofMembers kind members).apply kind old = .ok new) (owner : Uuid) :
    (new.toSection owner).Columns kind
      (members.override counts ((old.toSection owner).columns kind)) := by
  obtain ⟨hfault, rfl⟩ := apply_eq_ok.mp applied
  obtain ⟨_, hkept⟩ := fault?_eq_none.mp hfault
  obtain ⟨hmark, hplace⟩ := isSome_ofMembers accepted
  have hheld := Schema.held_accepted (Service.section_names kind existing) accepted
  have hold := (old.toSection owner).columns_lookup kind
  constructor
  case commodity =>
    show _ = some (Value.text ((ofMembers kind members).named?.getD old.commodity))
    rw [named?_eq]
    refine Members.lookup_override_written readTextMember .text ?_
      (fun _ => readTextMember_eq_some) hold.commodity
    rw [Members.decides_of_counts (by decide +kernel)]
    cases hvalue : members.lookup "commodity" with
    | none => rfl
    | some value =>
      -- What is given names a commodity, as an empty one would clear it.
      have hfull : value ≠ .null := by
        rintro rfl
        apply hkept
        show (members.lookup "commodity").map _ = _
        rw [hvalue]
        rfl
      obtain ⟨_, hrule⟩ := hheld _ (Schema.commodity_mem kind existing) hvalue hfull
      obtain ⟨s, _, rfl⟩ := Schema.convert_text hrule
      rfl
  case detail =>
    intro d hd
    have hchange : (ofMembers kind members).details d = detailMember members d :=
      if_pos (List.contains_iff_mem.mpr hd)
    show _ = some (Value.ofOption FieldValue.toValue
      (((ofMembers kind members).details d).getD (old.details d)))
    rw [hchange]
    refine Members.lookup_override_written (fun value => value.map FieldValue.ofValue?) _ ?_ ?_
      (hold.detail d hd)
    · rw [Option.isSome_map, Members.decides_of_counts (counts_detail d)]
    · intro a ha
      obtain ⟨value, hvalue, rfl⟩ := Option.map_eq_some_iff.mp ha
      rw [hvalue, FieldValue.ofOption_ofValue?]
      intro hfull
      obtain ⟨_, hrule⟩ := hheld _ (Schema.detail_mem hd existing) hvalue hfull
      exact Schema.convert_ofKind hrule
  case inherits =>
    exact Members.lookup_override_written readFlagMember .bool hmark
      (fun _ => readFlagMember_eq_some) hold.inherits
  case place =>
    exact Members.lookup_override_written readIntegerMember .int hplace
      (fun _ => readIntegerMember_eq_some) hold.place

section
variable {earlier later : SectionChange}

theorem fault?_override (hearlier : earlier.fault? kind = none)
    (hlater : later.fault? kind = none) : (later.override earlier).fault? kind = none := by
  obtain ⟨hplace, hnamed⟩ := fault?_eq_none.mp hearlier
  obtain ⟨hplace', hnamed'⟩ := fault?_eq_none.mp hlater
  apply fault?_eq_none.mpr
  unfold overflows at hplace hplace' ⊢
  unfold override
  constructor
  · cases hset : later.sortOrder with
    | none => exact hplace
    | some n =>
      rw [hset] at hplace'
      exact hplace'
  · cases hset : later.commodity with
    | none => exact hnamed
    | some c =>
      rw [hset] at hnamed'
      exact hnamed'

theorem named?_override (kept : later.commodity ≠ some none) :
    (later.override earlier).named? = later.named?.or earlier.named? := by
  show (later.commodity.or earlier.commodity).join = later.commodity.join.or earlier.commodity.join
  cases hset : later.commodity with
  | none => rfl
  | some c =>
    cases c with
    | none => exact absurd hset kept
    | some name => rfl

theorem apply_override (first : earlier.apply kind old = .ok mid)
    (second : later.apply kind mid = .ok new) :
    (later.override earlier).apply kind old = .ok new := by
  obtain ⟨hearlier, rfl⟩ := apply_eq_ok.mp first
  obtain ⟨hlater, rfl⟩ := apply_eq_ok.mp second
  obtain ⟨_, hkept⟩ := fault?_eq_none.mp hlater
  apply apply_eq_ok.mpr
  refine ⟨fault?_override hearlier hlater, ?_⟩
  rw [named?_override hkept]
  simp only [applyDetails, override, Option.getD_or]

theorem apply_again (applied : earlier.apply kind old = .ok new) :
    earlier.apply kind new = .ok new := by
  obtain ⟨hfault, rfl⟩ := apply_eq_ok.mp applied
  apply apply_eq_ok.mpr
  refine ⟨hfault, ?_⟩
  simp only [applyDetails, ← Option.getD_or, Option.or_self]

end

end SectionChange

/-! ## Rows with one section changed -/

def InstructionRow.withSection (r : InstructionRow) (kind : SectionKind) (id : Uuid)
    (new : SectionRow) : InstructionRow :=
  r.withSections kind ((r.sections kind).map fun x => if x.id = id then new else x)

namespace InstructionRow
variable {r : InstructionRow} {kind : SectionKind} {id : Uuid} {x new : SectionRow}

theorem withSection_frame (r : InstructionRow) (kind : SectionKind) (id : Uuid) (new : SectionRow) :
    (r.withSection kind id new).id = r.id ∧
      (r.withSection kind id new).isCurrent = r.isCurrent := by
  obtain ⟨hid, _, _, _, hcurrent⟩ := r.withSections_frame kind _
  exact ⟨hid, hcurrent⟩

theorem mem_withSection : x ∈ (r.withSection kind id new).sections kind ↔
    ∃ y ∈ r.sections kind, (if y.id = id then new else y) = x := by
  rw [withSection, sections_withSections_self, List.mem_map]

theorem withSection_withSection (same : x.id = id) :
    (r.withSection kind id x).withSection kind id new = r.withSection kind id new := by
  unfold withSection
  rw [sections_withSections_self, withSections_withSections, List.map_map]
  congr 1
  apply List.map_congr_left
  intro y _
  by_cases hid : y.id = id <;> simp [hid, same]

end InstructionRow

theorem Store.section?_withSection {s : Store} {row : InstructionRow} {old new : SectionRow}
    {kind : SectionKind} {id : Uuid} (found : s.section? kind id = some (row, old))
    (same : new.id = id) (after : (s.replace (row.withSection kind id new)).Reached) :
    (s.replace (row.withSection kind id new)).section? kind id =
      some (row.withSection kind id new, new) := by
  obtain ⟨hrow, hold, hid⟩ := section?_eq_some found
  obtain ⟨hframe, _⟩ := row.withSection_frame kind id new
  have hmem : row.withSection kind id new ∈ (s.replace (row.withSection kind id new)).rows :=
    mem_replace_self hrow hframe.symm
  have hnew : new ∈ (row.withSection kind id new).sections kind :=
    InstructionRow.mem_withSection.mpr ⟨old, hold, if_pos hid⟩
  have hfound := after.section?_of_mem hmem hnew
  rwa [same] at hfound

namespace Session
variable {row : InstructionRow} {old mid : SectionRow} {kind : SectionKind}
  {earlier later : SectionChange}

theorem renamedOnto?_override (applied : earlier.apply kind old = .ok mid)
    (kept : later.commodity ≠ some none) (first : renamedOnto? kind row old earlier = none)
    (second : renamedOnto? kind (row.withSection kind old.id mid) mid later = none) :
    renamedOnto? kind row old (later.override earlier) = none := by
  obtain ⟨hid, hcommodity⟩ := SectionChange.apply_id applied
  rw [renamedOnto?_eq_none] at first second ⊢
  intro c hc
  rw [SectionChange.named?_override kept, Option.or_eq_some_iff] at hc
  rcases hc with hlater | ⟨_, hearlier⟩
  · rcases second c hlater with hsame | hothers
    · -- The commodity is the one that the section had after the earlier change.
      rw [hcommodity] at hsame
      cases hearlier : earlier.named? with
      | none =>
        rw [hearlier] at hsame
        exact .inl hsame
      | some c' =>
        rw [hearlier] at hsame
        exact hsame ▸ first c' hearlier
    · right
      intro y hy hne
      apply hothers y
      · exact InstructionRow.mem_withSection.mpr ⟨y, hy, if_neg hne⟩
      · rwa [hid]
  · exact first c hearlier

theorem renamedOnto?_again (applied : earlier.apply kind old = .ok mid) (row : InstructionRow) :
    renamedOnto? kind row mid earlier = none := by
  obtain ⟨_, hcommodity⟩ := SectionChange.apply_id applied
  rw [renamedOnto?_eq_none]
  intro c hc
  rw [hc] at hcommodity
  exact .inl hcommodity.symm

end Session

/-! ## Updates -/

/-- What is read of a section before and after it is set by an accepted payload. A key that the
payload leaves out keeps its value, one that it gives a value takes the value converted, and one
that it empties is cleared, but for the placeholder mark and the place. -/
structure Section.PatchedBy (kind : SectionKind) (existing : Bool) (payload : Members)
    (before after : Section) : Prop where
  id : after.id = before.id
  owner : after.owner = before.owner
  kept : ∀ key ∈ Schema.ofSection kind existing, payload.lookup key.name = none →
    (after.columns kind).lookup key.name = (before.columns kind).lookup key.name
  set : ∀ key ∈ Schema.ofSection kind existing, ∀ value, payload.lookup key.name = some value →
    value ≠ .null → ∃ converted, key.rule.convert value = .ok converted ∧
      (after.columns kind).lookup key.name = some converted
  emptied : ∀ key ∈ Schema.ofSection kind existing, payload.lookup key.name = some .null →
    (after.columns kind).lookup key.name =
      if SectionChange.counts key.name then some .null else (before.columns kind).lookup key.name

theorem SectionChange.patchedBy {kind : SectionKind} {existing : Bool} {given members : Members}
    {old new : SectionRow}
    (accepted : (Schema.ofSection kind existing).validate given = .ok members)
    (applied : (ofMembers kind members).apply kind old = .ok new) (owner : Uuid) :
    (old.toSection owner).PatchedBy kind existing given (new.toSection owner) := by
  have hnames := Service.section_names kind existing
  have hdecides := Schema.decides_dump hnames accepted counts
  have hoverride : ∀ key ∈ Schema.ofSection kind existing,
      ((new.toSection owner).columns kind).lookup key.name =
        if given.decides counts key.name then members.lookup key.name
        else ((old.toSection owner).columns kind).lookup key.name := by
    intro key hkey
    rw [← hdecides, ← Members.lookup_override]
    exact (Section.columns_lookup kind _).unique (columns_override accepted applied owner) hkey
  constructor
  case id => exact congrArg some (apply_id applied).1
  case owner => rfl
  case kept =>
    intro key hkey hleft
    rw [hoverride key hkey, Members.decides_eq_false.mpr (.inl hleft)]
    rfl
  case set =>
    intro key hkey value hvalue hfull
    obtain ⟨converted, hconvert, hkept⟩ :=
      (Schema.given_accepted hnames accepted hkey).1 value hvalue
    rw [key.convert_of_ne_null hfull] at hconvert
    rw [hoverride key hkey, Members.decides_eq_true.mpr ⟨value, hvalue, fun h => absurd h hfull⟩]
    exact ⟨converted, hconvert, hkept⟩
  case emptied =>
    intro key hkey hvalue
    obtain ⟨converted, hconvert, hkept⟩ :=
      (Schema.given_accepted hnames accepted hkey).1 .null hvalue
    have hnull : converted = .null := by
      rcases key.convert_eq_ok hconvert with ⟨_, hnull⟩ | ⟨hfull, _⟩
      · exact hnull
      · exact absurd rfl hfull
    rw [hoverride key hkey, Members.decides_of_null hvalue, hkept, hnull]

theorem Service.updateSection_found {kind : SectionKind} {db db' : Database} {id : Uuid}
    {row : InstructionRow} {old : SectionRow} {payload : Value} {x : Section}
    (found : db.instructions.section? kind id = some (row, old)) :
    updateSection kind db id payload = (.ok (some x), db') ↔
      ∃ members new, accept (.ofSection kind true) payload = .ok members ∧ row.isCurrent ∧
        Session.renamedOnto? kind row old (.ofMembers kind members) = none ∧
        (SectionChange.ofMembers kind members).apply kind old = .ok new ∧
        x = new.toSection row.id ∧
        db' = db.put (row.withSection kind id new) := by
  rw [updateSection_eq_ok]
  constructor
  · rintro ⟨members, row', old', new, haccepted, hfound, hrest⟩
    obtain ⟨rfl, rfl⟩ := Prod.mk.inj (Option.some.inj (hfound.symm.trans found))
    exact ⟨members, new, haccepted, hrest⟩
  · rintro ⟨members, new, haccepted, hrest⟩
    exact ⟨members, row, old, new, haccepted, found, hrest⟩

/-- An update of a section that succeeds is a patch of its columns. The section stays where it is; a
key that is left out keeps its value, one that is given a value takes it, and one that is emptied is
cleared, but for the placeholder mark and the place. The same update made again answers the same and
changes nothing. And whatever succeeds after it could have been made at once, with the later payload
over the earlier one: this succeeds, and leaves the same database. -/
theorem section_updates_compose (kind : SectionKind) (db : Database)
    (reached : db.instructions.Reached) (id : Uuid) {row : InstructionRow} {old : SectionRow}
    (found : db.instructions.section? kind id = some (row, old)) (u : Members) {x : Section}
    {db₁ : Database}
    (updated : Service.updateSection kind db id (.object u) = (.ok (some x), db₁)) :
    (old.toSection row.id).PatchedBy kind true u x ∧
    (∃ row₁ new, db₁.instructions.section? kind id = some (row₁, new) ∧ row₁.id = row.id ∧
      new.toSection row₁.id = x) ∧
    Service.updateSection kind db₁ id (.object u) = (.ok (some x), db₁) ∧
    ∀ (v : Members) y db₂, Service.updateSection kind db₁ id (.object v) = (.ok (some y), db₂) →
      Service.updateSection kind db id (.object (v.override SectionChange.counts u)) =
        (.ok (some y), db₂) := by
  have hreached := reached.write db.leases (.updateSection kind id (.object u))
  rw [Write.perform, updated] at hreached
  obtain ⟨members, new, haccepted, hcurrent, hfree, happlied, rfl, rfl⟩ :=
    (Service.updateSection_found found).mp updated
  have hid : new.id = id :=
    (SectionChange.apply_id happlied).1.trans (Store.section?_eq_some found).2.2
  obtain ⟨hrow, hrowCurrent⟩ := row.withSection_frame kind id new
  have hfound := Store.section?_withSection found hid hreached
  refine ⟨?_, ?_, ?_, ?_⟩
  · exact SectionChange.patchedBy (Service.accept_object.mp haccepted) happlied row.id
  · exact ⟨row.withSection kind id new, new, hfound, hrow, by rw [hrow]⟩
  · apply (Service.updateSection_found hfound).mpr
    refine ⟨members, new, haccepted, hrowCurrent.trans hcurrent, ?_, ?_, ?_, ?_⟩
    · exact Session.renamedOnto?_again happlied _
    · exact SectionChange.apply_again happlied
    · rw [hrow]
    · rw [InstructionRow.withSection_withSection hid, Database.put_put rfl]
  · intro v y db₂ hlater
    obtain ⟨members', new', haccepted', _, hfree', happlied', rfl, rfl⟩ :=
      (Service.updateSection_found hfound).mp hlater
    obtain ⟨both, hboth, heq⟩ := Service.accept_change_override haccepted haccepted'
    obtain ⟨hfault, _⟩ := SectionChange.apply_eq_ok.mp happlied'
    obtain ⟨_, hkept⟩ := SectionChange.fault?_eq_none.mp hfault
    obtain ⟨_, _, hold⟩ := Store.section?_eq_some found
    apply (Service.updateSection_found found).mpr
    refine ⟨both, new', hboth, hcurrent, ?_, ?_, ?_, ?_⟩
    · rw [heq]
      exact Session.renamedOnto?_override happlied hkept hfree (hold ▸ hfree')
    · rw [heq]
      exact SectionChange.apply_override happlied happlied'
    · rw [hrow]
    · rw [InstructionRow.withSection_withSection hid, Database.put_put]
      rw [hrow, (row.withSection_frame kind id new').1]

/-- The later payload clears one column that the earlier one sets, and does not clear the place. -/
theorem section_updates_compose_acme :
    let u : Members := [("preferred_gasket_vendor", .text "Garlock"),
      ("vsp_ride_tight", .text "on"), ("sort_order", .text " 7 ")]
    let v : Members := [("preferred_gasket_vendor", .null), ("commodity", .text "Molasses"),
      ("sort_order", .null)]
    let update (db : Database) (payload : Members) :=
      Service.updateSection .sealing db ⟨11⟩ (.object payload)
    ∃ x y db₁ db₂, update acmeDatabase u = (.ok (some x), db₁) ∧
      update db₁ u = (.ok (some x), db₁) ∧ update db₁ v = (.ok (some y), db₂) ∧
      update acmeDatabase (v.override SectionChange.counts u) = (.ok (some y), db₂) ∧
      y.commodity = "Molasses" ∧ y.sortOrder = some 7 ∧
      y.details .vspRideTight = some (.flag true) ∧ y.details .preferredGasketVendor = none := by
  intro u v update
  have hreached : acmeDatabase.instructions.Reached :=
    Database.run_reached { leases := acmeTables } .empty _
  have hfound : (acmeDatabase.instructions.section? .sealing ⟨11⟩).isSome := by decide +kernel
  obtain ⟨⟨row, old⟩, hfound⟩ := Option.isSome_iff_exists.mp hfound
  have hfirst : (update acmeDatabase u).1.toOption.join.any fun _ => true := by decide +kernel
  have hsecond : (update (update acmeDatabase u).2 v).1.toOption.join.any fun y =>
      y.commodity == "Molasses" && y.sortOrder == some 7 &&
        y.details .vspRideTight == some (.flag true) &&
        y.details .preferredGasketVendor == none := by decide +kernel
  obtain ⟨x, db₁, hx, _⟩ := Service.exists_answer hfirst
  rw [hx] at hsecond
  obtain ⟨y, db₂, hy, hcolumns⟩ := Service.exists_answer hsecond
  obtain ⟨_, _, hagain, hoverride⟩ :=
    section_updates_compose .sealing acmeDatabase hreached ⟨11⟩ hfound u hx
  simp only [Bool.and_eq_true, beq_iff_eq] at hcolumns
  obtain ⟨⟨⟨hcommodity, hplace⟩, hflag⟩, hcleared⟩ := hcolumns
  exact ⟨x, y, db₁, db₂, hx, hagain, hy, hoverride v y db₂ hy, hcommodity, hplace, hflag, hcleared⟩

end CarCare

import CarCare.Proofs.Schema.Accepted

/-!
Payloads of sections: what a payload that the schemas of sections accept sets.

What is proved:
  1. `Service.accept_place`: the place that an accepted payload sets is the one that it asks for.
  2. `Service.accept_commodity`: it names a commodity, clears it or leaves it as it is, and so
     `Service.accept_named` and `Service.accept_clears`: when it does so.
-/
namespace CarCare

/-! ## Payloads -/

def Schema.commodityKey (existing : Bool) : SchemaKey :=
  { name := "commodity", rule := .text true (some 200), required := !existing,
    nullable := existing }

def Schema.markKey (existing : Bool) : SchemaKey :=
  { name := "inherit_from_parent", rule := .flag, nullable := existing }

def Schema.placeKey (existing : Bool) : SchemaKey :=
  { name := "sort_order", rule := .integer, nullable := existing }

theorem Schema.commodity_mem (kind : SectionKind) (existing : Bool) :
    commodityKey existing ∈ ofSection kind existing :=
  List.mem_cons_self

theorem Schema.mark_mem (kind : SectionKind) (existing : Bool) :
    markKey existing ∈ ofSection kind existing :=
  List.mem_append_right _ List.mem_cons_self

theorem Schema.place_mem (kind : SectionKind) (existing : Bool) :
    placeKey existing ∈ ofSection kind existing :=
  List.mem_append_right _ (List.mem_cons_of_mem _ List.mem_cons_self)

theorem Schema.detail_mem {kind : SectionKind} {d : Detail} (h : d ∈ kind.details)
    (existing : Bool) : { name := d.name, rule := Rule.ofKind d.kind } ∈ ofSection kind existing :=
  List.mem_append_left _ (List.mem_append_right _ (List.mem_map_of_mem h))

/-- The place in the display order that a payload asks for, as it is read. -/
def Value.place? (payload : Value) : Option Int :=
  match payload.get? "sort_order" with
  | some (.scalar x) => (Schema.readInteger x).toOption
  | _ => none

namespace Service
variable {kind : SectionKind} {existing : Bool} {payload : Value} {members : Members}

theorem section_names (kind : SectionKind) (existing : Bool) :
    ((Schema.ofSection kind existing).map (·.name)).Nodup := by
  cases kind <;> cases existing <;> decide +kernel

theorem accept_place (accepted : accept (.ofSection kind existing) payload = .ok members) :
    (SectionChange.ofMembers kind members).sortOrder = payload.place? := by
  obtain ⟨hgiven, hleft⟩ :=
    accept_given accepted (section_names kind existing) (Schema.place_mem kind existing)
  show SectionChange.integerMember members (Schema.placeKey existing).name = _
  unfold SectionChange.integerMember Value.place?
  cases hvalue : payload.get? "sort_order" with
  | none => rw [(hleft hvalue).2]
  | some value =>
    obtain ⟨converted, hconvert, hlookup⟩ := hgiven value hvalue
    rw [hlookup]
    by_cases hnull : value = .null
    · -- An empty place is accepted of a change only, and sets nothing.
      subst hnull
      cases existing with
      | false => cases hconvert
      | true =>
        obtain rfl := Except.ok.inj hconvert
        rfl
    · rw [SchemaKey.convert_of_ne_null _ hnull] at hconvert
      obtain ⟨x, n, rfl, hread, rfl⟩ := Schema.convert_integer hconvert
      dsimp only
      rw [hread]
      rfl

/-- What an accepted payload does with the commodity: it names one, or else it leaves it out or
clears it, but a new section has to name one. -/
theorem accept_commodity (accepted : accept (.ofSection kind existing) payload = .ok members) :
    let change := SectionChange.ofMembers kind members
    (∃ s, payload.get? "commodity" = some (.text s) ∧ change.commodity = some (some s)) ∨
    existing ∧ (payload.get? "commodity" = none ∧ change.commodity = none ∨
      payload.get? "commodity" = some .null ∧ change.commodity = some none) := by
  intro change
  obtain ⟨hgiven, hleft⟩ :=
    accept_given accepted (section_names kind existing) (Schema.commodity_mem kind existing)
  have hset : change.commodity =
      SectionChange.textMember members (Schema.commodityKey existing).name := rfl
  rw [hset, SectionChange.textMember]
  cases hvalue : payload.get? "commodity" with
  | none =>
    obtain ⟨hoptional, hnone⟩ := hleft hvalue
    rw [hnone]
    exact .inr ⟨by simpa [Schema.commodityKey] using hoptional, .inl ⟨rfl, rfl⟩⟩
  | some value =>
    obtain ⟨converted, hconvert, hkept⟩ := hgiven value hvalue
    rw [hkept]
    by_cases hnull : value = .null
    · subst hnull
      cases existing with
      | false => cases hconvert
      | true =>
        obtain rfl := Except.ok.inj hconvert
        exact .inr ⟨rfl, .inr ⟨rfl, rfl⟩⟩
    · rw [SchemaKey.convert_of_ne_null _ hnull] at hconvert
      obtain ⟨s, rfl, rfl⟩ := Schema.convert_text hconvert
      exact .inl ⟨s, rfl, rfl⟩

theorem accept_named (accepted : accept (.ofSection kind existing) payload = .ok members)
    {commodity : String} : (SectionChange.ofMembers kind members).named? = some commodity ↔
      payload.get? "commodity" = some (.text commodity) := by
  rcases accept_commodity accepted with ⟨s, h, hset⟩ | ⟨_, ⟨h, hset⟩ | ⟨h, hset⟩⟩ <;>
    simp [SectionChange.named?, h, hset]

theorem accept_clears (accepted : accept (.ofSection kind existing) payload = .ok members) :
    (SectionChange.ofMembers kind members).commodity = some none ↔
      payload.get? "commodity" = some .null := by
  rcases accept_commodity accepted with ⟨s, h, hset⟩ | ⟨_, ⟨h, hset⟩ | ⟨h, hset⟩⟩ <;>
    simp [h, hset]

end Service

end CarCare

import CarCare.Proofs.Store.Move

/-!
Revisions of a row: what they leave alone, and what they make of the sections of a kind. A revision
touches one list of sections at most, in one of three ways (`SectionsMove`); each keeps the ids and
the commodities of a list apart.
-/
namespace CarCare

/-! ## What a revision does -/

theorem SectionChange.apply_id {c : SectionChange} {kind : SectionKind} {old new : SectionRow}
    (h : c.apply kind old = .ok new) :
    new.id = old.id ∧ new.commodity = c.named?.getD old.commodity := by
  unfold apply at h
  split at h
  · cases h
  · obtain rfl := Except.ok.inj h
    exact ⟨rfl, rfl⟩

namespace Store
variable {s : Store} {t : LeaseTables} {row new : InstructionRow}

/-- What a revision leaves alone. A row may retire, but never comes back. -/
theorem Revision.frame (h : s.Revision row new) : new.id = row.id ∧ new.level = row.level ∧
    new.scopes = row.scopes ∧ new.version = row.version ∧ (new.isCurrent → row.isCurrent) := by
  cases h with
  | overlaid now change _ =>
    obtain ⟨hid, hlevel, hscopes, hversion, hcurrent, _⟩ := Session.overlaid_frame now change row
    exact ⟨hid, hlevel, hscopes, hversion, fun h => hcurrent ▸ h⟩
  | retired now => exact ⟨rfl, rfl, rfl, rfl, nofun⟩
  | sectionAdded kind _ _ _ _ _ _ | sectionChanged kind _ _ _ _ _ _ _ | sectionRemoved kind _ _ =>
    obtain ⟨hid, hlevel, hscopes, hversion, hcurrent⟩ := row.withSections_frame kind _
    exact ⟨hid, hlevel, hscopes, hversion, fun h => hcurrent ▸ h⟩

/-- A move forgets no row: it is found by its id as before, or what it has been revised to, if it was
current. -/
theorem Move.row?_after {s' : Store} {aim : Option Aim} (move : s.Move t aim s') {id : Uuid}
    {r : InstructionRow} (found : s.row? id = some r) :
    ∃ r', s'.row? id = some r' ∧ (r' = r ∨ (r.isCurrent ∧ s.Revision r r')) := by
  have hreplaced : ∀ {row new : InstructionRow}, s.current? row.id = some row →
      s.Revision row new →
        ∃ r', (s.replace new).row? id = some r' ∧ (r' = r ∨ (r.isCurrent ∧ s.Revision r r')) := by
    intro row new current revision
    obtain ⟨hrow, hcurrent⟩ := current?_eq_some.mp current
    obtain ⟨hid, _⟩ := revision.frame
    by_cases hne : id = new.id
    · subst hne
      obtain rfl : r = row := Option.some.inj (found.symm.trans (hid ▸ hrow))
      exact ⟨new, row?_replace_self found, .inr ⟨hcurrent, revision⟩⟩
    · exact ⟨r, (row?_replace_of_ne hne).trans found, .inl rfl⟩
  cases move with
  | stay => exact ⟨r, found, .inl rfl⟩
  | declare _ _ _ _ _ _ _ _ _ _ _ => exact ⟨r, row?_append found _, .inl rfl⟩
  | revise row new current revision _ => exact hreplaced current revision
  | retire row now current => exact hreplaced current (.retired now)

/-- What a revision can make of the sections of a kind. -/
inductive SectionsMove (s : Store) (kind : SectionKind) (l : List SectionRow) :
    List SectionRow → Prop
  | kept : SectionsMove s kind l l
  | added (x : SectionRow) (legal : s.sectionFault? kind l x = none) :
      SectionsMove s kind l (l ++ [x])
  | changed (old x : SectionRow) (held : old ∈ l) (same : x.id = old.id)
      (free : x.commodity = old.commodity ∨
        ∀ y ∈ l, y.id ≠ old.id → y.commodity ≠ x.commodity) :
      SectionsMove s kind l (l.map fun y => if y.id = old.id then x else y)
  | removed (id : Uuid) : SectionsMove s kind l (l.filter (·.id != id))

theorem Revision.sections (h : s.Revision row new) (kind : SectionKind) :
    s.SectionsMove kind (row.sections kind) (new.sections kind) := by
  -- The sections of the other kind are kept.
  have hother : ∀ (j : SectionKind) (l : List SectionRow),
      (kind = j → s.SectionsMove kind (row.sections kind) l) →
      s.SectionsMove kind (row.sections kind) ((row.withSections j l).sections kind) := by
    intro j l hl
    by_cases hj : kind = j
    · have := hl hj
      subst hj
      rwa [row.sections_withSections_self]
    · rw [row.sections_withSections_of_ne hj]
      exact .kept
  cases h with
  | overlaid now change _ =>
    obtain ⟨_, _, _, _, _, hsections⟩ := Session.overlaid_frame now change row
    rw [hsections kind]
    exact .kept
  | retired now => cases kind <;> exact .kept
  | sectionAdded j _ _ x _ _ hlegal =>
    refine hother j _ fun hj => ?_
    subst hj
    exact .added x hlegal
  | sectionChanged j change old x _ hfound hfree happlied =>
    refine hother j _ fun hj => ?_
    subst hj
    obtain ⟨hid, hcommodity⟩ := SectionChange.apply_id happlied
    refine .changed old x (section?_eq_some hfound).2.1 hid ?_
    cases hnamed : change.named? with
    | none => exact .inl (by rw [hcommodity, hnamed, Option.getD_none])
    | some c =>
      rw [hnamed, Option.getD_some] at hcommodity
      rw [hcommodity]
      -- A section that takes another commodity was compared with the others.
      exact Session.renamedOnto?_eq_none.mp hfree c hnamed
  | sectionRemoved j old _ =>
    refine hother j _ fun hj => ?_
    subst hj
    exact .removed old.id

/-! ## Sections of a row -/

theorem sectionFault?_eq_none {kind : SectionKind} {l : List SectionRow} {x : SectionRow}
    (h : s.sectionFault? kind l x = none) : s.hasSection kind x.id = false ∧
      (∀ y ∈ l, y.id ≠ x.id) ∧ ∀ y ∈ l, y.commodity ≠ x.commodity := by
  unfold sectionFault? at h
  split at h
  · cases h
  · rename_i hid
    split at h
    · cases h
    · rename_i hcommodity
      simp_all

variable {kind : SectionKind} {l l' : List SectionRow}

/-- A section after a move has the id of one before it, or one that no stored section has. -/
theorem SectionsMove.origin (h : s.SectionsMove kind l l') {x : SectionRow} (hx : x ∈ l') :
    (∃ y ∈ l, y.id = x.id) ∨ s.hasSection kind x.id = false := by
  cases h with
  | kept => exact .inl ⟨x, hx, rfl⟩
  | added new hlegal =>
    rcases List.mem_append.mp hx with hold | hnew
    · exact .inl ⟨x, hold, rfl⟩
    · rw [List.mem_singleton.mp hnew]
      exact .inr (sectionFault?_eq_none hlegal).1
  | changed old new hheld hsame _ =>
    obtain ⟨y, hy, rfl⟩ := List.mem_map.mp hx
    by_cases hid : y.id = old.id
    · rw [if_pos hid]
      exact .inl ⟨old, hheld, hsame.symm⟩
    · rw [if_neg hid]
      exact .inl ⟨y, hy, rfl⟩
  | removed id => exact .inl ⟨x, (List.mem_filter.mp hx).1, rfl⟩

theorem SectionsMove.ids_nodup (h : s.SectionsMove kind l l') (ids : (l.map (·.id)).Nodup) :
    (l'.map (·.id)).Nodup := by
  cases h with
  | kept => exact ids
  | added x hlegal => exact nodup_map_append ids (sectionFault?_eq_none hlegal).2.1
  | changed old x _ hsame _ =>
    have hmap : ((l.map fun y => if y.id = old.id then x else y).map (·.id)) = l.map (·.id) := by
      rw [List.map_map]
      refine List.map_congr_left fun y _ => ?_
      by_cases hid : y.id = old.id <;> simp [hid, hsame]
    rw [hmap]
    exact ids
  | removed id => exact ids.sublist (List.filter_sublist.map _)

theorem SectionsMove.commodities_nodup (h : s.SectionsMove kind l l')
    (ids : (l.map (·.id)).Nodup) (commodities : (l.map (·.commodity)).Nodup) :
    (l'.map (·.commodity)).Nodup := by
  cases h with
  | kept => exact commodities
  | added x hlegal => exact nodup_map_append commodities (sectionFault?_eq_none hlegal).2.2
  | changed old x hheld _ hfree =>
    rw [List.map_map]
    refine List.Nodup.map_on ?_ ids.of_map
    intro a ha b hb hab
    have hold : ∀ y ∈ l, y.id = old.id → y = old := fun y hy hid =>
      List.inj_on_of_nodup_map ids hy hheld hid
    -- The changed section could only meet one that had the commodity before.
    have hmeet : ∀ y ∈ l, y.id ≠ old.id → y.commodity ≠ x.commodity := by
      rcases hfree with hsame | hfree
      · intro y hy hne heq
        have := List.inj_on_of_nodup_map commodities hy hheld (heq.trans hsame)
        exact hne (congrArg SectionRow.id this)
      · exact hfree
    by_cases ha' : a.id = old.id <;> by_cases hb' : b.id = old.id
    · rw [hold a ha ha', hold b hb hb']
    · simp only [Function.comp, ha', hb', if_true, if_false] at hab
      exact absurd hab.symm (hmeet b hb hb')
    · simp only [Function.comp, ha', hb', if_true, if_false] at hab
      exact absurd hab (hmeet a ha ha')
    · simp only [Function.comp, ha', hb', if_false] at hab
      exact List.inj_on_of_nodup_map commodities ha hb hab
  | removed id => exact commodities.sublist (List.filter_sublist.map _)

end Store

end CarCare

import CarCare.Proofs.Store.Revision

/-!
Stores as the writes of a system leave them whose leasing tables change on the way, so that a scope
can be gone that a row was declared at.

What is proved:
  1. `Store.Reached.filed`: rows of such a store are told apart by their ids, each is filed under one
     scope of its own level, and no commodity occurs twice among its sections of a kind.
  2. `Store.Reached.single`: no two current rows of such a store share a scope.
  3. `Store.Reached.owned`: no two rows of such a store hold a section of one id.
  4. `Store.Filed.read`: hence a record that is read at a level is of that level.
-/
namespace CarCare

/-- The stores that writes lead to from an empty one. The leasing tables may be others at each
write. -/
inductive Store.Reached : Store → Prop
  | empty : Reached {}
  | write {s} (before : Reached s) (leases : LeaseTables) (w : Write) :
      Reached (w.perform { leases, instructions := s }).instructions

/-- The stores that writes lead to from another one, over leasing tables that may change as well. -/
inductive Store.Later (s : Store) : Store → Prop
  | same : Later s s
  | write {s'} (before : Later s s') (leases : LeaseTables) (w : Write) :
      Later s (w.perform { leases, instructions := s' }).instructions

theorem Store.Later.reached {s s' : Store} (h : s.Later s') (reached : s.Reached) : s'.Reached := by
  induction h with
  | same => exact reached
  | write _ leases w ih => exact .write ih leases w

theorem Store.Later.run {s : Store} {db : Database} (h : s.Later db.instructions)
    (writes : List Write) : s.Later (db.run writes).instructions := by
  induction writes generalizing db with
  | nil => exact h
  | cons w rest ih => exact ih (.write h db.leases w)

theorem Database.run_reached (db : Database) (h : db.instructions.Reached) (writes : List Write) :
    (db.run writes).instructions.Reached :=
  (Store.Later.same.run writes).reached h

/-- A row that is declared at one scope, of its own level, and whose sections of a kind are told
apart by their ids and by their commodities. -/
structure InstructionRow.Filed (r : InstructionRow) : Prop where
  scopes : ∃ scope, r.scopes = .only r.level scope
  sectionIds : ∀ kind, ((r.sections kind).map (·.id)).Nodup
  commodities : ∀ kind, ((r.sections kind).map (·.commodity)).Nodup

/-- A store of such rows, which are told apart by their ids. -/
structure Store.Filed (s : Store) : Prop where
  ids : (s.rows.map (·.id)).Nodup
  rows : ∀ r ∈ s.rows, r.Filed

theorem newRow_filed (stamp : Stamp) (level : Level) (scope : Uuid) (name : Option String)
    (fields : Fields) (actor : Option Uuid) :
    (Session.newRow stamp level scope name fields actor).Filed where
  scopes := ⟨scope, rfl⟩
  sectionIds kind := by cases kind <;> exact List.nodup_nil
  commodities kind := by cases kind <;> exact List.nodup_nil

namespace Store
variable {s s' : Store} {t : LeaseTables} {row new : InstructionRow}

theorem Revision.filed (h : s.Revision row new) (hrow : row.Filed) : new.Filed := by
  obtain ⟨_, hlevel, hscopes, _, _⟩ := h.frame
  exact {
    scopes := by rw [hscopes, hlevel]; exact hrow.scopes
    sectionIds := fun kind => (h.sections kind).ids_nodup (hrow.sectionIds kind)
    commodities := fun kind =>
      (h.sections kind).commodities_nodup (hrow.sectionIds kind) (hrow.commodities kind) }

theorem Filed.revise (h : s.Filed) (found : s.current? row.id = some row)
    (revision : s.Revision row new) : (s.replace new).Filed := by
  refine ⟨replace_ids.symm ▸ h.ids, fun r hr => ?_⟩
  rcases mem_replace hr with rfl | ⟨hold, _⟩
  · exact revision.filed (h.rows row (row?_eq_some (current?_eq_some.mp found).1).1)
  · exact h.rows r hold

theorem Filed.move (h : s.Filed) {aim : Option Aim} (move : s.Move t aim s') : s'.Filed := by
  cases move with
  | stay => exact h
  | declare today stamp level scope info fields actor known free accepted legal =>
    refine ⟨nodup_map_append h.ids (row?_eq_none.mp (fault?_eq_none_id legal)), fun r hr => ?_⟩
    rcases List.mem_append.mp hr with hold | hnew
    · exact h.rows r hold
    · rw [List.mem_singleton.mp hnew]
      exact newRow_filed stamp level scope info.name fields actor
  | revise row new found revision _ => exact h.revise found revision
  | retire row now found => exact h.revise found (.retired now)

theorem Reached.filed (h : s.Reached) : s.Filed := by
  induction h with
  | empty => exact ⟨List.nodup_nil, fun r hr => absurd hr List.not_mem_nil⟩
  | write _ leases w ih => exact ih.move (w.move { leases, instructions := _ } ih.ids).2

/-- What the empty store keeps to, and every move leaves so, every such store keeps to. -/
theorem Reached.invariant {P : Store → Prop} (h : s.Reached) (empty : P {})
    (move : ∀ {s s' : Store} {t : LeaseTables}, P s → ∀ {aim}, s.Move t aim s' → P s') : P s := by
  induction h with
  | empty => exact empty
  | write before leases w ih =>
    exact move ih (w.move { leases, instructions := _ } before.filed.ids).2

/-! ## One current row for a scope -/

/-- A store in which no two current rows share a scope. -/
def Single (s : Store) : Prop := ∀ a ∈ s.rows, ∀ b ∈ s.rows, a.isCurrent → b.isCurrent →
  ∀ level scope, a.scopes.get level = some scope → b.scopes.get level = some scope → a = b

/-- A new row has a scope at its own level only, so it meets nobody where that one was free. -/
theorem newRow_free {level : Level} {scope : Uuid} (free : s.byScope? level scope = none)
    (stamp : Stamp) (name : Option String) (fields : Fields) (actor : Option Uuid) :
    ∀ r ∈ s.rows, r.isCurrent → ∀ l id,
      (Session.newRow stamp level scope name fields actor).scopes.get l = some id →
        r.scopes.get l ≠ some id := by
  intro r hr hcurrent l id hnew
  have hnew : (ScopeIds.only level scope).get l = some id := hnew
  by_cases hl : l = level
  · subst hl
    rw [ScopeIds.get_only_self] at hnew
    rw [← Option.some.inj hnew]
    exact byScope?_eq_none.mp free r hr hcurrent
  · rw [ScopeIds.get_only_of_ne hl] at hnew
    cases hnew

theorem Single.append (h : s.Single) (free : ∀ r ∈ s.rows, r.isCurrent → ∀ level scope,
    new.scopes.get level = some scope → r.scopes.get level ≠ some scope) :
    (⟨s.rows ++ [new]⟩ : Store).Single := by
  intro a ha b hb hca hcb level scope hla hlb
  rw [List.mem_append, List.mem_singleton] at ha hb
  rcases ha with ha' | rfl <;> rcases hb with hb' | rfl
  · exact h a ha' b hb' hca hcb level scope hla hlb
  · exact absurd hla (free a ha' hca level scope hlb)
  · exact absurd hlb (free b hb' hcb level scope hla)
  · rfl

theorem Single.revise (h : s.Single) (found : s.current? row.id = some row)
    (revision : s.Revision row new) : (s.replace new).Single := by
  obtain ⟨hid, _, hscopes, _, hcurrent⟩ := revision.frame
  have hmem : row ∈ s.rows := (row?_eq_some (current?_eq_some.mp found).1).1
  -- The scope of the revised row is the old one's, which no other current row shares.
  have hscope : ∀ b ∈ s.rows, b.id ≠ new.id → new.isCurrent → b.isCurrent →
      ∀ l id, new.scopes.get l = some id → b.scopes.get l ≠ some id := by
    intro b hb hne hcn hcb l id hln hlb
    rw [hscopes] at hln
    obtain rfl := h row hmem b hb (hcurrent hcn) hcb l id hln hlb
    exact hne hid.symm
  intro a ha b hb hca hcb l id hla hlb
  rcases mem_replace ha with rfl | ⟨ha', hna⟩ <;> rcases mem_replace hb with rfl | ⟨hb', hnb⟩
  · rfl
  · exact absurd hlb (hscope b hb' hnb hca hcb l id hla)
  · exact absurd hla (hscope a ha' hna hcb hca l id hlb)
  · exact h a ha' b hb' hca hcb l id hla hlb

theorem Single.byScope?_of_mem (h : s.Single) (hrow : row ∈ s.rows) (current : row.isCurrent)
    {level : Level} {scope : Uuid} (declared : row.scopes.get level = some scope) :
    s.byScope? level scope = some row := by
  cases hfound : s.byScope? level scope with
  | none => exact absurd declared (byScope?_eq_none.mp hfound row hrow current)
  | some a =>
    obtain ⟨ha, hcurrent, hscope⟩ := byScope?_eq_some hfound
    rw [h a ha row hrow hcurrent current level scope hscope declared]

theorem Single.byScope?_replace (h : s.Single) (found : s.current? row.id = some row)
    (revision : s.Revision row new) (kept : new.isCurrent) {level : Level} {scope : Uuid}
    (declared : row.scopes.get level = some scope) :
    (s.replace new).byScope? level scope = some new := by
  obtain ⟨hid, _, hscopes, _, _⟩ := revision.frame
  have hmem : new ∈ (s.replace new).rows :=
    (row?_eq_some (row?_replace_self (hid ▸ (current?_eq_some.mp found).1))).1
  refine (h.revise found revision).byScope?_of_mem hmem kept ?_
  rw [hscopes]
  exact declared

theorem Single.move (h : s.Single) {aim : Option Aim} (move : s.Move t aim s') : s'.Single := by
  cases move with
  | stay => exact h
  | declare today stamp level scope info fields actor known free accepted legal =>
    exact h.append (newRow_free free stamp info.name fields actor)
  | revise row new found revision _ => exact h.revise found revision
  | retire row now found => exact h.revise found (.retired now)

theorem Reached.single (h : s.Reached) : s.Single :=
  h.invariant (fun _ ha => absurd ha List.not_mem_nil) Single.move

/-! ## One owner for a section -/

/-- A store in which no two rows hold a section of one id. -/
def Owned (s : Store) : Prop := ∀ a ∈ s.rows, ∀ b ∈ s.rows, ∀ kind, ∀ x ∈ a.sections kind,
  ∀ y ∈ b.sections kind, x.id = y.id → a = b

/-- Two rows meet only where both are old: a new one without sections has none to share. -/
theorem Owned.append (h : s.Owned) (bare : ∀ kind, new.sections kind = []) :
    (⟨s.rows ++ [new]⟩ : Store).Owned := by
  have hbare : ∀ kind, ∀ x, x ∉ new.sections kind := by
    intro kind x hx
    rw [bare kind] at hx
    cases hx
  intro a ha b hb kind x hx y hy hxy
  rw [List.mem_append, List.mem_singleton] at ha hb
  rcases ha with ha' | rfl <;> rcases hb with hb' | rfl
  · exact h a ha' b hb' kind x hx y hy hxy
  · exact absurd hy (hbare kind y)
  · exact absurd hx (hbare kind x)
  · rfl

theorem Owned.revise (h : s.Owned) (found : s.current? row.id = some row)
    (revision : s.Revision row new) : (s.replace new).Owned := by
  obtain ⟨hid, _⟩ := revision.frame
  have hmem : row ∈ s.rows := (row?_eq_some (current?_eq_some.mp found).1).1
  -- Another row than the revised one shares none of its sections.
  have hsection : ∀ b ∈ s.rows, b.id ≠ new.id → ∀ kind, ∀ x ∈ new.sections kind,
      ∀ y ∈ b.sections kind, x.id ≠ y.id := by
    intro b hb hne kind x hx y hy hxy
    rcases (revision.sections kind).origin hx with ⟨z, hz, hzx⟩ | hfresh
    · obtain rfl := h row hmem b hb kind z hz y hy (hzx.trans hxy)
      exact hne hid.symm
    · exact hasSection_eq_false.mp hfresh b hb y hy hxy.symm
  intro a ha b hb kind x hx y hy hxy
  rcases mem_replace ha with rfl | ⟨ha', hna⟩ <;> rcases mem_replace hb with rfl | ⟨hb', hnb⟩
  · rfl
  · exact absurd hxy (hsection b hb' hnb kind x hx y hy)
  · exact absurd hxy.symm (hsection a ha' hna kind y hy x hx)
  · exact h a ha' b hb' kind x hx y hy hxy

theorem Owned.move (h : s.Owned) {aim : Option Aim} (move : s.Move t aim s') : s'.Owned := by
  cases move with
  | stay => exact h
  | declare today stamp level scope info fields actor known free accepted legal =>
    exact h.append Session.newRow_sections
  | revise row new found revision _ => exact h.revise found revision
  | retire row now found => exact h.revise found (.retired now)

theorem Reached.owned (h : s.Reached) : s.Owned :=
  h.invariant (fun _ ha => absurd ha List.not_mem_nil) Owned.move

theorem Owned.section?_of_mem (h : s.Owned) (hrow : row ∈ s.rows) (filed : row.Filed)
    {kind : SectionKind} {x : SectionRow} (hx : x ∈ row.sections kind) :
    s.section? kind x.id = some (row, x) := by
  cases hf : s.section? kind x.id with
  | none => exact absurd rfl (section?_eq_none.mp hf row hrow x hx)
  | some found =>
    obtain ⟨a, y⟩ := found
    -- The finder stops at the first section of that id, which has no other owner.
    obtain ⟨ha, hy, hid⟩ := section?_eq_some hf
    obtain rfl := h a ha row hrow kind y hy x hx hid
    rw [List.inj_on_of_nodup_map (filed.sectionIds kind) hy hx hid]

theorem Reached.section?_of_mem (h : s.Reached) (hrow : row ∈ s.rows) {kind : SectionKind}
    {x : SectionRow} (hx : x ∈ row.sections kind) : s.section? kind x.id = some (row, x) :=
  h.owned.section?_of_mem hrow (h.filed.rows row hrow) hx

end Store

/-! ## Reading -/

theorem InstructionRow.read_sections (r : InstructionRow) (kind : SectionKind) :
    r.read.sections kind =
      ((r.sections kind).mergeSort SectionRow.shownBefore).map (·.toSection r.id) := by
  cases kind <;> rfl

theorem InstructionRow.Filed.read_commodities {r : InstructionRow} (h : r.Filed)
    (kind : SectionKind) : ((r.read.sections kind).map (·.commodity)).Nodup := by
  rw [r.read_sections, List.map_map]
  exact ((List.mergeSort_perm _ _).map _).nodup_iff.mpr (h.commodities kind)

theorem Store.Filed.read {s : Store} (h : s.Filed) {level : Level} {scope : Uuid} {r : Instruction}
    (hr : s.read level scope = some r) :
    r.level = some level ∧ ∀ kind, ((r.sections kind).map (·.commodity)).Nodup := by
  obtain ⟨row, hrow, rfl⟩ := Option.map_eq_some_iff.mp hr
  obtain ⟨hmem, _, hget⟩ := Store.byScope?_eq_some hrow
  have hfiled := h.rows row hmem
  obtain ⟨own, hown⟩ := hfiled.scopes
  refine ⟨congrArg some ?_, hfiled.read_commodities⟩
  by_contra hne
  rw [hown, ScopeIds.get_only_of_ne (Ne.symm hne)] at hget
  cases hget

end CarCare

import CarCare.Proofs.Store.Reached

/-!
What every instruction store keeps to, whatever is written to it.

What is proved:
  1. `Store.Sound.move`: every move keeps a store sound. `Store.Sound` is the invariant: ids tell
     rows apart, a scope has one current row, a section is held once, and each row is sound by
     itself.
  2. `Database.run_sound`: hence every run from an empty store ends in a sound one.
  3. `run_keeps_rules`: what a sound store is to its users, spelled out.
-/
namespace CarCare

/-- A row that is sound by itself: it is declared at one scope, which the leasing tables know on
every day, it is of the first version, and neither an id nor a commodity occurs twice among its
sections of a kind. -/
structure InstructionRow.Sound (t : LeaseTables) (r : InstructionRow) : Prop where
  located : ∃ scope, r.scopes = .only r.level scope ∧
    ∀ today, ((t.directory today).scope? r.level scope).isSome
  version : r.version = 1
  sectionIds : ∀ kind, ((r.sections kind).map (·.id)).Nodup
  commodities : ∀ kind, ((r.sections kind).map (·.commodity)).Nodup

/-- A store whose rows are sound and told apart by their ids, of which no two current ones share a
scope, and no two hold a section of one id. -/
structure Store.Sound (t : LeaseTables) (s : Store) : Prop where
  ids : (s.rows.map (·.id)).Nodup
  rows : ∀ r ∈ s.rows, r.Sound t
  single : ∀ a ∈ s.rows, ∀ b ∈ s.rows, a.isCurrent → b.isCurrent →
    ∀ level scope, a.scopes.get level = some scope → b.scopes.get level = some scope → a = b
  owner : ∀ a ∈ s.rows, ∀ b ∈ s.rows, ∀ kind, ∀ x ∈ a.sections kind, ∀ y ∈ b.sections kind,
    x.id = y.id → a = b

theorem Store.Sound.empty (t : LeaseTables) : ({} : Store).Sound t where
  ids := List.nodup_nil
  rows _ hr := absurd hr List.not_mem_nil
  single _ ha := absurd ha List.not_mem_nil
  owner _ ha := absurd ha List.not_mem_nil

def Database.Sound (db : Database) : Prop := db.instructions.Sound db.leases

theorem Database.Sound.empty (leases : LeaseTables) : ({ leases } : Database).Sound :=
  Store.Sound.empty leases

/-! ## Rows -/

/-- Which scopes there are does not depend on the day. -/
theorem LeaseTables.scope?_isSome (t : LeaseTables) (day today : Date) (level : Level)
    (scope : Uuid) : ((t.directory today).scope? level scope).isSome =
      ((t.directory day).scope? level scope).isSome := by
  show (t.scope? today level scope).isSome = (t.scope? day level scope).isSome
  cases level <;> simp [scope?]

theorem newRow_sound {t : LeaseTables} {today : Date} {level : Level} {scope : Uuid} {info : Scope}
    (known : (t.directory today).scope? level scope = some info) (stamp : Stamp)
    (name : Option String) (fields : Fields) (actor : Option Uuid) :
    (Session.newRow stamp level scope name fields actor).Sound t where
  located := ⟨scope, rfl, fun day => by
    show ((t.directory day).scope? level scope).isSome
    rw [t.scope?_isSome today day, known]
    rfl⟩
  version := rfl
  sectionIds := (newRow_filed stamp level scope name fields actor).sectionIds
  commodities := (newRow_filed stamp level scope name fields actor).commodities

theorem InstructionRow.Sound.filed {t : LeaseTables} {r : InstructionRow} (h : r.Sound t) :
    r.Filed where
  scopes := let ⟨scope, hscopes, _⟩ := h.located; ⟨scope, hscopes⟩
  sectionIds := h.sectionIds
  commodities := h.commodities

namespace Store
variable {s : Store} {t : LeaseTables} {row new : InstructionRow}

theorem Revision.sound (h : s.Revision row new) (hrow : row.Sound t) : new.Sound t := by
  obtain ⟨_, hlevel, hscopes, hversion, _⟩ := h.frame
  have hfiled := h.filed hrow.filed
  exact {
    located := by rw [hscopes, hlevel]; exact hrow.located
    version := hversion.trans hrow.version
    sectionIds := hfiled.sectionIds
    commodities := hfiled.commodities }

/-! ## Moves -/

theorem Sound.append (h : s.Sound t) (sound : new.Sound t) (fresh : s.row? new.id = none)
    (bare : ∀ kind, new.sections kind = [])
    (free : ∀ r ∈ s.rows, r.isCurrent → ∀ level scope, new.scopes.get level = some scope →
      r.scopes.get level ≠ some scope) : (⟨s.rows ++ [new]⟩ : Store).Sound t := by
  have hrows : ∀ r ∈ s.rows ++ [new], r ∈ s.rows ∨ r = new := by
    intro r hr
    rw [List.mem_append, List.mem_singleton] at hr
    exact hr
  constructor
  · exact nodup_map_append h.ids (row?_eq_none.mp fresh)
  · intro r hr
    rcases hrows r hr with hold | rfl
    · exact h.rows r hold
    · exact sound
  · exact Single.append h.single free
  · exact Owned.append h.owner bare

theorem Sound.declare (h : s.Sound t) {today : Date} {stamp : Stamp} {level : Level} {scope : Uuid}
    {info : Scope} {fields : Fields} {actor : Option Uuid}
    (known : (t.directory today).scope? level scope = some info)
    (free : s.byScope? level scope = none)
    (legal : s.fault? (Session.newRow stamp level scope info.name fields actor) = none) :
    (⟨s.rows ++ [Session.newRow stamp level scope info.name fields actor]⟩ : Store).Sound t := by
  exact h.append (newRow_sound known stamp info.name fields actor) (fault?_eq_none_id legal)
    Session.newRow_sections (newRow_free free stamp info.name fields actor)

theorem Sound.revise (h : s.Sound t) (found : s.current? row.id = some row)
    (revision : s.Revision row new) : (s.replace new).Sound t := by
  have hmem : row ∈ s.rows := (row?_eq_some (current?_eq_some.mp found).1).1
  constructor
  · rw [replace_ids]
    exact h.ids
  · intro r hr
    rcases mem_replace hr with rfl | ⟨hr, _⟩
    · exact revision.sound (h.rows row hmem)
    · exact h.rows r hr
  · exact Single.revise h.single found revision
  · exact Owned.revise h.owner found revision

theorem Sound.move {s' : Store} (h : s.Sound t) {aim : Option Aim} (move : s.Move t aim s') :
    s'.Sound t := by
  cases move with
  | stay => exact h
  | declare today stamp level scope info fields actor known free accepted legal =>
    exact h.declare known free legal
  | revise row new found revision _ => exact h.revise found revision
  | retire row now found => exact h.revise found (.retired now)

/-! ## Reading a sound store -/

theorem Sound.section?_of_mem (h : s.Sound t) {r : InstructionRow} (hr : r ∈ s.rows)
    {kind : SectionKind} {x : SectionRow} (hx : x ∈ r.sections kind) :
    s.section? kind x.id = some (r, x) :=
  Owned.section?_of_mem h.owner hr (h.rows r hr).filed hx

theorem Sound.current_unique (h : s.Sound t) (level : Level) (scope : Uuid) :
    (s.rows.filter fun r => r.isCurrent && r.scopes.get level == some scope).length ≤ 1 := by
  have hnodup := (List.Nodup.of_map _ h.ids).filter fun r =>
    r.isCurrent && r.scopes.get level == some scope
  generalize hl : (s.rows.filter fun r => r.isCurrent && r.scopes.get level == some scope) = l
    at hnodup ⊢
  match l with
  | [] => exact Nat.zero_le 1
  | [_] => exact Nat.le_refl 1
  | a :: b :: rest =>
    -- Two such rows would be one row that is listed twice.
    have hfound : ∀ r ∈ [a, b], r ∈ s.rows ∧ r.isCurrent ∧ r.scopes.get level = some scope := by
      intro r hr
      have hmem : r ∈ a :: b :: rest := List.mem_of_mem_take (i := 2) hr
      rw [← hl] at hmem
      simpa using List.mem_filter.mp hmem
    obtain ⟨ha, hca, hga⟩ := hfound a (by simp)
    obtain ⟨hb, hcb, hgb⟩ := hfound b (by simp)
    rw [h.single a ha b hb hca hcb level scope hga hgb] at hnodup
    simp at hnodup

end Store

/-! ## Runs -/

theorem Write.perform_sound (db : Database) (h : db.Sound) (w : Write) :
    (w.perform db).leases = db.leases ∧ (w.perform db).Sound := by
  obtain ⟨hleases, hmove⟩ := w.move db h.ids
  refine ⟨hleases, ?_⟩
  unfold Database.Sound
  rw [hleases]
  exact h.move hmove

theorem Database.run_sound (db : Database) (h : db.Sound) (writes : List Write) :
    (db.run writes).leases = db.leases ∧ (db.run writes).Sound := by
  induction writes generalizing db with
  | nil => exact ⟨rfl, h⟩
  | cons w rest ih =>
    obtain ⟨hleases, hsound⟩ := w.perform_sound db h
    obtain ⟨hrest, hrun⟩ := ih (w.perform db) hsound
    exact ⟨hrest.trans hleases, hrun⟩

/-- What holds after every run of writes over leasing tables, from a store without instructions and
whether the writes succeed or fail: an instruction is declared at exactly one scope, by the column of
its level; a scope has one current instruction at most; an instruction has one sealing and one lining
at most for a commodity; every section belongs to one instruction, and both are found by their ids;
every instruction is of the first version; and the leasing tables know its scope. -/
theorem run_keeps_rules (leases : LeaseTables) (writes : List Write) :
    let s := (Database.run { leases } writes).instructions
    (∀ r ∈ s.rows, r.scopes.count = 1 ∧ (r.scopes.get r.level).isSome) ∧
    (∀ level scope,
      (s.rows.filter fun r => r.isCurrent && r.scopes.get level == some scope).length ≤ 1) ∧
    (∀ r ∈ s.rows, ∀ kind, ((r.sections kind).map (·.commodity)).Nodup) ∧
    (∀ r ∈ s.rows, ∀ kind, ∀ x ∈ r.sections kind,
      s.section? kind x.id = some (r, x) ∧ s.row? r.id = some r) ∧
    (∀ r ∈ s.rows, r.version = 1) ∧
    ∀ r ∈ s.rows, ∃ scope, r.scopes.get r.level = some scope ∧
      ∀ today, ((leases.directory today).scope? r.level scope).isSome := by
  intro s
  obtain ⟨hleases, h⟩ := Database.run_sound { leases } (.empty leases) writes
  unfold Database.Sound at h
  rw [hleases] at h
  have hscope : ∀ r ∈ s.rows, ∃ scope, r.scopes.count = 1 ∧ r.scopes.get r.level = some scope ∧
      ∀ today, ((leases.directory today).scope? r.level scope).isSome := by
    intro r hr
    obtain ⟨scope, hscopes, hknown⟩ := (h.rows r hr).located
    rw [hscopes]
    exact ⟨scope, ScopeIds.count_only r.level scope, ScopeIds.get_only_self r.level scope, hknown⟩
  refine ⟨?_, h.current_unique, fun r hr => (h.rows r hr).commodities, ?_,
    fun r hr => (h.rows r hr).version, ?_⟩
  · intro r hr
    obtain ⟨scope, hcount, hget, _⟩ := hscope r hr
    exact ⟨hcount, by rw [hget]; rfl⟩
  · intro r hr kind x hx
    exact ⟨h.section?_of_mem hr hx, s.row?_of_mem h.ids hr⟩
  · intro r hr
    obtain ⟨scope, _, hget, hknown⟩ := hscope r hr
    exact ⟨scope, hget, hknown⟩

/-- A customer's instruction that gets a sealing, is refused a second one for the same commodity, and
is retired before the customer gets another one, which cannot be declared twice. -/
def acmeWrites : List Write :=
  [acmeCreate ⟨10⟩ 0, .addSection .sealing ⟨⟨11⟩, ⟨1⟩⟩ ⟨10⟩ (.object [("commodity", .text "Latex")]),
   .addSection .sealing ⟨⟨12⟩, ⟨2⟩⟩ ⟨10⟩ (.object [("commodity", .text "Latex")]), .delete ⟨3⟩ ⟨10⟩,
   acmeCreate ⟨13⟩ 4, acmeCreate ⟨14⟩ 5]

theorem run_keeps_rules_redeclared :
    let s := (Database.run { leases := acmeTables } acmeWrites).instructions
    s.rows.map (fun r => (r.id, r.isCurrent)) = [(⟨10⟩, false), (⟨13⟩, true)] ∧
    ∃ r ∈ s.rows, r.id = ⟨10⟩ ∧ r.version = 1 ∧ r.scopes.count = 1 ∧
      ∃ x ∈ r.sections .sealing, x.id = ⟨11⟩ ∧ s.section? .sealing x.id = some (r, x) ∧
        s.row? r.id = some r := by
  intro s
  obtain ⟨hscopes, _, _, hsections, hversion, _⟩ := run_keeps_rules acmeTables acmeWrites
  have hheld : ∃ r ∈ s.rows, r.id = ⟨10⟩ ∧ ∃ x ∈ r.sections .sealing, x.id = ⟨11⟩ := by
    decide +kernel
  obtain ⟨r, hr, hid, x, hx, hxid⟩ := hheld
  refine ⟨by decide +kernel, r, hr, hid, hversion r hr, (hscopes r hr).1, x, hx, hxid, ?_⟩
  exact hsections r hr .sealing x hx

end CarCare

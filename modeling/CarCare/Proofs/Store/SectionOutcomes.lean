import CarCare.Proofs.Store.Refusals
import CarCare.Proofs.Store.SectionPatches

/-!
How writes of sections end, said exactly: when a section or an instruction is not found, when the
instruction is retired, when a commodity is taken, and what is stored otherwise.

What is proved:
  1. `Service.addSection_of_known`, `Service.updateSection_of_found` and
     `Service.removeSection_of_found`: what a write does with what it has found.
  2. `Database.AddsSection`, `Database.ChangesSection` and `Database.RemovesSection`: the same as
     conditions on what is stored, which hold of every store that writes lead to.
  3. `section_write_outcomes`: so do all three.
-/
namespace CarCare

/-! ## New sections -/

/-- A section with nothing set: not a placeholder, and at place 0. -/
def SectionRow.blank (stamp : Stamp) : SectionRow where
  id := stamp.id
  commodity := ""
  details _ := none
  inherits := false
  sortOrder := 0
  createdAt := stamp.now

theorem SectionChange.create_eq_apply {c : SectionChange} {commodity : String}
    (named : c.named? = some commodity) (kind : SectionKind) (stamp : Stamp) :
    c.create kind stamp = c.apply kind (.blank stamp) := by
  have hsame : { c with commodity := some c.named? } = c := by
    rw [named, ← Option.join_eq_some_iff.mp named]
  rw [create, hsame]
  rfl

namespace Service
variable {db : Database} {kind : SectionKind} {id : Uuid} {row : InstructionRow}
  {given members : Members}

theorem addSection_of_unknown (unknown : db.instructions.current? id = none) {payload : Value}
    (accepted : accept (.ofSection kind false) payload = .ok members) (stamp : Stamp) :
    addSection kind stamp db id payload = (.error (.instructionNotFound id), db) := by
  simp only [addSection, write, accepted]
  apply db.transact_refused
  exact Session.addSection_of_unknown unknown

theorem addSection_of_taken (current : db.instructions.current? id = some row) {payload : Value}
    (accepted : accept (.ofSection kind false) payload = .ok members) {commodity : String}
    (taken : (SectionChange.ofMembers kind members).named?.filter (row.hasCommodity kind) =
      some commodity) (stamp : Stamp) :
    addSection kind stamp db id payload = (.error (.commodityTaken commodity id), db) := by
  simp only [addSection, write, accepted]
  apply db.transact_refused
  exact Session.addSection_of_taken current taken

theorem addSection_of_fault (current : db.instructions.current? id = some row) {payload : Value}
    (accepted : accept (.ofSection kind false) payload = .ok members)
    (free : (SectionChange.ofMembers kind members).named?.filter (row.hasCommodity kind) = none)
    {stamp : Stamp} {new : SectionRow}
    (made : (SectionChange.ofMembers kind members).create kind stamp = .ok new)
    {broken : Constraint}
    (fault : db.instructions.sectionFault? kind (row.sections kind) new = some broken) :
    addSection kind stamp db id payload = (.error .sectionExists, db) := by
  simp only [addSection, write, accepted]
  apply db.transact_refused
  exact Session.addSection_of_fault current free made fault

/-- A section is added to a current instruction, unless its commodity is taken or its id is in
use. -/
theorem addSection_of_known (current : db.instructions.current? id = some row)
    (accepted : accept (.ofSection kind false) (.object given) = .ok members) {commodity : String}
    (named : given.lookup "commodity" = some (.text commodity))
    (storable : (Value.object given).place?.all Store.storable) (stamp : Stamp) :
    let out := addSection kind stamp db id (.object given)
    (row.hasCommodity kind commodity ∧ out = (.error (.commodityTaken commodity id), db)) ∨
    (row.hasCommodity kind commodity = false ∧ db.instructions.hasSection kind stamp.id ∧
      out = (.error .sectionExists, db)) ∨
    (row.hasCommodity kind commodity = false ∧ db.instructions.hasSection kind stamp.id = false ∧
      ∃ new,
        ((SectionRow.blank stamp).toSection id).PatchedBy kind false given (new.toSection id) ∧
        out = (.ok (new.toSection id),
          db.put (row.withSections kind (row.sections kind ++ [new])))) := by
  intro out
  rw [← Value.get?_object] at named
  have hnamed := (accept_named accepted).mpr named
  have hfits : (SectionChange.ofMembers kind members).overflows = false := by
    rw [overflows_of_accepted accepted, storable]
    rfl
  have hheld : row ∈ db.instructions.rows :=
    (Store.row?_eq_some (Store.current?_eq_some.mp current).1).1
  have hfilter : (SectionChange.ofMembers kind members).named?.filter (row.hasCommodity kind) =
      if row.hasCommodity kind commodity then some commodity else none := by
    rw [hnamed]
    rfl
  cases htaken : row.hasCommodity kind commodity with
  | true =>
    rw [htaken, if_pos rfl] at hfilter
    exact .inl ⟨rfl, addSection_of_taken current accepted hfilter stamp⟩
  | false =>
    right
    rw [htaken, if_neg Bool.false_ne_true] at hfilter
    obtain ⟨new, hmade, hid, hcommodity⟩ := SectionChange.create_of_named hnamed hfits kind stamp
    have hother : row.hasCommodity kind new.commodity = false := hcommodity ▸ htaken
    cases hfault : db.instructions.sectionFault? kind (row.sections kind) new with
    | some broken =>
      have hused := hid ▸ Store.hasSection_of_fault hheld hother hfault
      exact .inl ⟨rfl, hused, addSection_of_fault current accepted hfilter hmade hfault⟩
    | none =>
      obtain ⟨hunused, _⟩ := Store.sectionFault?_eq_none hfault
      have happlied := (SectionChange.create_eq_apply hnamed kind stamp).symm.trans hmade
      have hpatched := SectionChange.patchedBy (accept_object.mp accepted) happlied id
      have hadded := addSection_of_current current accepted hfilter hmade hfault
      exact .inr ⟨rfl, hid ▸ hunused, new, hpatched, hadded⟩

theorem updateSection_of_retired {old : SectionRow} {payload : Value}
    (found : db.instructions.section? kind id = some (row, old))
    (accepted : accept (.ofSection kind true) payload = .ok members)
    (retired : row.isCurrent = false) :
    updateSection kind db id payload = (.error (.instructionNotFound row.id), db) := by
  simp only [updateSection, write, accepted]
  apply db.transact_refused
  exact Session.updateSection_of_retired found retired

theorem updateSection_of_taken {old : SectionRow} {payload : Value}
    (found : db.instructions.section? kind id = some (row, old))
    (accepted : accept (.ofSection kind true) payload = .ok members) (current : row.isCurrent)
    {commodity : String} (taken : Session.renamedOnto? kind row old (.ofMembers kind members) =
      some commodity) :
    updateSection kind db id payload = (.error (.commodityTaken commodity row.id), db) := by
  simp only [updateSection, write, accepted]
  apply db.transact_refused
  exact Session.updateSection_of_taken found current taken

/-- A change of a section that can be stored is made to a current instruction, unless another
section has the commodity that it names. -/
theorem updateSection_of_found {old : SectionRow}
    (found : db.instructions.section? kind id = some (row, old))
    (accepted : accept (.ofSection kind true) (.object given) = .ok members)
    (storable : (Value.object given).place?.all Store.storable)
    (kept : given.lookup "commodity" ≠ some .null) :
    let out := updateSection kind db id (.object given)
    (row.isCurrent = false ∧ out = (.error (.instructionNotFound row.id), db)) ∨
    (row.isCurrent ∧ ∃ c, Session.renamedOnto? kind row old (.ofMembers kind members) = some c ∧
      out = (.error (.commodityTaken c row.id), db)) ∨
    (row.isCurrent ∧ Session.renamedOnto? kind row old (.ofMembers kind members) = none ∧
      ∃ new, (old.toSection row.id).PatchedBy kind true given (new.toSection row.id) ∧
        out = (.ok (some (new.toSection row.id)), db.put (row.withSection kind id new))) := by
  intro out
  cases hcurrent : row.isCurrent with
  | false => exact .inl ⟨rfl, updateSection_of_retired found accepted hcurrent⟩
  | true =>
    right
    cases hrenamed : Session.renamedOnto? kind row old (.ofMembers kind members) with
    | some c => exact .inl ⟨rfl, c, rfl, updateSection_of_taken found accepted hcurrent hrenamed⟩
    | none =>
      have hfault : (SectionChange.ofMembers kind members).fault? kind = none := by
        apply SectionChange.fault?_eq_none.mpr
        constructor
        · rw [overflows_of_accepted accepted, storable]
          rfl
        · rw [← Value.get?_object] at kept
          exact fun hcleared => kept ((accept_clears accepted).mp hcleared)
      obtain ⟨new, happlied⟩ : ∃ new,
          (SectionChange.ofMembers kind members).apply kind old = .ok new :=
        ⟨_, SectionChange.apply_eq_ok.mpr ⟨hfault, rfl⟩⟩
      have hpatched := SectionChange.patchedBy (accept_object.mp accepted) happlied row.id
      refine .inr ⟨rfl, rfl, new, hpatched, ?_⟩
      exact (updateSection_found found).mpr
        ⟨members, new, accepted, hcurrent, hrenamed, happlied, rfl, rfl⟩

theorem updateSection_of_unknown (unknown : db.instructions.section? kind id = none)
    {payload : Value} (accepted : accept (.ofSection kind true) payload = .ok members) :
    updateSection kind db id payload = (.ok none, db) := by
  simp only [updateSection, write, accepted]
  apply db.transact_unchanged
  exact Session.updateSection_of_unknown unknown

theorem removeSection_of_unknown (unknown : db.instructions.section? kind id = none) :
    removeSection kind db id = (.ok false, db) := by
  apply db.transact_unchanged
  rw [Session.removeSection, Session.store_start, unknown]

theorem removeSection_of_found {old : SectionRow}
    (found : db.instructions.section? kind id = some (row, old)) :
    (row.isCurrent = false ∧
      removeSection kind db id = (.error (.instructionNotFound row.id), db)) ∨
    (row.isCurrent ∧ removeSection kind db id =
      (.ok true, db.put (row.withSections kind ((row.sections kind).filter (·.id != id))))) := by
  cases hcurrent : row.isCurrent with
  | false =>
    refine .inl ⟨rfl, ?_⟩
    apply db.transact_refused
    rw [Session.removeSection, Session.store_start, found]
    dsimp only
    rw [hcurrent]
    rfl
  | true =>
    refine .inr ⟨rfl, ?_⟩
    apply db.transact_done
    rw [Session.removeSection, Session.store_start, found]
    dsimp only
    rw [if_pos hcurrent]

end Service

/-! ## Outcomes -/

/-- How adding a section ends. -/
structure Database.AddsSection (db : Database) (kind : SectionKind) (stamp : Stamp) (id : Uuid)
    (given : Members) (commodity : String) (out : Service.Outcome Section) : Prop where
  unknown : out = (.error (.instructionNotFound id), db) ↔
    ∀ row ∈ db.instructions.rows, row.id = id → row.isCurrent = false
  taken : ∀ row ∈ db.instructions.rows, row.id = id → row.isCurrent →
    (out = (.error (.commodityTaken commodity id), db) ↔
      ∃ x ∈ row.sections kind, x.commodity = commodity)
  used : ∀ row ∈ db.instructions.rows, row.id = id → row.isCurrent →
    (∀ x ∈ row.sections kind, x.commodity ≠ commodity) →
    db.instructions.hasSection kind stamp.id → out = (.error .sectionExists, db)
  added : ∀ row ∈ db.instructions.rows, row.id = id → row.isCurrent →
    (∀ x ∈ row.sections kind, x.commodity ≠ commodity) →
    db.instructions.hasSection kind stamp.id = false → ∃ new,
      ((SectionRow.blank stamp).toSection id).PatchedBy kind false given (new.toSection id) ∧
      out = (.ok (new.toSection id), db.put (row.withSections kind (row.sections kind ++ [new])))

/-- How changing a section ends. -/
structure Database.ChangesSection (db : Database) (kind : SectionKind) (id : Uuid) (given : Members)
    (out : Service.Outcome (Option Section)) : Prop where
  unknown : out = (.ok none, db) ↔
    ∀ row ∈ db.instructions.rows, ∀ x ∈ row.sections kind, x.id ≠ id
  retired : ∀ row ∈ db.instructions.rows, ∀ old ∈ row.sections kind, old.id = id →
    (out = (.error (.instructionNotFound row.id), db) ↔ row.isCurrent = false)
  taken : ∀ row ∈ db.instructions.rows, ∀ old ∈ row.sections kind, old.id = id → row.isCurrent →
    ∀ c, out = (.error (.commodityTaken c row.id), db) ↔
      given.lookup "commodity" = some (.text c) ∧
        ∃ x ∈ row.sections kind, x.id ≠ id ∧ x.commodity = c
  changed : ∀ row ∈ db.instructions.rows, ∀ old ∈ row.sections kind, old.id = id → row.isCurrent →
    (∀ c, given.lookup "commodity" = some (.text c) →
      ∀ x ∈ row.sections kind, x.id ≠ id → x.commodity ≠ c) → ∃ new,
      (old.toSection row.id).PatchedBy kind true given (new.toSection row.id) ∧
      out = (.ok (some (new.toSection row.id)), db.put (row.withSection kind id new))

/-- How removing a section ends. -/
structure Database.RemovesSection (db : Database) (kind : SectionKind) (id : Uuid)
    (out : Service.Outcome Bool) : Prop where
  unknown : out = (.ok false, db) ↔
    ∀ row ∈ db.instructions.rows, ∀ x ∈ row.sections kind, x.id ≠ id
  retired : ∀ row ∈ db.instructions.rows, ∀ old ∈ row.sections kind, old.id = id →
    (out = (.error (.instructionNotFound row.id), db) ↔ row.isCurrent = false)
  removed : ∀ row ∈ db.instructions.rows, ∀ old ∈ row.sections kind, old.id = id → row.isCurrent →
    let kept := (row.sections kind).filter (·.id != id)
    out = (.ok true, db.put (row.withSections kind kept)) ∧
      ∀ x, x ∈ kept ↔ x ∈ row.sections kind ∧ x ≠ old

namespace Store.Reached
variable {db : Database} {kind : SectionKind} {id : Uuid} {given members : Members}

theorem addsSection (reached : db.instructions.Reached) {commodity : String}
    (accepted : Service.accept (.ofSection kind false) (.object given) = .ok members)
    (named : given.lookup "commodity" = some (.text commodity))
    (storable : (Value.object given).place?.all Store.storable) (stamp : Stamp) (id : Uuid) :
    db.AddsSection kind stamp id given commodity
      (Service.addSection kind stamp db id (.object given)) := by
  have hids := reached.filed.ids
  have hknown := fun (row : InstructionRow) (current : db.instructions.current? id = some row) =>
    Service.addSection_of_known current accepted named storable stamp
  have hfound : ∀ row ∈ db.instructions.rows, row.id = id → row.isCurrent →
      db.instructions.current? id = some row := by
    intro row hrow hid hcurrent
    rw [← hid]
    exact Store.current?_of_mem hids hrow hcurrent
  constructor
  case unknown =>
    rw [← Store.current?_eq_none hids]
    refine ⟨?_, fun hunknown => Service.addSection_of_unknown hunknown accepted stamp⟩
    intro hout
    cases hrow : db.instructions.current? id with
    | none => rfl
    | some row =>
      rcases hknown row hrow with ⟨_, h⟩ | ⟨_, _, h⟩ | ⟨_, _, _, _, h⟩ <;> cases h.symm.trans hout
  case taken =>
    intro row hrow hid hcurrent
    rw [← InstructionRow.hasCommodity_eq_true]
    rcases hknown row (hfound row hrow hid hcurrent) with
      ⟨htaken, h⟩ | ⟨hfree, _, h⟩ | ⟨hfree, _, _, _, h⟩
    · exact ⟨fun _ => htaken, fun _ => h⟩
    · rw [h, hfree]
      exact ⟨nofun, nofun⟩
    · rw [h, hfree]
      exact ⟨nofun, nofun⟩
  case used =>
    intro row hrow hid hcurrent hfree hused
    rw [← InstructionRow.hasCommodity_eq_false] at hfree
    rcases hknown row (hfound row hrow hid hcurrent) with ⟨htaken, _⟩ | ⟨_, _, h⟩ | ⟨_, hfresh, _⟩
    · cases hfree.symm.trans htaken
    · exact h
    · cases hfresh.symm.trans hused
  case added =>
    intro row hrow hid hcurrent hfree hfresh
    rw [← InstructionRow.hasCommodity_eq_false] at hfree
    rcases hknown row (hfound row hrow hid hcurrent) with ⟨htaken, _⟩ | ⟨_, hused, _⟩ | ⟨_, _, h⟩
    · cases hfree.symm.trans htaken
    · cases hfresh.symm.trans hused
    · exact h

theorem changesSection (reached : db.instructions.Reached)
    (accepted : Service.accept (.ofSection kind true) (.object given) = .ok members)
    (storable : (Value.object given).place?.all Store.storable)
    (kept : given.lookup "commodity" ≠ some .null) (id : Uuid) :
    db.ChangesSection kind id given (Service.updateSection kind db id (.object given)) := by
  have hknown := fun (row : InstructionRow) (old : SectionRow)
      (found : db.instructions.section? kind id = some (row, old)) =>
    Service.updateSection_of_found found accepted storable kept
  -- Another section has the commodity that a change names, so it is not the section's own.
  have hrenamed : ∀ row ∈ db.instructions.rows, ∀ old ∈ row.sections kind, old.id = id → ∀ c,
      Session.renamedOnto? kind row old (.ofMembers kind members) = some c ↔
        given.lookup "commodity" = some (.text c) ∧
          ∃ x ∈ row.sections kind, x.id ≠ id ∧ x.commodity = c := by
    rintro row hrow old hold rfl c
    rw [Session.renamedOnto?_eq_some, Service.accept_named accepted, Value.get?_object]
    constructor
    · rintro ⟨hnamed, _, hother⟩
      exact ⟨hnamed, hother⟩
    · rintro ⟨hnamed, x, hx, hne, rfl⟩
      refine ⟨hnamed, ?_, x, hx, hne, rfl⟩
      intro hsame
      have hcommodities := (reached.filed.rows row hrow).commodities kind
      obtain rfl := List.inj_on_of_nodup_map hcommodities hx hold hsame
      exact hne rfl
  constructor
  case unknown =>
    rw [← Store.section?_eq_none]
    refine ⟨?_, fun hunknown => Service.updateSection_of_unknown hunknown accepted⟩
    intro hout
    cases hfound : db.instructions.section? kind id with
    | none => rfl
    | some found =>
      rcases hknown found.1 found.2 hfound with ⟨_, h⟩ | ⟨_, _, _, h⟩ | ⟨_, _, _, _, h⟩ <;>
        cases h.symm.trans hout
  case retired =>
    intro row hrow old hold hid
    rcases hknown row old (hid ▸ reached.section?_of_mem hrow hold) with
      ⟨hretired, h⟩ | ⟨hcurrent, _, _, h⟩ | ⟨hcurrent, _, _, _, h⟩
    · exact ⟨fun _ => hretired, fun _ => h⟩
    · rw [h, hcurrent]
      exact ⟨nofun, nofun⟩
    · rw [h, hcurrent]
      exact ⟨nofun, nofun⟩
  case taken =>
    intro row hrow old hold hid hcurrent c
    rw [← hrenamed row hrow old hold hid]
    rcases hknown row old (hid ▸ reached.section?_of_mem hrow hold) with
      ⟨hretired, _⟩ | ⟨_, c', hc', h⟩ | ⟨_, hnone, _, _, h⟩
    · cases hretired.symm.trans hcurrent
    · rw [h, hc']
      simp
    · rw [h, hnone]
      exact ⟨nofun, nofun⟩
  case changed =>
    intro row hrow old hold hid hcurrent hfree
    rcases hknown row old (hid ▸ reached.section?_of_mem hrow hold) with
      ⟨hretired, _⟩ | ⟨_, c, hc, _⟩ | ⟨_, _, h⟩
    · cases hretired.symm.trans hcurrent
    · obtain ⟨hnamed, x, hx, hne, heq⟩ := (hrenamed row hrow old hold hid c).mp hc
      exact absurd heq (hfree c hnamed x hx hne)
    · exact h

theorem removesSection (reached : db.instructions.Reached) (kind : SectionKind) (id : Uuid) :
    db.RemovesSection kind id (Service.removeSection kind db id) := by
  constructor
  case unknown =>
    rw [← Store.section?_eq_none]
    refine ⟨?_, Service.removeSection_of_unknown⟩
    intro hout
    cases hfound : db.instructions.section? kind id with
    | none => rfl
    | some found =>
      rcases Service.removeSection_of_found hfound with ⟨_, h⟩ | ⟨_, h⟩ <;> cases h.symm.trans hout
  case retired =>
    intro row hrow old hold hid
    rcases Service.removeSection_of_found (hid ▸ reached.section?_of_mem hrow hold) with
      ⟨hretired, h⟩ | ⟨hcurrent, h⟩
    · exact ⟨fun _ => hretired, fun _ => h⟩
    · rw [h, hcurrent]
      exact ⟨nofun, nofun⟩
  case removed =>
    rintro row hrow old hold rfl hcurrent
    rcases Service.removeSection_of_found (reached.section?_of_mem hrow hold) with
      ⟨hretired, _⟩ | ⟨_, h⟩
    · cases hretired.symm.trans hcurrent
    · refine ⟨h, ?_⟩
      intro x
      rw [List.mem_filter, bne_iff_ne]
      refine and_congr_right fun hx => not_congr ⟨fun hid => ?_, congrArg SectionRow.id⟩
      exact List.inj_on_of_nodup_map ((reached.filed.rows row hrow).sectionIds kind) hx hold hid

end Store.Reached

/-- How writes of sections of a kind end in a database that writes lead to, for accepted payloads
that the columns can hold. Adding fails if no current instruction has the id, then if the
instruction has a section for the commodity, and else it adds one, under a new id, with what the
payload gives and the columns of a blank section. Changing has nothing to change if no section has
the id, fails if its instruction is retired, then if another section of the instruction has the
commodity, and else it succeeds. Removing has nothing to remove if no section has the id, fails if
its instruction is retired, and else it removes this section and no other. -/
theorem section_write_outcomes (kind : SectionKind) (db : Database)
    (reached : db.instructions.Reached) :
    (∀ stamp id (given : Members), (Service.accept (.ofSection kind false) (.object given)).isOk →
      (Value.object given).place?.all Store.storable →
      ∃ commodity, given.lookup "commodity" = some (.text commodity) ∧
        db.AddsSection kind stamp id given commodity
          (Service.addSection kind stamp db id (.object given))) ∧
    (∀ id (given : Members), (Service.accept (.ofSection kind true) (.object given)).isOk →
      (Value.object given).place?.all Store.storable → given.lookup "commodity" ≠ some .null →
      db.ChangesSection kind id given (Service.updateSection kind db id (.object given))) ∧
    ∀ id, db.RemovesSection kind id (Service.removeSection kind db id) := by
  refine ⟨?_, ?_, reached.removesSection kind⟩
  · intro stamp id given haccepted hstorable
    obtain ⟨members, haccepted⟩ := exists_of_isOk haccepted
    rcases Service.accept_commodity haccepted with ⟨commodity, hgiven, _⟩ | ⟨hexisting, _⟩
    · rw [Value.get?_object] at hgiven
      exact ⟨commodity, hgiven, reached.addsSection haccepted hgiven hstorable stamp id⟩
    · cases hexisting
  · intro id given haccepted hstorable hkept
    obtain ⟨members, haccepted⟩ := exists_of_isOk haccepted
    exact reached.changesSection haccepted hstorable hkept id

/-- An instruction with two sealings: a third one is added for a commodity of its own only, and the
first may keep its commodity but not take that of the second. -/
theorem section_write_outcomes_acme :
    let db := acmeDatabase.run
      [.addSection .sealing ⟨⟨12⟩, ⟨2⟩⟩ ⟨10⟩ (.object [("commodity", .text "Molasses")])]
    let add (id : Uuid) (given : Members) :=
      Service.addSection .sealing ⟨⟨13⟩, ⟨3⟩⟩ db id (.object given)
    let rename (commodity : String) :=
      Service.updateSection .sealing db ⟨11⟩ (.object [("commodity", .text commodity)])
    add ⟨11⟩ [("commodity", .text "Latex")] = (.error (.instructionNotFound ⟨11⟩), db) ∧
    add ⟨10⟩ [("commodity", .text "Latex")] = (.error (.commodityTaken "Latex" ⟨10⟩), db) ∧
    (∃ x db', add ⟨10⟩ [("sort_order", .bool true), ("commodity", .text "Caustic")] = (.ok x, db') ∧
      (x.columns .sealing).lookup "sort_order" = some (.int 1) ∧
      (x.columns .sealing).lookup "inherit_from_parent" = some (.bool false)) ∧
    rename "Molasses" = (.error (.commodityTaken "Molasses" ⟨10⟩), db) ∧
    (∃ x db', rename "Latex" = (.ok (some x), db')) ∧
    Service.removeSection .sealing db ⟨13⟩ = (.ok false, db) := by
  intro db add rename
  have hreached : db.instructions.Reached :=
    Database.run_reached _ (Database.run_reached { leases := acmeTables } .empty _) _
  obtain ⟨hadd, hchange, hremove⟩ := section_write_outcomes .sealing db hreached
  have hrow : ∃ row ∈ db.instructions.rows, row.id = ⟨10⟩ ∧ row.isCurrent ∧
      (∃ x ∈ row.sections .sealing, x.commodity = "Latex") ∧
      (∀ x ∈ row.sections .sealing, x.commodity ≠ "Caustic") ∧
      (∃ old ∈ row.sections .sealing, old.id = ⟨11⟩) ∧
      (∃ x ∈ row.sections .sealing, x.id ≠ ⟨11⟩ ∧ x.commodity = "Molasses") ∧
      ∀ x ∈ row.sections .sealing, x.id ≠ ⟨11⟩ → x.commodity ≠ "Latex" := by decide +kernel
  obtain ⟨row, hrow, hid, hcurrent, hlatex, hcaustic, ⟨old, hold, holdId⟩, hmolasses, hown⟩ := hrow
  have hfresh : db.instructions.hasSection .sealing ⟨13⟩ = false := by decide +kernel
  refine ⟨?_, ?_, ?_, ?_, ?_, ?_⟩
  · obtain ⟨_, _, hadds⟩ :=
      hadd ⟨⟨13⟩, ⟨3⟩⟩ ⟨11⟩ [("commodity", .text "Latex")] (by decide +kernel) rfl
    exact hadds.unknown.mpr (by decide +kernel)
  · obtain ⟨c, hc, hadds⟩ :=
      hadd ⟨⟨13⟩, ⟨3⟩⟩ ⟨10⟩ [("commodity", .text "Latex")] (by decide +kernel) rfl
    cases hc
    exact (hadds.taken row hrow hid hcurrent).mpr hlatex
  · obtain ⟨c, hc, hadds⟩ := hadd ⟨⟨13⟩, ⟨3⟩⟩ ⟨10⟩
      [("sort_order", .bool true), ("commodity", .text "Caustic")] (by decide +kernel) rfl
    cases hc
    obtain ⟨new, hpatched, hout⟩ := hadds.added row hrow hid hcurrent hcaustic hfresh
    refine ⟨_, _, hout, ?_, ?_⟩
    · obtain ⟨converted, hconvert, hset⟩ :=
        hpatched.set _ (Schema.place_mem .sealing false) (.bool true) rfl nofun
      cases hconvert
      exact hset
    · exact hpatched.kept _ (Schema.mark_mem .sealing false) rfl
  · have hchanges := hchange ⟨11⟩ [("commodity", .text "Molasses")] (by decide +kernel) rfl nofun
    rw [← hid]
    exact (hchanges.taken row hrow old hold holdId hcurrent "Molasses").mpr ⟨rfl, hmolasses⟩
  · have hchanges := hchange ⟨11⟩ [("commodity", .text "Latex")] (by decide +kernel) rfl nofun
    obtain ⟨new, _, hout⟩ := hchanges.changed row hrow old hold holdId hcurrent (by
      intro c hc
      cases hc
      exact hown)
    exact ⟨_, _, hout⟩
  · exact (hremove ⟨13⟩).unknown.mpr (Store.hasSection_eq_false.mp hfresh)

end CarCare

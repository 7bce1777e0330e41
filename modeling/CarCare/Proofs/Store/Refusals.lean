import CarCare.Proofs.Schema.SectionPayload
import CarCare.Proofs.Store.Faults
import CarCare.Proofs.Store.Reached

/-!
Accepted writes and how they fail: in words of the store, as long as the columns can hold what is
written.

What is proved:
  1. `Write.serve_error`: an accepted write whose values the columns can hold fails in words of the
     store, in every database.
  2. `reached_bare` and `reached_section`: writes lead to an instruction, and to a section, of any id.
  3. `refused_in_own_words_iff_storable`: hence it is only for such values that this is so. There are
     two kinds of others, a place that no column can hold and a commodity that is cleared.
-/
namespace CarCare

/-! ## Accepted writes -/

namespace Write

/-- Whether the arguments of a write are accepted: those that name a level by the reader of levels,
and payloads by their schemas. -/
def accepted : Write → Bool
  | .create _ _ level scope fields _ =>
    (Level.parse level).isOk && (Service.acceptScopeId scope).isOk
      && (Service.accept .fields fields).isOk
  | .update _ _ fields => (Service.accept .fields fields).isOk
  | .addSection kind _ _ data => (Service.accept (.ofSection kind false) data).isOk
  | .updateSection kind _ data => (Service.accept (.ofSection kind true) data).isOk
  | .delete _ _ | .removeSection _ _ => true

/-- Whether the columns can hold what a write sets: the place of a section fits into 64 bits, and
the commodity of a stored section is not cleared. -/
def Storable : Write → Prop
  | .addSection _ _ _ data => data.place?.all Store.storable
  | .updateSection _ _ data =>
    data.place?.all Store.storable ∧ data.get? "commodity" ≠ some .null
  | _ => True

end Write

theorem Database.transact_fst {α : Type} (db : Database) (request : Session → Session.Outcome α) :
    (db.transact request).1 = (request (.start db)).1 := by
  unfold transact
  obtain ⟨answer, s⟩ := request (.start db)
  cases answer <;> rfl

namespace Service
variable {α β : Type} {db : Database} {e : Error}

theorem reply_error {wrap : α → Reply} {out : Outcome α} (h : (reply wrap out).1 = .error e) :
    out.1 = .error e := by
  obtain ⟨answer, db'⟩ := out
  cases answer with
  | error e' => exact congrArg Except.error (Except.error.inj h)
  | ok a => cases h

theorem write_error {arguments : Except Error α} {a : α} (accepted : arguments = .ok a)
    {request : α → Session → Session.Outcome β} (h : (write db arguments request).1 = .error e) :
    ∃ s, request a (.start db) = (.error e, s) := by
  rw [accepted] at h
  have hrequest : (request a (.start db)).1 = .error e := (db.transact_fst _).symm.trans h
  exact ⟨(request a (.start db)).2, Prod.ext hrequest rfl⟩

theorem existing_error {id : Uuid} {out : Session.Outcome (Option α)} {s : Session}
    (ok : out.1.isOk) (h : existing id out = (.error e, s)) : e = .instructionNotFound id := by
  obtain ⟨answer, s'⟩ := out
  cases answer with
  | error e' => cases ok
  | ok found =>
    cases found with
    | none =>
      cases h
      rfl
    | some a => cases h

theorem overflows_of_accepted {kind : SectionKind} {existing : Bool} {payload : Value}
    {members : Members} (accepted : accept (.ofSection kind existing) payload = .ok members) :
    (SectionChange.ofMembers kind members).overflows = !payload.place?.all Store.storable := by
  rw [SectionChange.overflows, accept_place accepted]
  cases payload.place? <;> simp

end Service

/-- An accepted write whose values the columns can hold fails in words of the store, whatever is in
the database. -/
theorem Write.serve_error {db : Database} {w : Write} (accepted : w.accepted) (storable : w.Storable)
    {e : Error} (h : (w.serve db).1 = .error e) : e.isFinding ∨ e.isCollision := by
  cases w with
  | create service stamp level scope fields actor =>
    simp only [Write.accepted, Bool.and_eq_true] at accepted
    obtain ⟨⟨hl, hid⟩, hfields⟩ := accepted
    obtain ⟨l, hl⟩ := exists_of_isOk hl
    obtain ⟨id, hid⟩ := exists_of_isOk hid
    obtain ⟨members, hfields⟩ := exists_of_isOk hfields
    obtain ⟨s, hs⟩ := Service.write_error
      (Service.create_arguments.mpr ⟨hl, hid, members, hfields, rfl⟩) (Service.reply_error h)
    rcases Session.create_error hs with ⟨hfinding, _⟩ | ⟨rfl, _⟩
    · exact .inl hfinding
    · exact .inr rfl
  | update now id fields =>
    obtain ⟨members, hfields⟩ := exists_of_isOk accepted
    obtain ⟨s, hs⟩ := Service.write_error hfields (Service.reply_error h)
    rw [Service.existing_error (Session.update_ok now id (.ofMembers members) (.start db)) hs]
    exact .inl rfl
  | delete now id =>
    have hrequest := (db.transact_fst _).symm.trans (Service.reply_error h)
    split at hrequest
    · have hok := Session.retire_ok now id (.start db)
      rw [hrequest] at hok
      cases hok
    · obtain rfl := Except.error.inj hrequest
      exact .inl rfl
  | addSection kind stamp id data =>
    obtain ⟨members, hdata⟩ := exists_of_isOk accepted
    obtain ⟨s, hs⟩ := Service.write_error hdata (Service.reply_error h)
    have hfits := Service.overflows_of_accepted hdata
    rcases Session.addSection_error hs with ⟨hfinding, _⟩ | ⟨rfl, _⟩ | ⟨_, hlarge⟩
    · exact .inl hfinding
    · exact .inr rfl
    · rw [hfits, show data.place?.all Store.storable = true from storable] at hlarge
      cases hlarge
  | updateSection kind id data =>
    obtain ⟨members, hdata⟩ := exists_of_isOk accepted
    obtain ⟨s, hs⟩ := Service.write_error hdata (Service.reply_error h)
    obtain ⟨hplace, hkept⟩ := storable
    rcases Session.updateSection_error hs with ⟨hfinding, _⟩ | hfault
    · exact .inl hfinding
    · have hnone : (SectionChange.ofMembers kind members).fault? kind = none := by
        apply SectionChange.fault?_eq_none.mpr
        refine ⟨?_, fun hcleared => hkept ((Service.accept_clears hdata).mp hcleared)⟩
        rw [Service.overflows_of_accepted hdata, hplace]
        rfl
      rw [hnone] at hfault
      cases hfault
  | removeSection kind id =>
    have hrequest := (db.transact_fst (Session.removeSection kind id)).symm.trans
      (Service.reply_error h)
    exact .inl (Session.removeSection_error (Prod.ext hrequest rfl)).1

/-! ## Values that no column can hold -/

namespace Service
variable {db : Database} {kind : SectionKind} {id : Uuid} {payload : Value} {members : Members}

/-- A current instruction takes every accepted section of another commodity whose place fits and
whose id is new. -/
theorem addSection_of_current {row : InstructionRow} {stamp : Stamp} {new : SectionRow}
    (current : db.instructions.current? id = some row)
    (accepted : accept (.ofSection kind false) payload = .ok members)
    (free : (SectionChange.ofMembers kind members).named?.filter (row.hasCommodity kind) = none)
    (made : (SectionChange.ofMembers kind members).create kind stamp = .ok new)
    (legal : db.instructions.sectionFault? kind (row.sections kind) new = none) :
    let row' := row.withSections kind (row.sections kind ++ [new])
    addSection kind stamp db id payload =
      (.ok (new.toSection id), { db with instructions := db.instructions.replace row' }) := by
  intro row'
  simp only [addSection, write, accepted]
  apply db.transact_done
  exact Session.addSection_of_legal current free made legal

/-- A place that no column can hold is only noticed when a new section is stored. -/
theorem addSection_of_overflow {row : InstructionRow}
    (current : db.instructions.current? id = some row)
    (accepted : accept (.ofSection kind false) payload = .ok members)
    (free : (SectionChange.ofMembers kind members).named?.filter (row.hasCommodity kind) = none)
    (overflow : (SectionChange.ofMembers kind members).overflows) (stamp : Stamp) :
    (addSection kind stamp db id payload).1 = .error .integerTooLarge := by
  simp only [addSection, write, accepted]
  rw [db.transact_fst, Session.addSection_of_overflow (s := .start db) current free overflow]

/-- What the columns cannot hold is only noticed when a section is changed. -/
theorem updateSection_of_fault {row : InstructionRow} {old : SectionRow} {e : Error}
    (found : db.instructions.section? kind id = some (row, old)) (current : row.isCurrent)
    (accepted : accept (.ofSection kind true) payload = .ok members)
    (free : Session.renamedOnto? kind row old (.ofMembers kind members) = none)
    (fault : (SectionChange.ofMembers kind members).fault? kind = some e) :
    (updateSection kind db id payload).1 = .error e := by
  simp only [updateSection, write, accepted]
  rw [db.transact_fst, Session.updateSection_of_fault (s := .start db) found current free fault]

end Service

/-! ## Stores with one section at most -/

theorem InstructionRow.free_of_bare {row : InstructionRow} {kind : SectionKind}
    (bare : row.sections kind = []) (named : Option String) :
    named.filter (row.hasCommodity kind) = none := by
  rw [Option.filter_eq_none_iff]
  intro commodity _ hused
  obtain ⟨x, hx, _⟩ := hasCommodity_eq_true.mp hused
  rw [bare] at hx
  cases hx

theorem Session.renamedOnto?_of_only {row : InstructionRow} {kind : SectionKind} {old : SectionRow}
    (only : row.sections kind = [old]) (change : SectionChange) :
    renamedOnto? kind row old change = none := by
  simp [renamedOnto?, only]

/-- Writes lead to a current instruction of any id, without sections. -/
theorem reached_bare (id : Uuid) : ∃ db : Database, db.instructions.Reached ∧
    ∃ row, db.instructions = ⟨[row]⟩ ∧ db.instructions.current? id = some row ∧
      ∀ kind, row.sections kind = [] := by
  have hlevel : Level.parse (.text "customer") = .ok .customer := rfl
  have hscope : Service.acceptScopeId (.text "00000000-0000-0000-0000-000000000001") = .ok ⟨1⟩ := rfl
  have hfields : (Service.accept .fields (.object [("food_grade", .bool false)])).isOk := by
    decide +kernel
  obtain ⟨members, hfields⟩ := exists_of_isOk hfields
  let service : Service := { today := ⟨1⟩ }
  let row := Session.newRow ⟨id, ⟨0⟩⟩ .customer ⟨1⟩ (some "Acme") (.ofMembers members) none
  have hcreated : service.create ⟨id, ⟨0⟩⟩ { leases := acmeTables } _ _ _ none =
      (.ok row.read, { leases := acmeTables, instructions := ⟨[row]⟩ }) :=
    Service.create_eq_ok.mpr
      ⟨.customer, ⟨1⟩, members, _, hlevel, hscope, hfields, rfl, rfl, rfl, rfl, rfl⟩
  have hrows : ((acmeCreate id 0).perform { leases := acmeTables }).instructions = ⟨[row]⟩ :=
    congrArg (fun out => out.2.instructions) hcreated
  refine ⟨_, .write .empty acmeTables (acmeCreate id 0), row, hrows, ?_, ?_⟩
  · rw [hrows]
    apply Store.current?_eq_some.mpr
    exact ⟨List.find?_cons_of_pos (beq_self_eq_true id), rfl⟩
  · exact Session.newRow_sections

/-- Writes lead to a section of any kind and any id that is the only one of a current instruction. -/
theorem reached_section (kind : SectionKind) (id : Uuid) : ∃ db : Database,
    db.instructions.Reached ∧ ∃ row old, db.instructions.section? kind id = some (row, old) ∧
      row.isCurrent ∧ row.sections kind = [old] := by
  obtain ⟨db, hreached, row, hrows, hrow, hbare⟩ := reached_bare ⟨0⟩
  let payload : Value := .object [("commodity", .text "Latex")]
  have haccepted : (Service.accept (.ofSection kind false) payload).isOk := by
    cases kind <;> decide +kernel
  obtain ⟨members, haccepted⟩ := exists_of_isOk haccepted
  have hnamed : (SectionChange.ofMembers kind members).named? = some "Latex" :=
    (Service.accept_named haccepted).mpr rfl
  have hfits : (SectionChange.ofMembers kind members).overflows = false :=
    Service.overflows_of_accepted haccepted
  obtain ⟨new, hmade, hnew, _⟩ := SectionChange.create_of_named hnamed hfits kind ⟨id, ⟨1⟩⟩
  have hlegal : db.instructions.sectionFault? kind (row.sections kind) new = none := by
    have hunused : db.instructions.hasSection kind new.id = false := by
      apply Store.hasSection_eq_false.mpr
      intro r hr x hx
      rw [hrows] at hr
      rw [List.mem_singleton.mp hr, hbare] at hx
      cases hx
    rw [Store.sectionFault?, hunused, hbare]
    rfl
  have hadded := Service.addSection_of_current hrow haccepted
    (InstructionRow.free_of_bare (hbare kind) _) hmade hlegal
  have hstored : ((Write.addSection kind ⟨id, ⟨1⟩⟩ ⟨0⟩ payload).perform db).instructions =
      ⟨[row.withSections kind [new]]⟩ := by
    obtain ⟨hsame, _⟩ := row.withSections_frame kind [new]
    rw [Write.perform, hadded, hbare, hrows]
    simp [Store.replace, hsame]
  obtain ⟨_, _, _, _, hcurrent⟩ := row.withSections_frame kind [new]
  refine ⟨_, .write hreached db.leases (.addSection kind ⟨id, ⟨1⟩⟩ ⟨0⟩ payload),
    row.withSections kind [new], new, ?_, ?_, row.sections_withSections_self kind [new]⟩
  · rw [hstored]
    simp [Store.section?, InstructionRow.section?, InstructionRow.sections_withSections_self, hnew]
  · rw [hcurrent]
    exact (Store.current?_eq_some.mp hrow).2

/-- A write whose arguments are accepted fails in words of the store, or not at all, in every
database that writes lead to, if and only if the columns can hold what it sets. So there are two ways
for an accepted write to meet an error of the tables or of their driver: a section that is added or
changed gets a place beyond 64 bits, or a section that is changed gets an empty commodity. -/
theorem refused_in_own_words_iff_storable (w : Write) (accepted : w.accepted) :
    (∀ db : Database, db.instructions.Reached → ∀ e, (w.serve db).1 = .error e →
      e.isFinding ∨ e.isCollision) ↔ w.Storable := by
  constructor
  · intro hwords
    cases w with
    | create _ _ _ _ _ _ | update _ _ _ | delete _ _ | removeSection _ _ => trivial
    | addSection kind stamp id data =>
      by_contra hlarge
      -- An instruction without sections takes any commodity, so it is the place that is refused.
      obtain ⟨members, hdata⟩ := exists_of_isOk accepted
      obtain ⟨db, hreached, row, _, hrow, hbare⟩ := reached_bare id
      have hoverflow : (SectionChange.ofMembers kind members).overflows := by
        rw [Service.overflows_of_accepted hdata, Bool.not_eq_true']
        exact Bool.eq_false_iff.mpr hlarge
      have hfailed := Service.addSection_of_overflow hrow hdata
        (InstructionRow.free_of_bare (hbare kind) _) hoverflow stamp
      have hserved : ((Write.addSection kind stamp id data).serve db).1 = .error .integerTooLarge :=
        congrArg (Except.map Reply.newSection) hfailed
      rcases hwords db hreached _ hserved with h | h <;> cases h
    | updateSection kind id data =>
      by_contra hkept
      -- The only section of an instruction can get any name, so it is the value that is refused.
      obtain ⟨members, hdata⟩ := exists_of_isOk accepted
      obtain ⟨db, hreached, row, old, hfound, hcurrent, honly⟩ := reached_section kind id
      have hfault : (SectionChange.ofMembers kind members).fault? kind ≠ none := by
        intro hnone
        obtain ⟨hfits, hcommodity⟩ := SectionChange.fault?_eq_none.mp hnone
        rw [Service.overflows_of_accepted hdata, Bool.not_eq_false'] at hfits
        exact hkept ⟨hfits, fun hcleared => hcommodity ((Service.accept_clears hdata).mpr hcleared)⟩
      obtain ⟨e, hfault⟩ := Option.ne_none_iff_exists'.mp hfault
      have hfailed := Service.updateSection_of_fault hfound hcurrent hdata
        (Session.renamedOnto?_of_only honly _) hfault
      have hserved : ((Write.updateSection kind id data).serve db).1 = .error e :=
        congrArg (Except.map Reply.changedSection) hfailed
      rcases SectionChange.fault?_eq_some.mp hfault with ⟨_, rfl⟩ | ⟨_, _, rfl⟩
      · rcases hwords db hreached _ hserved with h | h <;> cases h
      · rcases hwords db hreached _ hserved with h | h <;> cases h
  · intro storable db _ e failed
    exact Write.serve_error accepted storable failed

/-- A change of a section that is renamed and moved, to a place that is given as a text. -/
def acmeRenaming : Write :=
  .updateSection .sealing ⟨11⟩
    (.object [("commodity", .text "Molasses"), ("sort_order", .text " +7.0 ")])

theorem refused_in_own_words_iff_storable_renaming :
    (∀ db : Database, db.instructions.Reached → ∀ e, (acmeRenaming.serve db).1 = .error e →
      e.isFinding ∨ e.isCollision) ∧
    ¬ ∀ db : Database, db.instructions.Reached → ∀ e, (acmeOverflow.serve db).1 = .error e →
      e.isFinding ∨ e.isCollision := by
  have hrenaming : acmeRenaming.accepted := by decide +kernel
  have hoverflow : acmeOverflow.accepted := by decide +kernel
  constructor
  · apply (refused_in_own_words_iff_storable acmeRenaming hrenaming).mpr
    exact ⟨by decide +kernel, nofun⟩
  · rw [refused_in_own_words_iff_storable acmeOverflow hoverflow]
    rintro ⟨hplace, _⟩
    revert hplace
    decide +kernel

/-- An empty commodity is accepted of a change, and ends in an error of the tables. -/
theorem empty_commodity_reaches_tables :
    let w : Write := .updateSection .sealing ⟨11⟩ (.object [("commodity", .null)])
    w.accepted ∧ acmeDatabase.instructions.Reached ∧
      ∃ e, (w.serve acmeDatabase).1 = .error e ∧ e.isRefusal = false ∧
        e.message = "NOT NULL constraint failed: ccm_instruction_sealing.commodity" := by
  intro w
  have hfailed : ((w.serve acmeDatabase).1 matches .error (.constraint (.notNull
      "ccm_instruction_sealing.commodity"))) := by decide +kernel
  refine ⟨by decide +kernel, Database.run_reached { leases := acmeTables } .empty _, ?_⟩
  cases h : (w.serve acmeDatabase).1 with
  | ok reply =>
    rw [h] at hfailed
    cases hfailed
  | error e =>
    rw [h] at hfailed
    refine ⟨e, rfl, ?_⟩
    split at hfailed
    · rename_i heq
      obtain rfl := Except.error.inj heq
      exact ⟨rfl, rfl⟩
    · cases hfailed

end CarCare

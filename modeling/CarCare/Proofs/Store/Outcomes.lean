import CarCare.Proofs.Store.Move

/-!
Outcomes: what a request answers and what it stores, said exactly.

What is proved:
  1. `Database.transact_refused`, `Database.transact_unchanged` and `Database.transact_done`: a
     transaction is what its request is.
  2. `Service.update_of_current` and `Service.delete_of_current`: a current instruction takes every
     accepted change, and can be deleted.
  3. `Service.create_eq_ok`: a declaration succeeds where its arguments are accepted, its scope is
     known and free, and its id is new, and then it adds one row.
  4. `Service.updateSection_eq_ok`: when a section is changed, and what becomes of its row.
-/
namespace CarCare

theorem exists_of_isOk {ε α : Type} {x : Except ε α} (h : x.isOk) : ∃ a, x = .ok a := by
  cases x with
  | error e => cases h
  | ok a => exact ⟨a, rfl⟩

theorem Except.exists_of_bind {ε α β : Type} {x : Except ε α} {f : α → Except ε β} {b : β}
    (h : x >>= f = .ok b) : ∃ a, x = .ok a ∧ f a = .ok b := by
  cases x with
  | error e => cases h
  | ok a => exact ⟨a, rfl, h⟩

theorem Except.error_of_bind {ε α β : Type} {x : Except ε α} {f : α → Except ε β} {e : ε}
    (h : x >>= f = .error e) : x = .error e ∨ ∃ a, x = .ok a ∧ f a = .error e := by
  cases x with
  | error fault =>
    cases h
    exact .inl rfl
  | ok a => exact .inr ⟨a, rfl, h⟩

@[simp] theorem Session.store_start (db : Database) : (start db).store = db.instructions := rfl

namespace Database
variable {α : Type} {request : Session → Session.Outcome α}

theorem transact_refused {e : Error} (db : Database)
    (h : request (.start db) = (.error e, .start db)) : db.transact request = (.error e, db) := by
  unfold transact
  rw [h]
  rfl

theorem transact_unchanged {a : α} (db : Database)
    (h : request (.start db) = (.ok a, .start db)) : db.transact request = (.ok a, db) := by
  unfold transact
  rw [h]
  rfl

theorem transact_done {a : α} {store : Store} (db : Database)
    (h : request (.start db) = (.ok a, (Session.start db).withStore store)) :
    db.transact request = (.ok a, { db with instructions := store }) := by
  unfold transact
  rw [h]
  rfl

end Database

/-- What a request that may have nothing to answer has answered. -/
theorem Service.exists_answer {α : Type} {out : Outcome (Option α)} {p : α → Bool}
    (h : out.1.toOption.join.any p) : ∃ a db', out = (.ok (some a), db') ∧ p a := by
  obtain ⟨answer, db'⟩ := out
  obtain ⟨a, ha, hp⟩ := (Option.any_eq_true _ _).mp h
  cases answer with
  | error e => cases ha
  | ok found =>
    obtain rfl : found = some a := ha
    exact ⟨a, db', rfl, hp⟩

/-! ## Current instructions -/

namespace Service
variable {db : Database} {id : Uuid} {row : InstructionRow}

theorem update_of_current (current : db.instructions.current? id = some row) {payload : Value}
    {members : Members} (accepted : accept .fields payload = .ok members) (now : Timestamp) :
    let new := Session.overlaid now (.ofMembers members) row
    update now db id payload =
      (.ok new.read, { db with instructions := db.instructions.replace new }) := by
  intro new
  simp only [update, write, accepted]
  refine db.transact_done ?_
  rw [Session.update, Session.store_start, current]
  rfl

theorem delete_of_current (current : db.instructions.current? id = some row) (now : Timestamp) :
    let retired := { row with isCurrent := false, updatedAt := now }
    delete now db id =
      (.ok true, { db with instructions := db.instructions.replace retired }) := by
  intro retired
  have hrow : (db.instructions.row? id).isSome := by
    rw [(Store.current?_eq_some.mp current).1]
    rfl
  refine db.transact_done ?_
  rw [Session.store_start, if_pos hrow, Session.retire, Session.store_start, current]

end Service

/-! ## New instructions -/

/-- A new row breaks a rule only if its id or its scope is taken: it names no other scope, and has
no sections. -/
theorem Store.fault?_newRow (s : Store) (stamp : Stamp) (level : Level) (scope : Uuid)
    (name : Option String) (fields : Fields) (actor : Option Uuid) :
    s.fault? (Session.newRow stamp level scope name fields actor) = none ↔
      s.row? stamp.id = none ∧ s.byScope? level scope = none := by
  have hclash : s.clash? (Session.newRow stamp level scope name fields actor) = none ↔
      s.byScope? level scope = none := by
    show (Level.all.find? fun l => ((ScopeIds.only level scope).get l).any fun id =>
      (s.byScope? l id).isSome) = none ↔ _
    rw [List.find?_eq_none]
    constructor
    · intro h
      have hown := h level level.mem_all
      rw [ScopeIds.get_only_self] at hown
      simpa using hown
    · intro hfree l _
      by_cases hl : l = level
      · subst hl
        rw [ScopeIds.get_only_self]
        simp [hfree]
      · rw [ScopeIds.get_only_of_ne hl]
        simp
  have hcount : (Session.newRow stamp level scope name fields actor).scopes.count = 1 :=
    ScopeIds.count_only level scope
  unfold fault?
  rw [if_neg (not_not_intro hcount), ← hclash]
  show (if (s.row? stamp.id).isSome then _ else _) = none ↔ _
  cases s.row? stamp.id with
  | some r => simp
  | none =>
    cases s.clash? (Session.newRow stamp level scope name fields actor) with
    | some l => simp
    | none => simp [Session.newRow, sectionsFault?]

theorem Session.create_eq_ok {s s' : Session} {today : Date} {stamp : Stamp} {level : Level}
    {scope : Uuid} {fields : Fields} {actor : Option Uuid} {r : Instruction} :
    create today stamp level scope fields actor s = (.ok r, s') ↔
      ∃ info, (s.directory today).scope? level scope = some info ∧
        s.store.byScope? level scope = none ∧ s.store.row? stamp.id = none ∧
        r = (newRow stamp level scope info.name fields actor).read ∧
        s' = s.withStore ⟨s.store.rows ++ [newRow stamp level scope info.name fields actor]⟩ := by
  unfold create
  cases hinfo : (s.directory today).scope? level scope with
  | none => simp
  | some info =>
    simp only [Option.some.injEq, exists_eq_left']
    cases hfree : s.store.byScope? level scope with
    | some taken => simp
    | none =>
      simp only [Option.isSome_none, Bool.false_eq_true, if_false, true_and]
      have hlegal := s.store.fault?_newRow stamp level scope info.name fields actor
      rw [and_iff_left hfree] at hlegal
      rw [Store.insert, ← hlegal]
      cases s.store.fault? (newRow stamp level scope info.name fields actor) with
      | some broken => simp
      | none => simp [eq_comm]

namespace Service

theorem write_eq_ok {α β : Type} {db db' : Database} {arguments : Except Error α}
    {request : α → Session → Session.Outcome β} {b : β} :
    write db arguments request = (.ok b, db') ↔
      ∃ a, arguments = .ok a ∧ ∃ s, request a (.start db) = (.ok b, s) ∧ db' = s.working := by
  cases arguments with
  | error e => simp [write]
  | ok a =>
    simp only [write, Except.ok.injEq, exists_eq_left', Database.transact]
    obtain ⟨answer, s⟩ := request a (.start db)
    cases answer with
    | error e => simp
    | ok b' => simp [Session.commit, eq_comm]

/-- A declaration succeeds where its arguments are accepted, its scope is known and free, and its id
is new. -/
theorem create_eq_ok {service : Service} {stamp : Stamp} {db db' : Database}
    {level scope fields : Value} {actor : Option Uuid} {r : Instruction} :
    service.create stamp db level scope fields actor = (.ok r, db') ↔
      ∃ l id members info, Level.parse level = .ok l ∧ acceptScopeId scope = .ok id ∧
        accept .fields fields = .ok members ∧ (service.directory db).scope? l id = some info ∧
        db.instructions.byScope? l id = none ∧ db.instructions.row? stamp.id = none ∧
        let row := Session.newRow stamp l id info.name (.ofMembers members) actor
        r = row.read ∧ db' = { db with instructions := ⟨db.instructions.rows ++ [row]⟩ } := by
  unfold create
  rw [write_eq_ok]
  constructor
  · rintro ⟨⟨l, id, f⟩, harguments, s, hcreated, rfl⟩
    obtain ⟨hl, hid, members, haccepted, rfl⟩ := create_arguments.mp harguments
    obtain ⟨info, hinfo, hfree, hnew, rfl, rfl⟩ := Session.create_eq_ok.mp hcreated
    exact ⟨l, id, members, info, hl, hid, haccepted, hinfo, hfree, hnew, rfl, rfl⟩
  · rintro ⟨l, id, members, info, hl, hid, haccepted, hinfo, hfree, hnew, rfl, rfl⟩
    exact ⟨(l, id, _), create_arguments.mpr ⟨hl, hid, members, haccepted, rfl⟩, _,
      Session.create_eq_ok.mpr ⟨info, hinfo, hfree, hnew, rfl, rfl⟩, rfl⟩

end Service

/-! ## Changed sections -/

theorem Session.updateSection_eq_ok {s s' : Session} {kind : SectionKind} {id : Uuid}
    {change : SectionChange} {x : Section} :
    updateSection kind id change s = (.ok (some x), s') ↔
      ∃ row old new, s.store.section? kind id = some (row, old) ∧ row.isCurrent ∧
        renamedOnto? kind row old change = none ∧ change.apply kind old = .ok new ∧
        x = new.toSection row.id ∧
        s' = s.withStore (s.store.replace (row.withSections kind
          ((row.sections kind).map fun r => if r.id = id then new else r))) := by
  unfold updateSection
  cases hfound : s.store.section? kind id with
  | none => simp
  | some found =>
    obtain ⟨row, old⟩ := found
    simp only [Option.some.injEq, Prod.mk.injEq, ↓existsAndEq, true_and]
    cases hcurrent : row.isCurrent with
    | false => simp
    | true =>
      simp only [if_true, true_and]
      cases hfree : renamedOnto? kind row old change with
      | some taken => simp
      | none =>
        cases happlied : change.apply kind old with
        | error e => simp
        | ok new => simp [eq_comm]

/-- A section is changed where its payload is accepted, its row is current, no other section of the
row has the commodity that it takes, and the columns can hold it. -/
theorem Service.updateSection_eq_ok {kind : SectionKind} {db db' : Database} {id : Uuid}
    {payload : Value} {x : Section} :
    updateSection kind db id payload = (.ok (some x), db') ↔
      ∃ members row old new, accept (.ofSection kind true) payload = .ok members ∧
        db.instructions.section? kind id = some (row, old) ∧ row.isCurrent ∧
        Session.renamedOnto? kind row old (.ofMembers kind members) = none ∧
        (SectionChange.ofMembers kind members).apply kind old = .ok new ∧
        x = new.toSection row.id ∧
        db' = { db with instructions := db.instructions.replace (row.withSections kind
          ((row.sections kind).map fun r => if r.id = id then new else r)) } := by
  unfold updateSection
  rw [write_eq_ok]
  constructor
  · rintro ⟨members, haccepted, s, hchanged, rfl⟩
    obtain ⟨row, old, new, hfound, hcurrent, hfree, happlied, rfl, rfl⟩ :=
      Session.updateSection_eq_ok.mp hchanged
    exact ⟨members, row, old, new, haccepted, hfound, hcurrent, hfree, happlied, rfl, rfl⟩
  · rintro ⟨members, row, old, new, haccepted, hfound, hcurrent, hfree, happlied, rfl, rfl⟩
    exact ⟨members, haccepted, _, Session.updateSection_eq_ok.mpr
      ⟨row, old, new, hfound, hcurrent, hfree, happlied, rfl, rfl⟩, rfl⟩

end CarCare

import CarCare.Proofs.Schema.FixedPoints
import CarCare.Proofs.Store.Outcomes

/-!
Declaring an instruction: what is answered and what is stored, for all arguments and all databases.

What is proved:
  1. `Schema.fields_faultless`: what a payload of fields has to be so that its schema finds no fault.
  2. `Service.create_of_level_error`, `Service.create_of_scope_error` and
     `Service.create_of_payload_error`: arguments that are not accepted are answered in a fixed order,
     whatever is stored.
  3. `Service.create_unknown`, `Service.create_taken` and `Service.create_collision`: what is refused
     for what is stored.
  4. `Service.create_free`: what is added otherwise.
  5. `declaration_outcome`: these cases are all, and each has its own answer.
-/
namespace CarCare

/-! ## Payloads of fields -/

/-- A payload of fields as it should be: its keys are names of fields, and what it gives for a field
is empty or has the form of a value of the field. -/
structure FieldsFit (given : Members) : Prop where
  keys : ∀ member ∈ given, ∃ f : Field, f.name = member.1
  values : ∀ (f : Field) value, given.lookup f.name = some value → value ≠ .null →
    ∃ v : FieldValue, (Schema.Rule.ofKind f.kind).convert value = .ok v.toValue

def Field.key (f : Field) : SchemaKey := { name := f.name, rule := .ofKind f.kind }

namespace Schema
variable {given : Members}

theorem unknownKeys_eq_nil {schema : Schema} :
    schema.unknownKeys given = [] ↔ ∀ member ∈ given, schema.hasKey member.1 := by
  have hperm := List.mergeSort_perm ((given.map (·.1)).filter fun key => !schema.hasKey key)
    fun a b => decide (a ≤ b)
  rw [unknownKeys, ← List.isEmpty_iff, hperm.isEmpty_eq, List.isEmpty_iff, List.filter_eq_nil_iff]
  simp

theorem fields_hasKey {name : String} : fields.hasKey name ↔ ∃ f : Field, f.name = name := by
  unfold hasKey fields
  rw [List.any_map, List.any_eq_true]
  constructor
  · rintro ⟨f, _, hname⟩
    exact ⟨f, beq_iff_eq.mp hname⟩
  · rintro ⟨f, hname⟩
    exact ⟨f, f.mem_all, beq_iff_eq.mpr hname⟩

theorem field_faultless (f : Field) : f.key.fault? given = none ↔
    ∀ value, given.lookup f.name = some value → value ≠ .null →
      ∃ v : FieldValue, (Rule.ofKind f.kind).convert value = .ok v.toValue := by
  have hname : f.key.name = f.name := rfl
  unfold SchemaKey.fault? SchemaKey.check
  rw [hname]
  -- A field may be left out and may be empty. Otherwise its rule decides.
  cases given.lookup f.name with
  | none => simp [Field.key]
  | some value =>
    by_cases hnull : value = .null
    · subst hnull
      simp [Field.key, SchemaKey.convert, Except.map]
    · dsimp only
      rw [f.key.convert_of_ne_null hnull, Field.key]
      cases hconvert : (Rule.ofKind f.kind).convert value with
      | error complaint => simp [Except.map, hnull, hconvert]
      | ok converted =>
        obtain ⟨v, rfl⟩ := convert_ofKind hconvert
        simp [Except.map, hconvert]

theorem fields_faultless : fields.faults given = [] ↔ FieldsFit given := by
  have hkeys : fields.filterMap (SchemaKey.fault? given) = [] ↔
      ∀ f : Field, f.key.fault? given = none := by
    show (Field.all.map Field.key).filterMap _ = [] ↔ _
    rw [List.filterMap_map, List.filterMap_eq_nil_iff]
    exact ⟨fun h f => h f f.mem_all, fun h f _ => h f⟩
  rw [faults, List.append_eq_nil_iff, List.map_eq_nil_iff, hkeys, unknownKeys_eq_nil]
  simp only [field_faultless, fields_hasKey]
  exact ⟨fun h => ⟨h.2, h.1⟩, fun h => ⟨h.values, h.keys⟩⟩

end Schema

namespace Service
variable {v : Service} {stamp : Stamp} {db : Database} {level scope payload : Value}
  {given members : Members} {actor : Option Uuid} {l : Level} {id : Uuid} {e : Error}

theorem accept_of_fit (fit : FieldsFit given) :
    ∃ members, accept .fields (.object given) = .ok members :=
  ⟨_, accept_eq_ok.mpr
    ⟨given, Value.members?_object given, Schema.fields_faultless.mpr fit, rfl⟩⟩

theorem accept_of_unfit (unfit : ¬ FieldsFit given) :
    accept .fields (.object given) = .error (.invalidInput (Schema.fields.faults given)) := by
  unfold accept
  rw [Value.members?_object]
  dsimp only
  unfold Schema.validate
  cases hfaults : Schema.fields.faults given with
  | nil => exact absurd (Schema.fields_faultless.mp hfaults) unfit
  | cons fault rest => rfl

/-! ## Arguments -/

theorem acceptScopeId_error (h : acceptScopeId scope = .error e) :
    ∃ complaint, e = .invalidInput [⟨"id", complaint⟩] := by
  unfold acceptScopeId at h
  dsimp only at h
  split at h
  · split at h
    · cases h
    · exact ⟨_, (Except.error.inj h).symm⟩
  · exact ⟨_, (Except.error.inj h).symm⟩

theorem create_of_level_error (hl : Level.parse level = .error e) :
    v.create stamp db level scope payload actor = (.error e, db) := by
  rw [create, hl]
  rfl

theorem create_of_scope_error (hl : Level.parse level = .ok l) (hid : acceptScopeId scope = .error e) :
    v.create stamp db level scope payload actor = (.error e, db) := by
  rw [create, hl, hid]
  rfl

theorem create_of_payload_error (hl : Level.parse level = .ok l) (hid : acceptScopeId scope = .ok id)
    (hpayload : accept .fields payload = .error e) :
    v.create stamp db level scope payload actor = (.error e, db) := by
  rw [create, hl, hid, hpayload]
  rfl

theorem create_of_accepted (hl : Level.parse level = .ok l) (hid : acceptScopeId scope = .ok id)
    (hpayload : accept .fields payload = .ok members) :
    v.create stamp db level scope payload actor
      = db.transact (Session.create v.today stamp l id (.ofMembers members) actor) := by
  rw [create, hl, hid, hpayload]
  rfl

/-! ## What is stored -/

section
variable (hl : Level.parse level = .ok l) (hid : acceptScopeId scope = .ok id)
  (hpayload : accept .fields payload = .ok members)
include hl hid hpayload

theorem create_unknown (unknown : (v.directory db).scope? l id = none) :
    v.create stamp db level scope payload actor = (.error (.scopeNotFound l id), db) := by
  have hunknown : ((Session.start db).directory v.today).scope? l id = none := unknown
  rw [create_of_accepted hl hid hpayload]
  apply db.transact_refused
  rw [Session.create, hunknown]

variable {info : Scope} (hinfo : (v.directory db).scope? l id = some info)
include hinfo

theorem create_taken (taken : (db.instructions.byScope? l id).isSome) :
    v.create stamp db level scope payload actor = (.error (.scopeTaken l id), db) := by
  have hinfo : ((Session.start db).directory v.today).scope? l id = some info := hinfo
  rw [create_of_accepted hl hid hpayload]
  apply db.transact_refused
  rw [Session.create, hinfo, Session.store_start]
  exact if_pos taken

theorem create_collision (free : db.instructions.byScope? l id = none)
    (used : db.instructions.row? stamp.id ≠ none) :
    v.create stamp db level scope payload actor = (.error .instructionExists, db) := by
  have hinfo : ((Session.start db).directory v.today).scope? l id = some info := hinfo
  rw [create_of_accepted hl hid hpayload]
  apply db.transact_refused
  have hfault := mt (db.instructions.fault?_newRow stamp l id info.name (.ofMembers members) actor).mp
    fun h => used h.1
  obtain ⟨broken, hbroken⟩ := Option.ne_none_iff_exists'.mp hfault
  rw [Session.create, hinfo, Session.store_start, free]
  simp only [Option.isSome_none, Bool.false_eq_true, if_false, Store.insert, hbroken]
  rfl

end

theorem declared_iff (accepted : accept .fields (.object given) = .ok members) (f : Field)
    (w : FieldValue) : Fields.ofMembers members f = some w ↔
      ∃ value, given.lookup f.name = some value ∧ value ≠ .null ∧
        (Schema.Rule.ofKind f.kind).convert value = .ok w.toValue := by
  have hvalue : ∀ value, given.lookup f.name = some value ∧ value ≠ .null ↔
      (Value.object given).given? f.name = some value := by
    intro value
    rw [Value.given?_eq_some, Value.get?_object]
  obtain ⟨hgiven, hleft⟩ := accept_fields accepted f
  constructor
  · intro hw
    cases hsome : (Value.object given).given? f.name with
    | none =>
      rw [hleft hsome] at hw
      cases hw
    | some value =>
      obtain ⟨u, hconvert, hu⟩ := hgiven value hsome
      obtain rfl := Option.some.inj (hu.symm.trans hw)
      obtain ⟨hfound, hfull⟩ := (hvalue value).mpr hsome
      exact ⟨value, hfound, hfull, hconvert⟩
  · rintro ⟨value, hfound, hfull, hconvert⟩
    obtain ⟨u, hu, hset⟩ := hgiven value ((hvalue value).mp ⟨hfound, hfull⟩)
    have hsame : u.toValue = w.toValue := Except.ok.inj (hu.symm.trans hconvert)
    have huw : some u = some w := by
      rw [← u.ofValue?_toValue, hsame, w.ofValue?_toValue]
    rw [hset, huw]

end Service

/-! ## Declarations -/

/-- A row as it is declared at a scope that the directory shows. -/
structure InstructionRow.Declares (row : InstructionRow) (level : Level) (scope : Uuid) (info : Scope)
    (given : Members) (actor : Option Uuid) : Prop where
  current : row.isCurrent
  version : row.version = 1
  scopes : row.scopes = .only level scope
  level : row.level = level
  scopeName : row.scopeName = info.name
  creator : row.createdBy = actor
  fields : ∀ f w, row.fields f = some w ↔ ∃ value, given.lookup f.name = some value ∧ value ≠ .null ∧
    (Schema.Rule.ofKind f.kind).convert value = .ok w.toValue
  kept : ∀ key value, given.lookup key = some value → value ≠ .null →
    ∃ f : Field, f.name = key ∧ (row.fields f).isSome
  bare : ∀ kind, row.sections kind = []

/-- A database that has one row more than another, whose id was not in use. -/
structure Database.Gains (db db' : Database) (row : InstructionRow) : Prop where
  leases : db'.leases = db.leases
  rows : db'.instructions.rows = db.instructions.rows ++ [row]
  fresh : ∀ r ∈ db.instructions.rows, r.id ≠ row.id

def Store.Holds (s : Store) (level : Level) (scope : Uuid) : Prop :=
  ∃ r ∈ s.rows, r.isCurrent ∧ r.scopes.get level = some scope

theorem Store.not_holds_iff {s : Store} {level : Level} {scope : Uuid} :
    ¬ s.Holds level scope ↔ s.byScope? level scope = none := by
  rw [byScope?_eq_none, Holds]
  simp

theorem Store.holds_iff {s : Store} {level : Level} {scope : Uuid} :
    s.Holds level scope ↔ (s.byScope? level scope).isSome := by
  rw [← not_iff_not, not_holds_iff, Bool.not_eq_true, Option.isSome_eq_false_iff,
    Option.isNone_iff_eq_none]

namespace Service
variable {v : Service} {stamp : Stamp} {db : Database} {level scope : Value} {given : Members}
  {actor : Option Uuid} {l : Level} {id : Uuid} {info : Scope}

theorem newRow_declares {members : Members} (fit : FieldsFit given)
    (accepted : accept .fields (.object given) = .ok members) :
    (Session.newRow stamp l id info.name (.ofMembers members) actor).Declares l id info given
      actor where
  current := rfl
  version := rfl
  scopes := rfl
  level := rfl
  scopeName := rfl
  creator := rfl
  fields := declared_iff accepted
  kept := by
    intro key value hfound hfull
    -- The schema refuses names of no field, so the store has a place for each value.
    obtain ⟨before, after, hgiven, _⟩ := List.lookup_eq_some_iff.mp hfound
    have hmember : (key, value) ∈ given := hgiven ▸ List.mem_append_right _ List.mem_cons_self
    obtain ⟨f, hf⟩ := fit.keys (key, value) hmember
    obtain rfl : f.name = key := hf
    obtain ⟨w, hconvert⟩ := fit.values f value hfound hfull
    have hheld := (declared_iff accepted f w).mpr ⟨value, hfound, hfull, hconvert⟩
    exact ⟨f, rfl, Option.isSome_iff_exists.mpr ⟨w, hheld⟩⟩
  bare kind := by cases kind <;> rfl

/-- Where the arguments are accepted, the scope is known and free and the id is new, a declaration
adds one row, which is answered and read from then on. -/
theorem create_free (hl : Level.parse level = .ok l) (hid : acceptScopeId scope = .ok id)
    (fit : FieldsFit given) (hinfo : (v.directory db).scope? l id = some info)
    (free : db.instructions.byScope? l id = none) (fresh : db.instructions.row? stamp.id = none) :
    ∃ row db', v.create stamp db level scope (.object given) actor = (.ok row.read, db')
      ∧ db.Gains db' row ∧ row.Declares l id info given actor
      ∧ instruction db' row.id = .ok row.read
      ∧ instructionAt db' level id = .ok (some row.read) := by
  obtain ⟨members, haccepted⟩ := accept_of_fit fit
  let row := Session.newRow stamp l id info.name (.ofMembers members) actor
  let db' : Database := { db with instructions := ⟨db.instructions.rows ++ [row]⟩ }
  have hcreate : v.create stamp db level scope (.object given) actor = (.ok row.read, db') :=
    create_eq_ok.mpr ⟨l, id, members, info, hl, hid, haccepted, hinfo, free, fresh, rfl, rfl⟩
  have hgains : db.Gains db' row := ⟨rfl, rfl, Store.row?_eq_none.mp fresh⟩
  have hcurrent : db'.instructions.current? row.id = some row :=
    Store.current?_eq_some.mpr ⟨Store.row?_append_self fresh, rfl⟩
  have hscope : db'.instructions.byScope? l id = some row :=
    Store.byScope?_append_self free rfl (ScopeIds.get_only_self l id)
  refine ⟨row, db', hcreate, hgains, newRow_declares fit haccepted, ?_, ?_⟩
  · rw [instruction, hcurrent]
  · rw [instructionAt, hl]
    show Except.ok (db'.instructions.read l id) = _
    rw [Store.read, hscope, Option.map_some]

/-! ## Answers -/

section
variable (hl : Level.parse level = .ok l) (hid : acceptScopeId scope = .ok id) (fit : FieldsFit given)
include hl hid fit

/-- At a scope that is known a declaration is refused for what is declared there, or for its own id,
or it succeeds. -/
theorem create_of_known (hinfo : (v.directory db).scope? l id = some info) :
    let out := v.create stamp db level scope (.object given) actor
    (db.instructions.Holds l id ∧ out = (.error (.scopeTaken l id), db))
      ∨ (¬ db.instructions.Holds l id ∧
        (out = (.error .instructionExists, db) ∨ ∃ r db', out = (.ok r, db'))) := by
  intro out
  obtain ⟨members, haccepted⟩ := accept_of_fit fit
  cases hfree : db.instructions.byScope? l id with
  | some r =>
    have htaken : (db.instructions.byScope? l id).isSome := by rw [hfree, Option.isSome_some]
    exact .inl ⟨Store.holds_iff.mpr htaken, create_taken hl hid haccepted hinfo htaken⟩
  | none =>
    refine .inr ⟨Store.not_holds_iff.mpr hfree, ?_⟩
    by_cases hfresh : db.instructions.row? stamp.id = none
    · obtain ⟨row, db', hcreate, _⟩ := create_free hl hid fit hinfo hfree hfresh
      exact .inr ⟨row.read, db', hcreate⟩
    · exact .inl (create_collision hl hid haccepted hinfo hfree hfresh)

theorem create_unknown_iff :
    v.create stamp db level scope (.object given) actor = (.error (.scopeNotFound l id), db) ↔
      (v.directory db).scope? l id = none := by
  obtain ⟨members, haccepted⟩ := accept_of_fit fit
  refine ⟨?_, create_unknown hl hid haccepted⟩
  intro hout
  by_contra hknown
  obtain ⟨info, hinfo⟩ := Option.ne_none_iff_exists'.mp hknown
  rcases create_of_known hl hid fit hinfo with ⟨_, h⟩ | ⟨_, h | ⟨r, db', h⟩⟩ <;>
    cases h.symm.trans hout

theorem create_taken_iff :
    v.create stamp db level scope (.object given) actor = (.error (.scopeTaken l id), db) ↔
      (v.directory db).scope? l id ≠ none ∧ db.instructions.Holds l id := by
  obtain ⟨members, haccepted⟩ := accept_of_fit fit
  constructor
  · intro hout
    cases hinfo : (v.directory db).scope? l id with
    | none => cases (create_unknown hl hid haccepted hinfo).symm.trans hout
    | some info =>
      rcases create_of_known hl hid fit hinfo with ⟨htaken, _⟩ | ⟨_, h | ⟨r, db', h⟩⟩
      · exact ⟨nofun, htaken⟩
      · cases h.symm.trans hout
      · cases h.symm.trans hout
  · rintro ⟨hknown, htaken⟩
    obtain ⟨info, hinfo⟩ := Option.ne_none_iff_exists'.mp hknown
    exact create_taken hl hid haccepted hinfo (Store.holds_iff.mp htaken)

end

end Service

/-- How a declaration ends, for all arguments whose payload is an object. A value that names no level
is answered first, then a scope id that cannot be read, then a payload that does not fit, whatever is
stored. Otherwise the scope has to be known, and may not have a current instruction. If so, and if
the new id is not in use, one row is added and found from then on. -/
theorem declaration_outcome (v : Service) (stamp : Stamp) (level scope : Value) (given : Members)
    (actor : Option Uuid) :
    let create (db : Database) := v.create stamp db level scope (.object given) actor
    (Level.ofValue? level = none → ∀ db, create db = (.error (.invalidLevel level), db))
      ∧ (∀ l, Level.ofValue? level = some l → (∀ id, Service.acceptScopeId scope ≠ .ok id) →
        ∃ complaint, ∀ db, create db = (.error (.invalidInput [⟨"id", complaint⟩]), db))
      ∧ (∀ l id, Level.ofValue? level = some l → Service.acceptScopeId scope = .ok id →
        ¬ FieldsFit given →
        ∀ db, create db = (.error (.invalidInput (Schema.fields.faults given)), db))
      ∧ ∀ l id, Level.ofValue? level = some l → Service.acceptScopeId scope = .ok id →
        FieldsFit given → ∀ db,
        (create db = (.error (.scopeNotFound l id), db) ↔ (v.directory db).scope? l id = none)
        ∧ (create db = (.error (.scopeTaken l id), db) ↔
          (v.directory db).scope? l id ≠ none ∧ db.instructions.Holds l id)
        ∧ ∀ info, (v.directory db).scope? l id = some info → ¬ db.instructions.Holds l id →
          (db.instructions.row? stamp.id ≠ none → create db = (.error .instructionExists, db))
          ∧ (db.instructions.row? stamp.id = none → ∃ row db', create db = (.ok row.read, db')
            ∧ db.Gains db' row ∧ row.Declares l id info given actor
            ∧ Service.instruction db' row.id = .ok row.read
            ∧ Service.instructionAt db' level id = .ok (some row.read)) := by
  intro create
  have hparse : ∀ l, Level.ofValue? level = some l → Level.parse level = .ok l := by
    intro l hl
    rw [Level.parse, hl]
  refine ⟨?_, ?_, ?_, ?_⟩
  · intro hl db
    exact Service.create_of_level_error (by rw [Level.parse, hl])
  · intro l hl hbad
    cases hscope : Service.acceptScopeId scope with
    | ok id => exact absurd hscope (hbad id)
    | error e =>
      obtain ⟨complaint, rfl⟩ := Service.acceptScopeId_error hscope
      exact ⟨complaint, fun db => Service.create_of_scope_error (hparse l hl) hscope⟩
  · intro l id hl hid unfit db
    exact Service.create_of_payload_error (hparse l hl) hid (Service.accept_of_unfit unfit)
  · intro l id hl hid fit db
    have hl := hparse l hl
    obtain ⟨members, haccepted⟩ := Service.accept_of_fit fit
    refine ⟨Service.create_unknown_iff hl hid fit, Service.create_taken_iff hl hid fit, ?_⟩
    intro info hinfo hfree
    have hfree := Store.not_holds_iff.mp hfree
    exact ⟨Service.create_collision hl hid haccepted hinfo hfree,
      Service.create_free hl hid fit hinfo hfree⟩

/-- A number is converted and an empty value left out, and a second declaration is refused. -/
theorem declaration_outcome_acme :
    let v : Service := { today := ⟨1⟩ }
    let given : Members := [("food_grade", .int 1), ("nitrogen_psi", .null)]
    let create (db : Database) := v.create ⟨⟨70⟩, ⟨9⟩⟩ db (.text "customer")
      (.text "00000000-0000-0000-0000-000000000001") (.object given) (some ⟨5⟩)
    FieldsFit given ∧ ∃ row db', create { leases := acmeTables } = (.ok row.read, db')
      ∧ db'.instructions.rows = [row] ∧ row.scopeName = some "Acme"
      ∧ row.fields .foodGrade = some (.flag true) ∧ row.fields .nitrogenPsi = none
      ∧ create db' = (.error (.scopeTaken .customer ⟨1⟩), db') := by
  intro v given create
  have hfit : FieldsFit given := Schema.fields_faultless.mp (by decide +kernel)
  obtain ⟨_, _, _, haccepted⟩ := declaration_outcome v ⟨⟨70⟩, ⟨9⟩⟩ (.text "customer")
    (.text "00000000-0000-0000-0000-000000000001") given (some ⟨5⟩)
  have hid : Service.acceptScopeId (.text "00000000-0000-0000-0000-000000000001") = .ok ⟨1⟩ := rfl
  have hempty : ¬ ({} : Store).Holds .customer ⟨1⟩ := by
    rintro ⟨r, hr, _⟩
    cases hr
  obtain ⟨_, _, hfirst⟩ := haccepted .customer ⟨1⟩ rfl hid hfit { leases := acmeTables }
  obtain ⟨row, db', hcreate, hgains, hrow, _⟩ := (hfirst _ rfl hempty).2 rfl
  obtain ⟨_, hsecond, _⟩ := haccepted .customer ⟨1⟩ rfl hid hfit db'
  have hrows : db'.instructions.rows = [row] := hgains.rows
  have hknown : (v.directory db').scope? .customer ⟨1⟩ ≠ none := by
    rw [Service.directory, hgains.leases]
    nofun
  have htaken : db'.instructions.Holds .customer ⟨1⟩ :=
    ⟨row, by rw [hrows]; exact List.mem_singleton_self row, hrow.current, by rw [hrow.scopes]; rfl⟩
  have hflag : row.fields .foodGrade = some (.flag true) :=
    (hrow.fields .foodGrade (.flag true)).mpr ⟨.int 1, rfl, nofun, rfl⟩
  have hleft : row.fields .nitrogenPsi = none := by
    rw [Option.eq_none_iff_forall_ne_some]
    intro w hw
    obtain ⟨value, hvalue, hfull, _⟩ := (hrow.fields .nitrogenPsi w).mp hw
    exact hfull (Option.some.inj hvalue).symm
  exact ⟨hfit, row, db', hcreate, hrows, hrow.scopeName, hflag, hleft,
    hsecond.mpr ⟨hknown, htaken⟩⟩

end CarCare

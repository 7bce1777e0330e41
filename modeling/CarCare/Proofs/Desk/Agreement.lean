import CarCare.Proofs.Desk.Columns
import CarCare.Proofs.Desk.Requests
import CarCare.Proofs.Schema.RecordPayload
import CarCare.Service

/-!
Requests at a desk against requests of a session. Where a schema has accepted a dictionary, or its
values are at least of the kinds of their columns, a request at a desk of its own does what the
session does with the change that the dictionary asks for.

What is proved:
  1. `Desk.atDesk_of_agrees`: where the answers are the same and so are the tables, the same is
     committed.
  2. `Database.atDesk_create` and `Database.atDesk_update`: so it is for requests on instructions.
  3. `Service.create_atDesk` and `Service.update_atDesk`: hence such writes of a service are
     requests at a desk.
-/
namespace CarCare

/-- An answer with a database is one with a shelf that has nothing beside the tables. -/
def onShelf {α : Type} (out : Except Error α × Database) : Except Error α × Shelf :=
  (out.1, { database := out.2 })

namespace Desk
variable {α : Type} {a : Affinity} {db : Database} {data : Members}

/-- A desk with the tables of a database on it, and nothing else. -/
abbrev fresh (db : Database) : Desk := start { database := db }

/-- A request at a desk comes out as one of a session: the answer is the same, and where it is no
error the tables are. -/
def Agrees (out : Outcome α) (typed : Session.Outcome α) : Prop :=
  out.1 = typed.1 ∧ (typed.1.isOk → out.2.working = { database := typed.2.working })

theorem Agrees.refused (e : Error) (d : Desk) (s : Session) :
    Agrees ((.error e, d) : Outcome α) (.error e, s) :=
  ⟨rfl, nofun⟩

theorem atDesk_of_agrees {request : Desk → Outcome α} {typed : Session → Session.Outcome α}
    (agrees : Agrees (request (fresh db)) (typed (.start db)))
    (kept : (request (fresh db)).2.committed = { database := db })
    (kept' : (typed (.start db)).2.committed = db) :
    db.atDesk request = onShelf (db.transact typed) := by
  unfold Database.atDesk Database.transact onShelf
  generalize request (fresh db) = out at agrees kept ⊢
  generalize typed (.start db) = out' at agrees kept' ⊢
  obtain ⟨answer, d⟩ := out
  obtain ⟨answer', s⟩ := out'
  obtain ⟨hanswer, hworking⟩ := agrees
  obtain rfl : answer = answer' := hanswer
  cases answer with
  | ok x => exact congrArg (Prod.mk _) (hworking rfl)
  | error e =>
    have hrest : s.committed = db := kept'
    exact congrArg (Prod.mk _) (kept.trans (by rw [← hrest]; rfl))

/-- What is written by a request of the session. Places in the display order are integers. -/
theorem agrees_of_writes (out : Session.Outcome α) (table : String) (id : Uuid)
    (given : List (Column × Value)) {kept : Members}
    (place : ∀ value, kept.lookup Column.place.name = some value → ∃ n, value = .int n) :
    Agrees ((fresh db).request none do
      let (x, s) ← writes out
      pure (x, (fresh db).wrote s table id given kept)) out := by
  obtain ⟨answer, s⟩ := out
  cases answer with
  | error e => exact .refused ..
  | ok x =>
    refine ⟨rfl, fun _ => congrArg (Shelf.mk s.working) (funext fun cell => ?_)⟩
    show (if cell = _ then _ else none) = none
    split
    · cases hplace : kept.lookup Column.place.name with
      | none => rfl
      | some value =>
        obtain ⟨n, rfl⟩ := place value hplace
        rfl
    · rfl

theorem not_overflows {columns : List Column} {c : Column} (fitting : Column.Fitting columns data)
    (hc : c ∈ columns) (other : c.kind ≠ .integer) (shown : String → Option Value) :
    (c.fresh? shown data).any Value.overflows = false := by
  cases hfresh : c.fresh? shown data with
  | none => rfl
  | some value =>
    have hfits := fitting.given hc (Option.filter_eq_some_iff.mp hfresh).1
    rw [Option.any_some]
    unfold Value.overflows
    split
    · exact absurd (beq_iff_eq.mp hfits) other
    · rfl

theorem field_kind {c : Column} (hc : c ∈ Column.fields) : c.kind ≠ .integer := by
  obtain ⟨f, _, rfl⟩ := List.mem_map.mp hc
  cases f.kind <;> nofun

/-! ## Instructions -/

theorem place_of_fields {kept : Members}
    (names : ∀ member ∈ kept, ∃ c ∈ Column.fields, c.name = member.1) (value : Value)
    (h : kept.lookup Column.place.name = some value) : ∃ n, value = .int n := by
  obtain ⟨member, hmember, hname⟩ := List.mem_map.mp (exists_lookup_iff.mp ⟨value, h⟩)
  obtain ⟨c, hc, hplace⟩ := names member hmember
  have hnot : Column.place.name ∉ Column.fields.map Column.name := by decide +kernel
  exact absurd (List.mem_map.mpr ⟨c, hc, hplace.trans hname⟩) hnot

theorem create_of_occupied {d : Desk} {today : Date} {level : Level} {scope : Uuid} {e : Error}
    (h : d.occupied? today level scope = some e) (stamp : Stamp) (fields : Fields)
    (actor : Option Uuid) :
    d.session.create today stamp level scope fields actor = (.error e, d.session) := by
  unfold occupied? at h
  unfold Session.create
  cases hscope : (d.session.directory today).scope? level scope with
  | none =>
    rw [hscope] at h
    cases h
    rfl
  | some info =>
    rw [hscope] at h
    by_cases htaken : (d.store.byScope? level scope).isSome
    · rw [if_neg (by nofun), if_pos htaken] at h
      cases h
      exact if_pos htaken
    · rw [if_neg (by nofun), if_neg htaken] at h
      cases h

theorem create_agrees (a : Affinity) (fitting : Column.Fitting Column.fields data) (today : Date)
    (stamp : Stamp) (level : Level) (scope : Uuid) (actor : Option Uuid) :
    Agrees ((fresh db).create a today stamp level scope data actor)
      ((Session.start db).create today stamp level scope (.ofMembers data) actor) := by
  obtain ⟨kept, hwrite, hlookup, hnames⟩ :=
    a.write_of_storable (fun _ => none) Column.fields_names fitting fun c hc =>
      not_overflows fitting hc (field_kind hc) _
  have hsame : Fields.ofMembers kept = .ofMembers data :=
    Fields.ofMembers_kept fun c hc => (hlookup c hc).trans (c.fresh?_new data)
  unfold create
  dsimp only
  rw [hwrite, ← hsame]
  cases hfound : (fresh db).occupied? today level scope with
  | none => exact agrees_of_writes _ _ _ _ (place_of_fields hnames)
  | some e =>
    rw [show Session.start db = (fresh db).session from rfl, create_of_occupied hfound]
    exact .refused ..

theorem filter_changed (held : Option FieldValue) (v : FieldValue) :
    (some v).filter (held != some ·) = if held = some v then none else some v := by
  by_cases hsame : held = some v <;> simp [hsame]

theorem fresh?_field (fitting : Column.Fitting Column.fields data) (row : InstructionRow)
    (f : Field) :
    (Column.ofKind f.name true f.kind).fresh? ((fresh db).shownFields row) data
      = ((Fields.ofMembers data f).filter (row.fields f != some ·)).map FieldValue.toValue := by
  have hshown : (fresh db).shownFields row (Column.ofKind f.name true f.kind).name
      = some (.ofOption FieldValue.toValue (row.fields f)) := by
    have hnames : (row.fields.members.map (·.1)).Nodup :=
      row.fields.members_names ▸ Schema.fields_names
    rw [Column.ofKind_name]
    exact (lookup_eq_some_iff_mem hnames).mpr (List.mem_map_of_mem f.mem_all)
  rw [Column.fresh?, hshown, Column.given?_field, Fields.ofMembers]
  cases hvalue : data.lookup f.name with
  | none => rfl
  | some value =>
    by_cases hnull : value = .null
    · rw [hnull]
      rfl
    · have hfits : (Column.ofKind f.name true f.kind).fits value :=
        fitting _ (Column.field_mem f) value (by rw [Column.ofKind_name, hvalue])
      obtain ⟨v, rfl⟩ := Column.toValue_of_fits hfits hnull
      have hfull : v.toValue.isNull = false := by cases v <;> rfl
      rw [Option.filter_some, hfull, Option.bind_some, v.ofValue?_toValue, filter_changed]
      simp only [Bool.not_false, if_true, Option.any_some]
      rw [Option.filter_some, v.equals_toValue]
      by_cases hsame : row.fields f = some v <;> simp [hsame]

theorem setFields_kept {kept : Members} {change fields : Fields}
    (names : ∀ member ∈ kept, ∃ c ∈ Column.fields, c.name = member.1)
    (written : ∀ f : Field, kept.lookup f.name =
      ((change f).filter (fields f != some ·)).map FieldValue.toValue) :
    setFields kept fields = change.overlay fields ∧
      kept.isEmpty = (change.overlay fields).same fields := by
  have hset : ∀ f, setFields kept fields f = (change.overlay fields) f := by
    intro f
    rw [setFields, Fields.overlay, written f]
    cases hchange : change f with
    | none => rfl
    | some v =>
      rw [filter_changed]
      by_cases hsame : fields f = some v
      · rw [if_pos hsame, hsame]
        rfl
      · rw [if_neg hsame]
        exact v.ofValue?_toValue
  refine ⟨funext hset, ?_⟩
  rw [Bool.eq_iff_iff, Fields.same_iff, ← funext hset, List.isEmpty_iff]
  constructor
  · rintro rfl
    rfl
  · intro hsame
    by_contra hne
    -- What is written first differs from what its field holds.
    obtain ⟨member, hmember⟩ := List.exists_mem_of_ne_nil kept hne
    obtain ⟨c, hc, hname⟩ := names member hmember
    obtain ⟨f, _, rfl⟩ := List.mem_map.mp hc
    rw [Column.ofKind_name] at hname
    obtain ⟨value, hvalue⟩ := exists_lookup_iff.mpr (List.mem_map_of_mem hmember)
    rw [← hname] at hvalue
    have hf := congrFun hsame f
    rw [setFields, hvalue] at hf
    rw [written f] at hvalue
    obtain ⟨v, hv, rfl⟩ := Option.map_eq_some_iff.mp hvalue
    have hdiffers := (Option.filter_eq_some_iff.mp hv).2
    have hheld : some v = fields f := v.ofValue?_toValue.symm.trans hf
    rw [← hheld, bne_self_eq_false] at hdiffers
    cases hdiffers

theorem update_agrees (a : Affinity) (fitting : Column.Fitting Column.fields data)
    (now : Timestamp) (id : Uuid) :
    Agrees ((fresh db).update a now id data)
      ((Session.start db).update now id (.ofMembers data)) := by
  unfold update Session.update
  rw [show (Session.start db).store = (fresh db).store from rfl]
  cases hrow : (fresh db).store.current? id with
  | none => exact ⟨rfl, fun _ => rfl⟩
  | some row =>
    obtain ⟨kept, hwrite, hlookup, hnames⟩ :=
      a.write_of_storable ((fresh db).shownFields row) Column.fields_names fitting
        fun c hc => not_overflows fitting hc (field_kind hc) _
    have hkept : ∀ f : Field, kept.lookup f.name =
        ((Fields.ofMembers data f).filter (row.fields f != some ·)).map FieldValue.toValue := by
      intro f
      rw [← fresh?_field fitting row f, ← hlookup _ (Column.field_mem f), Column.ofKind_name]
    obtain ⟨hfields, hempty⟩ := setFields_kept hnames hkept
    have hrow' : { row with
        fields := setFields kept row.fields
        updatedAt := if kept.isEmpty then row.updatedAt else now }
          = Session.overlaid now (.ofMembers data) row := by
      rw [hfields, hempty, Session.overlaid]
      by_cases hsame : ((Fields.ofMembers data).overlay row.fields).same row.fields
      · rw [if_pos hsame, if_pos hsame, Fields.same_iff.mp hsame]
      · rw [if_neg hsame, if_neg hsame]
    dsimp only
    rw [hwrite, ← hrow']
    exact agrees_of_writes (.ok _, (fresh db).session.withStore _) _ _ _ (place_of_fields hnames)

end Desk

/-! ## Requests at a desk of their own -/

namespace Database
variable {a : Affinity} {data : Members}

theorem atDesk_create (db : Database) (fitting : Column.Fitting Column.fields data) (today : Date)
    (stamp : Stamp) (level : Level) (scope : Uuid) (actor : Option Uuid) :
    db.atDesk (Desk.create a today stamp level scope data actor)
      = onShelf (db.transact (Session.create today stamp level scope (.ofMembers data) actor)) :=
  Desk.atDesk_of_agrees (Desk.create_agrees a fitting today stamp level scope actor)
    (Desk.create_committed ..) (Session.create_committed ..)

theorem atDesk_update (db : Database) (fitting : Column.Fitting Column.fields data)
    (now : Timestamp) (id : Uuid) :
    db.atDesk (Desk.update a now id data)
      = onShelf (db.transact (Session.update now id (.ofMembers data))) :=
  Desk.atDesk_of_agrees (Desk.update_agrees a fitting now id)
    (Desk.update_committed ..) (Session.update_committed ..)

end Database

/-! ## Writes of a service -/

namespace Service
variable {a : Affinity} {payload : Value} {members : Members}

theorem create_atDesk (v : Service) (stamp : Stamp) (db : Database) {levelValue scopeValue : Value}
    {level : Level} {scope : Uuid} (hlevel : Level.parse levelValue = .ok level)
    (hscope : acceptScopeId scopeValue = .ok scope)
    (accepted : accept .fields payload = .ok members) (actor : Option Uuid) :
    db.atDesk (Desk.create a v.today stamp level scope members actor)
      = onShelf (v.create stamp db levelValue scopeValue payload actor) := by
  rw [db.atDesk_create (accept_fields_fitting accepted), create, hlevel, hscope, accepted]
  rfl

theorem update_atDesk (now : Timestamp) (db : Database) (id : Uuid)
    (accepted : accept .fields payload = .ok members) :
    update now db id payload = match db.atDesk (Desk.update a now id members) with
      | (.ok (some i), shelf) => (.ok i, shelf.database)
      | (.ok none, shelf) => (.error (.instructionNotFound id), shelf.database)
      | (.error e, shelf) => (.error e, shelf.database) := by
  rw [db.atDesk_update (accept_fields_fitting accepted), update, accepted]
  unfold write onShelf Database.transact Session.update
  dsimp only
  cases (Session.start db).store.current? id <;> rfl

end Service

end CarCare

import CarCare.Proofs.Hierarchy.Listing
import CarCare.Proofs.Store.Declaration
import CarCare.Proofs.Store.Soundness
import CarCare.Proofs.WrittenIds

/-!
The name that an instruction keeps of its scope, and the width of the column that it is kept in.

Texts of the leasing tables have columns of their own widths. A name is shown for a scope and kept
with an instruction as it is, whatever column it comes from.

What is proved:
  1. `Store.Named.run`: every stored instruction keeps the name that its scope has in the leasing
     tables, on all days alike.
  2. `LeaseTables.WithinColumns.name_le`: how long the name of a scope can be, level by level. Only
     that of an amendment can be longer than the column of kept names, as it may be a summary.
  3. `LeaseTables.Keyed.keeps_summary`: a summary becomes the name of an instruction as it is.
  4. `kept_names_fit_iff`: hence all kept names fit, in every run, exactly where all summaries do.
  5. `long_summary_outgrows_column`: tables that keep to their own columns and lead to a kept name
     that does not fit.
-/
namespace CarCare

/-! ## Widths -/

def codeWidth : Nat := 50

def nameWidth : Nat := 200

/-- The width of the column of the summaries of amendments. -/
def summaryWidth : Nat := 500

def keptNameWidth : Nat := 255

/-- Leasing tables in which no code, name or summary is longer than its column is wide. -/
structure LeaseTables.WithinColumns (t : LeaseTables) : Prop where
  customers : ∀ c ∈ t.customers, c.code.length ≤ codeWidth ∧ c.name.length ≤ nameWidth
  leases : ∀ l ∈ t.leases, l.code.length ≤ codeWidth ∧ ∀ name ∈ l.name, name.length ≤ nameWidth
  riders : ∀ r ∈ t.riders, r.code.length ≤ codeWidth ∧ ∀ name ∈ r.name, name.length ≤ nameWidth
  amendments : ∀ a ∈ t.amendments,
    a.code.length ≤ codeWidth ∧ ∀ summary ∈ a.summary, summary.length ≤ summaryWidth

/-- How long the name of a scope of a level can be where summaries have a width. -/
def Level.nameRoom (summaries : Nat) : Level → Nat
  | .customer | .masterLease | .rider => nameWidth
  | .amendment => summaries

/-! ## Shown names -/

theorem shownName_length {name : Option String} {code : String} {width : Nat}
    (names : ∀ text ∈ name, text.length ≤ width) (codes : code.length ≤ width) :
    (shownName name code).length ≤ width := by
  cases name with
  | none => exact codes
  | some text =>
    rw [shownName]
    split
    · exact codes
    · exact names text rfl

theorem shownName_of_ne {text : String} (h : text ≠ "") (code : String) :
    shownName (some text) code = text := by
  rw [shownName, if_neg h]

namespace LeaseTables
variable {t : LeaseTables} {today : Date} {level : Level} {id : Uuid} {info : Scope}

theorem scope?_name (t : LeaseTables) (day today : Date) (level : Level) (id : Uuid) :
    ((t.directory today).scope? level id).map (·.name) =
      ((t.directory day).scope? level id).map (·.name) := by
  show (t.scope? today level id).map (·.name) = (t.scope? day level id).map (·.name)
  cases level with
  | customer | masterLease | rider => rfl
  | amendment =>
    rw [scope?, scope?, Option.map_map, Option.map_map]
    rfl

theorem WithinColumns.name_le (fit : t.WithinColumns) {width : Nat} (codes : codeWidth ≤ width)
    (summaries : ∀ a ∈ t.amendments, ∀ summary ∈ a.summary, summary.length ≤ width)
    (found : (t.directory today).scope? level id = some info) :
    ∀ name ∈ info.name, name.length ≤ level.nameRoom width := by
  have hcode : codeWidth ≤ nameWidth := by decide
  cases level with
  | customer =>
    obtain ⟨c, hc, rfl⟩ := Option.map_eq_some_iff.mp found
    rintro name ⟨⟩
    exact (fit.customers c (List.mem_of_find?_eq_some hc)).2
  | masterLease =>
    obtain ⟨l, hl, rfl⟩ := Option.map_eq_some_iff.mp found
    rintro name ⟨⟩
    obtain ⟨hcodes, hnames⟩ := fit.leases l (List.mem_of_find?_eq_some hl)
    exact shownName_length hnames (Nat.le_trans hcodes hcode)
  | rider =>
    obtain ⟨r, hr, hscope⟩ := Option.bind_eq_some_iff.mp found
    obtain ⟨lease, _, rfl⟩ := Option.map_eq_some_iff.mp hscope
    rintro name ⟨⟩
    obtain ⟨hcodes, hnames⟩ := fit.riders r (List.mem_of_find?_eq_some hr)
    exact shownName_length hnames (Nat.le_trans hcodes hcode)
  | amendment =>
    obtain ⟨a, ha, rfl⟩ := Option.map_eq_some_iff.mp found
    rintro name ⟨⟩
    have hmem : a ∈ t.amendments := List.mem_of_find?_eq_some ha
    exact shownName_length (summaries a hmem) (Nat.le_trans (fit.amendments a hmem).1 codes)

end LeaseTables

/-! ## Kept names -/

/-- A row keeps the name that its scope has in the leasing tables. -/
def InstructionRow.Named (t : LeaseTables) (r : InstructionRow) : Prop :=
  ∃ scope, r.scopes = .only r.level scope ∧
    ∀ today, ((t.directory today).scope? r.level scope).map (·.name) = some r.scopeName

def Store.Named (t : LeaseTables) (s : Store) : Prop := ∀ r ∈ s.rows, r.Named t

theorem newRow_named {t : LeaseTables} {today : Date} {level : Level} {scope : Uuid} {info : Scope}
    (known : (t.directory today).scope? level scope = some info) (stamp : Stamp) (fields : Fields)
    (actor : Option Uuid) : (Session.newRow stamp level scope info.name fields actor).Named t := by
  refine ⟨scope, rfl, fun day => ?_⟩
  show ((t.directory day).scope? level scope).map (·.name) = some info.name
  rw [t.scope?_name today day, known]
  rfl

namespace Store
variable {s s' : Store} {t : LeaseTables} {row new : InstructionRow}

theorem Revision.scopeName (h : s.Revision row new) : new.scopeName = row.scopeName := by
  cases h with
  | overlaid now change _ =>
    obtain ⟨age, heq⟩ := Session.overlaid_eq now change row
    rw [heq]
  | retired now => rfl
  | sectionAdded kind _ _ _ _ _ _ | sectionChanged kind _ _ _ _ _ _ _ | sectionRemoved kind _ _ =>
    cases kind <;> rfl

theorem Revision.named (h : s.Revision row new) (named : row.Named t) : new.Named t := by
  obtain ⟨_, hlevel, hscopes, _⟩ := h.frame
  rw [InstructionRow.Named, hlevel, hscopes, h.scopeName]
  exact named

theorem Named.move (h : s.Named t) {aim : Option Aim} (move : s.Move t aim s') : s'.Named t := by
  have hrevised : ∀ {row new : InstructionRow}, s.current? row.id = some row →
      s.Revision row new → (s.replace new).Named t := by
    intro row new found revision r hr
    rcases mem_replace hr with rfl | ⟨hold, _⟩
    · exact revision.named (h row (row?_eq_some (current?_eq_some.mp found).1).1)
    · exact h r hold
  cases move with
  | stay => exact h
  | declare today stamp level scope info fields actor known _ _ _ =>
    intro r hr
    rcases List.mem_append.mp hr with hold | hnew
    · exact h r hold
    · rw [List.mem_singleton.mp hnew]
      exact newRow_named known stamp fields actor
  | revise row new found revision _ => exact hrevised found revision
  | retire row now found => exact hrevised found (.retired now)

theorem Named.run {db : Database} (sound : db.Sound) (h : db.instructions.Named db.leases)
    (writes : List Write) : (db.run writes).instructions.Named db.leases := by
  -- Writes leave the leasing tables alone, so that the names to keep stay the same.
  induction writes generalizing db with
  | nil => exact h
  | cons w rest ih =>
    obtain ⟨hleases, hmove⟩ := w.move db sound.ids
    have hafter : (w.perform db).instructions.Named db.leases := h.move hmove
    rw [← hleases] at hafter ⊢
    exact ih (w.perform_sound db sound).2 hafter

theorem Named.name_le (h : s.Named t) (fit : t.WithinColumns) {width : Nat}
    (codes : codeWidth ≤ width)
    (summaries : ∀ a ∈ t.amendments, ∀ summary ∈ a.summary, summary.length ≤ width) :
    ∀ r ∈ s.rows, ∀ name ∈ r.scopeName, name.length ≤ r.level.nameRoom width := by
  intro r hr name hname
  obtain ⟨scope, _, hnames⟩ := h r hr
  obtain ⟨info, hinfo, heq⟩ := Option.map_eq_some_iff.mp (hnames ⟨1⟩)
  exact fit.name_le codes summaries hinfo name (heq ▸ hname)

end Store

/-! ## Long summaries -/

/-- Declares an instruction without fields at an amendment. -/
def amendmentCreate (id : Uuid) : Write :=
  .create { today := ⟨1⟩ } ⟨⟨1⟩, ⟨0⟩⟩ (.text "amendment") (.text id.text) (.object []) none

/-- What is declared at an amendment with a summary keeps the summary as its name, however long it
is. -/
theorem LeaseTables.Keyed.keeps_summary {t : LeaseTables} (keyed : t.Keyed) {a : Amendment}
    (held : a ∈ t.amendments) {summary : String} (given : a.summary = some summary)
    (full : summary ≠ "") :
    ∃ r ∈ (Database.run { leases := t } [amendmentCreate a.id]).instructions.rows,
      r.level = .amendment ∧ r.scopeName = some summary := by
  have hfound : t.amendment? a.id = some a :=
    (find?_key_eq_some (keyed.scopes .amendment)).mpr ⟨held, rfl⟩
  let v : Service := { today := ⟨1⟩ }
  let db : Database := { leases := t }
  have hinfo : (v.directory db).scope? .amendment a.id = some (t.amendmentScope ⟨1⟩ a) :=
    congrArg (Option.map (t.amendmentScope ⟨1⟩)) hfound
  have hid : Service.acceptScopeId (.text a.id.text) = .ok a.id := by
    rw [Service.acceptScopeId, Schema.readId, a.id.ofPayload?_text]
  have hlevel : Level.parse (.text "amendment") = .ok .amendment := rfl
  have hfit : FieldsFit [] := Schema.fields_faultless.mp (by decide +kernel)
  have hcreated : ∃ row db', v.create ⟨⟨1⟩, ⟨0⟩⟩ db (.text "amendment") (.text a.id.text)
      (.object []) none = (.ok row.read, db') ∧ db.Gains db' row
        ∧ row.Declares .amendment a.id (t.amendmentScope ⟨1⟩ a) [] none ∧ _ ∧ _ :=
    Service.create_free hlevel hid hfit hinfo rfl rfl
  obtain ⟨row, db', hcreate, hgains, hrow, _⟩ := hcreated
  have hrun : db.run [amendmentCreate a.id] = db' := congrArg Prod.snd hcreate
  have hname : (t.amendmentScope ⟨1⟩ a).name = some summary := by
    show some (shownName a.summary a.code) = some summary
    rw [given, shownName_of_ne full]
  rw [hrun, hgains.rows]
  exact ⟨row, List.mem_append_right _ (List.mem_singleton_self row), hrow.level,
    hrow.scopeName.trans hname⟩

/-- What every run of writes stores, where the leasing tables keep to the widths of their own
columns: an instruction of a customer, lease or rider keeps a name that fits its column; the name of
one of an amendment is as long as a summary may be; and all of them fit, after every run, exactly
where no summary is longer than the column of kept names is wide. -/
theorem kept_names_fit_iff {t : LeaseTables} (keyed : t.Keyed) (fit : t.WithinColumns) :
    (∀ writes, ∀ r ∈ (Database.run { leases := t } writes).instructions.rows,
      ∀ name ∈ r.scopeName, name.length ≤ r.level.nameRoom summaryWidth
        ∧ (r.level ≠ .amendment → name.length ≤ keptNameWidth))
      ∧ ((∀ writes, ∀ r ∈ (Database.run { leases := t } writes).instructions.rows,
          ∀ name ∈ r.scopeName, name.length ≤ keptNameWidth) ↔
        ∀ a ∈ t.amendments, ∀ summary ∈ a.summary, summary.length ≤ keptNameWidth) := by
  have hnamed : ∀ writes, (Database.run { leases := t } writes).instructions.Named t := by
    intro writes
    exact Store.Named.run (.empty t) (fun r hr => absurd hr List.not_mem_nil) writes
  refine ⟨fun writes r hr name hname => ?_, fun h a ha summary hsummary => ?_,
    fun h writes r hr name hname => ?_⟩
  · have hle := (hnamed writes).name_le fit (by decide) (fun a ha => (fit.amendments a ha).2)
      r hr name hname
    refine ⟨hle, fun hlevel => Nat.le_trans hle ?_⟩
    cases hl : r.level with
    | amendment => exact absurd hl hlevel
    | customer | masterLease | rider => decide
  · by_cases hempty : summary = ""
    · rw [hempty]
      exact Nat.zero_le _
    · obtain ⟨r, hr, _, hname⟩ := keyed.keeps_summary ha hsummary hempty
      exact h [amendmentCreate a.id] r hr summary hname
  · have hle := (hnamed writes).name_le fit (by decide) h r hr name hname
    refine Nat.le_trans hle ?_
    cases r.level <;> decide

def lengthyText (length : Nat) : String := String.ofList (List.replicate length 'w')

theorem length_lengthyText (length : Nat) : (lengthyText length).length = length := by
  rw [lengthyText, String.length_ofList, List.length_replicate]

def summaryTables (length : Nat) : LeaseTables where
  customers := [⟨⟨1⟩, "ACME", "Acme", true⟩]
  leases := [⟨⟨10⟩, ⟨1⟩, "L10", none, "Active"⟩]
  riders := [⟨⟨20⟩, ⟨10⟩, "R20", none, "Active"⟩]
  amendments := [⟨⟨30⟩, some ⟨20⟩, none, "A30", some (lengthyText length), ⟨5⟩⟩]

theorem summaryTables_keyed (length : Nat) : (summaryTables length).Keyed where
  scopes level := by cases level <;> exact List.nodup_singleton _
  placements := List.nodup_nil

theorem summaryTables_within {length : Nat} (short : length ≤ summaryWidth) :
    (summaryTables length).WithinColumns where
  customers c hc := by
    rw [List.mem_singleton.mp hc]
    decide
  leases l hl := by
    rw [List.mem_singleton.mp hl]
    exact ⟨by decide, nofun⟩
  riders r hr := by
    rw [List.mem_singleton.mp hr]
    exact ⟨by decide, nofun⟩
  amendments a ha := by
    rw [List.mem_singleton.mp ha]
    have hcode : "A30".length ≤ codeWidth := by decide
    refine ⟨hcode, fun summary hsummary => ?_⟩
    rw [← Option.some.inj hsummary, length_lengthyText]
    exact short

/-- A summary that is as long as a kept name may be is kept. -/
theorem kept_names_fit_iff_at_width :
    (summaryTables keptNameWidth).Keyed ∧ (summaryTables keptNameWidth).WithinColumns
      ∧ ∀ writes,
        ∀ r ∈ (Database.run { leases := summaryTables keptNameWidth } writes).instructions.rows,
          ∀ name ∈ r.scopeName, name.length ≤ keptNameWidth := by
  have hkeyed := summaryTables_keyed keptNameWidth
  have hwithin : (summaryTables keptNameWidth).WithinColumns := summaryTables_within (by decide)
  refine ⟨hkeyed, hwithin, (kept_names_fit_iff hkeyed hwithin).2.mpr ?_⟩
  intro a ha
  rw [List.mem_singleton.mp ha]
  intro summary hsummary
  have hlength : summary.length = keptNameWidth :=
    Option.some.inj hsummary ▸ length_lengthyText keptNameWidth
  exact Nat.le_of_eq hlength

/-- A summary of one letter more keeps to its own column, and as a name it does not fit. -/
theorem long_summary_outgrows_column :
    let t := summaryTables (keptNameWidth + 1)
    t.Keyed ∧ t.WithinColumns
      ∧ ∃ r ∈ (Database.run { leases := t } [amendmentCreate ⟨30⟩]).instructions.rows,
        ∃ name ∈ r.scopeName, keptNameWidth < name.length := by
  intro t
  have hkeyed := summaryTables_keyed (keptNameWidth + 1)
  have hlength := length_lengthyText (keptNameWidth + 1)
  have hfull : lengthyText (keptNameWidth + 1) ≠ "" := by
    intro hempty
    rw [hempty] at hlength
    cases hlength
  obtain ⟨r, hr, _, hname⟩ := hkeyed.keeps_summary (List.mem_singleton_self _) rfl hfull
  refine ⟨hkeyed, summaryTables_within (by decide), r, hr, _, hname, ?_⟩
  rw [hlength]
  exact Nat.lt_succ_self keptNameWidth

end CarCare

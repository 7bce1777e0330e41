import CarCare.Proofs.Hierarchy.Listing
import CarCare.Proofs.Store.Fitting
import CarCare.Proofs.Store.Refusals

/-!
Cloning: a stored record is declared again at another scope, from what is read of it.

What is proved:
  1. `SectionCopy.serve_write`: adding a copy of a section succeeds where its id and its commodity
     are free, and `SectionCopy.serve_writes`: hence so does a run of such additions.
  2. `SectionCopy.contents_perm` and `SectionCopy.contents_eq`: copies show what their originals do,
     and in the same order if they are made in it.
  3. `stored_records_can_be_cloned`: hence a clone succeeds, and is as the record that was read.
-/
namespace CarCare
open scoped List

/-! ## Copies -/

/-- A section that is to be added again, and what the new one is stamped with. -/
structure SectionCopy where
  kind : SectionKind
  original : SectionRow
  stamp : Stamp

namespace SectionCopy

/-- The new section: the old one with another id and of another age. -/
def row (c : SectionCopy) : SectionRow :=
  { c.original with id := c.stamp.id, createdAt := c.stamp.now }

/-- Adds to an instruction what is read of the section of another one. -/
def write (owner target : Uuid) (c : SectionCopy) : Write :=
  .addSection c.kind c.stamp target
    (((c.original.toSection owner).toValue c.kind).cut (.ofSection c.kind false))

/-- The copies of a kind. -/
def ofKind (kind : SectionKind) (copies : List SectionCopy) : List SectionCopy :=
  copies.filter (·.kind = kind)

/-- Copies of all sections of a row, of each once, under ids that no section of the kind has. -/
structure Complete (s : Store) (r : InstructionRow) (copies : List SectionCopy) : Prop where
  all : ∀ kind, (ofKind kind copies).map (·.original) ~ r.sections kind
  distinct : ∀ kind, ((ofKind kind copies).map (·.stamp.id)).Nodup
  fresh : ∀ c ∈ copies, s.hasSection c.kind c.stamp.id = false

end SectionCopy

/-- Declares the instruction of a scope with the fields that are read of a row, and adds copies of
sections to it, one by one. -/
def InstructionRow.cloning (r : InstructionRow) (v : Service) (stamp : Stamp) (level scope : Value)
    (actor : Option Uuid) (copies : List SectionCopy) : List Write :=
  .create v stamp level scope ((r.read.toValue true).cut .fields) actor
    :: copies.map (·.write r.id stamp.id)

def InstructionRow.withCopy (r : InstructionRow) (c : SectionCopy) : InstructionRow :=
  r.withSections c.kind (r.sections c.kind ++ [c.row])

def InstructionRow.withCopies (r : InstructionRow) (copies : List SectionCopy) : InstructionRow :=
  copies.foldl withCopy r

namespace InstructionRow

theorem sections_withCopy (r : InstructionRow) (c : SectionCopy) (rest : List SectionCopy)
    (kind : SectionKind) :
    (r.withCopy c).sections kind ++ (SectionCopy.ofKind kind rest).map (·.row) =
      r.sections kind ++ (SectionCopy.ofKind kind (c :: rest)).map (·.row) := by
  unfold SectionCopy.ofKind
  by_cases hkind : c.kind = kind
  · subst hkind
    rw [withCopy, sections_withSections_self, List.filter_cons_of_pos (by simp), List.map_cons,
      List.append_assoc]
    rfl
  · rw [withCopy, sections_withSections_of_ne (Ne.symm hkind),
      List.filter_cons_of_neg (by simpa using hkind)]

theorem sections_withCopies (r : InstructionRow) (copies : List SectionCopy) (kind : SectionKind) :
    (r.withCopies copies).sections kind =
      r.sections kind ++ (SectionCopy.ofKind kind copies).map (·.row) := by
  induction copies generalizing r with
  | nil => exact (List.append_nil _).symm
  | cons c rest ih => exact (ih (r.withCopy c)).trans (r.sections_withCopy c rest kind)

theorem withCopy_frame (r : InstructionRow) (c : SectionCopy) :
    (r.withCopy c).id = r.id ∧ (r.withCopy c).scopes = r.scopes ∧
      (r.withCopy c).isCurrent = r.isCurrent ∧ (r.withCopy c).fields = r.fields := by
  let sections := r.sections c.kind ++ [c.row]
  obtain ⟨hid, _, hscopes, _, hcurrent⟩ := r.withSections_frame c.kind sections
  exact ⟨hid, hscopes, hcurrent, r.withSections_fields c.kind _⟩

theorem withCopies_frame (r : InstructionRow) (copies : List SectionCopy) :
    (r.withCopies copies).scopes = r.scopes ∧ (r.withCopies copies).isCurrent = r.isCurrent ∧
      (r.withCopies copies).fields = r.fields := by
  induction copies generalizing r with
  | nil => exact ⟨rfl, rfl, rfl⟩
  | cons c rest ih =>
    obtain ⟨hscopes, hcurrent, hfields⟩ := ih (r.withCopy c)
    obtain ⟨_, hscopes', hcurrent', hfields'⟩ := r.withCopy_frame c
    exact ⟨hscopes.trans hscopes', hcurrent.trans hcurrent', hfields.trans hfields'⟩

end InstructionRow

/-! ## Adding copies -/

namespace SectionCopy
variable {s : Store} {new : InstructionRow}

/-- Adding a copy of a section that fits succeeds where the last row is current and holds neither
its id nor its commodity, and no other row holds its id. -/
theorem serve_write {c : SectionCopy} (fits : c.original.Fits c.kind) (owner : Uuid)
    (fresh : s.row? new.id = none) (current : new.isCurrent)
    (unused : s.hasSection c.kind c.stamp.id = false)
    (ids : ∀ x ∈ new.sections c.kind, x.id ≠ c.row.id)
    (free : ∀ x ∈ new.sections c.kind, x.commodity ≠ c.row.commodity) (leases : LeaseTables) :
    (c.write owner new.id).serve { leases, instructions := ⟨s.rows ++ [new]⟩ } =
      (.ok (.newSection (c.row.toSection new.id)),
        { leases, instructions := ⟨s.rows ++ [new.withCopy c]⟩ }) := by
  let columns := (c.original.toSection owner).columns c.kind
  have hnamed : (SectionChange.ofMembers c.kind columns).named? = some c.row.commodity := by
    rw [SectionChange.ofMembers_columns]
    rfl
  have hfree : (SectionChange.ofMembers c.kind columns).named?.filter
      (new.hasCommodity c.kind) = none := by
    rw [hnamed, Option.filter_eq_none_iff]
    intro commodity hcommodity
    rw [← Option.some.inj hcommodity, InstructionRow.hasCommodity]
    simpa using free
  have hlegal : (⟨s.rows ++ [new]⟩ : Store).sectionFault? c.kind (new.sections c.kind) c.row =
      none := by
    have hunused : (⟨s.rows ++ [new]⟩ : Store).hasSection c.kind c.row.id = false :=
      Store.hasSection_append unused ids
    have hids : (new.sections c.kind).any (·.id == c.row.id) = false := by simpa using ids
    have hother : (new.sections c.kind).any (·.commodity == c.row.commodity) = false := by
      simpa using free
    rw [Store.sectionFault?, hunused, hids, hother]
    rfl
  have hcurrent := Store.current?_eq_some.mpr ⟨Store.row?_append_self fresh, current⟩
  have hadded : Service.addSection c.kind c.stamp { leases, instructions := ⟨s.rows ++ [new]⟩ }
      new.id (.object columns) = (.ok (c.row.toSection new.id),
        { leases, instructions := (⟨s.rows ++ [new]⟩ : Store).replace (new.withCopy c) }) :=
    Service.addSection_of_current hcurrent (fits.accept owner) hfree (fits.create owner c.stamp)
      hlegal
  have hid : (new.withCopy c).id = new.id := (new.withCopy_frame c).1
  rw [Store.replace_append (hid ▸ fresh) hid.symm] at hadded
  rw [write, Section.cut_toValue, Write.serve, hadded]
  rfl

/-- A run of such additions succeeds, if the ids and the commodities of the sections of the row and
of the copies are told apart. -/
theorem serve_writes (copies : List SectionCopy)
    (fits : ∀ c ∈ copies, c.original.Fits c.kind) (owner : Uuid) (fresh : s.row? new.id = none)
    (current : new.isCurrent) (unused : ∀ c ∈ copies, s.hasSection c.kind c.stamp.id = false)
    (ids : ∀ kind, ((new.sections kind ++ (ofKind kind copies).map row).map (·.id)).Nodup)
    (free : ∀ kind,
      ((new.sections kind ++ (ofKind kind copies).map row).map (·.commodity)).Nodup)
    (leases : LeaseTables) :
    ∃ answers, ({ leases, instructions := ⟨s.rows ++ [new]⟩ } : Database).serve
        (copies.map (write owner new.id)) =
          (answers, { leases, instructions := ⟨s.rows ++ [new.withCopies copies]⟩ }) ∧
      ∀ answer ∈ answers, answer.isOk := by
  induction copies generalizing new with
  | nil => exact ⟨[], rfl, by simp⟩
  | cons c rest ih =>
    have hnew : c.row ∈ (ofKind c.kind (c :: rest)).map row :=
      List.mem_map_of_mem (List.mem_filter.mpr ⟨List.mem_cons_self, by simp⟩)
    have hapart : ∀ {β : Type} (key : SectionRow → β),
        ((new.sections c.kind ++ (ofKind c.kind (c :: rest)).map row).map key).Nodup →
          ∀ x ∈ new.sections c.kind, key x ≠ key c.row := by
      intro β key hkeys x hx
      rw [List.map_append] at hkeys
      exact (List.nodup_append.mp hkeys).2.2 _ (List.mem_map_of_mem hx) _ (List.mem_map_of_mem hnew)
    have hadded := serve_write (fits c List.mem_cons_self) owner fresh current
      (unused c List.mem_cons_self) (hapart _ (ids c.kind)) (hapart _ (free c.kind)) leases
    -- The row with the first copy is to the rest of the copies what the row was to all of them.
    obtain ⟨hid, _, hcurrent, _⟩ := new.withCopy_frame c
    have hfresh : s.row? (new.withCopy c).id = none := hid ▸ fresh
    obtain ⟨answers, hserved, hok⟩ := ih (fun d hd => fits d (List.mem_cons_of_mem c hd)) hfresh
      (hcurrent.trans current) (fun d hd => unused d (List.mem_cons_of_mem c hd))
      (fun kind => new.sections_withCopy c rest kind ▸ ids kind)
      (fun kind => new.sections_withCopy c rest kind ▸ free kind)
    rw [hid] at hserved
    refine ⟨.ok (.newSection (c.row.toSection new.id)) :: answers, ?_, ?_⟩
    · rw [List.map_cons, Database.serve, hadded, hserved]
      rfl
    · exact List.forall_mem_cons.mpr ⟨rfl, hok⟩

end SectionCopy

/-! ## The order in which sections are shown -/

theorem SectionRow.shownBefore_iff {a b : SectionRow} : a.shownBefore b ↔
    a.sortOrder < b.sortOrder ∨ (a.sortOrder = b.sortOrder ∧
      (a.createdAt.seconds < b.createdAt.seconds ∨
        (a.createdAt.seconds = b.createdAt.seconds ∧ a.id.bits.toNat ≤ b.id.bits.toNat))) := by
  have hage : a.createdAt = b.createdAt ↔ a.createdAt.seconds = b.createdAt.seconds :=
    ⟨congrArg _, fun h => congrArg Timestamp.mk h⟩
  have hid : a.id ≤ b.id ↔ a.id.bits.toNat ≤ b.id.bits.toNat := Iff.rfl
  simp [shownBefore, hage, hid]

theorem InstructionRow.shown_sorted (r : InstructionRow) (kind : SectionKind) :
    ((r.sections kind).mergeSort SectionRow.shownBefore).Pairwise
      fun a b => a.sortOrder ≤ b.sortOrder := by
  have htrans : ∀ a b c : SectionRow, a.shownBefore b → b.shownBefore c → a.shownBefore c := by
    intro a b c hab hbc
    rw [SectionRow.shownBefore_iff] at *
    omega
  have htotal : ∀ a b : SectionRow, a.shownBefore b || b.shownBefore a := by
    intro a b
    rw [Bool.or_eq_true, SectionRow.shownBefore_iff, SectionRow.shownBefore_iff]
    omega
  refine (List.pairwise_mergeSort htrans htotal _).imp fun h => ?_
  rw [SectionRow.shownBefore_iff] at h
  omega

def Section.content (s : Section) : Section := { s with id := none, owner := none }

theorem InstructionRow.read_contents (r : InstructionRow) (kind : SectionKind) :
    (r.read.sections kind).map (·.content) =
      ((r.sections kind).mergeSort SectionRow.shownBefore).map
        fun x => (x.toSection r.id).content := by
  rw [r.read_sections, List.map_map]
  rfl

namespace SectionCopy
variable {r new : InstructionRow} {copies : List SectionCopy} {kind : SectionKind}

theorem contents_perm (all : (ofKind kind copies).map (·.original) ~ r.sections kind)
    (held : new.sections kind = (ofKind kind copies).map row) :
    (new.read.sections kind).map (·.content) ~ (r.read.sections kind).map (·.content) := by
  rw [r.read_contents, new.read_contents]
  calc ((new.sections kind).mergeSort SectionRow.shownBefore).map
        (fun x => (x.toSection new.id).content)
    _ ~ (new.sections kind).map fun x => (x.toSection new.id).content :=
      (List.mergeSort_perm _ _).map _
    _ = ((ofKind kind copies).map (·.original)).map fun x => (x.toSection r.id).content := by
      rw [held, List.map_map, List.map_map]
      rfl
    _ ~ ((r.sections kind).mergeSort SectionRow.shownBefore).map
        fun x => (x.toSection r.id).content :=
      (all.trans (List.mergeSort_perm _ _).symm).map _

/-- Copies that are made one after the other, in the order in which their originals are shown, are
shown in the same order. -/
theorem contents_eq (held : new.sections kind = (ofKind kind copies).map row)
    (shown : (ofKind kind copies).map (·.original) =
      (r.sections kind).mergeSort SectionRow.shownBefore)
    (later : ((ofKind kind copies).map (·.stamp.now.seconds)).Pairwise (· < ·)) :
    (new.read.sections kind).map (·.content) = (r.read.sections kind).map (·.content) := by
  have hplaces := r.shown_sorted kind
  rw [← shown, List.pairwise_map] at hplaces
  have hsorted : ((ofKind kind copies).map row).Pairwise fun a b => a.shownBefore b := by
    rw [List.pairwise_map]
    refine (hplaces.and (List.pairwise_map.mp later)).imp fun {a b} h => ?_
    obtain ⟨hplace, hage⟩ := h
    apply SectionRow.shownBefore_iff.mpr
    change a.row.sortOrder ≤ b.row.sortOrder at hplace
    change a.row.createdAt.seconds < b.row.createdAt.seconds at hage
    omega
  rw [new.read_contents, r.read_contents, held, List.mergeSort_of_pairwise hsorted, ← shown,
    List.map_map, List.map_map]
  rfl

end SectionCopy

/-! ## Cloning -/

/-- What a clone stores is one new row, with the fields of the old one and with the copies. -/
theorem InstructionRow.serve_cloning {db : Database} {r : InstructionRow} (fits : r.Fits)
    (filed : r.Filed) {copies : List SectionCopy}
    (complete : SectionCopy.Complete db.instructions r copies) {v : Service} {stamp : Stamp}
    {level scope : Value} {l : Level} {id : Uuid} {info : Scope}
    (hlevel : Level.parse level = .ok l) (hscope : Service.acceptScopeId scope = .ok id)
    (known : (v.directory db).scope? l id = some info)
    (free : db.instructions.byScope? l id = none) (unused : db.instructions.row? stamp.id = none)
    (actor : Option Uuid) :
    let new := (Session.newRow stamp l id info.name r.fields actor).withCopies copies
    ∃ answers, db.serve (r.cloning v stamp level scope actor copies) =
        (answers, { db with instructions := ⟨db.instructions.rows ++ [new]⟩ }) ∧
      ∀ answer ∈ answers, answer.isOk := by
  intro new
  let bare := Session.newRow stamp l id info.name r.fields actor
  have hbare : ∀ kind, bare.sections kind = [] := Session.newRow_sections
  have hcreated : v.create stamp db level scope ((r.read.toValue true).cut .fields) actor =
      (.ok bare.read, { db with instructions := ⟨db.instructions.rows ++ [bare]⟩ }) := by
    rw [Instruction.cut_toValue]
    refine Service.create_eq_ok.mpr ⟨l, id, r.fields.members, info, hlevel, hscope,
      fits.fields.accept, known, free, unused, ?_⟩
    rw [Fields.ofMembers_members]
    exact ⟨rfl, rfl⟩
  have horiginals : ∀ c ∈ copies, c.original.Fits c.kind := by
    intro c hc
    have hmem : c ∈ SectionCopy.ofKind c.kind copies := List.mem_filter.mpr ⟨hc, by simp⟩
    exact fits.sections c.kind _ ((complete.all c.kind).mem_iff.mp (List.mem_map_of_mem hmem))
  have hids : ∀ kind, ((bare.sections kind
      ++ (SectionCopy.ofKind kind copies).map (·.row)).map (·.id)).Nodup := by
    intro kind
    rw [hbare, List.nil_append, List.map_map]
    exact complete.distinct kind
  have hcommodities : ∀ kind, ((bare.sections kind
      ++ (SectionCopy.ofKind kind copies).map (·.row)).map (·.commodity)).Nodup := by
    intro kind
    have hold := ((complete.all kind).map (·.commodity)).nodup_iff.mpr (filed.commodities kind)
    rw [List.map_map] at hold
    rw [hbare, List.nil_append, List.map_map]
    exact hold
  have hunused : db.instructions.row? bare.id = none := unused
  have hcurrent : bare.isCurrent := rfl
  obtain ⟨answers, hserved, hok⟩ := SectionCopy.serve_writes copies horiginals r.id hunused
    hcurrent complete.fresh hids hcommodities db.leases
  refine ⟨.ok (.instruction bare.read) :: answers, ?_, List.forall_mem_cons.mpr ⟨rfl, hok⟩⟩
  rw [cloning, Database.serve, Write.serve, hcreated]
  exact congrArg (fun later => (.ok (.instruction bare.read) :: later.1, later.2)) hserved

/-- Whatever writes have stored passes the schemas of input, and so it can be stored again. All
fields of a record, current or retired, are accepted with their values, empty ones included, and come
back unchanged; so do the columns of each of its sections by the schema of new ones. Hence the record
can be declared again at every known scope that is free, and its sections be added one by one, in any
order and under any new ids: every write succeeds, nothing else changes, and what is read at the scope
has the same fields and the same sections, apart from their ids, their owner and their age. Added in
the order in which they are shown, they are shown in this order again. -/
theorem stored_records_can_be_cloned {db : Database} (reached : db.instructions.Reached)
    {r : InstructionRow} (held : r ∈ db.instructions.rows) :
    Schema.fields.Keeps ((r.read.toValue true).cut .fields) ∧
    (∀ kind, ∀ x ∈ r.read.sections kind,
      (Schema.ofSection kind false).Keeps ((x.toValue kind).cut (.ofSection kind false))) ∧
    ∀ (v : Service) (stamp : Stamp) (level scope : Value) (l : Level) (id : Uuid)
      (actor : Option Uuid) (copies : List SectionCopy),
      Level.parse level = .ok l → Service.acceptScopeId scope = .ok id →
      ((v.directory db).scope? l id).isSome → db.instructions.byScope? l id = none →
      db.instructions.row? stamp.id = none → SectionCopy.Complete db.instructions r copies →
      ∃ answers new, db.serve (r.cloning v stamp level scope actor copies) =
          (answers, { db with instructions := ⟨db.instructions.rows ++ [new]⟩ }) ∧
        (∀ answer ∈ answers, answer.isOk) ∧
        Service.instructionAt { db with instructions := ⟨db.instructions.rows ++ [new]⟩ } level id =
          .ok (some new.read) ∧
        new.read.fields = r.read.fields ∧
        ∀ kind,
          (new.read.sections kind).map (·.content) ~ (r.read.sections kind).map (·.content) ∧
          ((SectionCopy.ofKind kind copies).map (·.original) =
              (r.sections kind).mergeSort SectionRow.shownBefore →
            ((SectionCopy.ofKind kind copies).map (·.stamp.now.seconds)).Pairwise (· < ·) →
            (new.read.sections kind).map (·.content) = (r.read.sections kind).map (·.content)) := by
  have hfits := reached.fits r held
  have hfiled := reached.filed.rows r held
  obtain ⟨hfields, hsections⟩ := hfits.keeps
  refine ⟨hfields, hsections, ?_⟩
  intro v stamp level scope l id actor copies hlevel hscope known free unused complete
  obtain ⟨info, hinfo⟩ := Option.isSome_iff_exists.mp known
  obtain ⟨answers, hserved, hok⟩ :=
    InstructionRow.serve_cloning hfits hfiled complete hlevel hscope hinfo free unused actor
  let bare := Session.newRow stamp l id info.name r.fields actor
  obtain ⟨hscopes, hcurrent, hkept⟩ := bare.withCopies_frame copies
  have hheld : ∀ kind, (bare.withCopies copies).sections kind =
      (SectionCopy.ofKind kind copies).map (·.row) := by
    intro kind
    rw [bare.sections_withCopies, Session.newRow_sections, List.nil_append]
  have hdeclared : (bare.withCopies copies).scopes.get l = some id := by
    rw [hscopes]
    exact ScopeIds.get_only_self l id
  have hfound := Store.byScope?_append_self free hcurrent hdeclared
  refine ⟨answers, bare.withCopies copies, hserved, hok, ?_, hkept, fun kind => ⟨?_, ?_⟩⟩
  · rw [Service.instructionAt, hlevel]
    exact congrArg (fun found => Except.ok (found.map InstructionRow.read)) hfound
  · exact SectionCopy.contents_perm (complete.all kind) (hheld kind)
  · exact SectionCopy.contents_eq (hheld kind)

/-- A customer's instruction whose sealing and lining get their values in several ways, before it is
retired. -/
def clonedWrites : List Write :=
  [acmeCreate ⟨50⟩ 0,
   .addSection .sealing ⟨⟨51⟩, ⟨1⟩⟩ ⟨50⟩
     (.object [("commodity", .text "Latex"), ("vsp_ride_tight", .text "Yes")]),
   .addSection .lining ⟨⟨52⟩, ⟨2⟩⟩ ⟨50⟩ (.object [("commodity", .text "Latex")]),
   .updateSection .sealing ⟨51⟩
     (.object [("sort_order", .text " +7.0 "), ("commodity", .text "Oil")]),
   .update ⟨3⟩ ⟨50⟩ (.object [("nitrogen_psi", .text "50")]), .delete ⟨4⟩ ⟨50⟩]

theorem stored_records_can_be_cloned_retired :
    let declared := Database.run { leases := danglingTables } clonedWrites
    let db : Database := { leases := danglingTables, instructions := declared.instructions }
    ∃ r ∈ db.instructions.rows, r.isCurrent = false ∧ r.fields .nitrogenPsi = some (.text "50") ∧
      ∃ x y, r.sealing = [x] ∧ r.lining = [y] ∧ x.commodity = "Oil" ∧ x.sortOrder = 7 ∧
        x.details .vspRideTight = some (.flag true) ∧
        Schema.fields.Keeps ((r.read.toValue true).cut .fields) ∧
        let copies := [⟨.lining, y, ⟨⟨61⟩, ⟨9⟩⟩⟩, ⟨.sealing, x, ⟨⟨62⟩, ⟨9⟩⟩⟩]
        let clone := r.cloning { today := ⟨5⟩ } ⟨⟨60⟩, ⟨9⟩⟩ (.text "rider")
          (.text "00000000-0000-0000-0000-000000000014") none copies
        (∀ answer ∈ (db.serve clone).1, answer.isOk) ∧
        ∃ record,
          Service.instructionAt (db.serve clone).2 (.text "rider") ⟨20⟩ = .ok (some record) ∧
          record.fields = r.fields ∧ ∀ kind,
            (record.sections kind).map (·.content) = (r.read.sections kind).map (·.content) := by
  intro declared db
  have hreached : db.instructions.Reached :=
    Database.run_reached { leases := danglingTables } .empty clonedWrites
  have hstored : ∃ r ∈ db.instructions.rows, r.isCurrent = false ∧
      r.fields .nitrogenPsi = some (.text "50") ∧ r.sealing.length = 1 ∧ r.lining.length = 1 ∧
      ∀ x ∈ r.sealing, x.commodity = "Oil" ∧ x.sortOrder = 7 ∧
        x.details .vspRideTight = some (.flag true) := by decide +kernel
  obtain ⟨r, hr, hretired, hpsi, hsealing, hlining, hvalues⟩ := hstored
  obtain ⟨x, hsealing⟩ := List.length_eq_one_iff.mp hsealing
  obtain ⟨y, hlining⟩ := List.length_eq_one_iff.mp hlining
  obtain ⟨hcommodity, hplace, htight⟩ := hvalues x (hsealing ▸ List.mem_singleton_self x)
  let copies : List SectionCopy := [⟨.lining, y, ⟨⟨61⟩, ⟨9⟩⟩⟩, ⟨.sealing, x, ⟨⟨62⟩, ⟨9⟩⟩⟩]
  have hfree : db.instructions.hasSection .lining ⟨61⟩ = false ∧
      db.instructions.hasSection .sealing ⟨62⟩ = false := by decide +kernel
  have hcomplete : SectionCopy.Complete db.instructions r copies := by
    refine ⟨fun kind => ?_, fun kind => ?_, fun c hc => ?_⟩
    · cases kind with
      | sealing =>
        show [x] ~ r.sealing
        rw [hsealing]
      | lining =>
        show [y] ~ r.lining
        rw [hlining]
    · cases kind <;> exact List.nodup_singleton _
    · rcases List.mem_pair.mp hc with rfl | rfl
      · exact hfree.1
      · exact hfree.2
  have hknown : (((⟨false, ⟨5⟩⟩ : Service).directory db).scope? .rider ⟨20⟩).isSome := by
    decide +kernel
  have hbare : db.instructions.byScope? .rider ⟨20⟩ = none :=
    Option.isNone_iff_eq_none.mp (by decide +kernel)
  have hunused : db.instructions.row? ⟨60⟩ = none :=
    Option.isNone_iff_eq_none.mp (by decide +kernel)
  obtain ⟨hfields, _, hclone⟩ := stored_records_can_be_cloned hreached hr
  obtain ⟨answers, new, hserved, hok, hfound, hsame, hshown⟩ :=
    hclone { today := ⟨5⟩ } ⟨⟨60⟩, ⟨9⟩⟩ (.text "rider")
      (.text "00000000-0000-0000-0000-000000000014") .rider ⟨20⟩ none copies
      rfl rfl hknown hbare hunused hcomplete
  refine ⟨r, hr, hretired, hpsi, x, y, hsealing, hlining, hcommodity, hplace, htight, hfields, ?_⟩
  intro copies clone
  rw [hserved]
  refine ⟨hok, new.read, hfound, hsame, fun kind => (hshown kind).2 ?_ ?_⟩
  · cases kind with
    | sealing =>
      show [x] = r.sealing.mergeSort _
      rw [hsealing, List.mergeSort_singleton]
    | lining =>
      show [y] = r.lining.mergeSort _
      rw [hlining, List.mergeSort_singleton]
  · cases kind <;> exact List.pairwise_singleton _ _

end CarCare

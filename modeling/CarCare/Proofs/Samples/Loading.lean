import CarCare.Samples.Instructions
import CarCare.Proofs.Samples.Hierarchy
import CarCare.Proofs.Store.Faults
import CarCare.Proofs.Store.Outcomes
import CarCare.Proofs.Store.Soundness
import Mathlib.Algebra.GroupWithZero.Nat

/-!
Loading the samples, the hierarchy and then the instructions: what a load leaves of what was there,
and what a second one finds to do.

New rows take their ids from a supply. All that is asked of it is that the ids which new
instructions take are fresh: distinct, and none of them that of a stored instruction.

What is proved:
  1. `Samples.load_committed`: a load commits nothing on its way, so that a failed one leaves
     nothing.
  2. `SampleInstruction.declareAll_ok`: declaring adds rows behind those that are there, and leaves
     every scope known and declared.
  3. `SampleInstruction.declareAll_settled`: where that is so already, it does nothing.
  4. `sample_load_only_inserts`: hence what a whole load does, and that a second one does nothing,
     whatever the day is at each.
-/
namespace CarCare

/-! ## Fresh ids -/

/-- A supply whose next ids, as many as are asked for, are distinct, and none of them that of an
instruction of a store. -/
structure IdSupply.Fresh (ids : IdSupply) (s : Store) (count : Nat) : Prop where
  distinct : ∀ m < count, ∀ n < count, ids m = ids n → m = n
  unused : ∀ n < count, s.row? (ids n) = none

namespace IdSupply.Fresh
variable {ids : IdSupply} {s : Store} {taken count : Nat}

theorem skip (h : ids.Fresh s (taken + count)) : (ids.skip taken).Fresh s count where
  distinct m hm n hn hmn := by
    have := h.distinct (taken + m) (by omega) (taken + n) (by omega) hmn
    omega
  unused n hn := h.unused (taken + n) (by omega)

theorem append (h : ids.Fresh s (taken + count)) {row : InstructionRow} (own : row.id = ids 0)
    (nonempty : 0 < taken) : (ids.skip taken).Fresh ⟨s.rows ++ [row]⟩ count where
  distinct := h.skip.distinct
  unused n hn := by
    apply Store.row?_eq_none.mpr
    intro r hr
    rcases List.mem_append.mp hr with hold | hnew
    · exact Store.row?_eq_none.mp (h.unused (taken + n) (by omega)) r hold
    · rw [List.mem_singleton.mp hnew, own]
      intro heq
      have := h.distinct 0 (by omega) (taken + n) (by omega) heq
      omega

end IdSupply.Fresh

/-! ## What a load commits -/

namespace SampleInstruction
variable {today : Date} {now : Timestamp} {s : Session}

theorem addSections_committed (kind : SectionKind) (id : Uuid) (ids : IdSupply)
    (sections : List Members) :
    (addSections kind now id ids sections s).2.committed = s.committed := by
  induction sections generalizing ids s with
  | nil => rfl
  | cons m rest ih =>
    have hone := s.addSection_committed kind ⟨ids 0, now⟩ id (.ofMembers kind m)
    rw [addSections]
    split
    · rename_i hadded
      rw [hadded] at hone
      exact (ih (ids.skip 1)).trans hone
    · rename_i hfailed
      rw [hfailed] at hone
      exact hone

theorem declare_committed (ids : IdSupply) (scope : Uuid) (i : SampleInstruction) :
    (i.declare today now ids scope s).2.committed = s.committed := by
  have hcreate := s.create_committed today ⟨ids 0, now⟩ i.level scope (.ofMembers i.fields) none
  have hsections : ∀ (kind : SectionKind) (ids' : IdSupply) (sections : List Members)
      (s₁ s₂ : Session) (answer : Except Error Unit), s₁.committed = s.committed →
      addSections kind now (ids 0) ids' sections s₁ = (answer, s₂) →
      s₂.committed = s.committed := by
    intro kind ids' sections s₁ s₂ answer hone hout
    have hkept : (addSections kind now (ids 0) ids' sections s₁).2.committed = s₁.committed :=
      addSections_committed kind (ids 0) ids' sections
    rw [hout] at hkept
    exact hkept.trans hone
  unfold declare
  split <;> rename_i hout <;> rw [hout] at hcreate
  · exact hcreate
  · exact hcreate
  · exact hcreate
  · split <;> rename_i hsealing
    · exact hsections _ _ _ _ _ _ hcreate hsealing
    · have hcommitted := hsections _ _ _ _ _ _ hcreate hsealing
      split <;> rename_i hlining <;> exact hsections _ _ _ _ _ _ hcommitted hlining

theorem declareAll_committed (scopeOf : Level → Uuid) (ids : IdSupply)
    (items : List SampleInstruction) :
    (declareAll today now scopeOf ids items s).2.committed = s.committed := by
  induction items generalizing ids s with
  | nil => rfl
  | cons i rest ih =>
    have hone : (i.declare today now ids (scopeOf i.level) s).2.committed = s.committed :=
      declare_committed ids (scopeOf i.level) i
    rw [declareAll]
    split <;> rename_i hout <;> rw [hout] at hone
    · exact hone
    · rename_i declared
      have hrest := (ih (s := declared) (ids.skip i.size)).trans hone
      split <;> rename_i hlater <;> rw [hlater] at hrest <;> exact hrest

end SampleInstruction

/-- A load commits nothing on its way. -/
theorem Samples.load_committed (withInstructions : Bool) (today : Date) (now : Timestamp)
    (ids : IdSupply) (s : Session) :
    (load withInstructions today now ids s).2.committed = s.committed := by
  have hrows : (loadHierarchy today ids s).2.committed = s.committed := by
    unfold loadHierarchy
    split <;> rfl
  have hinstructions : ∀ (ids' : IdSupply) (s₁ : Session),
      (loadInstructions today now ids' s₁).2.committed = s₁.committed := by
    intro ids' s₁
    unfold loadInstructions
    split
    · exact SampleInstruction.declareAll_committed ..
    · rfl
  unfold load
  split <;> rename_i hout <;> rw [hout] at hrows
  · exact hrows
  · rename_i rows loaded
    have hlater := (hinstructions (ids.skip rows) loaded).trans hrows
    split
    · split <;> rename_i hdeclared <;> rw [hdeclared] at hlater <;> exact hlater
    · exact hrows

/-! ## Declaring -/

/-- Whether nothing is left to declare for a sample instruction: its scope is known, on all days,
and has a current instruction. -/
structure SampleInstruction.Settled (db : Database) (scopeOf : Level → Uuid)
    (i : SampleInstruction) : Prop where
  known : ∀ today, ((db.leases.directory today).scope? i.level (scopeOf i.level)).isSome
  declared : (db.instructions.byScope? i.level (scopeOf i.level)).isSome

/-- A session that differs from an earlier one in a row behind those of its store: one with an id,
which is current at a scope. -/
structure Session.Gained (s : Session) (id : Uuid) (level : Level) (scope : Uuid) (s' : Session) :
    Prop where
  leases : s'.working.leases = s.working.leases
  row : ∃ row, s'.store = ⟨s.store.rows ++ [row]⟩ ∧ row.id = id ∧ row.isCurrent
    ∧ row.scopes.get level = some scope

namespace Session
variable {s s₁ s₂ : Session} {today : Date} {stamp : Stamp} {level : Level} {scope id : Uuid}
  {fields : Fields} {actor : Option Uuid}

theorem create_taken (known : ((s.directory today).scope? level scope).isSome)
    (held : (s.store.byScope? level scope).isSome) :
    create today stamp level scope fields actor s = (.error (.scopeTaken level scope), s) := by
  obtain ⟨info, hinfo⟩ := Option.isSome_iff_exists.mp known
  unfold create
  rw [hinfo]
  exact if_pos held

theorem eq_of_create_taken {l : Level} {x : Uuid}
    (h : create today stamp level scope fields actor s = (.error (.scopeTaken l x), s₁)) :
    s₁ = s ∧ ((s.directory today).scope? level scope).isSome
      ∧ (s.store.byScope? level scope).isSome := by
  unfold create at h
  split at h
  · cases h
  · rename_i info hinfo
    split at h
    · rename_i hheld
      obtain ⟨_, rfl⟩ := Prod.mk.inj h
      exact ⟨rfl, by rw [hinfo]; rfl, hheld⟩
    · dsimp only at h
      split at h <;> cases h

theorem gained_of_create {r : Instruction}
    (h : create today stamp level scope fields actor s = (.ok r, s₁)) :
    ((s.directory today).scope? level scope).isSome ∧ s.Gained stamp.id level scope s₁ := by
  obtain ⟨info, hinfo, _, _, _, rfl⟩ := create_eq_ok.mp h
  exact ⟨by rw [hinfo]; rfl, rfl, newRow stamp level scope info.name fields actor, rfl, rfl, rfl,
    ScopeIds.get_only_self level scope⟩

theorem Gained.addSection {kind : SectionKind} {change : SectionChange} {x : Section}
    (gained : s.Gained id level scope s₁) (fresh : s.store.row? id = none)
    (h : s₁.addSection kind stamp id change = (.ok x, s₂)) : s.Gained id level scope s₂ := by
  obtain ⟨hleases, row, hstore, hid, hcurrent, hscope⟩ := gained
  have hrow : s₁.store.current? id = some row := by
    rw [hstore, ← hid]
    exact Store.current?_eq_some.mpr ⟨Store.row?_append_self (hid ▸ fresh), hcurrent⟩
  unfold Session.addSection at h
  rw [hrow] at h
  dsimp only at h
  split at h
  · cases h
  · split at h
    · cases h
    · cases h
    · split at h
      · cases h
      · obtain ⟨_, rfl⟩ := Prod.mk.inj h
        obtain ⟨hsame, _, hscopes, _, hkept⟩ :=
          row.withSections_frame kind (row.sections kind ++ [_])
        refine ⟨hleases, _, ?_, hsame.trans hid, hkept.trans hcurrent, hscopes ▸ hscope⟩
        show s₁.store.replace _ = _
        rw [hstore]
        exact Store.replace_append (by rw [hsame, hid]; exact fresh) hsame.symm

end Session

namespace SampleInstruction
variable {s s₁ s₂ : Session} {today : Date} {now : Timestamp} {ids : IdSupply}
  {scopeOf : Level → Uuid} {i : SampleInstruction} {items : List SampleInstruction} {count : Nat}

theorem addSections_gained {kind : SectionKind} {level : Level} {scope id : Uuid}
    {sections : List Members} (gained : s.Gained id level scope s₁) (fresh : s.store.row? id = none)
    (h : addSections kind now id ids sections s₁ = (.ok (), s₂)) : s.Gained id level scope s₂ := by
  induction sections generalizing ids s₁ with
  | nil =>
    obtain ⟨_, rfl⟩ := Prod.mk.inj h
    exact gained
  | cons m rest ih =>
    rw [addSections] at h
    split at h
    · rename_i hadded
      exact ih (gained.addSection fresh hadded) h
    · cases h

/-- Declaring one instruction finds its scope known, and either with a current row, and then changes
nothing, or gains one. -/
theorem declare_ok {scope : Uuid} {isNew : Bool} (fresh : s.store.row? (ids 0) = none)
    (h : i.declare today now ids scope s = (.ok isNew, s₁)) :
    ((s.directory today).scope? i.level scope).isSome
      ∧ ((isNew = false ∧ s₁ = s ∧ (s.store.byScope? i.level scope).isSome)
        ∨ (isNew = true ∧ s.Gained (ids 0) i.level scope s₁)) := by
  unfold declare at h
  split at h
  · rename_i htaken
    obtain ⟨hnew, rfl⟩ := Prod.mk.inj h
    obtain ⟨rfl, hknown, hheld⟩ := Session.eq_of_create_taken htaken
    exact ⟨hknown, .inl ⟨(Except.ok.inj hnew).symm, rfl, hheld⟩⟩
  · -- The tables refuse a new row only if its id is in use.
    rename_i hrefused
    rcases Session.create_error hrefused with ⟨hfinding, _⟩ | ⟨_, _, hused⟩
    · cases hfinding
    · rw [fresh] at hused
      cases hused
  · cases h
  · rename_i hcreated
    obtain ⟨hknown, hgained⟩ := Session.gained_of_create hcreated
    split at h
    · cases h
    · rename_i hsealing
      have hgained := addSections_gained hgained fresh hsealing
      split at h
      · cases h
      · rename_i hlining
        obtain ⟨hnew, rfl⟩ := Prod.mk.inj h
        have hgained := addSections_gained hgained fresh hlining
        exact ⟨hknown, .inr ⟨(Except.ok.inj hnew).symm, hgained⟩⟩

theorem Settled.append {db db' : Database} {added : List InstructionRow}
    (h : i.Settled db scopeOf) (leases : db'.leases = db.leases)
    (rows : db'.instructions.rows = db.instructions.rows ++ added) : i.Settled db' scopeOf where
  known := by
    rw [leases]
    exact h.known
  declared := by
    have hheld := h.declared
    unfold Store.byScope? at hheld ⊢
    rw [rows, List.find?_append, Option.isSome_or, hheld, Bool.true_or]

/-- Declaring one instruction adds a row behind the others, or none, leaves the instruction settled,
and the ids that it has not taken fresh. -/
theorem declare_step {isNew : Bool} (fresh : ids.Fresh s.store (i.size + count))
    (h : i.declare today now ids (scopeOf i.level) s = (.ok isNew, s₁)) :
    s₁.working.leases = s.working.leases
      ∧ (∃ gained, s₁.store.rows = s.store.rows ++ gained ∧ gained.length = isNew.toNat)
      ∧ (ids.skip i.size).Fresh s₁.store count ∧ i.Settled s₁.working scopeOf := by
  have hsize : 0 < i.size := by
    rw [size]
    omega
  obtain ⟨hknown, hstep⟩ := declare_ok (fresh.unused 0 (by omega)) h
  have hknown : ∀ day,
      ((s.working.leases.directory day).scope? i.level (scopeOf i.level)).isSome := by
    intro day
    rw [LeaseTables.scope?_isSome s.working.leases today day]
    exact hknown
  rcases hstep with ⟨rfl, rfl, hheld⟩ | ⟨rfl, hleases, row, hstore, hid, hcurrent, hscope⟩
  · exact ⟨rfl, ⟨[], (List.append_nil _).symm, rfl⟩, fresh.skip, hknown, hheld⟩
  · have hrows : s₁.store.rows = s.store.rows ++ [row] := congrArg Store.rows hstore
    have hfresh : (ids.skip i.size).Fresh s₁.store count := by
      rw [hstore]
      exact fresh.append hid hsize
    have hheld : (s₁.store.byScope? i.level (scopeOf i.level)).isSome := by
      unfold Store.byScope?
      rw [hrows, List.find?_isSome]
      exact ⟨row, List.mem_append_right _ (List.mem_singleton_self row), by simp [hcurrent, hscope]⟩
    exact ⟨hleases, ⟨[row], hrows, rfl⟩, hfresh, hleases ▸ hknown, hheld⟩

/-- Declaring sample instructions adds as many rows behind the others as it answers, and leaves all
of them settled. -/
theorem declareAll_ok (fresh : ids.Fresh s.store (items.map size).sum)
    (h : declareAll today now scopeOf ids items s = (.ok count, s₁)) :
    s₁.working.leases = s.working.leases
      ∧ (∃ declared, s₁.store.rows = s.store.rows ++ declared ∧ declared.length = count)
      ∧ ∀ i ∈ items, i.Settled s₁.working scopeOf := by
  -- Each instruction uses up ids of its own, and what is settled stays so with the next rows.
  induction items generalizing ids s count with
  | nil =>
    obtain ⟨hcount, rfl⟩ := Prod.mk.inj h
    exact ⟨rfl, ⟨[], (List.append_nil _).symm, Except.ok.inj hcount⟩, nofun⟩
  | cons i rest ih =>
    rw [List.map_cons, List.sum_cons] at fresh
    rw [declareAll] at h
    split at h
    · cases h
    · rename_i isNew s₂ hone
      split at h
      · cases h
      · rename_i later s₃ hrest
        obtain ⟨hcount, rfl⟩ := Prod.mk.inj h
        obtain rfl := Except.ok.inj hcount
        obtain ⟨hleases, ⟨gained, hgained, hlength⟩, hfresh, hsettled⟩ := declare_step fresh hone
        obtain ⟨hkept, ⟨declared, hrows, hlater⟩, hall⟩ := ih hfresh hrest
        refine ⟨hkept.trans hleases, ⟨gained ++ declared, ?_, ?_⟩, ?_⟩
        · rw [hrows, hgained, List.append_assoc]
        · rw [List.length_append, hlength, hlater]
        · exact List.forall_mem_cons.mpr ⟨hsettled.append hkept hrows, hall⟩

theorem declareAll_settled (settled : ∀ i ∈ items, i.Settled s.working scopeOf) :
    declareAll today now scopeOf ids items s = (.ok 0, s) := by
  induction items generalizing ids with
  | nil => rfl
  | cons i rest ih =>
    obtain ⟨hfirst, hrest⟩ := List.forall_mem_cons.mp settled
    have hone : i.declare today now ids (scopeOf i.level) s = (.ok false, s) := by
      unfold declare
      rw [Session.create_taken (hfirst.known today) hfirst.declared]
    simp only [declareAll, hone, ih hrest]
    rfl

end SampleInstruction

/-! ## Loading -/

/-- What a transaction that ends well has made of the database. -/
theorem Database.exists_of_transact {α : Type} {db : Database} {a : α}
    {request : Session → Session.Outcome α} (h : (db.transact request).1 = .ok a) :
    ∃ s, request (.start db) = (.ok a, s) ∧ (db.transact request).2 = s.working := by
  unfold transact at h ⊢
  split at h
  · rename_i s hrequest
    obtain rfl := Except.ok.inj h
    exact ⟨s, hrequest, rfl⟩
  · cases h

def Samples.instructionIds : Nat := (Samples.instructions.map SampleInstruction.size).sum

/-- A database in which all samples are loaded: there is a customer of the code of each, and if the
scopes of the sample instructions are there, nothing is left to declare for these. -/
structure Samples.Loaded (db : Database) : Prop where
  customers : ∀ c ∈ Samples.customers, ∃ old ∈ db.leases.customers, old.code = c.code
  instructions : ∀ scopeOf, Samples.scopes? db.leases = some scopeOf →
    ∀ i ∈ Samples.instructions, i.Settled db scopeOf

namespace Samples
variable {s s₁ : Session} {today : Date} {now : Timestamp} {ids : IdSupply} {n m : Nat}

theorem loadInstructions_ok (fresh : ids.Fresh s.store instructionIds)
    (h : loadInstructions today now ids s = (.ok m, s₁)) :
    s₁.working.leases = s.working.leases
      ∧ (∃ declared, s₁.store.rows = s.store.rows ++ declared ∧ declared.length = m)
      ∧ ∀ scopeOf, scopes? s₁.working.leases = some scopeOf →
        ∀ i ∈ instructions, i.Settled s₁.working scopeOf := by
  unfold loadInstructions at h
  split at h
  · rename_i scopeOf hscopes
    obtain ⟨hleases, hdeclared, hsettled⟩ := SampleInstruction.declareAll_ok fresh h
    refine ⟨hleases, hdeclared, fun other hother => ?_⟩
    rw [hleases, hscopes] at hother
    obtain rfl := Option.some.inj hother
    exact hsettled
  · rename_i hnone
    obtain ⟨hcount, rfl⟩ := Prod.mk.inj h
    refine ⟨rfl, ⟨[], (List.append_nil _).symm, Except.ok.inj hcount⟩, fun scopeOf hscopes => ?_⟩
    rw [hnone] at hscopes
    cases hscopes

theorem load_done (h : Loaded s.working) : load true today now ids s = (.ok (0, 0), s) := by
  have hrows : loadHierarchy today ids s = (.ok 0, s) := by
    rw [loadHierarchy, loadCustomers_done h.customers]
  have hinstructions : loadInstructions today now (ids.skip 0) s = (.ok 0, s) := by
    unfold loadInstructions
    cases hscopes : scopes? s.working.leases with
    | none => rfl
    | some scopeOf => exact SampleInstruction.declareAll_settled (h.instructions scopeOf hscopes)
  simp only [load, hrows, hinstructions, if_true]

/-- A load that ends well has only added rows, and leaves all loaded. -/
theorem load_ok (fresh : (ids.skip n).Fresh s.store instructionIds)
    (h : load true today now ids s = (.ok (n, m), s₁)) :
    (∃ added, s₁.working.leases = s.working.leases.pushAll added ∧ added.length = n
      ∧ ∀ row ∈ added, row.Owed s.working.leases customers added)
      ∧ (∃ declared, s₁.store.rows = s.store.rows ++ declared ∧ declared.length = m)
      ∧ Loaded s₁.working := by
  unfold load at h
  split at h
  · cases h
  · rename_i rows s₂ hhierarchy
    unfold loadHierarchy at hhierarchy
    split at hhierarchy
    · rename_i count leases hcustomers
      obtain ⟨hcount, hs₂⟩ := Prod.mk.inj hhierarchy
      obtain rfl := Except.ok.inj hcount
      obtain ⟨added, rfl, hlength, howed, hloaded⟩ := loadCustomers_ok hcustomers
      have hstore : s₂.store = s.store := by rw [← hs₂]; rfl
      have hadded : s₂.working.leases = s.working.leases.pushAll added := by rw [← hs₂]
      rw [if_pos rfl] at h
      split at h
      · rename_i declaredCount s₃ hinstructions
        obtain ⟨hcounts, rfl⟩ := Prod.mk.inj h
        obtain ⟨rfl, rfl⟩ := Prod.mk.inj (Except.ok.inj hcounts)
        obtain ⟨hleases, hdeclared, hsettled⟩ :=
          loadInstructions_ok (hstore ▸ fresh) hinstructions
        have hleases := hleases.trans hadded
        refine ⟨⟨added, hleases, hlength, howed⟩, hstore ▸ hdeclared, ?_, hsettled⟩
        rw [hleases]
        exact hloaded
      · cases h
    · cases hhierarchy

end Samples

/-- Loading the samples, the hierarchy and then the instructions, into any database and on any day.
A load that fails leaves the database as it was. One that ends well, where the ids of instructions
are fresh, has only added rows, as many as it answers: rows of the hierarchy that belong to sample
customers whose codes were absent, and instructions behind those that were there. After it there is
nothing left to load: another load, on whatever day and with whatever ids, answers that it has added
nothing, and leaves the database as it is. -/
theorem sample_load_only_inserts (db : Database) (today : Date) (now : Timestamp) (ids : IdSupply) :
    let out := db.transact (Samples.load true today now ids)
    (∀ e, out.1 = .error e → out.2 = db)
      ∧ ∀ n m, out.1 = .ok (n, m) → (ids.skip n).Fresh db.instructions Samples.instructionIds →
        (∃ added, out.2.leases = db.leases.pushAll added ∧ added.length = n
          ∧ ∀ row ∈ added, row.Owed db.leases Samples.customers added)
        ∧ (∃ declared, out.2.instructions.rows = db.instructions.rows ++ declared
          ∧ declared.length = m)
        ∧ ∀ later now' ids',
          out.2.transact (Samples.load true later now' ids') = (.ok (0, 0), out.2) := by
  intro out
  refine ⟨Service.transact_atomic (Samples.load_committed ..), fun n m hout fresh => ?_⟩
  obtain ⟨s, hload, hafter⟩ := Database.exists_of_transact hout
  obtain ⟨hleases, hrows, hloaded⟩ := Samples.load_ok fresh hload
  rw [show out.2 = s.working from hafter]
  refine ⟨hleases, hrows, fun later now' ids' => Database.transact_unchanged _ ?_⟩
  exact Samples.load_done hloaded

/-- A database where one of the sample customers is there, with a lease that has the code of a
sample lease of the other one, and with an instruction. -/
def mixedDatabase : Database where
  leases :=
    { customers := [⟨⟨2⟩, "GRNR", "Granary", true⟩]
      leases := [⟨⟨12⟩, ⟨2⟩, "ML-2024-001", none, "Active"⟩] }
  instructions :=
    ⟨[Session.newRow ⟨⟨70⟩, ⟨0⟩⟩ .masterLease ⟨12⟩ (some "ML-2024-001") (fun _ => none) none]⟩

def countedIds : IdSupply := fun n => ⟨BitVec.ofNat 128 (100 + n)⟩

/-- The other customer is added with all its rows. The lease that is found by its code is not its
own and has an instruction already, so that three are declared. On the first of all days, when there
would be no day for an amendment, there is nothing left to load. -/
theorem sample_load_only_inserts_mixed :
    let out := mixedDatabase.transact (Samples.load true ⟨738000⟩ ⟨5⟩ countedIds)
    out.1 = .ok (9, 3)
      ∧ (countedIds.skip 9).Fresh mixedDatabase.instructions Samples.instructionIds
      ∧ (∃ added, out.2.leases = mixedDatabase.leases.pushAll added ∧ added.length = 9
        ∧ ∀ row ∈ added, row.Owed mixedDatabase.leases Samples.customers added)
      ∧ (∃ declared, out.2.instructions.rows = mixedDatabase.instructions.rows ++ declared
        ∧ declared.length = 3)
      ∧ out.2.transact (Samples.load true ⟨1⟩ ⟨6⟩ countedIds) = (.ok (0, 0), out.2) := by
  intro out
  have hanswer : out.1.toOption = some (9, 3) := by decide +kernel
  have hout : out.1 = .ok (9, 3) := by
    cases hout : out.1 with
    | error e =>
      rw [hout] at hanswer
      cases hanswer
    | ok counts =>
      rw [hout] at hanswer
      rw [Option.some.inj hanswer]
  have hfresh : (countedIds.skip 9).Fresh mixedDatabase.instructions Samples.instructionIds :=
    ⟨by decide, by decide⟩
  obtain ⟨hadded, hdeclared, hdone⟩ :=
    (sample_load_only_inserts mixedDatabase ⟨738000⟩ ⟨5⟩ countedIds).2 9 3 hout hfresh
  exact ⟨hout, hfresh, hadded, hdeclared, hdone ⟨1⟩ ⟨6⟩ countedIds⟩

end CarCare

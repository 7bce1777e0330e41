import CarCare.Proofs.Hierarchy.Nodes
import CarCare.Proofs.Resolution.Isolation
import CarCare.Proofs.Store.Readers
import CarCare.Proofs.Store.Soundness

/-!
Presence: whether a scope holds a current instruction. There are four ways to ask, and each looks at
other columns: what is found at the scope goes by the column of its level alone, the index of scopes
by the stored level, a listing by both, and the marks of the scope tree by the index.

What is proved:
  1. `Store.list_at`: a listing of one scope is what is found there.
  2. `Store.mem_currentScopes`: the index has a scope if something is found there.
  3. `presence_reads_agree`: so the four agree, whatever has been written, since trees are marked as
     the index says.
-/
namespace CarCare

/-! ## Current rows at a scope -/

namespace Store
variable {s : Store} {r : InstructionRow} {level : Level} {scope : Uuid}

theorem Single.byScope?_eq_some_iff (single : s.Single) : s.byScope? level scope = some r ↔
    r ∈ s.rows ∧ r.isCurrent ∧ r.scopes.get level = some scope := by
  constructor
  · exact byScope?_eq_some
  · rintro ⟨hr, hcurrent, hscope⟩
    exact single.byScope?_of_mem hr hcurrent hscope

theorem Filed.level_of_get (filed : s.Filed) (hr : r ∈ s.rows)
    (declared : r.scopes.get level = some scope) : r.level = level := by
  have hscope := (filed.rows r hr).scope?_eq_some.mpr declared
  obtain ⟨own, _, hown⟩ := Option.map_eq_some_iff.mp hscope
  exact (Prod.mk.inj hown).1

/-- A listing of one scope goes by the stored level and by the column of this level. Both say the
same of a row, and no two current rows share a scope. -/
theorem list_at (filed : s.Filed) (single : s.Single) (t : LeaseTables) (level : Level)
    (scope : Uuid) : s.list t (some level) (some scope) none = (s.byScope? level scope).toList := by
  have hfilter : s.rows.filter (fun r => r.isCurrent && (some level).all (r.level == ·)
      && (some scope).all (atScope (some level) · r) && (none : Option Uuid).all (inSubtree t · r)) =
      s.rows.filter fun r => r.isCurrent && r.scopes.get level == some scope := by
    apply List.filter_congr
    intro r hr
    -- Only one column of a filed row is set, so a match in this column gives the stored level.
    have hlevel : r.scopes.get level = some scope → r.level = level := filed.level_of_get hr
    simp only [Option.all_some, Option.all_none, atScope, Bool.and_true]
    rw [Bool.eq_iff_iff]
    simp only [Bool.and_eq_true, beq_iff_eq]
    constructor
    · rintro ⟨⟨hcurrent, _⟩, hscope⟩
      exact ⟨hcurrent, hscope⟩
    · rintro ⟨hcurrent, hscope⟩
      exact ⟨⟨hcurrent, hlevel hscope⟩, hscope⟩
  have hone : s.rows.filter (fun r => r.isCurrent && r.scopes.get level == some scope) =
      (s.byScope? level scope).toList := by
    apply filter_eq_toList_find? (List.Nodup.of_map _ filed.ids)
    intro a ha b hb hpa hpb
    simp only [Bool.and_eq_true, beq_iff_eq] at hpa hpb
    exact single a ha b hb hpa.1 hpb.1 level scope hpa.2 hpb.2
  rw [list, hfilter, hone]
  cases s.byScope? level scope with
  | none => exact List.mergeSort_nil
  | some r => exact List.mergeSort_singleton r

theorem mem_currentScopes (filed : s.Filed) (single : s.Single) :
    (level, some scope) ∈ s.currentScopes ↔ ∃ r, s.byScope? level scope = some r := by
  unfold currentScopes
  rw [List.mem_map]
  constructor
  · rintro ⟨r, hr, heq⟩
    obtain ⟨hmem, hcurrent⟩ := List.mem_filter.mp hr
    obtain ⟨rfl, hscope⟩ := Prod.mk.inj heq
    exact ⟨r, single.byScope?_eq_some_iff.mpr ⟨hmem, hcurrent, hscope⟩⟩
  · rintro ⟨r, hr⟩
    obtain ⟨hmem, hcurrent, hscope⟩ := byScope?_eq_some hr
    obtain rfl := filed.level_of_get hmem hscope
    exact ⟨r, List.mem_filter.mpr ⟨hmem, hcurrent⟩, by rw [hscope]⟩

theorem current?_of_byScope? (filed : s.Filed) (h : s.byScope? level scope = some r) :
    s.current? r.id = some r := by
  obtain ⟨hmem, hcurrent, _⟩ := byScope?_eq_some h
  exact current?_eq_some.mpr ⟨row?_of_mem filed.ids hmem, hcurrent⟩

end Store

/-! ## Reads -/

namespace Service

theorem instructionAt_name (db : Database) (level : Level) (scope : Uuid) :
    instructionAt db (.text level.name) scope = .ok (db.instructions.read level scope) := by
  rw [instructionAt, Level.parse_name]
  rfl

theorem instructionAt_eq_some {db : Database} {level : Level} {scope : Uuid} {r : Instruction} :
    instructionAt db (.text level.name) scope = .ok (some r) ↔
      ∃ row, db.instructions.byScope? level scope = some row ∧ row.read = r := by
  rw [instructionAt_name, Except.ok.injEq, Store.read, Option.map_eq_some_iff]

theorem instructions_name (db : Database) (level : Level) (scope customer : Option Uuid) :
    instructions db (.text level.name) scope customer =
      .ok ((db.instructions.list db.leases (some level) scope customer).map (·.read)) := by
  rw [instructions, Level.parse_name]
  · rfl
  · rintro ⟨⟩

end Service

/-- The ways to ask whether a scope holds a current instruction agree, over any leasing tables and in
any store that writes lead to: one is found at a scope if and only if the scope is in the index, and
a record is found there if and only if the listing of the scope is that record and no other. It is
then what its id gives. And each node of the scope tree, of all customers or of one and with inactive
scopes hidden or not, is marked if and only if a record is found at the node's scope. -/
theorem presence_reads_agree (db : Database) (reached : db.instructions.Reached) (level : Level)
    (scope : Uuid) :
    ((∃ r, Service.instructionAt db (.text level.name) scope = .ok (some r)) ↔
      (level, some scope) ∈ db.instructions.currentScopes) ∧
    (∀ r, Service.instructionAt db (.text level.name) scope = .ok (some r) ↔
      Service.instructions db (.text level.name) (some scope) none = .ok [r]) ∧
    (∀ r, Service.instructionAt db (.text level.name) scope = .ok (some r) →
      ∃ id, r.id = some id ∧ Service.instruction db id = .ok r) ∧
    ∀ (v : Service) (customer : Option Uuid), ∀ node ∈ Node.nodesAll (v.tree db customer),
      (node.hasOverride ↔ ∃ r, Service.instructionAt db (.text node.scope.level.name)
        node.scope.id = .ok (some r)) := by
  have filed := reached.filed
  have single := reached.single
  have hindex : ∀ (l : Level) (i : Uuid),
      (∃ r, Service.instructionAt db (.text l.name) i = .ok (some r)) ↔
        (l, some i) ∈ db.instructions.currentScopes := by
    intro l i
    simp only [Service.instructionAt_eq_some, Store.mem_currentScopes filed single]
    grind
  refine ⟨hindex level scope, ?_, ?_, ?_⟩
  · intro r
    rw [Service.instructionAt_eq_some, Service.instructions_name, Store.list_at filed single,
      Except.ok.injEq]
    cases db.instructions.byScope? level scope <;> simp
  · intro r hr
    obtain ⟨row, hrow, rfl⟩ := Service.instructionAt_eq_some.mp hr
    refine ⟨row.id, rfl, ?_⟩
    rw [Service.instruction, Store.current?_of_byScope? filed hrow]
  · intro v customer node hnode
    rw [Outline.hasOverride_of_mem_tree hnode, hindex]
    exact List.contains_iff_mem

theorem presence_reads_agree_redeclared :
    let db := Database.run { leases := acmeTables } acmeWrites
    ∃ r, r.id = some ⟨13⟩ ∧
      Service.instructionAt db (.text "customer") ⟨1⟩ = .ok (some r) ∧
      Service.instructions db (.text "customer") (some ⟨1⟩) none = .ok [r] ∧
      Service.instruction db ⟨13⟩ = .ok r ∧
      (Level.customer, some ⟨1⟩) ∈ db.instructions.currentScopes ∧
      ∀ node ∈ Node.nodesAll (Service.tree { today := ⟨1⟩ } db none), node.hasOverride := by
  intro db
  have hreached : db.instructions.Reached :=
    Database.run_reached { leases := acmeTables } .empty acmeWrites
  obtain ⟨hindex, hlist, hid, htree⟩ := presence_reads_agree db hreached .customer ⟨1⟩
  have hscopes : (Level.customer, some ⟨1⟩) ∈ db.instructions.currentScopes := by decide +kernel
  have hfound : (db.instructions.byScope? .customer ⟨1⟩).map (·.id) = some ⟨13⟩ := by decide +kernel
  obtain ⟨r, hr⟩ := hindex.mpr hscopes
  obtain ⟨row, hrow, rfl⟩ := Service.instructionAt_eq_some.mp hr
  rw [hrow] at hfound
  have hrowId : row.id = ⟨13⟩ := Option.some.inj hfound
  obtain ⟨id, hrid, hget⟩ := hid _ hr
  have hsame : id = ⟨13⟩ := (Option.some.inj hrid).symm.trans hrowId
  refine ⟨_, congrArg some hrowId, hr, (hlist _).mp hr, hsame ▸ hget, hscopes, ?_⟩
  intro node hnode
  rw [htree { today := ⟨1⟩ } none node hnode]
  have hroots : (Node.nodesAll (Service.tree { today := ⟨1⟩ } db none)).map
      (fun n => (n.scope.level, n.scope.id)) = [(.customer, ⟨1⟩)] := by decide +kernel
  have hmem := List.mem_map_of_mem (f := fun n : Node => (n.scope.level, n.scope.id)) hnode
  rw [hroots, List.mem_singleton] at hmem
  obtain ⟨hlevel, hscope⟩ := Prod.mk.inj hmem
  rw [hlevel, hscope]
  exact ⟨_, hr⟩

end CarCare

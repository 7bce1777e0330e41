import CarCare.Proofs.Resolution.Isolation
import CarCare.Proofs.Sorting
import CarCare.Proofs.Store.Readers
import CarCare.Proofs.WrittenIds
import Mathlib.Data.Prod.Lex
import Mathlib.Data.String.Basic

/-!
Listings: which of the current instructions a listing has, and in which order.

What is proved:
  1. `Store.listedBefore_iff`: rows are sorted by their places, which are in the lexicographic order of
     level, name and written id.
  2. `Store.list_eq_filter`: a listing with filters is the listing without any, less the rows that do
     not pass.
  3. `Store.list_sorted` and `Store.list_eq_of_perm`: no two rows of a listing have one place, so a
     listing does not depend on the order of the store.
  4. `listings_intersect`: what a listing has for each choice of filters.
-/
namespace CarCare

theorem Uuid.text_injective : Function.Injective Uuid.text := by
  intro a b hab
  have hle : a ≤ b := text_le_text.mp hab.le
  have hge : b ≤ a := text_le_text.mp hab.ge
  exact congrArg Uuid.mk (BitVec.eq_of_toNat_eq (Nat.le_antisymm hle hge))

/-- The place of a row in a listing: its level, then the name kept for its scope, then its id. -/
def InstructionRow.place (r : InstructionRow) : ℕ ×ₗ String ×ₗ String :=
  toLex (r.level.rank, toLex (r.scopeName.getD "", r.id.text))

theorem InstructionRow.id_of_place {a b : InstructionRow} (h : a.place = b.place) : a.id = b.id := by
  have hback := (Prod.mk.inj (toLex.injective h)).2
  exact Uuid.text_injective (Prod.mk.inj (toLex.injective hback)).2

namespace Store
variable {s s' : Store} {t : LeaseTables} {level : Option Level} {scope customer : Option Uuid}
  {r : InstructionRow}

/-! ## Order -/

theorem listedBefore_iff {a b : InstructionRow} : listedBefore a b ↔ a.place ≤ b.place := by
  have hlevel : a.level = b.level ↔ a.level.rank = b.level.rank :=
    ⟨congrArg Level.rank, Level.rank_inj⟩
  simp only [listedBefore, InstructionRow.place, Prod.Lex.toLex_le_toLex, Bool.or_eq_true,
    Bool.and_eq_true, decide_eq_true_eq, beq_iff_eq, hlevel, Uuid.text_le_text]

theorem listedBefore_trans (a b c : InstructionRow) :
    listedBefore a b → listedBefore b c → listedBefore a c := by
  simp only [listedBefore_iff]
  exact le_trans

theorem listedBefore_total (a b : InstructionRow) : listedBefore a b || listedBefore b a := by
  rw [Bool.or_eq_true, listedBefore_iff, listedBefore_iff]
  exact le_total _ _

def passes (t : LeaseTables) (level : Option Level) (scope customer : Option Uuid)
    (r : InstructionRow) : Bool :=
  level.all (r.level == ·) && scope.all (atScope level · r) && customer.all (inSubtree t · r)

theorem list_perm (s : Store) (t : LeaseTables) (level : Option Level)
    (scope customer : Option Uuid) :
    (s.list t level scope customer).Perm (s.shown.filter (passes t level scope customer)) := by
  rw [list_shown]
  exact List.mergeSort_perm _ _

theorem list_ids_nodup (ids : (s.shown.map (·.id)).Nodup) :
    ((s.list t level scope customer).map (·.id)).Nodup :=
  ((s.list_perm t level scope customer).map _).nodup_iff.mpr
    (ids.sublist (List.filter_sublist.map _))

/-- A listing is strictly sorted: ids are written in different ways, so no two rows share a place. -/
theorem list_sorted (ids : (s.shown.map (·.id)).Nodup) :
    (s.list t level scope customer).Pairwise fun a b => a.place < b.place := by
  have hsorted : (s.list t level scope customer).Pairwise fun a b => listedBefore a b :=
    List.pairwise_mergeSort listedBefore_trans listedBefore_total _
  have hids : (s.list t level scope customer).Pairwise fun a b => a.id ≠ b.id :=
    List.pairwise_map.mp (list_ids_nodup ids)
  refine (hsorted.and hids).imp ?_
  rintro a b ⟨hle, hne⟩
  exact lt_of_le_of_ne (listedBefore_iff.mp hle) fun hplace => hne (InstructionRow.id_of_place hplace)

/-- Stores with the same current rows, in whatever order, have the same listings. -/
theorem list_eq_of_perm (ids : (s.shown.map (·.id)).Nodup) (perm : s'.shown.Perm s.shown) :
    s'.list t level scope customer = s.list t level scope customer := by
  have ids' : (s'.shown.map (·.id)).Nodup := (perm.map _).nodup_iff.mpr ids
  have hperm : (s'.list t level scope customer).Perm (s.list t level scope customer) :=
    (s'.list_perm t level scope customer).trans
      ((perm.filter _).trans (s.list_perm t level scope customer).symm)
  refine hperm.eq_of_pairwise ?_ (list_sorted ids') (list_sorted ids)
  intro a b _ _ hab hba
  exact absurd hba (lt_asymm hab)

/-! ## Filters -/

theorem list_eq_filter (s : Store) (t : LeaseTables) (level : Option Level)
    (scope customer : Option Uuid) :
    s.list t level scope customer
      = (s.list t none none none).filter (passes t level scope customer) := by
  have hall : s.shown.filter (passes t none none none) = s.shown :=
    List.filter_eq_self.mpr fun _ _ => rfl
  calc s.list t level scope customer
    _ = (s.shown.filter (passes t level scope customer)).mergeSort listedBefore :=
      s.list_shown t level scope customer
    _ = (s.shown.mergeSort listedBefore).filter (passes t level scope customer) :=
      (mergeSort_filter listedBefore_trans listedBefore_total _ _).symm
    _ = ((s.shown.filter (passes t none none none)).mergeSort listedBefore).filter
          (passes t level scope customer) := by rw [hall]
    _ = (s.list t none none none).filter (passes t level scope customer) :=
      congrArg (List.filter _) (s.list_shown t none none none).symm

end Store

/-- A row has one column set, so the test of one column and the test of all agree with the scope of
the record. -/
theorem InstructionRow.Filed.atScope_iff {r : InstructionRow} (h : r.Filed) {level : Option Level}
    (own : ∀ l, level = some l → r.level = l) {scope : Uuid} :
    Store.atScope level scope r ↔ r.read.scopeId = some scope := by
  obtain ⟨id, hscopes⟩ := h.scopes
  have hread : r.read.scopeId = r.scopes.get r.level := rfl
  rw [hread]
  cases level with
  | some l =>
    obtain rfl := own l rfl
    exact beq_iff_eq
  | none =>
    constructor
    · intro hany
      -- The column that has the id can only be that of the row's own level.
      obtain ⟨l, _, hl⟩ := List.any_eq_true.mp hany
      by_cases hlevel : l = r.level
      · exact hlevel ▸ beq_iff_eq.mp hl
      · rw [hscopes, ScopeIds.get_only_of_ne hlevel] at hl
        cases hl
    · intro hget
      exact List.any_eq_true.mpr ⟨r.level, Level.mem_all _, beq_iff_eq.mpr hget⟩

namespace Store
variable {s : Store} {t : LeaseTables} {level : Option Level} {scope customer : Option Uuid}
  {r : InstructionRow}

theorem Filed.mem_list (filed : s.Filed) : r ∈ s.list t level scope customer ↔
    r ∈ s.rows ∧ r.isCurrent ∧ (∀ l, level = some l → r.level = l)
      ∧ (∀ id, scope = some id → r.read.scopeId = some id)
      ∧ ∀ c, customer = some c → inSubtree t c r := by
  rw [(s.list_perm t level scope customer).mem_iff, shown, List.mem_filter, List.mem_filter, passes,
    Bool.and_eq_true, Bool.and_eq_true, Option.all_eq_true, Option.all_eq_true,
    Option.all_eq_true]
  constructor
  · rintro ⟨⟨hr, hcurrent⟩, ⟨hlevel, hscope⟩, hcustomer⟩
    have hown : ∀ l, level = some l → r.level = l := fun l hl => beq_iff_eq.mp (hlevel l hl)
    have hat : ∀ id, scope = some id → r.read.scopeId = some id :=
      fun id hid => ((filed.rows r hr).atScope_iff hown).mp (hscope id hid)
    exact ⟨hr, hcurrent, hown, hat, hcustomer⟩
  · rintro ⟨hr, hcurrent, hown, hat, hcustomer⟩
    have hlevel : ∀ l, level = some l → r.level == l := fun l hl => beq_iff_eq.mpr (hown l hl)
    have hscope : ∀ id, scope = some id → atScope level id r :=
      fun id hid => ((filed.rows r hr).atScope_iff hown).mpr (hat id hid)
    exact ⟨⟨hr, hcurrent⟩, ⟨hlevel, hscope⟩, hcustomer⟩

end Store

/-- Over a store that writes lead to, a listing has the current instructions that pass all filters
that are given, each once, which are those that are listed for each of the filters alone. It is
strictly sorted by level, name and written id, whatever the order of the store is. -/
theorem listings_intersect (db : Database) (reached : db.instructions.Reached)
    (level : Option Level) (scope customer : Option Uuid) :
    let list := db.instructions.list db.leases
    (∀ r, r ∈ list level scope customer ↔ r ∈ db.instructions.rows ∧ r.isCurrent
        ∧ (∀ l, level = some l → r.level = l)
        ∧ (∀ id, scope = some id → r.read.scopeId = some id)
        ∧ ∀ c, customer = some c → r ∈ list none none (some c))
      ∧ (∀ r, r ∈ list level scope customer ↔
        r ∈ list level none none ∧ r ∈ list none scope none ∧ r ∈ list none none customer)
      ∧ (list level scope customer).Nodup
      ∧ (list level scope customer).Pairwise (fun a b => a.place < b.place)
      ∧ ∀ s : Store, s.shown.Perm db.instructions.shown →
        s.list db.leases level scope customer = list level scope customer := by
  intro list
  have hfiled := reached.filed
  have hids : (db.instructions.shown.map (·.id)).Nodup :=
    hfiled.ids.sublist (List.filter_sublist.map _)
  refine ⟨?_, ?_, ?_, Store.list_sorted hids, fun s hs => Store.list_eq_of_perm hids hs⟩
  · intro r
    simp only [list, hfiled.mem_list]
    constructor
    · rintro ⟨hr, hcurrent, hlevel, hscope, hcustomer⟩
      exact ⟨hr, hcurrent, hlevel, hscope, fun c hc => ⟨hr, hcurrent, nofun, nofun, fun d hd =>
        hcustomer d (hc.trans hd)⟩⟩
    · rintro ⟨hr, hcurrent, hlevel, hscope, hcustomer⟩
      exact ⟨hr, hcurrent, hlevel, hscope, fun c hc => (hcustomer c hc).2.2.2.2 c rfl⟩
  · intro r
    simp only [list, hfiled.mem_list]
    constructor
    · rintro ⟨hr, hcurrent, hlevel, hscope, hcustomer⟩
      exact ⟨⟨hr, hcurrent, hlevel, nofun, nofun⟩, ⟨hr, hcurrent, nofun, hscope, nofun⟩,
        ⟨hr, hcurrent, nofun, nofun, hcustomer⟩⟩
    · rintro ⟨⟨hr, hcurrent, hlevel, _⟩, ⟨_, _, _, hscope, _⟩, ⟨_, _, _, _, hcustomer⟩⟩
      exact ⟨hr, hcurrent, hlevel, hscope, hcustomer⟩
  · exact List.Nodup.of_map _ (Store.list_ids_nodup hids)

/-- Declares instructions from the rider up, and that of the customer with the rider's id twice. -/
def upwardWrites : List Write :=
  let declare (id : Uuid) (level scope : String) : Write :=
    .create { today := ⟨1⟩ } ⟨id, ⟨0⟩⟩ (.text level) (.text scope) (.object []) none
  [declare ⟨60⟩ "rider" "00000000-0000-0000-0000-000000000001",
   declare ⟨40⟩ "customer" "00000000-0000-0000-0000-000000000002",
   acmeCreate ⟨50⟩ 1, .delete ⟨2⟩ ⟨50⟩, acmeCreate ⟨70⟩ 3]

/-- The rider is listed under its id and its customer, which the customer with its id is not. -/
theorem listings_intersect_upward :
    let db := Database.run { leases := sharedIdTables } upwardWrites
    let list := db.instructions.list db.leases
    db.instructions.Reached
      ∧ db.instructions.shown.map (·.id) = [⟨60⟩, ⟨40⟩, ⟨70⟩]
      ∧ (∃ r ∈ db.instructions.rows, r.id = ⟨60⟩ ∧ r ∈ list none (some ⟨1⟩) (some ⟨2⟩))
      ∧ (∃ r ∈ list none (some ⟨1⟩) none, r.id = ⟨70⟩ ∧ r ∉ list none (some ⟨1⟩) (some ⟨2⟩))
      ∧ ∀ s : Store, s.shown.Perm db.instructions.shown →
        s.list db.leases none (some ⟨1⟩) none = list none (some ⟨1⟩) none := by
  intro db list
  have hreached : db.instructions.Reached :=
    Database.run_reached { leases := sharedIdTables } .empty upwardWrites
  obtain ⟨_, hboth, _⟩ := listings_intersect db hreached none (some ⟨1⟩) (some ⟨2⟩)
  obtain ⟨_, _, _, _, horder⟩ := listings_intersect db hreached none (some ⟨1⟩) none
  have hrider : ∃ r ∈ db.instructions.rows, r.id = ⟨60⟩ ∧ r.isCurrent
      ∧ r.read.scopeId = some ⟨1⟩ ∧ Store.inSubtree db.leases ⟨2⟩ r := by decide +kernel
  have hcustomer : ∃ r ∈ db.instructions.rows, r.id = ⟨70⟩ ∧ r.isCurrent
      ∧ r.read.scopeId = some ⟨1⟩ ∧ Store.inSubtree db.leases ⟨2⟩ r = false := by decide +kernel
  refine ⟨hreached, by decide +kernel, ?_, ?_, horder⟩
  · obtain ⟨r, hr, hid, hcurrent, hscope, hin⟩ := hrider
    have hall : r ∈ list none none none :=
      hreached.filed.mem_list.mpr ⟨hr, hcurrent, nofun, nofun, nofun⟩
    have hat : r ∈ list none (some ⟨1⟩) none :=
      hreached.filed.mem_list.mpr ⟨hr, hcurrent, nofun, fun _ h => hscope.trans h, nofun⟩
    have hown : r ∈ list none none (some ⟨2⟩) :=
      hreached.filed.mem_list.mpr ⟨hr, hcurrent, nofun, nofun, fun _ h => Option.some.inj h ▸ hin⟩
    exact ⟨r, hr, hid, (hboth r).mpr ⟨hall, hat, hown⟩⟩
  · obtain ⟨r, hr, hid, hcurrent, hscope, hout⟩ := hcustomer
    have hat : r ∈ list none (some ⟨1⟩) none :=
      hreached.filed.mem_list.mpr ⟨hr, hcurrent, nofun, fun _ h => hscope.trans h, nofun⟩
    refine ⟨r, hat, hid, ?_⟩
    intro hlisted
    obtain ⟨_, _, hown⟩ := (hboth r).mp hlisted
    obtain ⟨_, _, _, _, hin⟩ := hreached.filed.mem_list.mp hown
    rw [hin ⟨2⟩ rfl] at hout
    cases hout

end CarCare

import CarCare.Proofs.Hierarchy.Subtree
import CarCare.Proofs.Store.Listings
import CarCare.Proofs.Store.Ownership

/-!
The two filters by customer: the store nests searches for the rows of a customer in its own tables,
the directory joins the leasing tables. A rider without its lease and an amendment with the rider of
one customer and the lease of another are where they could part.

What is proved:
  1. `LeaseTables.Keyed.scopes_eq_filter`: what the directory lists for a customer is decided scope by
     scope, by the test that the nested searches come to.
  2. `LeaseTables.Keyed.contains_scopes`: so a scope that is known is listed for a customer if it
     passes this test.
  3. `customer_filters_agree`: hence the instructions that are listed for a customer are those at the
     scopes that are listed for it.
-/
namespace CarCare

namespace LeaseTables
variable {t : LeaseTables} {today : Date} {c : Uuid}

/-- What is listed for a customer is what is listed for all, less the scopes that are not among those
of the customer. -/
theorem Keyed.scopes_eq_filter (keyed : t.Keyed) (today : Date) (c : Uuid) :
    t.scopes today (some c) = (t.scopes today none).filter fun s => t.wants c s.level s.id := by
  -- The rows of a table are found by their own ids.
  have htable : ∀ {α : Type} (rows : List α) (toScope : α → Scope) (want : Option Uuid → α → Bool),
      (∀ a ∈ rows, want none a) →
      (∀ a ∈ rows, t.wants c (toScope a).level (toScope a).id = want (some c) a) →
      (rows.filter (want (some c))).map toScope
        = ((rows.filter (want none)).map toScope).filter fun s => t.wants c s.level s.id := by
    intro α rows toScope want hall hwants
    rw [List.filter_eq_self.mpr hall, List.filter_map]
    congr 1
    exact List.filter_congr fun a ha => (hwants a ha).symm
  have hcustomers := htable t.customers Customer.toScope (wanted · ·.id) (fun _ _ => rfl)
    fun _ _ => rfl
  have hleases := htable t.leases Lease.toScope (wanted · ·.customerId) (fun _ _ => rfl) <| by
    intro l hl
    have hfound : t.lease? l.id = some l :=
      (find?_key_eq_some (keyed.scopes .masterLease)).mpr ⟨hl, rfl⟩
    exact congrArg (Option.any (·.customerId == c)) hfound
  have hamendments := htable t.amendments (t.amendmentScope today) t.wantsAmendment
    (fun _ _ => rfl) <| by
    intro a ha
    have hfound : t.amendment? a.id = some a :=
      (find?_key_eq_some (keyed.scopes .amendment)).mpr ⟨ha, rfl⟩
    exact congrArg (Option.any (t.wantsAmendment (some c))) hfound
  unfold LeaseTables.scopes
  rw [List.filter_append, List.filter_append, List.filter_append, ← hcustomers, ← hleases,
    ← hamendments, List.filter_filterMap]
  congr 2
  apply List.filterMap_congr
  intro r hr
  have hfound : t.rider? r.id = some r := (find?_key_eq_some (keyed.scopes .rider)).mpr ⟨hr, rfl⟩
  -- A rider without its lease is listed for nobody.
  cases hlease : t.lease? r.leaseId with
  | none => rfl
  | some lease =>
    have hwants : t.wants c .rider r.id = (lease.customerId == c) := by
      rw [wants, hfound, Option.any_some, hlease, Option.any_some]
    simp [wanted, Rider.toScope, Option.filter, hwants]

theorem Keyed.contains_scopes (keyed : t.Keyed) {level : Level} {id : Uuid}
    (known : ((t.directory today).scope? level id).isSome) :
    ((t.scopes today (some c)).map Scope.key).contains (level, id) = t.wants c level id := by
  obtain ⟨s, hs⟩ := Option.isSome_iff_exists.mp known
  have hkey : s.key = (level, id) := (t.graded today).key hs
  rw [keyed.scopes_eq_filter, Bool.eq_iff_iff, List.contains_iff_mem, List.mem_map]
  constructor
  · rintro ⟨x, hx, hxkey⟩
    obtain ⟨rfl, rfl⟩ := Prod.mk.inj hxkey
    exact (List.mem_filter.mp hx).2
  · intro hwants
    obtain ⟨rfl, rfl⟩ := Prod.mk.inj hkey
    exact ⟨s, List.mem_filter.mpr ⟨mem_scopes_of_found hs, hwants⟩, rfl⟩

end LeaseTables

/-- Over one set of leasing tables, the current instructions that are listed for a customer are those
at the scopes that the directory lists for it, whatever is listed besides. -/
theorem customer_filters_agree {t : LeaseTables} (keyed : t.Keyed) (writes : List Write)
    (v : Service) (c : Uuid) :
    let db := Database.run { leases := t } writes
    let addresses := ((v.directory db).scopes (some c)).map Scope.key
    db.instructions.list db.leases none none (some c)
      = (db.instructions.list db.leases none none none).filter (·.scope?.any addresses.contains) := by
  intro db addresses
  obtain ⟨hleases, hsound⟩ := Database.run_sound { leases := t } (.empty t) writes
  have hleases : db.leases = t := hleases
  have haddresses : addresses = (t.scopes v.today (some c)).map Scope.key :=
    congrArg (fun t : LeaseTables => (t.scopes v.today (some c)).map Scope.key) hleases
  rw [Store.list_eq_filter, hleases]
  apply List.filter_congr
  intro r hr
  obtain ⟨hmem, _⟩ := Store.mem_list.mp hr
  obtain ⟨id, hscopes, hknown⟩ := (hsound.rows r hmem).located
  have hscope : r.scope? = some (r.level, id) := by
    rw [InstructionRow.scope?, hscopes, ScopeIds.get_only_self, Option.map_some]
  have hknown : ((t.directory v.today).scope? r.level id).isSome := hleases ▸ hknown v.today
  calc Store.passes t none none (some c) r
    _ = Store.inSubtree t c r := rfl
    _ = t.wants c r.level id := keyed.inSubtree_at hscopes c
    _ = addresses.contains (r.level, id) := haddresses ▸ (keyed.contains_scopes hknown).symm
    _ = r.scope?.any addresses.contains := by rw [hscope, Option.any_some]

/-- Declares instructions at an amendment with two customers, at one whose rider is gone, and at a
lease whose customer is. -/
def crossedWrites : List Write :=
  let declare (id : Uuid) (level scope : String) : Write :=
    .create { today := ⟨5⟩ } ⟨id, ⟨0⟩⟩ (.text level) (.text scope) (.object []) none
  [declare ⟨50⟩ "amendment" "00000000-0000-0000-0000-00000000001e",
   declare ⟨51⟩ "amendment" "00000000-0000-0000-0000-00000000001f",
   declare ⟨52⟩ "master_lease" "00000000-0000-0000-0000-00000000000c"]

theorem customer_filters_agree_crossed :
    let v : Service := { today := ⟨5⟩ }
    let db := Database.run { leases := crossedTables } crossedWrites
    let addresses := ((v.directory db).scopes (some ⟨2⟩)).map Scope.key
    crossedTables.Keyed
      ∧ db.instructions.rows.map (·.id) = [⟨50⟩, ⟨51⟩, ⟨52⟩]
      ∧ addresses = [(.customer, ⟨2⟩), (.masterLease, ⟨11⟩), (.amendment, ⟨30⟩), (.amendment, ⟨31⟩),
        (.amendment, ⟨32⟩)]
      ∧ (∃ r ∈ db.instructions.list db.leases none none (some ⟨2⟩), r.id = ⟨50⟩)
      ∧ db.instructions.list db.leases none none (some ⟨2⟩)
        = (db.instructions.list db.leases none none none).filter
          (·.scope?.any addresses.contains) := by
  intro v db addresses
  have hlisted : ∃ r ∈ db.instructions.rows, r.id = ⟨50⟩ ∧ r.isCurrent
      ∧ Store.inSubtree db.leases ⟨2⟩ r := by decide +kernel
  obtain ⟨r, hr, hid, hcurrent, hin⟩ := hlisted
  exact ⟨crossedTables_keyed, by decide +kernel, by decide +kernel,
    ⟨r, Store.mem_list_customer.mpr ⟨hr, hcurrent, hin⟩, hid⟩,
    customer_filters_agree crossedTables_keyed crossedWrites v ⟨2⟩⟩

end CarCare

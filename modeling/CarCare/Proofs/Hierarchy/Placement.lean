import CarCare.Proofs.Hierarchy.Listing

/-!
The path of a car against paths of scopes. The path of a car is read off the rows that its placement
leads to, from the customer down, and the path of a scope is climbed.

What is proved:
  1. `LeaseTables.activePlacement?_rows`: a placement in use leads to rows that are all there.
  2. `LeaseTables.rider_path` and `LeaseTables.Keyed.amendment_path`: climbing from its rider, or from
     an amendment of the rider, meets these rows and no others. What else the amendment names counts
     for nothing.
  3. `LeaseTables.Keyed.carPath?_seat`: so the path of a car is that of the scope it sits on.
-/
namespace CarCare

theorem leastBy_mem {α : Type} {le : α → α → Bool} {l : List α} {a : α}
    (h : leastBy le l = some a) : a ∈ l := by
  induction l generalizing a with
  | nil => cases h
  | cons b rest ih =>
    unfold leastBy at h
    cases hrest : leastBy le rest with
    | none =>
      rw [hrest] at h
      obtain rfl := Option.some.inj h
      exact List.mem_cons_self
    | some c =>
      rw [hrest] at h
      obtain rfl := Option.some.inj h
      split
      · exact List.mem_cons_self
      · exact List.mem_cons_of_mem _ (ih hrest)

namespace LeaseTables

def Placed.path (p : Placed) : Path where
  customer := ⟨some p.customer.id, some p.customer.name⟩
  lease := ⟨some p.lease.id, some (shownName p.lease.name p.lease.code)⟩
  rider := ⟨some p.rider.id, some (shownName p.rider.name p.rider.code)⟩

/-- The scope that a car on a rider sits on: the rider's amendment in force, or else the rider. -/
def seat (t : LeaseTables) (rider : Uuid) (day : Date) : Level × Uuid :=
  match t.amendmentInForce? rider day with
  | some a => (.amendment, a.id)
  | none => (.rider, rider)

variable {t : LeaseTables} {today day : Date} {car : String} {p : Placed} {a : Amendment}
  {path : Path}

/-- Rows that hang together: each is found where the one below refers to it. -/
structure Placed.Linked (t : LeaseTables) (p : Placed) : Prop where
  rider : t.rider? p.rider.id = some p.rider
  lease : t.lease? p.rider.leaseId = some p.lease
  customer : t.customer? p.lease.customerId = some p.customer

theorem activePlacement?_rows (h : t.activePlacement? car = some p) : p.Linked t := by
  obtain ⟨placement, _, hplaced⟩ := List.mem_filterMap.mp (leastBy_mem h)
  obtain ⟨rider, hrider, hplaced⟩ := Option.bind_eq_some_iff.mp hplaced
  obtain ⟨lease, hlease, hplaced⟩ := Option.bind_eq_some_iff.mp hplaced
  obtain ⟨customer, hcustomer, hplaced⟩ := Option.bind_eq_some_iff.mp hplaced
  obtain rfl := Option.some.inj hplaced
  have hid : rider.id = placement.riderId := by simpa using List.find?_some hrider
  exact ⟨hid ▸ hrider, hlease, hcustomer⟩

def Placed.riderScope (p : Placed) : Scope := p.rider.toScope p.lease.customerId

theorem Placed.Linked.riderScope (rows : p.Linked t) (today : Date) :
    (t.directory today).scope? p.riderScope.level p.riderScope.id = some p.riderScope := by
  show (t.rider? p.rider.id).bind (fun r => (t.lease? r.leaseId).map _) = _
  rw [rows.rider, Option.bind_some, rows.lease]
  rfl

theorem rider_path (rows : p.Linked t) (today : Date) :
    (t.directory today).pathForScope p.riderScope.level p.riderScope.id = .ok p.path := by
  have graded := t.graded today
  have hcid : p.customer.id = p.lease.customerId := by simpa using List.find?_some rows.customer
  have hlid : p.lease.id = p.rider.leaseId := by simpa using List.find?_some rows.lease
  have hcustomer : (t.directory today).scope? p.customer.toScope.level p.customer.toScope.id =
      some p.customer.toScope := by
    show (t.customer? p.customer.id).map _ = _
    rw [hcid, rows.customer]
    rfl
  have hlease : (t.directory today).scope? p.lease.toScope.level p.lease.toScope.id =
      some p.lease.toScope := by
    show (t.lease? p.lease.id).map _ = _
    rw [hlid, rows.lease]
    rfl
  have hup : p.lease.toScope.parent? = some p.customer.toScope.key :=
    congrArg (fun id => some (Level.customer, id)) hcid.symm
  have hup' : p.riderScope.parent? = some p.lease.toScope.key :=
    congrArg (fun id => some (Level.masterLease, id)) hlid.symm
  -- Rows are joined by the very ids that scopes have as parents, so each climb goes one row up.
  have htop := Directory.pathForScope_customer graded hcustomer rfl
  have hmid := Directory.pathForScope_child graded hlease hup hcustomer htop
  exact Directory.pathForScope_child graded (rows.riderScope today) hup' hlease hmid

/-- An amendment is found by its id, and climbing from one with a rider goes on at the rider. -/
theorem Keyed.amendment_path (keyed : t.Keyed) (rows : p.Linked t) (ha : a ∈ t.amendments)
    (hrider : a.riderId = some p.rider.id) (today : Date) :
    (t.directory today).pathForScope .amendment a.id =
      .ok (p.path.enter (t.amendmentScope today a)) := by
  have hfound := (find?_key_eq_some (keyed.scopes .amendment)).mpr ⟨ha, rfl⟩
  have hknown : (t.directory today).scope? (t.amendmentScope today a).level
      (t.amendmentScope today a).id = some (t.amendmentScope today a) := by
    show (t.amendments.find? fun b => b.id == a.id).map _ = _
    rw [hfound]
    rfl
  have haddress : (t.amendmentScope today a).parent? = some p.riderScope.key := by
    rw [amendmentScope, Amendment.toScope_parent?, Amendment.parent?, hrider]
    rfl
  exact Directory.pathForScope_child (t.graded today) hknown haddress (rows.riderScope today)
    (rider_path rows today)

theorem mem_of_amendmentInForce? {rider : Uuid} (h : t.amendmentInForce? rider day = some a) :
    a ∈ t.amendments ∧ a.riderId = some rider := by
  have hmem := List.mem_filter.mp (leastBy_mem h)
  simp only [Bool.and_eq_true, beq_iff_eq] at hmem
  exact ⟨hmem.1, hmem.2.1⟩

theorem carPath?_rooted (h : t.carPath? car day = some path) : path.customer.id.isSome := by
  obtain ⟨p, _, rfl⟩ := Option.map_eq_some_iff.mp h
  rfl

/-- The path of a car is that of the scope it sits on, which is the deepest one it names. -/
theorem Keyed.carPath?_seat (keyed : t.Keyed) (h : t.carPath? car day = some path)
    (today : Date) : ∃ rider, path.rider.id = some rider ∧
      path.present.getLast? = some (t.seat rider day) ∧
      (t.directory today).pathForScope (t.seat rider day).1 (t.seat rider day).2 = .ok path := by
  obtain ⟨p, hplaced, rfl⟩ := Option.map_eq_some_iff.mp h
  have rows := activePlacement?_rows hplaced
  refine ⟨p.rider.id, rfl, ?_⟩
  unfold seat
  cases hamendment : t.amendmentInForce? p.rider.id day with
  | none => exact ⟨rfl, rider_path rows today⟩
  | some a =>
    obtain ⟨ha, hrider⟩ := mem_of_amendmentInForce? hamendment
    exact ⟨rfl, keyed.amendment_path rows ha hrider today⟩

end LeaseTables
end CarCare

import CarCare.Proofs.Hierarchy.Listing

/-!
Owners of scopes: the customer that a scope is shown with, against the one that its path leads to.

What is proved:
  1. `LeaseTables.Resolves.leads`: where all references resolve, the path of a scope leads to the
     customer that the scope is shown with, and this customer is there.
  2. `LeaseTables.Resolves.owned`: only amendments that name neither a rider nor a lease have none.
  3. `LeaseTables.wantsAmendment_iff`: an amendment is listed for the customer it is shown with and,
     unless its rider and its lease have different customers, for no other one.
-/
namespace CarCare

/-- Whether the path of a scope leads to a customer, or to none. -/
def Directory.Leads (d : Directory) (level : Level) (id : Uuid) (owner : Option Uuid) : Prop :=
  ∃ path, d.pathForScope level id = .ok path ∧ path.customer.id = owner

namespace Directory
variable {d : Directory} {s parent : Scope} {owner : Option Uuid}

theorem Leads.child (h : d.Leads parent.level parent.id owner) (graded : Graded d.scope?)
    (known : d.scope? s.level s.id = some s) (address : s.parent? = some parent.key)
    (parentKnown : d.scope? parent.level parent.id = some parent) (deeper : s.level ≠ .customer) :
    d.Leads s.level s.id owner := by
  obtain ⟨path, hpath, howner⟩ := h
  refine ⟨path.enter s, pathForScope_child graded known address parentKnown hpath, ?_⟩
  have hstep : (path.enter s).step .customer = path.step .customer :=
    Path.step_set_of_ne (Ne.symm deeper) _ _
  exact (congrArg Step.id hstep).trans howner

theorem Leads.unique {level : Level} {id : Uuid} {other : Option Uuid}
    (h : d.Leads level id owner) (h' : d.Leads level id other) : owner = other := by
  obtain ⟨path, hpath, rfl⟩ := h
  obtain ⟨path', hpath', rfl⟩ := h'
  rw [hpath] at hpath'
  rw [Except.ok.inj hpath']

end Directory

namespace LeaseTables
variable {t : LeaseTables} {today : Date} {level : Level} {id c : Uuid} {s : Scope} {a : Amendment}

/-- Tables in which every reference from one scope to another resolves. -/
structure Resolves (t : LeaseTables) : Prop where
  leases : ∀ l ∈ t.leases, (t.customer? l.customerId).isSome
  riders : ∀ r ∈ t.riders, (t.lease? r.leaseId).isSome
  amendmentRiders : ∀ a ∈ t.amendments, a.riderId.all fun id => (t.rider? id).isSome
  amendmentLeases : ∀ a ∈ t.amendments, a.leaseId.all fun id => (t.lease? id).isSome

/-- Whether an amendment names a rider and a lease of different customers. -/
def crosses (t : LeaseTables) (a : Amendment) : Bool :=
  match t.riderLease? a, t.ownLease? a with
  | some ofRider, some own => ofRider.customerId != own.customerId
  | _, _ => false

/-! ## Up the hierarchy -/

theorem riderLease?_of_rider {rider : Uuid} (h : a.riderId = some rider) :
    t.riderLease? a = (t.rider? rider).bind fun r => t.lease? r.leaseId := by
  rw [riderLease?, h]
  rfl

theorem amendmentScope_found? (t : LeaseTables) (today : Date) (a : Amendment) :
    (t.amendmentScope today a).found? (t.directory today).scope? =
      match a.riderId, a.leaseId with
      | some rider, _ => (t.rider? rider).bind t.riderScope?
      | none, some lease => (t.lease? lease).map Lease.toScope
      | none, none => none := by
  rw [Scope.found?, amendmentScope, Amendment.toScope_parent?, Amendment.parent?]
  cases a.riderId with
  | some rider => rfl
  | none => cases a.leaseId <;> rfl

theorem owner_of_found {parent : Scope} (known : (t.directory today).scope? level id = some s)
    (found : s.found? (t.directory today).scope? = some parent) : s.customerId = parent.customerId := by
  rcases mem_scopes.mp (mem_scopes_of_found known) with
    ⟨x, _, rfl⟩ | ⟨l, _, rfl⟩ | ⟨r, _, hr⟩ | ⟨a, _, rfl⟩
  · cases found
  · obtain ⟨x, hx, rfl⟩ := Option.map_eq_some_iff.mp found
    have hid : x.id = l.customerId := by simpa using List.find?_some hx
    exact congrArg some hid.symm
  · obtain ⟨lease, hlease, rfl⟩ := Option.map_eq_some_iff.mp hr
    have hparent : (t.lease? r.leaseId).map Lease.toScope = some parent := found
    rw [hlease] at hparent
    obtain rfl := Option.some.inj hparent
    rfl
  · -- The customer is looked up by the rider before the lease, as the parent is.
    rw [amendmentScope_found?] at found
    show t.amendmentCustomer? a = parent.customerId
    cases hrider : a.riderId with
    | some rider =>
      rw [hrider] at found
      obtain ⟨r, hr, hparent⟩ := Option.bind_eq_some_iff.mp found
      obtain ⟨lease, hlease, rfl⟩ := Option.map_eq_some_iff.mp hparent
      have hofRider : t.riderLease? a = some lease := by
        rw [riderLease?_of_rider hrider, hr]
        exact hlease
      rw [amendmentCustomer?, hofRider]
      rfl
    | none =>
      rw [hrider] at found
      cases hown : a.leaseId with
      | none =>
        rw [hown] at found
        cases found
      | some own =>
        rw [hown] at found
        obtain ⟨lease, hlease, rfl⟩ := Option.map_eq_some_iff.mp found
        have hofLease : t.ownLease? a = some lease := by
          rw [ownLease?, hown]
          exact hlease
        rw [amendmentCustomer?, riderLease?, hrider, hofLease]
        rfl

/-- Where all references resolve, a scope whose parent is not known is a customer, or it is an
amendment that names no parent and has no customer. -/
theorem Resolves.owner_of_top (resolves : t.Resolves)
    (known : (t.directory today).scope? s.level s.id = some s)
    (top : s.found? (t.directory today).scope? = none) :
    (s.level = .customer ∧ s.customerId = some s.id) ∨
      (s.level = .amendment ∧ s.parent? = none ∧ s.customerId = none) := by
  rcases mem_scopes.mp (mem_scopes_of_found known) with
    ⟨x, _, rfl⟩ | ⟨l, hl, rfl⟩ | ⟨r, hr, hs⟩ | ⟨a, ha, rfl⟩
  · exact .inl ⟨rfl, rfl⟩
  · have hcustomer := resolves.leases l hl
    have hnone : (t.customer? l.customerId).map Customer.toScope = none := top
    rw [Option.map_eq_none_iff.mp hnone] at hcustomer
    cases hcustomer
  · obtain ⟨lease, hlease, rfl⟩ := Option.map_eq_some_iff.mp hs
    have hnone : (t.lease? r.leaseId).map Lease.toScope = none := top
    rw [hlease] at hnone
    cases hnone
  · right
    rw [amendmentScope_found?] at top
    have hriders := resolves.amendmentRiders a ha
    have hleases := resolves.amendmentLeases a ha
    cases hrider : a.riderId with
    | some rider =>
      rw [hrider] at top hriders
      obtain ⟨r, hr⟩ := Option.isSome_iff_exists.mp hriders
      obtain ⟨lease, hlease⟩ :=
        Option.isSome_iff_exists.mp (resolves.riders r (List.mem_of_find?_eq_some hr))
      change (t.rider? rider).bind t.riderScope? = none at top
      rw [hr, Option.bind_some, riderScope?, hlease] at top
      cases top
    | none =>
      rw [hrider] at top
      cases hown : a.leaseId with
      | some own =>
        rw [hown] at top hleases
        change (t.lease? own).isSome at hleases
        rw [Option.map_eq_none_iff.mp top] at hleases
        cases hleases
      | none =>
        refine ⟨rfl, ?_, ?_⟩
        · rw [amendmentScope, Amendment.toScope_parent?, Amendment.parent?, hrider, hown]
        · show t.amendmentCustomer? a = none
          rw [amendmentCustomer?, riderLease?, ownLease?, hrider, hown]
          rfl

/-- Where all references resolve, the path of a scope leads to the customer it is shown with. -/
theorem Resolves.leads (resolves : t.Resolves)
    (known : (t.directory today).scope? level id = some s) :
    (t.directory today).Leads level id s.customerId := by
  have graded := t.graded today
  obtain ⟨rfl, rfl⟩ := Prod.mk.inj (graded.key known)
  -- Up the parents: below a known one a scope leads to where the parent does.
  refine graded.induction (motive := fun s =>
    (t.directory today).Leads s.level s.id s.customerId) (fun s known ih => ?_) s known
  cases hfound : s.found? (t.directory today).scope? with
  | some parent =>
    obtain ⟨hparent, haddress, hlt⟩ := graded.found known hfound
    have hdeeper : s.level ≠ .customer := by
      intro htop
      rw [htop] at hlt
      exact absurd hlt (Nat.not_lt_zero _)
    rw [owner_of_found known hfound]
    exact (ih parent hfound).child graded known haddress hparent hdeeper
  | none =>
    refine ⟨_, Directory.pathForScope_ok graded known, ?_⟩
    rw [Directory.above, hfound, Path.enter]
    rcases resolves.owner_of_top known hfound with ⟨hlevel, howner⟩ | ⟨hlevel, _, howner⟩
    · rw [hlevel, howner]
      rfl
    · rw [hlevel, howner]
      rfl

theorem Resolves.owner_known (resolves : t.Resolves)
    (known : (t.directory today).scope? level id = some s) :
    ∀ c, s.customerId = some c → (t.customer? c).isSome := by
  have graded := t.graded today
  obtain ⟨rfl, rfl⟩ := Prod.mk.inj (graded.key known)
  refine graded.induction (motive := fun s => ∀ c, s.customerId = some c → (t.customer? c).isSome)
    (fun s known ih c howner => ?_) s known
  cases hfound : s.found? (t.directory today).scope? with
  | some parent =>
    rw [owner_of_found known hfound] at howner
    exact ih parent hfound c howner
  | none =>
    rcases resolves.owner_of_top known hfound with ⟨hlevel, hself⟩ | ⟨_, _, hnone⟩
    · obtain rfl := Option.some.inj (hself.symm.trans howner)
      rw [hlevel] at known
      obtain ⟨x, hx, _⟩ := Option.map_eq_some_iff.mp known
      exact Option.isSome_of_eq_some hx
    · rw [hnone] at howner
      cases howner

/-- Where all references resolve, only an amendment that names no parent has no customer. -/
theorem Resolves.owner_eq_none (resolves : t.Resolves)
    (known : (t.directory today).scope? level id = some s) :
    s.customerId = none ↔ s.level = .amendment ∧ s.parent? = none := by
  have graded := t.graded today
  obtain ⟨rfl, rfl⟩ := Prod.mk.inj (graded.key known)
  constructor
  · refine graded.induction (motive := fun s => s.customerId = none → s.level = .amendment ∧
      s.parent? = none) (fun s known ih howner => ?_) s known
    cases hfound : s.found? (t.directory today).scope? with
    | some parent =>
      obtain ⟨_, _, hlt⟩ := graded.found known hfound
      rw [owner_of_found known hfound] at howner
      -- No scope is below an amendment.
      have hdeepest : s.level.rank ≤ Level.amendment.rank := by cases s.level <;> decide
      rw [(ih parent hfound howner).1] at hlt
      exact absurd hlt (Nat.not_lt_of_le hdeepest)
    | none =>
      rcases resolves.owner_of_top known hfound with ⟨_, hself⟩ | ⟨hlevel, hloose, _⟩
      · rw [hself] at howner
        cases howner
      · exact ⟨hlevel, hloose⟩
  · rintro ⟨hlevel, hloose⟩
    have htop : s.found? (t.directory today).scope? = none := by
      rw [Scope.found?, hloose]
      rfl
    rcases resolves.owner_of_top known htop with ⟨hcustomer, _⟩ | ⟨_, _, hnone⟩
    · rw [hcustomer] at hlevel
      cases hlevel
    · exact hnone

/-! ## Amendments of two customers -/

theorem wantsAmendment_of_owner (h : t.amendmentCustomer? a = some c) :
    t.wantsAmendment (some c) a := by
  unfold amendmentCustomer? at h
  unfold wantsAmendment
  cases hrider : t.riderLease? a with
  | some ofRider =>
    rw [hrider] at h
    obtain rfl := Option.some.inj h
    simp
  | none =>
    rw [hrider] at h
    obtain ⟨own, hown, rfl⟩ := Option.map_eq_some_iff.mp h
    simp [hown]

theorem wantsAmendment_iff (straight : t.crosses a = false) :
    t.wantsAmendment (some c) a ↔ t.amendmentCustomer? a = some c := by
  refine ⟨fun h => ?_, wantsAmendment_of_owner⟩
  unfold amendmentCustomer?
  unfold wantsAmendment at h
  unfold crosses at straight
  cases hrider : t.riderLease? a with
  | some ofRider =>
    cases hown : t.ownLease? a with
    | some own =>
      simp only [hrider, hown, bne_eq_false_iff_eq] at straight
      simp only [hrider, hown, Option.any_some, straight, Bool.or_self, beq_iff_eq] at h
      rw [Option.map_some, straight, h]
      rfl
    | none =>
      simp only [hrider, hown, Option.any_some, Option.any_none, Bool.or_false, beq_iff_eq] at h
      rw [Option.map_some, h]
      rfl
  | none =>
    cases hown : t.ownLease? a with
    | some own =>
      simp only [hrider, hown, Option.any_none, Option.any_some, Bool.false_or, beq_iff_eq] at h
      rw [Option.map_some, h]
      rfl
    | none =>
      simp only [hrider, hown, Option.any_none, Bool.or_self] at h
      cases h

end LeaseTables

end CarCare

import CarCare.Proofs.Hierarchy.Branches
import CarCare.Proofs.Hierarchy.Listing
import CarCare.Service

/-!
The tree of scopes against paths of scopes. The tree is put together from one list of all scopes,
and a path is climbed scope by scope; references dangle in both.

What is proved:
  1. `LeaseTables.Keyed.path_of_branch`: a branch of the tree is the path of its last scope.
  2. `LeaseTables.Keyed.branch_of_path`: a path that reaches a customer is a branch.
  3. `tree_shows_rooted_paths`: so the tree has a scope if its path reaches a customer, then once, and
     below what the path names.
-/
namespace CarCare

/-- A scope as a step of a path, with its level. -/
def Scope.place (s : Scope) : Level × Step := (s.level, ⟨some s.id, s.name⟩)

namespace Path
variable {p : Path} {s : Scope}

/-- What a path holds at a level: the step with its level, or nothing if the step is empty. -/
def held (p : Path) (l : Level) : Option (Level × Step) :=
  if p.step l = {} then none else some (l, p.step l)

def places (p : Path) : List (Level × Step) := Level.all.filterMap p.held

theorem held_eq_none {l : Level} : p.held l = none ↔ p.step l = {} := by
  unfold held
  split <;> simp_all

theorem held_enter_self (p : Path) (s : Scope) : (p.enter s).held s.level = some s.place := by
  rw [held, enter, step_set_self]
  rfl

theorem held_enter_of_ne {l : Level} (h : l ≠ s.level) : (p.enter s).held l = p.held l := by
  rw [held, held, enter, step_set_of_ne h]

theorem places_enter (deeper : ∀ m : Level, s.level.rank ≤ m.rank → p.step m = {}) :
    (p.enter s).places = p.places ++ [s.place] := by
  obtain ⟨above, below, hall, habove, hbelow⟩ := s.level.all_split
  have hself : p.held s.level = none := held_eq_none.mpr (deeper _ (Nat.le_refl _))
  have hsame : ∀ l ∈ above, (p.enter s).held l = p.held l := fun l hl =>
    held_enter_of_ne fun h => by simpa [h] using habove l hl
  have hempty : below.filterMap p.held = [] := List.filterMap_eq_nil_iff.mpr fun l hl =>
    held_eq_none.mpr (deeper l (Nat.le_of_lt (hbelow l hl)))
  have hempty' : below.filterMap (p.enter s).held = [] := by
    rw [← hempty]
    exact List.filterMap_congr fun l hl => held_enter_of_ne fun h => by
      simpa [h] using hbelow l hl
  calc (p.enter s).places
      = above.filterMap (p.enter s).held ++ s.place :: below.filterMap (p.enter s).held := by
        rw [places, hall, List.filterMap_append, List.filterMap_cons_some (held_enter_self p s)]
    _ = above.filterMap p.held ++ [s.place] := by rw [List.filterMap_congr hsame, hempty']
    _ = p.places ++ [s.place] := by
        rw [places, hall, List.filterMap_append, List.filterMap_cons_none hself, hempty,
          List.append_nil]

end Path

namespace LeaseTables
variable {t : LeaseTables} {today : Date} {overrides : List (Level × Option Uuid)} {level : Level}
  {id : Uuid} {b : List Scope} {s : Scope} {path : Path}

def outline (t : LeaseTables) (today : Date) (overrides : List (Level × Option Uuid)) : Outline :=
  { listed := t.scopes today none, overrides, hideInactive := false }

theorem Keyed.distinct (keyed : t.Keyed) : (t.outline today overrides).Distinct :=
  keyed.scopes_nodup today none

theorem Keyed.shown_iff (keyed : t.Keyed) : (t.outline today overrides).Shown s ↔
    (t.directory today).scope? s.level s.id = some s :=
  (and_iff_left rfl).trans keyed.mem_scopes_iff

theorem Keyed.path_of_branch (keyed : t.Keyed) (h : (t.outline today overrides).Branch none b s) :
    ∃ path, (t.directory today).pathForScope s.level s.id = .ok path ∧
      path.customer.id.isSome ∧ path.places = b.map Scope.place := by
  have graded := t.graded today
  induction h with
  | root shown isRoot =>
    rename_i s
    have hcustomer : s.level = .customer := (Outline.isRoot_iff.mp isRoot).1
    refine ⟨_, Directory.pathForScope_customer graded (keyed.shown_iff.mp shown) hcustomer, ?_, ?_⟩
    · rw [Path.enter, hcustomer]
      rfl
    · rw [Path.places_enter fun m _ => by cases m <;> rfl]
      rfl
  | child up shown below ih =>
    rename_i p s
    obtain ⟨path, hpath, hrooted, hplaces⟩ := ih
    -- The scope before it is the parent, so the path is that one's with the scope entered.
    have hfound := keyed.shown_iff.mp shown
    obtain ⟨hlevel, haddress⟩ := Outline.isBelow_iff.mp below
    have hlt : p.level.rank < s.level.rank := graded.parent hfound haddress
    refine ⟨_, Directory.pathForScope_child graded hfound haddress
      (keyed.shown_iff.mp up.shown) hpath, ?_, ?_⟩
    · have hstep : (path.enter s).step .customer = path.step .customer :=
        Path.step_set_of_ne hlevel.symm _ _
      exact (congrArg (·.id.isSome) hstep).trans hrooted
    · have hdeeper := (Directory.pathForScope_step graded hpath).2
      rw [Path.places_enter fun m hm => hdeeper m (Nat.lt_of_lt_of_le hlt hm), hplaces]
      simp

theorem Keyed.branch_of_path (keyed : t.Keyed)
    (h : (t.directory today).pathForScope level id = .ok path) (rooted : path.customer.id.isSome) :
    ∃ b s, (t.outline today overrides).Branch none b s ∧ s.key = (level, id) := by
  have graded := t.graded today
  -- A path that is no customer's has reached the customer through the parent, which is less deep.
  induction hr : level.rank using Nat.strongRecOn generalizing level id path with
  | ind rank ih =>
    by_cases hlevel : level = .customer
    · obtain ⟨s, hs, _⟩ := (Directory.pathForScope_eq_ok graded).mp h
      have hkey := graded.key hs
      obtain ⟨hsl, rfl⟩ := Prod.mk.inj hkey
      have hroot := Outline.isRoot_iff.mpr ⟨hsl.trans hlevel, .inl rfl⟩
      exact ⟨[s], s, .root (keyed.shown_iff.mpr (hsl ▸ hs)) hroot, hkey⟩
    · obtain ⟨s, parent, above, hs, haddress, hlt, habove, hrooted, _⟩ :=
        Directory.pathForScope_parent graded h rooted hlevel
      have hkey := graded.key hs
      obtain ⟨hsl, rfl⟩ := Prod.mk.inj hkey
      obtain ⟨b, p, hbranch, hp⟩ := ih parent.1.rank (hr ▸ hlt) habove hrooted rfl
      have hbelow := Outline.isBelow_iff.mpr ⟨hsl ▸ hlevel, haddress.trans (congrArg some hp.symm)⟩
      exact ⟨b ++ [s], s, .child hbranch (keyed.shown_iff.mpr (hsl ▸ hs)) hbelow, hkey⟩

end LeaseTables

/-- The tree of all scopes has the scopes whose paths reach a customer, each at one place, where its
ancestors are what its path holds. -/
theorem tree_shows_rooted_paths (v : Service) (db : Database) (complete : v.hideInactive = false)
    (keyed : db.leases.Keyed) (level : Level) (id : Uuid) :
    (Node.branchesTo (v.tree db none) (level, id) ≠ [] ↔
      ∃ path, (v.directory db).pathForScope level id = .ok path ∧ path.customer.id.isSome) ∧
    ∀ path, (v.directory db).pathForScope level id = .ok path → path.customer.id.isSome →
      (Node.branchesTo (v.tree db none) (level, id)).map (·.map Scope.place) = [path.places] := by
  have htree : v.tree db none =
      (db.leases.outline v.today db.instructions.currentScopes).tree none := by
    rw [Service.tree, complete]
    rfl
  rw [htree]
  refine ⟨⟨fun h => ?_, ?_⟩, fun path hpath hrooted => ?_⟩
  · obtain ⟨b, hb⟩ := List.exists_mem_of_ne_nil _ h
    obtain ⟨s, hbranch, hkey⟩ := (Outline.mem_branchesTo_tree keyed.distinct).mp hb
    obtain ⟨rfl, rfl⟩ := Prod.mk.inj hkey
    obtain ⟨path, hpath, hrooted, _⟩ := keyed.path_of_branch hbranch
    exact ⟨path, hpath, hrooted⟩
  · rintro ⟨path, hpath, hrooted⟩
    obtain ⟨b, s, hbranch, hkey⟩ := keyed.branch_of_path hpath hrooted
    rw [← hkey, Outline.branchesTo_tree keyed.distinct hbranch]
    exact List.cons_ne_nil b []
  · obtain ⟨b, s, hbranch, hkey⟩ := keyed.branch_of_path hpath hrooted
    rw [← hkey, Outline.branchesTo_tree keyed.distinct hbranch]
    obtain ⟨rfl, rfl⟩ := Prod.mk.inj hkey
    obtain ⟨path', hpath', _, hplaces⟩ := keyed.path_of_branch hbranch
    obtain rfl := Except.ok.inj (hpath'.symm.trans hpath)
    rw [hplaces]
    rfl

theorem tree_shows_rooted_paths_dangling :
    let tree := Service.tree { today := ⟨5⟩ } { leases := danglingTables } none
    let places (level : Level) (id : Uuid) :=
      (Node.branchesTo tree (level, id)).map (·.map Scope.place)
    places .amendment ⟨30⟩ =
      [[(.customer, ⟨some ⟨1⟩, some "Acme"⟩), (.masterLease, ⟨some ⟨10⟩, some "L10"⟩),
        (.rider, ⟨some ⟨20⟩, some "R20"⟩), (.amendment, ⟨some ⟨30⟩, some "A30"⟩)]] ∧
    places .amendment ⟨32⟩ =
      [[(.customer, ⟨some ⟨1⟩, some "Acme"⟩), (.masterLease, ⟨some ⟨10⟩, some "L10"⟩),
        (.amendment, ⟨some ⟨32⟩, some "Wash"⟩)]] ∧
    ∀ address ∈ [(.masterLease, ⟨11⟩), (.rider, ⟨21⟩), (.rider, ⟨22⟩), (.amendment, ⟨31⟩),
      (.amendment, ⟨33⟩), (.customer, ⟨9⟩)], Node.branchesTo tree address = [] := by
  intro tree places
  have hagree := tree_shows_rooted_paths { today := ⟨5⟩ } { leases := danglingTables } rfl
    danglingTables_keyed
  refine ⟨(hagree .amendment ⟨30⟩).2 _ rfl rfl, (hagree .amendment ⟨32⟩).2 _ rfl rfl, ?_⟩
  intro address haddress
  have hlost : ((danglingTables.directory ⟨5⟩).pathForScope address.1 address.2).toOption.all
      (·.customer.id.isNone) := by
    revert address
    decide +kernel
  by_contra hshown
  obtain ⟨path, hpath, hrooted⟩ := (hagree address.1 address.2).1.mp hshown
  have hpath : (danglingTables.directory ⟨5⟩).pathForScope address.1 address.2 = .ok path := hpath
  rw [hpath] at hlost
  simp_all [Except.toOption]

end CarCare

import CarCare.Hierarchy.Directory

/-!
Paths of scopes: what climbing from a scope to its parents finds.

A lookup is graded if parents are always more general than their children. Climbs over a graded lookup
end within four scopes, so that the bound on climbs never shows:
  1. `Directory.pathForScope_ok`: the path of a scope is the path above it, with the scope entered.
  2. `Directory.above_of_found`: the path above a scope is that of its parent, if the parent is found.
  3. `Directory.pathForScope_customer` and `Directory.pathForScope_child`: which gives paths from the
     customers down.
  4. `Directory.pathForScope_step` and `Directory.pathForScope_parent`: a path ends at its scope, and
     one that reaches a customer from below reaches it through the scope's parent.
-/
namespace CarCare

/-- A lookup in which a scope is found under its own address, and whose scopes hang off more general
ones, if off any. -/
structure Graded (look : Level → Uuid → Option Scope) : Prop where
  key : ∀ {level id s}, look level id = some s → s.key = (level, id)
  parent : ∀ {level id s p}, look level id = some s → s.parent? = some p → p.1.rank < level.rank

/-- The parent of a scope, if it has one that the lookup knows. -/
def Scope.found? (look : Level → Uuid → Option Scope) (s : Scope) : Option Scope :=
  s.parent?.bind fun (level, id) => look level id

namespace Graded
variable {look : Level → Uuid → Option Scope} {s parent : Scope}

theorem found (graded : Graded look) (known : look s.level s.id = some s)
    (h : s.found? look = some parent) :
    look parent.level parent.id = some parent ∧ s.parent? = some parent.key ∧
      parent.level.rank < s.level.rank := by
  obtain ⟨⟨level, id⟩, haddress, hparent⟩ := Option.bind_eq_some_iff.mp h
  obtain ⟨rfl, rfl⟩ := Prod.mk.inj (graded.key hparent)
  exact ⟨hparent, haddress, graded.parent known haddress⟩

/-- What a scope has if its parent has it holds of every scope that is found. -/
theorem induction {motive : Scope → Prop} (graded : Graded look)
    (step : ∀ s, look s.level s.id = some s →
      (∀ parent, s.found? look = some parent → motive parent) → motive s)
    (s : Scope) (known : look s.level s.id = some s) : motive s := by
  induction hr : s.level.rank using Nat.strongRecOn generalizing s with
  | ind rank ih =>
    refine step s known fun parent h => ?_
    obtain ⟨hknown, _, hlt⟩ := graded.found known h
    exact ih parent.level.rank (hr ▸ hlt) parent hknown rfl

end Graded

namespace Path

def enter (p : Path) (s : Scope) : Path := p.set s.level ⟨some s.id, s.name⟩

theorem set_comm {l m : Level} (h : l ≠ m) (p : Path) (a b : Step) :
    (p.set l a).set m b = (p.set m b).set l a := by
  cases l <;> cases m <;> first | rfl | exact absurd rfl h

theorem climb_succ (look : Level → Uuid → Option Scope) (bound : Nat) (s : Scope) (p : Path) :
    climb (m := Id) look (bound + 1) s p =
      match s.found? look with
      | some parent => climb (m := Id) look bound parent (p.enter s)
      | none => p.enter s := by
  rw [climb, Scope.found?]
  cases s.parent? <;> rfl

variable {look : Level → Uuid → Option Scope} {s : Scope}

theorem climb_set (graded : Graded look) (known : look s.level s.id = some s) {l : Level}
    (deeper : s.level.rank < l.rank) (bound : Nat) (p : Path) (step : Step) :
    climb (m := Id) look bound s (p.set l step) = (climb (m := Id) look bound s p).set l step := by
  induction bound generalizing s p with
  | zero => rfl
  | succ bound ih =>
    have henter : (p.set l step).enter s = (p.enter s).set l step :=
      set_comm (fun h => by rw [h] at deeper; omega) p _ _
    rw [climb_succ, climb_succ, henter]
    cases hfound : s.found? look with
    | none => rfl
    | some parent =>
      obtain ⟨hknown, _, hlt⟩ := graded.found known hfound
      exact ih hknown (by omega) (p.enter s)

/-- No climb visits more scopes than there are levels from its start on upwards. -/
theorem climb_bound (graded : Graded look) (known : look s.level s.id = some s) {bound more : Nat}
    (enough : s.level.rank < bound) (le : bound ≤ more) (p : Path) :
    climb (m := Id) look more s p = climb (m := Id) look bound s p := by
  -- Each parent is more general, so the bound goes down no faster than the rank.
  induction bound generalizing more s p with
  | zero => omega
  | succ bound ih =>
    obtain ⟨more, rfl⟩ : ∃ k, more = k + 1 := ⟨more - 1, by omega⟩
    rw [climb_succ, climb_succ]
    cases hfound : s.found? look with
    | none => rfl
    | some parent =>
      obtain ⟨hknown, _, hlt⟩ := graded.found known hfound
      exact ih hknown (by omega) (by omega) (p.enter s)

end Path

namespace Directory
variable {d : Directory} {level : Level} {id : Uuid} {s parent : Scope} {path : Path}

theorem pathForScope_eq (d : Directory) (level : Level) (id : Uuid) :
    d.pathForScope level id = match d.scope? level id with
      | some s => .ok (Path.climb (m := Id) d.scope? d.reach s {})
      | none => .error (.scopeNotFound level id) := by
  unfold pathForScope Path.upward
  cases d.scope? level id <;> rfl

/-- The path above a scope: what a climb from its parent finds. -/
def above (d : Directory) (s : Scope) : Path :=
  match s.found? d.scope? with
  | some parent => Path.climb (m := Id) d.scope? d.reach parent {}
  | none => {}

theorem rank_lt_reach (d : Directory) (level : Level) : level.rank < d.reach := by
  have : level.rank < Level.all.length := by cases level <;> decide
  exact Nat.lt_of_lt_of_le this (Nat.le_add_left _ _)

theorem pathForScope_ok (graded : Graded d.scope?) (found : d.scope? level id = some s) :
    d.pathForScope level id = .ok ((d.above s).enter s) := by
  obtain ⟨rfl, rfl⟩ := Prod.mk.inj (graded.key found)
  rw [pathForScope_eq, found, above]
  have hreach : d.reach = (d.reach - 1) + 1 := by
    have := d.rank_lt_reach s.level
    omega
  refine congrArg Except.ok ?_
  rw [hreach, Path.climb_succ, ← hreach]
  cases hfound : s.found? d.scope? with
  | none => rfl
  | some parent =>
    obtain ⟨hknown, _, hlt⟩ := graded.found found hfound
    have hs := d.rank_lt_reach s.level
    show Path.climb (m := Id) d.scope? (d.reach - 1) parent (Path.set {} s.level _) = _
    -- One step is taken already, but what is left of the bound still suffices from the parent on.
    have hbound : parent.level.rank < d.reach - 1 := by omega
    rw [Path.climb_set graded hknown hlt,
      ← Path.climb_bound graded hknown hbound (Nat.sub_le _ 1)]
    rfl

theorem pathForScope_error (unknown : d.scope? level id = none) :
    d.pathForScope level id = .error (.scopeNotFound level id) := by
  rw [pathForScope_eq, unknown]

theorem pathForScope_eq_ok (graded : Graded d.scope?) : d.pathForScope level id = .ok path ↔
    ∃ s, d.scope? level id = some s ∧ path = (d.above s).enter s := by
  cases h : d.scope? level id with
  | none => simp [pathForScope_error h]
  | some s => simp [pathForScope_ok graded h, eq_comm]

theorem above_of_found (graded : Graded d.scope?) (known : d.scope? s.level s.id = some s)
    (found : s.found? d.scope? = some parent) : d.above s = (d.above parent).enter parent := by
  have hpath := pathForScope_ok graded (graded.found known found).1
  rw [pathForScope_eq, (graded.found known found).1] at hpath
  rw [above, found]
  exact Except.ok.inj hpath

theorem above_deeper (graded : Graded d.scope?) (known : d.scope? s.level s.id = some s)
    (m : Level) (deeper : s.level.rank ≤ m.rank) : (d.above s).step m = {} := by
  revert m
  refine graded.induction (motive := fun s => ∀ m : Level, s.level.rank ≤ m.rank →
    (d.above s).step m = {}) (fun s known ih m hm => ?_) s known
  cases hfound : s.found? d.scope? with
  | none =>
    rw [above, hfound]
    cases m <;> rfl
  | some parent =>
    obtain ⟨_, _, hlt⟩ := graded.found known hfound
    have hne : m ≠ parent.level := fun h => by rw [h] at hm; omega
    rw [above_of_found graded known hfound, Path.enter, Path.step_set_of_ne hne]
    exact ih parent hfound m (by omega)

theorem pathForScope_step (graded : Graded d.scope?) (h : d.pathForScope level id = .ok path) :
    (path.step level).id = some id ∧ ∀ m : Level, level.rank < m.rank → path.step m = {} := by
  obtain ⟨s, hs, rfl⟩ := (pathForScope_eq_ok graded).mp h
  obtain ⟨rfl, rfl⟩ := Prod.mk.inj (graded.key hs)
  refine ⟨by rw [Path.enter, Path.step_set_self], fun m hm => ?_⟩
  rw [Path.enter, Path.step_set_of_ne fun h => by rw [h] at hm; omega]
  exact above_deeper graded hs m (by omega)

theorem pathForScope_customer (graded : Graded d.scope?) (known : d.scope? s.level s.id = some s)
    (top : s.level = .customer) : d.pathForScope s.level s.id = .ok (Path.enter {} s) := by
  rw [pathForScope_ok graded known, above]
  cases hfound : s.found? d.scope? with
  | none => rfl
  | some parent =>
    obtain ⟨_, _, hlt⟩ := graded.found known hfound
    rw [top] at hlt
    exact absurd hlt (Nat.not_lt_zero _)

theorem pathForScope_child (graded : Graded d.scope?) (known : d.scope? s.level s.id = some s)
    (address : s.parent? = some parent.key)
    (parentKnown : d.scope? parent.level parent.id = some parent)
    (h : d.pathForScope parent.level parent.id = .ok path) :
    d.pathForScope s.level s.id = .ok (path.enter s) := by
  have hfound : s.found? d.scope? = some parent := by
    rw [Scope.found?, address]
    exact parentKnown
  rw [pathForScope_ok graded known, above_of_found graded known hfound]
  rw [pathForScope_ok graded parentKnown] at h
  rw [Except.ok.inj h]

/-- A path that reaches a customer from a deeper scope reaches it from the scope's parent. -/
theorem pathForScope_parent (graded : Graded d.scope?) (h : d.pathForScope level id = .ok path)
    (rooted : path.customer.id.isSome) (deeper : level ≠ .customer) :
    ∃ s parent above, d.scope? level id = some s ∧ s.parent? = some parent ∧
      parent.1.rank < level.rank ∧ d.pathForScope parent.1 parent.2 = .ok above ∧
      above.customer.id.isSome ∧ path = above.enter s := by
  obtain ⟨s, hs, rfl⟩ := (pathForScope_eq_ok graded).mp h
  obtain ⟨rfl, rfl⟩ := Prod.mk.inj (graded.key hs)
  have habove : (d.above s).customer.id.isSome := by
    have hstep : ((d.above s).enter s).step .customer = (d.above s).step .customer :=
      Path.step_set_of_ne (Ne.symm deeper) _ _
    exact (congrArg (·.id.isSome) hstep).symm.trans rooted
  cases hfound : s.found? d.scope? with
  | none =>
    rw [above, hfound] at habove
    cases habove
  | some parent =>
    obtain ⟨hknown, haddress, hlt⟩ := graded.found hs hfound
    rw [above_of_found graded hs hfound] at habove ⊢
    exact ⟨s, parent.key, _, hs, haddress, hlt, pathForScope_ok graded hknown, habove, rfl⟩

end Directory
end CarCare

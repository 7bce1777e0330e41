import CarCare.Proofs.Hierarchy.Listing
import Mathlib.Logic.Relation

/-!
The ancestors of a scope against the path that is climbed from it.

What is proved:
  1. `Path.climb_traced` and `Path.upward_traced`: a climb that is watched finds what it finds
     unwatched, and asks for the parents on its way, one after the other.
  2. `Path.questions_length`: each parent is more general than the one before, so that a climb asks
     for no more parents than there are levels above its start. Here the climb ends by itself.
  3. `Directory.step_of_reaches` and `Directory.step_of_unreached`: what the path holds at each
     level, and hence when it has a customer.
  4. `path_holds_ancestors`: all of it, for every graded directory, and that the leasing tables are
     one whatever they hold.
-/
namespace CarCare

/-! ## Ancestors -/

/-- Whether a scope is reached from another by following parents, each of which is found. A scope
reaches itself. -/
def Scope.Reaches (look : Level → Uuid → Option Scope) : Scope → Scope → Prop :=
  Relation.ReflTransGen fun s parent => s.found? look = some parent

namespace Graded
variable {look : Level → Uuid → Option Scope} {s a : Scope}

/-- What a known scope reaches is known, and more general unless it is the scope itself. -/
theorem reached (graded : Graded look) (known : look s.level s.id = some s) (h : s.Reaches look a) :
    look a.level a.id = some a ∧ (a = s ∨ a.level.rank < s.level.rank) := by
  induction h with
  | refl => exact ⟨known, .inl rfl⟩
  | tail _ found ih =>
    obtain ⟨hknown, hbelow⟩ := ih
    obtain ⟨hparent, _, hlt⟩ := graded.found hknown found
    refine ⟨hparent, .inr ?_⟩
    rcases hbelow with rfl | hbelow
    · exact hlt
    · exact Nat.lt_trans hlt hbelow

theorem level_ne_of_parent (graded : Graded look) (known : look s.level s.id = some s)
    {parent : Scope} (found : s.found? look = some parent) (h : parent.Reaches look a) :
    a.level ≠ s.level := by
  obtain ⟨hknown, _, hlt⟩ := graded.found known found
  intro heq
  rcases (graded.reached hknown h).2 with rfl | hbelow
  · rw [heq] at hlt
    exact Nat.lt_irrefl _ hlt
  · rw [heq] at hbelow
    exact Nat.lt_irrefl _ (Nat.lt_trans hlt hbelow)

end Graded

/-! ## Questions -/

/-- A question is answered as it would be unwatched, and goes to the end of the log. -/
theorem Lookup.traced_run {α : Type} (look : Level → Uuid → Option α) (level : Level) (id : Uuid)
    (log : List (Level × Uuid)) :
    (Lookup.traced look level id).run log = (look level id, log ++ [(level, id)]) := rfl

namespace Path
variable {look : Level → Uuid → Option Scope} {s : Scope}

/-- The addresses that a climb asks for after its start. -/
def questions (look : Level → Uuid → Option Scope) : Nat → Scope → List (Level × Uuid)
  | 0, _ => []
  | bound + 1, s =>
    match s.parent? with
    | none => []
    | some (level, id) =>
      (level, id) :: match look level id with
        | some parent => questions look bound parent
        | none => []

theorem climb_traced (bound : Nat) (s : Scope) (p : Path) (log : List (Level × Uuid)) :
    (climb (Lookup.traced look) bound s p).run log =
      (climb (m := Id) look bound s p, log ++ questions look bound s) := by
  -- Questions are added at the end of the log, so the induction is for every log so far.
  induction bound generalizing s p log with
  | zero =>
    show (p, log) = (p, log ++ [])
    rw [List.append_nil]
  | succ bound ih =>
    rw [climb_succ, Scope.found?, climb, questions]
    cases haddress : s.parent? with
    | none =>
      show (p.enter s, log) = (p.enter s, log ++ [])
      rw [List.append_nil]
    | some address =>
      obtain ⟨level, id⟩ := address
      simp only [Option.bind_some]
      cases hparent : look level id with
      | none =>
        rw [StateT.run_bind, Lookup.traced_run, hparent]
        rfl
      | some parent =>
        rw [StateT.run_bind, Lookup.traced_run, hparent]
        show (climb (Lookup.traced look) bound parent (p.enter s)).run (log ++ [(level, id)]) = _
        rw [ih, List.append_assoc, List.singleton_append]

/-- The path of a known scope is climbed by asking for the scope and then for its parents. -/
theorem upward_traced (known : look s.level s.id = some s) (bound : Nat) :
    (upward (Lookup.traced look) bound s.level s.id).run [] =
      (.ok (climb (m := Id) look bound s {}), (s.level, s.id) :: questions look bound s) := by
  rw [upward, StateT.run_bind, Lookup.traced_run, known]
  show (do
    let path ← climb (Lookup.traced look) bound s {}
    pure (Except.ok path) : StateM _ (Except Error Path)).run [(s.level, s.id)] = _
  rw [StateT.run_bind, climb_traced]
  rfl

/-- Parents are more general one after the other, so that there are no more of them to ask for than
levels above the start. -/
theorem questions_length (graded : Graded look) (known : look s.level s.id = some s) (bound : Nat) :
    (questions look bound s).length ≤ s.level.rank := by
  induction bound generalizing s with
  | zero => exact Nat.zero_le _
  | succ bound ih =>
    rw [questions]
    cases haddress : s.parent? with
    | none => exact Nat.zero_le _
    | some address =>
      obtain ⟨level, id⟩ := address
      have hlt : level.rank < s.level.rank := graded.parent known haddress
      rw [List.length_cons]
      cases hparent : look level id with
      | none => exact Nat.lt_of_le_of_lt (Nat.zero_le _) hlt
      | some parent =>
        obtain ⟨rfl, rfl⟩ := Prod.mk.inj (graded.key hparent)
        exact Nat.lt_of_le_of_lt (ih hparent) hlt

/-- A climb that may visit a scope of each level from its start upwards asks for all parents there
are: more would not be asked for if it might go on. -/
theorem questions_bound (graded : Graded look) (known : look s.level s.id = some s)
    {bound more : Nat} (enough : s.level.rank < bound) (le : bound ≤ more) :
    questions look more s = questions look bound s := by
  induction bound generalizing more s with
  | zero => omega
  | succ bound ih =>
    obtain ⟨more, rfl⟩ : ∃ k, more = k + 1 := ⟨more - 1, by omega⟩
    rw [questions, questions]
    cases haddress : s.parent? with
    | none => rfl
    | some address =>
      obtain ⟨level, id⟩ := address
      have hlt : level.rank < s.level.rank := graded.parent known haddress
      cases hparent : look level id with
      | none => simp only [hparent]
      | some parent =>
        obtain ⟨rfl, rfl⟩ := Prod.mk.inj (graded.key hparent)
        simp only [hparent]
        rw [ih hparent (by omega) (by omega)]

end Path

/-! ## Paths -/

namespace Directory
variable {d : Directory} {s a : Scope}

theorem step_of_reaches (graded : Graded d.scope?) (known : d.scope? s.level s.id = some s)
    (h : s.Reaches d.scope? a) : ((d.above s).enter s).step a.level = ⟨some a.id, a.name⟩ := by
  revert h
  refine graded.induction (motive := fun s => s.Reaches d.scope? a →
    ((d.above s).enter s).step a.level = ⟨some a.id, a.name⟩) (fun s known ih h => ?_) s known
  rcases Relation.ReflTransGen.cases_head h with rfl | ⟨parent, hfound, hrest⟩
  · rw [Path.enter, Path.step_set_self]
  · rw [Path.enter, Path.step_set_of_ne (graded.level_ne_of_parent known hfound hrest),
      above_of_found graded known hfound]
    exact ih parent hfound hrest

theorem step_of_unreached (graded : Graded d.scope?) (known : d.scope? s.level s.id = some s)
    {l : Level} (h : ∀ a, s.Reaches d.scope? a → a.level ≠ l) :
    ((d.above s).enter s).step l = {} := by
  revert h
  refine graded.induction (motive := fun s => (∀ a, s.Reaches d.scope? a → a.level ≠ l) →
    ((d.above s).enter s).step l = {}) (fun s known ih h => ?_) s known
  rw [Path.enter, Path.step_set_of_ne (h s .refl).symm]
  cases hfound : s.found? d.scope? with
  | none =>
    rw [above, hfound]
    cases l <;> rfl
  | some parent =>
    rw [above_of_found graded known hfound]
    exact ih parent hfound fun a ha => h a (.head hfound ha)

theorem rooted_iff (graded : Graded d.scope?) (known : d.scope? s.level s.id = some s) :
    ((d.above s).enter s).customer.id.isSome ↔ ∃ a, s.Reaches d.scope? a ∧ a.level = .customer := by
  constructor
  · intro hcustomer
    by_contra hnone
    have hstep : ((d.above s).enter s).customer = {} :=
      step_of_unreached graded known fun a ha htop => hnone ⟨a, ha, htop⟩
    rw [hstep] at hcustomer
    cases hcustomer
  · rintro ⟨a, ha, htop⟩
    have hstep := step_of_reaches graded known ha
    rw [htop] at hstep
    have hcustomer : ((d.above s).enter s).customer = ⟨some a.id, a.name⟩ := hstep
    rw [hcustomer]
    rfl

end Directory

/-- In every directory whose scopes are found under their own addresses and hang off more general
ones, if off any, a path is made by four questions at most, whatever bound on the climb leaves room
for four scopes: it ends by itself. At each level the path holds the id and the name of the scope of
that level which is reached by following parents as long as they are found, and nothing where none
is reached; and it has a customer if and only if a customer is reached. The leasing tables make such
a directory whatever they hold, with references that dangle as well. -/
theorem path_holds_ancestors :
    (∀ (d : Directory), Graded d.scope? → ∀ level id s, d.scope? level id = some s →
      ∃ path asked, d.pathForScope level id = .ok path
        ∧ (∀ bound, 4 ≤ bound →
          (Path.upward (Lookup.traced d.scope?) bound level id).run [] = (.ok path, asked))
        ∧ asked.length ≤ 4
        ∧ (∀ a, s.Reaches d.scope? a → path.step a.level = ⟨some a.id, a.name⟩)
        ∧ (∀ l, (∀ a, s.Reaches d.scope? a → a.level ≠ l) → path.step l = ⟨none, none⟩)
        ∧ (path.customer.id.isSome ↔
          ∃ a, s.Reaches d.scope? a ∧ a.level = .customer ∧ d.scope? .customer a.id = some a))
      ∧ ∀ (t : LeaseTables) (today : Date), Graded (t.directory today).scope? := by
  refine ⟨fun d graded level id s found => ?_, LeaseTables.graded⟩
  obtain ⟨rfl, rfl⟩ := Prod.mk.inj (graded.key found)
  have hrank : s.level.rank < 4 := by cases s.level <;> decide
  have hpath := Directory.pathForScope_ok graded found
  have hclimb : Path.climb (m := Id) d.scope? 4 s {} = (d.above s).enter s := by
    rw [← Path.climb_bound graded found hrank (Nat.le_add_left 4 _)]
    rw [Directory.pathForScope_eq, found] at hpath
    exact Except.ok.inj hpath
  refine ⟨(d.above s).enter s, (s.level, s.id) :: Path.questions d.scope? 4 s, hpath, ?_, ?_,
    fun a => Directory.step_of_reaches graded found,
    fun l => Directory.step_of_unreached graded found, ?_⟩
  · intro bound enough
    rw [Path.upward_traced found, Path.climb_bound graded found hrank enough,
      Path.questions_bound graded found hrank enough, hclimb]
  · have hasked := Path.questions_length graded found 4
    rw [List.length_cons]
    omega
  · rw [Directory.rooted_iff graded found]
    constructor
    · rintro ⟨a, ha, htop⟩
      have hknown := (graded.reached found ha).1
      exact ⟨a, ha, htop, htop ▸ hknown⟩
    · rintro ⟨a, ha, htop, -⟩
      exact ⟨a, ha, htop⟩

theorem Directory.graded_ofList {scopes : List Scope}
    (below : ∀ s ∈ scopes, ∀ p ∈ s.parent?, p.1.rank < s.level.rank) (cars : List (String × Path)) :
    Graded (ofList scopes cars).scope? where
  key := by
    intro level id s h
    simpa using List.find?_some h
  parent := by
    intro level id s p h hparent
    have hkey : s.key = (level, id) := by simpa using List.find?_some h
    obtain ⟨rfl, rfl⟩ := Prod.mk.inj hkey
    exact below s (List.mem_reverse.mp (List.mem_of_find?_eq_some h)) p hparent

/-- Scopes with a rider that hangs off its customer directly, an amendment of it, and an amendment
whose lease is missing. -/
def gappedScopes : List Scope :=
  [{ level := .customer, id := ⟨1⟩, name := some "Acme" },
   { level := .rider, id := ⟨20⟩, name := none, parentLevel := some .customer,
     parentId := some ⟨1⟩ },
   { level := .amendment, id := ⟨30⟩, name := some "Wash", parentLevel := some .rider,
     parentId := some ⟨20⟩ },
   { level := .amendment, id := ⟨31⟩, name := none, parentLevel := some .masterLease,
     parentId := some ⟨10⟩ }]

theorem path_holds_ancestors_across_gap :
    let d := Directory.ofList gappedScopes []
    Graded d.scope?
      ∧ (∃ (path : Path) (asked : List (Level × Uuid)), d.pathForScope .amendment ⟨30⟩ = .ok path
        ∧ asked.length ≤ 4 ∧ asked = [(.amendment, ⟨30⟩), (.rider, ⟨20⟩), (.customer, ⟨1⟩)]
        ∧ path.customer = ⟨some ⟨1⟩, some "Acme"⟩ ∧ path.lease = ⟨none, none⟩
        ∧ path.rider = ⟨some ⟨20⟩, none⟩)
      ∧ ∃ (path : Path) (asked : List (Level × Uuid)), d.pathForScope .amendment ⟨31⟩ = .ok path
        ∧ asked.length ≤ 4 ∧ asked = [(.amendment, ⟨31⟩), (.masterLease, ⟨10⟩)]
        ∧ path.customer.id = none := by
  intro d
  have graded : Graded d.scope? := Directory.graded_ofList (by decide) []
  obtain ⟨path, asked, hpath, hruns, hlength, hheld, -, -⟩ :=
    path_holds_ancestors.1 d graded .amendment ⟨30⟩ _ rfl
  obtain ⟨lost, askedLost, hlost, hrunsLost, hlengthLost, -⟩ :=
    path_holds_ancestors.1 d graded .amendment ⟨31⟩ _ rfl
  have hrun := hruns 4 (Nat.le_refl 4)
  have hrunLost := hrunsLost 4 (Nat.le_refl 4)
  have hlease : Except.ok (ε := Error) path.lease = .ok ⟨none, none⟩ :=
    congrArg (fun out => out.1.map Path.lease) hrun.symm
  have hcustomer : Except.ok (ε := Error) lost.customer.id = .ok none :=
    congrArg (fun out => out.1.map fun p => p.customer.id) hrunLost.symm
  refine ⟨graded, ⟨path, asked, hpath, hlength, congrArg Prod.snd hrun.symm, ?_,
    Except.ok.inj hlease, ?_⟩, lost, askedLost, hlost, hlengthLost,
    congrArg Prod.snd hrunLost.symm, Except.ok.inj hcustomer⟩
  · exact hheld _ (.head rfl (.head rfl .refl))
  · exact hheld _ (.head rfl .refl)

end CarCare

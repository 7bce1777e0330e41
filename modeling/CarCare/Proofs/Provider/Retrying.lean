import CarCare.Retry
import Mathlib.Data.ENat.Lattice

/-!
Retrying, as far as it is up to the policy. The calls are made by a library, of which only what is
documented is used: what it decides after a call, given the policy.

What is proved:
  1. `Calls.iff`: a run of calls is told by the decision after each of them; by induction on the
     run.
  2. `RetryPolicy.runFrom_last`: where attempts made in a row end; by induction on those left.
  3. `RetryPolicy.IsLast.unique` and `RetryPolicy.IsLast.coe_eq`: there is one last call, at the
     limit or at the first outcome that does not pass, whichever comes first.
  4. `Retrier.Documented.calls_iff`: under the policy for connections any library ends there, and
     passes on what that call came to.
  5. `retried_up_to_limit`: hence the number of calls and what the caller is left with.

What is assumed of the library is in `Retrier.Documented`: it calls again for what the policy names
until the number of calls is reached, leaves everything else to the caller, and passes on the last
error where it is asked to. `Retrier.plain` is a library that does so.
-/
namespace CarCare
variable {ε α : Type}

/-! ## Libraries that retry -/

/-- What the caller of a retried function is left with. -/
inductive Ending (ε α : Type) where
  /-- What the last call came to, as it is. -/
  | passedOn (last : Attempt ε α)
  /-- An error of the library, with what the last call came to inside. -/
  | wrapped (last : Attempt ε α)
deriving DecidableEq, Repr

/-- What comes after a call. -/
inductive Verdict (ε α : Type) where
  | again
  | stop (ending : Ending ε α)
deriving DecidableEq, Repr

/-- A library that retries: what it decides under a policy when the call of a number, counted from
1, has come to something. -/
abbrev Retrier (ε α : Type) := RetryPolicy ε α → Nat → Attempt ε α → Verdict ε α

/-- What is documented of the library. -/
structure Retrier.Documented (r : Retrier ε α) : Prop where
  /-- What is not retried is for the caller. -/
  settled : ∀ p n o, p.retries o = false → r p n o = .stop (.passedOn o)
  /-- What is retried leads to another call, as long as the limit is not reached. -/
  retried : ∀ p n o, p.retries o → n < p.limit → r p n o = .again
  /-- At the limit, the last error is for the caller if the policy says so. -/
  reraised : ∀ p n o, p.retries o → p.limit ≤ n → p.reraises → o.isError →
    r p n o = .stop (.passedOn o)

/-- The calls of a function from one number on. The last number and what the caller is left with
are told; `outcomes` are what the calls come to. -/
inductive Calls (r : Retrier ε α) (p : RetryPolicy ε α) (outcomes : Nat → Attempt ε α) :
    (first last : Nat) → Ending ε α → Prop where
  | last {n : Nat} {e : Ending ε α} (stops : r p n (outcomes n) = .stop e) :
    Calls r p outcomes n n e
  | next {n m : Nat} {e : Ending ε α} (again : r p n (outcomes n) = .again)
    (rest : Calls r p outcomes (n + 1) m e) : Calls r p outcomes n m e

namespace Calls
variable {r : Retrier ε α} {p : RetryPolicy ε α} {outcomes : Nat → Attempt ε α} {n m : Nat}
  {e : Ending ε α}

theorem of_again (le : n ≤ m) (again : ∀ i, n ≤ i → i < m → r p i (outcomes i) = .again)
    (stops : r p m (outcomes m) = .stop e) : Calls r p outcomes n m e := by
  induction le using Nat.decreasingInduction with
  | self => exact .last stops
  | of_succ k hlt ih =>
    exact .next (again k le_rfl hlt) (ih fun i hi him => again i (by omega) him)

/-- A run of calls: after each but the last another one is made. -/
theorem iff : Calls r p outcomes n m e ↔ n ≤ m
    ∧ (∀ i, n ≤ i → i < m → r p i (outcomes i) = .again) ∧ r p m (outcomes m) = .stop e := by
  refine ⟨fun h => ?_, fun ⟨hle, hagain, hstops⟩ => of_again hle hagain hstops⟩
  induction h with
  | last stops => exact ⟨le_rfl, fun i hi him => absurd hi (by omega), stops⟩
  | @next n m e again rest ih =>
    obtain ⟨hle, hagain, hstops⟩ := ih
    refine ⟨by omega, fun i hi him => ?_, hstops⟩
    rcases Nat.eq_or_lt_of_le hi with rfl | hlt
    · exact again
    · exact hagain i hlt him

end Calls

/-! ## The last call -/

namespace RetryPolicy
variable {p : RetryPolicy ε α} {outcomes : Nat → Attempt ε α} {m m' : Nat}

/-- The number of the last call under a policy: all calls before it are retried, and it is not, or
the limit is reached. -/
structure IsLast (p : RetryPolicy ε α) (outcomes : Nat → Attempt ε α) (m : Nat) : Prop where
  called : 1 ≤ m
  before : ∀ i, 1 ≤ i → i < m → p.retries (outcomes i) ∧ i < p.limit
  ends : p.retries (outcomes m) → p.limit ≤ m

theorem IsLast.le (last : p.IsLast outcomes m) (last' : p.IsLast outcomes m') : m ≤ m' := by
  by_contra hlt
  obtain ⟨hretried, hbelow⟩ := last.before m' last'.called (by omega)
  have hreached := last'.ends hretried
  omega

theorem IsLast.unique (last : p.IsLast outcomes m) (last' : p.IsLast outcomes m') : m = m' :=
  Nat.le_antisymm (last.le last') (last'.le last)

theorem IsLast.congr {others : Nat → Attempt ε α} (last : p.IsLast outcomes m)
    (same : ∀ i, 1 ≤ i → i ≤ m → others i = outcomes i) : p.IsLast others m := by
  refine ⟨last.called, fun i hi him => ?_, ?_⟩
  · rw [same i hi him.le]
    exact last.before i hi him
  · rw [same m last.called le_rfl]
    exact last.ends

theorem runFrom_last (p : RetryPolicy ε α) (outcomes : Nat → Attempt ε α) (more n m : Nat)
    (h : (p.runFrom outcomes more n).2 = m) :
    n ≤ m ∧ m ≤ n + more ∧ (∀ i, n ≤ i → i < m → p.retries (outcomes i))
      ∧ (p.retries (outcomes m) → m = n + more) := by
  -- The number of the attempt goes up by as much as what is left of the limit goes down.
  induction more generalizing n with
  | zero =>
    obtain rfl : n = m := h
    exact ⟨le_rfl, le_rfl, fun i hi him => absurd hi (by omega), fun _ => rfl⟩
  | succ more ih =>
    unfold runFrom at h
    split at h
    · rename_i hretried
      obtain ⟨hle, hbound, hbefore, hends⟩ := ih (n + 1) h
      refine ⟨by omega, by omega, fun i hi him => ?_, fun hm => (hends hm).trans (by omega)⟩
      rcases Nat.eq_or_lt_of_le hi with rfl | hlt
      · exact hretried
      · exact hbefore i hlt him
    · rename_i hsettled
      obtain rfl : n = m := h
      exact ⟨le_rfl, by omega, fun i hi him => absurd hi (by omega),
        fun hretried => absurd hretried hsettled⟩

theorem run_isLast (p : RetryPolicy ε α) (outcomes : Nat → Attempt ε α) :
    p.IsLast outcomes (p.run outcomes).2 := by
  obtain ⟨hle, hbound, hbefore, hends⟩ :=
    p.runFrom_last outcomes (p.limit - 1) 1 (p.run outcomes).2 rfl
  refine ⟨hle, fun i hi him => ⟨hbefore i hi him, by omega⟩, fun hretried => ?_⟩
  have hall := hends hretried
  omega

end RetryPolicy

/-- The position of the first outcome that does not pass, counted from 1. It is infinite if there is
none. -/
noncomputable def firstSettled (outcomes : Nat → Attempt ε α) : ENat :=
  ⨅ (n : Nat) (_ : 1 ≤ n ∧ (outcomes n).mayPass = false), (n : ENat)

/-- The last call is the one at the limit or the one with the first outcome that does not pass,
whichever comes first. -/
theorem RetryPolicy.IsLast.coe_eq {limit m : Nat} {outcomes : Nat → Attempt ε α}
    (positive : 1 ≤ limit) (last : (whileUnreached limit).IsLast outcomes m) :
    (m : ENat) = min (limit : ENat) (firstSettled outcomes) := by
  apply le_antisymm
  · refine le_min ?_ (le_iInf₂ fun n ⟨hn, hsettled⟩ => ?_)
    · rw [Nat.cast_le]
      by_contra hlt
      have hbelow := (last.before (m - 1) (by omega) (by omega)).2
      have hlimit : (whileUnreached limit : RetryPolicy ε α).limit = limit := rfl
      omega
    · rw [Nat.cast_le]
      by_contra hlt
      have hretried := (last.before n hn (by omega)).1
      exact absurd (hsettled.symm.trans hretried) Bool.false_ne_true
  · cases hpass : (outcomes m).mayPass with
    | true => exact (min_le_left _ _).trans (Nat.cast_le.mpr (last.ends hpass))
    | false => exact (min_le_right _ _).trans (iInf₂_le m ⟨last.called, hpass⟩)

/-! ## Calls under the policy for connections -/

namespace Retrier
variable {r : Retrier ε α}

/-- All that such a library can decide under the policy for connections. -/
theorem Documented.verdict (documented : r.Documented) (limit n : Nat) (o : Attempt ε α) :
    r (.whileUnreached limit) n o
      = if o.mayPass ∧ n < limit then .again else .stop (.passedOn o) := by
  split
  · rename_i hagain
    exact documented.retried _ n o hagain.1 hagain.2
  · rename_i hstops
    cases hpass : o.mayPass with
    | false => exact documented.settled _ n o hpass
    | true =>
      have hreached : limit ≤ n := Nat.le_of_not_lt fun hlt => hstops ⟨hpass, hlt⟩
      exact documented.reraised _ n o hpass hreached rfl (Attempt.isError_of_mayPass hpass)

theorem Documented.again_iff (documented : r.Documented) {limit n : Nat} {o : Attempt ε α} :
    r (.whileUnreached limit) n o = .again ↔ o.mayPass ∧ n < limit := by
  rw [documented.verdict]
  split <;> simp_all

theorem Documented.stop_iff (documented : r.Documented) {limit n : Nat} {o : Attempt ε α}
    {e : Ending ε α} :
    r (.whileUnreached limit) n o = .stop e ↔ (o.mayPass → limit ≤ n) ∧ e = .passedOn o := by
  rw [documented.verdict]
  split
  · rename_i hagain
    exact iff_of_false nofun fun ⟨hends, _⟩ => Nat.not_le_of_lt hagain.2 (hends hagain.1)
  · rename_i hstops
    have hends : o.mayPass → limit ≤ n := fun hpass =>
      Nat.le_of_not_lt fun hlt => hstops ⟨hpass, hlt⟩
    exact ⟨fun h => ⟨hends, (Verdict.stop.inj h).symm⟩, fun ⟨_, hending⟩ => by rw [hending]⟩

theorem Documented.calls_iff (documented : r.Documented) {limit m : Nat}
    {outcomes : Nat → Attempt ε α} {e : Ending ε α} :
    Calls r (.whileUnreached limit) outcomes 1 m e
      ↔ (RetryPolicy.whileUnreached limit).IsLast outcomes m ∧ e = .passedOn (outcomes m) := by
  rw [Calls.iff, documented.stop_iff]
  simp only [documented.again_iff]
  constructor
  · rintro ⟨called, before, ends, hending⟩
    exact ⟨⟨called, before, ends⟩, hending⟩
  · rintro ⟨⟨called, before, ends⟩, hending⟩
    exact ⟨called, before, ends, hending⟩

end Retrier

/-- Under the policy for connections, any library that retries as documented makes as many calls as
there are up to the first outcome that does not pass, but no more than the limit; the caller is left
with what the last of them came to, an error included. Outcomes behind that one do not matter, so
that it makes no difference whether and how the sequence goes on. -/
theorem retried_up_to_limit (r : Retrier ε α) (documented : r.Documented) (limit : Nat)
    (positive : 1 ≤ limit) (outcomes : Nat → Attempt ε α) :
    ∃ calls : Nat, (calls : ENat) = min (limit : ENat) (firstSettled outcomes)
      ∧ Attempt.run limit outcomes = (outcomes calls, calls)
      ∧ ∀ others, (∀ i, 1 ≤ i → i ≤ calls → others i = outcomes i) → ∀ m e,
        Calls r (.whileUnreached limit) others 1 m e
          ↔ m = calls ∧ e = .passedOn (outcomes calls) := by
  have hlast := (RetryPolicy.whileUnreached limit).run_isLast outcomes
  refine ⟨_, hlast.coe_eq positive, Prod.ext (RetryPolicy.fst_runFrom _ _ _ _) rfl, ?_⟩
  intro others same m e
  have hothers := hlast.congr same
  rw [documented.calls_iff]
  constructor
  · rintro ⟨hm, rfl⟩
    obtain rfl := hm.unique hothers
    exact ⟨rfl, by rw [same _ hlast.called le_rfl]⟩
  · rintro ⟨rfl, rfl⟩
    exact ⟨hothers, by rw [same _ hlast.called le_rfl]⟩

/-- A library that does what is documented, and wraps the last error where nothing else is asked
for. -/
def Retrier.plain : Retrier ε α := fun p n o =>
  if p.retries o then
    if n < p.limit then .again
    else if p.reraises && o.isError then .stop (.passedOn o)
    else .stop (.wrapped o)
  else .stop (.passedOn o)

theorem Retrier.plain_documented : (plain : Retrier ε α).Documented where
  settled p n o settled := by simp [plain, settled]
  retried p n o retried below := by simp [plain, retried, below]
  reraised p n o retried reached reraises error := by
    simp [plain, retried, Nat.not_lt.mpr reached, reraises, error]

/-- A server that is reached at the third attempt. -/
def reachedAtThird : Nat → Attempt String String
  | 1 => .unreached "refused 1"
  | 2 => .unreached "refused 2"
  | 3 => .done "connected"
  | _ => .failed "bad address"

/-- With two calls the second error is the one that the caller sees. -/
theorem retried_up_to_limit_too_soon : (Retrier.plain : Retrier String String).Documented ∧ 1 ≤ 2
    ∧ Attempt.run 2 reachedAtThird = (.unreached "refused 2", 2)
    ∧ ∀ m e, Calls .plain (.whileUnreached 2) reachedAtThird 1 m e
      ↔ m = 2 ∧ e = .passedOn (.unreached "refused 2") := by
  obtain ⟨calls, -, hrun, hcalls⟩ :=
    retried_up_to_limit .plain Retrier.plain_documented 2 (by decide) reachedAtThird
  obtain rfl : 2 = calls := congrArg Prod.snd hrun
  exact ⟨Retrier.plain_documented, by decide, rfl, hcalls reachedAtThird fun _ _ _ => rfl⟩

end CarCare

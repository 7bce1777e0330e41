/-!
Retrying. A function is called again as long as a policy asks for it, up to a number of calls. The
policy for connections asks for it where the server is not reached; a call that comes to anything
else is the last one. How long is waited between two calls is left open.
-/
namespace CarCare

/-- What an attempt comes to. -/
inductive Attempt (ε α : Type) where
  | done (result : α)
  /-- The server was not reached, which may pass. -/
  | unreached (error : ε)
  /-- Something else went wrong, which does not pass. -/
  | failed (error : ε)
deriving DecidableEq, Repr

namespace Attempt

/-- Whether another attempt may come to something better. -/
def mayPass : Attempt ε α → Bool
  | unreached _ => true
  | _ => false

def isError : Attempt ε α → Bool
  | done _ => false
  | _ => true

theorem isError_of_mayPass {o : Attempt ε α} (h : o.mayPass) : o.isError := by
  cases o with
  | unreached _ => rfl
  | done _ => cases h
  | failed _ => cases h

end Attempt

/-- When a function is called again, and what its caller is told if that does not help. -/
structure RetryPolicy (ε α : Type) where
  /-- The number of calls after which no other is made. -/
  limit : Nat
  /-- What a call is made again for. -/
  retries : Attempt ε α → Bool
  /-- Whether the last error is passed on as it is, and not inside one that says that retrying has
  ended. -/
  reraises : Bool

namespace RetryPolicy

/-- Calls again where the server is not reached, and passes on the last error. -/
def whileUnreached (limit : Nat := 3) : RetryPolicy ε α where
  limit := limit
  retries := Attempt.mayPass
  reraises := true

/-- Makes attempt number `n` and, as long as it is asked for, up to `more` further attempts. Answers
what the last one came to, and its number. -/
def runFrom (p : RetryPolicy ε α) (attempt : Nat → Attempt ε α) :
    (more n : Nat) → Attempt ε α × Nat
  | 0, n => (attempt n, n)
  | more + 1, n =>
    if p.retries (attempt n) then p.runFrom attempt more (n + 1) else (attempt n, n)

/-- Makes attempts up to the limit, numbered from 1, but at least one. -/
def run (p : RetryPolicy ε α) (attempt : Nat → Attempt ε α) : Attempt ε α × Nat :=
  -- The first attempt is made whatever the limit is.
  p.runFrom attempt (p.limit - 1) 1

/-- The answer is what the attempt of the answered number came to. -/
theorem fst_runFrom (p : RetryPolicy ε α) (attempt : Nat → Attempt ε α) (more n : Nat) :
    (p.runFrom attempt more n).1 = attempt (p.runFrom attempt more n).2 := by
  induction more generalizing n with
  | zero => rfl
  | succ more ih =>
    unfold runFrom
    split
    · exact ih (n + 1)
    · rfl

end RetryPolicy

/-- Makes at most `limit` attempts, but at least one, as long as the server is not reached. -/
def Attempt.run (limit : Nat) (attempt : Nat → Attempt ε α) : Attempt ε α × Nat :=
  (RetryPolicy.whileUnreached limit).run attempt

end CarCare

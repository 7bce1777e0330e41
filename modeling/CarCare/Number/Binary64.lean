/-!
Binary floating point numbers of 64 bits as exact data: a finite number is a sign, a significand
and a power of two. A quotient of naturals is rounded to the nearest number, a tie to the even
significand, in natural number arithmetic.
-/
namespace CarCare.Number

/-- A finite number stands for ± significand · 2 ^ exponent. The significand of a number that
`ofQuotient` builds is below 2 ^ 53, and at least 2 ^ 52 unless the exponent is the least, -1074;
so equal numbers are equal data, the two zeros apart. -/
inductive Binary64 where
  | finite (negative : Bool) (significand : Nat) (exponent : Int)
  | infinite (negative : Bool)
  | nan
deriving DecidableEq, Repr

namespace Binary64

/-- The least exponent, that of the numbers next to zero. -/
def leastExponent : Int := -1074

/-- The exponent of the largest finite numbers. -/
def greatestExponent : Int := 971

/-- Division rounded to the nearest natural number, a tie to the even one. -/
def roundedDiv (num den : Nat) : Nat :=
  let quotient := num / den
  let twice := 2 * (num % den)
  if twice < den then quotient
  else if den < twice then quotient + 1
  else quotient + quotient % 2

/-- The quotient `num / (den * 2 ^ exponent)`, rounded. -/
def roundedAt (num den : Nat) : Int → Nat
  | .ofNat k => roundedDiv num (den * Nat.pow 2 k)
  | .negSucc k => roundedDiv (num * Nat.pow 2 (k + 1)) den

/-- The exponent at which `num / den` has a significand of 53 bits, or the least one. -/
def exponentOf (num den : Nat) : Int :=
  let guess : Int := (num.log2 : Int) - (den.log2 : Int) - 52
  let scaled : Nat × Nat := match guess with
    | .ofNat k => (num, den * Nat.pow 2 k)
    | .negSucc k => (num * Nat.pow 2 (k + 1), den)
  max leastExponent (if scaled.1 < scaled.2 * Nat.pow 2 52 then guess - 1 else guess)

/-- The number nearest to `num / den`; too large a quotient is infinite. -/
def ofQuotient (negative : Bool) (num den : Nat) : Binary64 :=
  if num = 0 then .finite negative 0 leastExponent
  else
    let exponent := exponentOf num den
    let significand := roundedAt num den exponent
    let (significand, exponent) :=
      if significand = Nat.pow 2 53 then (Nat.pow 2 52, exponent + 1) else (significand, exponent)
    if greatestExponent < exponent then .infinite negative
    else .finite negative significand exponent

/-- The number nearest to `digits * 10 ^ scale`. Scales far outside the finite range are answered
without building the power. -/
def ofDecimal (negative : Bool) (digits : Nat) (scale : Int) : Binary64 :=
  let places : Int := (toString digits).length + scale
  if digits = 0 ∨ places < -330 then .finite negative 0 leastExponent
  else if 310 < places then .infinite negative
  else match scale with
    | .ofNat k => ofQuotient negative (digits * Nat.pow 10 k) 1
    | .negSucc k => ofQuotient negative digits (Nat.pow 10 (k + 1))

def isZero : Binary64 → Bool
  | .finite _ significand _ => significand == 0
  | _ => false

def isIntegral : Binary64 → Bool
  | .finite _ _ (.ofNat _) => true
  | .finite _ m (.negSucc k) => m % Nat.pow 2 (k + 1) == 0
  | _ => false

/-- The integer part of a finite number, toward zero. -/
def truncate : Binary64 → Int
  | .finite negative m e =>
    let magnitude : Nat := match e with
      | .ofNat k => m * Nat.pow 2 k
      | .negSucc k => m / Nat.pow 2 (k + 1)
    if negative then -(magnitude : Int) else magnitude
  | _ => 0

def toInt? (x : Binary64) : Option Int :=
  if x.isIntegral then some x.truncate else none

end Binary64

end CarCare.Number

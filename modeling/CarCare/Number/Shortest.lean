import CarCare.Number.Binary64

/-!
The shortest decimal text of a binary number: the fewest digits that read back as the number, and
of those the nearest. The reals that round to a number form an interval; a grid of decimals with n
digits is tried for n = 1, 2, …, 17, by the two grid points next to the number, in exact natural
number arithmetic.
-/
namespace CarCare.Number

/-- Decimal digits as a natural number, times ten to a power. -/
structure Decimal where
  digits : Nat
  scale : Int
deriving DecidableEq, Repr

/-- The reals that round to a positive number: its value and the two ends over one denominator.
The ends round to the number itself when its significand is even. -/
structure RoundingInterval where
  low : Nat
  value : Nat
  high : Nat
  den : Nat
  closed : Bool

namespace RoundingInterval

/-- The interval of significand · 2 ^ exponent. Below a power of two the neighbour is half as far. -/
def of (significand : Nat) (exponent : Int) : RoundingInterval :=
  let below :=
    if significand = Nat.pow 2 52 ∧ Binary64.leastExponent < exponent then 1 else 2
  let (factor, den) := match exponent with
    | .ofNat k => (Nat.pow 2 k, 4)
    | .negSucc k => (1, 4 * Nat.pow 2 (k + 1))
  { low := (4 * significand - below) * factor
    value := 4 * significand * factor
    high := (4 * significand + 2) * factor
    den := den
    closed := significand % 2 == 0 }

/-- The interval measured in units of ten to a power. -/
def scaled (i : RoundingInterval) : Int → RoundingInterval
  | .ofNat k => { i with den := i.den * Nat.pow 10 k }
  | .negSucc k =>
    let factor := Nat.pow 10 (k + 1)
    { i with low := i.low * factor, value := i.value * factor, high := i.high * factor }

/-- Whether a whole number of units rounds to the number. -/
def contains (i : RoundingInterval) (c : Nat) : Bool :=
  let point := c * i.den
  if i.closed then i.low ≤ point && point ≤ i.high else i.low < point && point < i.high

/-- The nearest whole number of units that rounds to the number; on a tie the even one. -/
def nearest? (i : RoundingInterval) : Option Nat :=
  let below := i.value / i.den
  let above := below + 1
  match i.contains below, i.contains above with
  | true, true =>
    let down := i.value - below * i.den
    let up := above * i.den - i.value
    some (if down < up then below else if up < down then above else below + below % 2)
  | true, false => some below
  | false, true => some above
  | false, false => none

end RoundingInterval

/-- The least power of ten, from `k` on, by which a quotient below one reaches one. -/
def leadingZeros (num den : Nat) : (fuel k : Nat) → Nat
  | 0, k => k
  | fuel + 1, k => if den ≤ num * Nat.pow 10 k then k else leadingZeros num den fuel (k + 1)

/-- The exponent e with 10 ^ e ≤ num / den < 10 ^ (e + 1); no binary number needs more than 324
places after the point. -/
def decimalExponent (num den : Nat) : Int :=
  if den ≤ num then ((toString (num / den)).length : Int) - 1
  else -(leadingZeros num den 330 1 : Int)

def Decimal.stripped (d : Decimal) : (fuel : Nat) → Decimal
  | 0 => d
  | fuel + 1 =>
    if d.digits % 10 = 0 ∧ d.digits ≠ 0 then
      Decimal.stripped ⟨d.digits / 10, d.scale + 1⟩ fuel
    else d

/-- The first grid with a hit, from `places` digits on. -/
def firstHit (i : RoundingInterval) (exponent : Int) : (fuel : Nat) → (places : Int) → Decimal
  | 0, _ => ⟨0, 0⟩
  | fuel + 1, places =>
    let scale := exponent - places + 1
    match (i.scaled scale).nearest? with
    | some c => Decimal.stripped ⟨c, scale⟩ 20
    | none => firstHit i exponent fuel (places + 1)

/-- The shortest decimal that rounds to significand · 2 ^ exponent, for a positive significand.
Seventeen digits always suffice. -/
def shortest (significand : Nat) (exponent : Int) : Decimal :=
  let i := RoundingInterval.of significand exponent
  firstHit i (decimalExponent i.value i.den) 17 1

/-- How a number is laid out: positional from 10 ^ `least` up to below 10 ^ `limit`, else with an
exponent of at least `exponentWidth` digits and a sign. -/
structure NumberLayout where
  least : Int
  limit : Int
  exponentWidth : Nat

/-- The layout that answers and messages use: positional from 0.0001 up to below 10 ^ 16. -/
def NumberLayout.standard : NumberLayout := ⟨-4, 16, 2⟩

/-- A decimal in positional notation, with at least one digit on both sides of the point. -/
def positional (digits : List Char) (exponent : Int) : List Char :=
  match exponent with
  | .ofNat k =>
    if digits.length ≤ k + 1 then
      digits ++ List.replicate (k + 1 - digits.length) '0' ++ ['.', '0']
    else digits.take (k + 1) ++ '.' :: digits.drop (k + 1)
  | .negSucc k => '0' :: '.' :: (List.replicate k '0' ++ digits)

/-- A decimal with one digit before the point and an exponent. -/
def scientific (width : Nat) (digits : List Char) (exponent : Int) : List Char :=
  let mantissa := match digits with
    | [] => ['0']
    | [d] => [d]
    | d :: rest => d :: '.' :: rest
  let magnitude := (toString exponent.natAbs).toList
  mantissa ++ 'e' :: (if exponent < 0 then '-' else '+') ::
    (List.replicate (width - magnitude.length) '0' ++ magnitude)

/-- The text of a number in a layout. -/
def Binary64.render (layout : NumberLayout) : Binary64 → String
  | .nan => "nan"
  | .infinite negative => if negative then "-inf" else "inf"
  | .finite negative significand exponent =>
    let sign := if negative then "-" else ""
    if significand = 0 then sign ++ "0.0"
    else
      let d := shortest significand exponent
      let digits := (toString d.digits).toList
      let leading := d.scale + digits.length - 1
      let body :=
        if layout.least ≤ leading ∧ leading < layout.limit then positional digits leading
        else scientific layout.exponentWidth digits leading
      sign ++ String.ofList body

/-- The text of a number in the standard layout. -/
def Binary64.text (x : Binary64) : String := x.render .standard

end CarCare.Number

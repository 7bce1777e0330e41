/-!
Digits as text: reading a run of decimal or hexadecimal digits, and writing a number to a fixed
width. Only the ASCII digits count.
-/
namespace CarCare.Text

/-- The most decimal digits that an integer may have where it is read from a text or written out. -/
def digitLimit : Nat := 4300

/-- The value of a hexadecimal digit in either case. -/
def hexValue? (c : Char) : Option Nat :=
  if '0' ≤ c ∧ c ≤ '9' then some (c.toNat - '0'.toNat)
  else if 'a' ≤ c ∧ c ≤ 'f' then some (c.toNat - 'a'.toNat + 10)
  else if 'A' ≤ c ∧ c ≤ 'F' then some (c.toNat - 'A'.toNat + 10)
  else none

/-- Reads digits of a base on the right of a number; none if one of them is no digit. -/
def appendDigits? (base : Nat) : Nat → List Char → Option Nat
  | n, [] => some n
  | n, c :: rest =>
    match hexValue? c with
    | some d => if d < base then appendDigits? base (n * base + d) rest else none
    | none => none

/-- The number that a nonempty run of digits writes in a base. -/
def ofDigits? (base : Nat) : List Char → Option Nat
  | [] => none
  | digits => appendDigits? base 0 digits

def hexDigit (n : Nat) : Char :=
  if n < 10 then Char.ofNat ('0'.toNat + n) else Char.ofNat ('a'.toNat + (n - 10))

/-- The lowest `width` digits of a number, most significant first. -/
def fixedDigits (base : Nat) : (width : Nat) → Nat → List Char
  | 0, _ => []
  | width + 1, n => fixedDigits base width (n / base) ++ [hexDigit (n % base)]

/-- A number in decimal, filled with zeros up to `width` digits. -/
def padded (width n : Nat) : String :=
  let text := toString n
  String.ofList (List.replicate (width - text.length) '0') ++ text

theorem length_fixedDigits (base width n : Nat) : (fixedDigits base width n).length = width := by
  induction width generalizing n with
  | zero => rfl
  | succ width ih => simp [fixedDigits, ih]

end CarCare.Text

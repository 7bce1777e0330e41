import CarCare.Text.Blank
import CarCare.Text.DecimalDigit

/-!
Whole numbers as people write them: digits with single underscores between them, a sign in front,
and blanks around. Decimal digits may be those of any script.
-/
namespace CarCare.Text

/-- Takes single underscores between digits out of a run of digits. -/
def withoutUnderscores? : List Char → Option (List Char)
  | [] => some []
  | '_' :: '_' :: _ => none
  | ['_'] => none
  | '_' :: rest => withoutUnderscores? rest
  | d :: rest => (withoutUnderscores? rest).map (d :: ·)

/-- The digits of a run that starts with one. -/
def digitsOf? (run : List Char) : Option (List Char) :=
  if run.isEmpty || run.head? == some '_' then none else withoutUnderscores? run

/-- A text without the blanks around it, its decimal digits as ASCII digits. -/
def bareNumber (s : List Char) : List Char := (trimBy isBlank s).map plainDigit

/-- Splits off a sign: whether the number is negative, and the rest. -/
def splitSign : List Char → Bool × List Char
  | '-' :: rest => (true, rest)
  | '+' :: rest => (false, rest)
  | rest => (false, rest)

def signed (negative : Bool) (n : Nat) : Int := if negative then -n else n

end CarCare.Text

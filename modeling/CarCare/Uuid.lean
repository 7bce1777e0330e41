import CarCare.Text.Integer

/-!
Identifiers of 128 bits. They are written in one form, lower case and hyphenated, which orders
them as numbers do, and are read in that form, in the four forms that payloads may use, and in the
loose form of the command line.
-/
namespace CarCare

structure Uuid where
  bits : BitVec 128
deriving DecidableEq, Repr

namespace Uuid

def groupLengths : List Nat := [8, 4, 4, 4, 12]

/-- Parts digits into groups of the given lengths. -/
def hyphenated : List Nat → List Char → List Char
  | [], _ => []
  | [_], digits => digits
  | n :: lengths, digits => digits.take n ++ '-' :: hyphenated lengths (digits.drop n)

def text (u : Uuid) : String :=
  String.ofList (hyphenated groupLengths (Text.fixedDigits 16 32 u.bits.toNat))

instance : LT Uuid := ⟨fun a b => a.bits.toNat < b.bits.toNat⟩

instance : LE Uuid := ⟨fun a b => a.bits.toNat ≤ b.bits.toNat⟩

instance (a b : Uuid) : Decidable (a < b) :=
  inferInstanceAs (Decidable (a.bits.toNat < b.bits.toNat))

instance (a b : Uuid) : Decidable (a ≤ b) :=
  inferInstanceAs (Decidable (a.bits.toNat ≤ b.bits.toNat))

/-- Reads 32 hexadecimal digits in either case. -/
def ofDigits? (digits : List Char) : Option Uuid :=
  if digits.length = 32 then (Text.ofDigits? 16 digits).map fun n => ⟨BitVec.ofNat 128 n⟩
  else none

/-- Takes the hyphens out of a text that has them exactly between its groups. -/
def joinGroups? : List Nat → List Char → Option (List Char)
  | [], s => if s.isEmpty then some [] else none
  | [n], s => if s.length = n then some s else none
  | n :: lengths, s =>
    match s.drop n with
    | '-' :: rest => (joinGroups? lengths rest).map (s.take n ++ ·)
    | _ => none

/-- Reads the hyphenated form in either case. -/
def ofHyphenated? (s : List Char) : Option Uuid := do
  ofDigits? (← joinGroups? groupLengths s)

/-- Reads one of the four forms of payloads: hyphenated, digits alone, hyphenated in braces, or
hyphenated as a resource name. -/
def ofPayload? (s : List Char) : Option Uuid :=
  match s with
  | 'u' :: 'r' :: 'n' :: ':' :: 'u' :: 'u' :: 'i' :: 'd' :: ':' :: rest => ofHyphenated? rest
  | '\x7b' :: rest =>
    if rest.getLast? = some '\x7d' then ofHyphenated? rest.dropLast else none
  | s => if s.length = 32 then ofDigits? s else ofHyphenated? s

/-- Leaves out every occurrence of a word, from left to right; the first argument counts the
characters of an occurrence that are still to be left out. -/
def without (word : List Char) : Nat → List Char → List Char
  | _, [] => []
  | skip + 1, _ :: rest => without word skip rest
  | 0, c :: rest =>
    if word.isPrefixOf (c :: rest) then without word (word.length - 1) rest
    else c :: without word 0 rest

/-- Takes off the mark of a hexadecimal number, which an underscore may follow. -/
def withoutHexMark : List Char → List Char
  | '0' :: m :: '_' :: rest => if m == 'x' || m == 'X' then rest else '0' :: m :: '_' :: rest
  | '0' :: m :: rest => if m == 'x' || m == 'X' then rest else '0' :: m :: rest
  | s => s

/-- Reads a hexadecimal number of 32 characters, signs and marks included. -/
def ofNumber? (s : List Char) : Option Uuid := do
  if s.length ≠ 32 then none
  let digits ← Text.digitsOf? (withoutHexMark (Text.splitSign (Text.bareNumber s)).2)
  (Text.ofDigits? 16 digits).map fun n => ⟨BitVec.ofNat 128 n⟩

/-- Reads the loose form: the two words of the resource name, braces at the ends and all hyphens
are dropped, and a hexadecimal number of 32 characters has to remain. -/
def ofLoose? (s : List Char) : Option Uuid :=
  -- Taking out the first word may bring about the second one.
  let bare := without "uuid:".toList 0 (without "urn:".toList 0 s)
  ofNumber? ((Text.trimBy (fun c => c == '\x7b' || c == '\x7d') bare).filter (· != '-'))

end Uuid

end CarCare

import CarCare.Json.Reader
import CarCare.Json.Writer
import CarCare.Proofs.WrittenIds
import Mathlib.Data.List.TakeWhile

/-!
The parts of a JSON text that have no parts of their own, written and read back.

A string is written in ASCII and read as sixteen bit units, so that both sides are compared at the
units of its characters: one for most, and the two halves of a surrogate pair for the others.

What is proved:
  1. `Json.stringUnits?_escapedChar` and `Json.joinUnits?_units`: each character is read as its
     units, and these are joined to the character that they are of.
  2. `Json.string?_string`: hence a string of any characters is read back.
  3. `Text.ofDigits?_toDigits` and `Json.word?_int`: so is an integer of any size.
  4. `Json.value?_word`: a number or a word is read up to the first character that cannot go on
     with it.
-/
namespace CarCare

/-! ## Strings -/

namespace Json
variable {c e : Char} {n : Nat} {rest : List Char}

def units (c : Char) : List Nat :=
  if c.toNat < 0x10000 then [c.toNat]
  else [0xD800 + (c.toNat - 0x10000) / 0x400, 0xDC00 + (c.toNat - 0x10000) % 0x400]

/-- Characters are no halves of surrogate pairs. -/
theorem toNat_valid (c : Char) : c.toNat < 0xD800 ∨ 0xDFFF < c.toNat ∧ c.toNat < 0x110000 :=
  c.valid

/-- Units in front of those that are read. -/
def prepend (front : List Nat) (read : List Nat × List Char) : List Nat × List Char :=
  (front ++ read.1, read.2)

theorem stringUnits?_unitEscape (fits : n < 0x10000) :
    stringUnits? (unitEscape n ++ rest) = (stringUnits? rest).map (prepend [n]) := by
  have hread : Text.ofDigits? 16 (Text.fixedDigits 16 4 n) = some n :=
    Text.ofDigits?_fixedDigits fits
  have hlength := Text.length_fixedDigits 16 4 n
  rw [unitEscape]
  generalize Text.fixedDigits 16 4 n = digits at hread hlength
  obtain ⟨x, y, z, w, rfl⟩ : ∃ x y z w, digits = [x, y, z, w] := List.length_eq_four.mp hlength
  rw [List.cons_append, List.cons_append, List.cons_append, List.cons_append, List.cons_append,
    List.cons_append, List.nil_append, stringUnits?, hread]
  cases stringUnits? rest <;> rfl

theorem stringUnits?_shortEscape (short : shortEscape? e = some c) :
    stringUnits? ('\\' :: e :: rest) = (stringUnits? rest).map (prepend [c.toNat]) := by
  have hunit : e ≠ 'u' := by
    rintro rfl
    cases short
  rw [stringUnits?, short]
  · cases stringUnits? rest <;> rfl
  · intro _ _ _ _ _ hcontra
    exact absurd hcontra hunit

theorem stringUnits?_plain (quote : c ≠ '"') (backslash : c ≠ '\\') :
    stringUnits? (c :: rest) = (stringUnits? rest).map (prepend [c.toNat]) := by
  rw [stringUnits?]
  · cases stringUnits? rest <;> rfl
  · exact quote
  · intro _ _ _ _ _ hcontra
    exact absurd hcontra backslash
  · intro _ _ hcontra
    exact absurd hcontra backslash

theorem stringUnits?_escapedChar (c : Char) (rest : List Char) :
    stringUnits? (escapedChar c ++ rest) = (stringUnits? rest).map (prepend (units c)) := by
  have hone : c.toNat < 0x10000 → units c = [c.toNat] := fun h => if_pos h
  have hshort : ∀ e, shortEscape? e = some c → c.toNat < 0x10000 →
      stringUnits? ('\\' :: e :: rest) = (stringUnits? rest).map (prepend (units c)) := by
    intro e short small
    rw [hone small]
    exact stringUnits?_shortEscape short
  -- The reader meets the forms that the writer chooses from, in the order of its choice.
  unfold escapedChar
  dsimp only
  split
  · rename_i hself
    rcases hself with rfl | rfl <;> exact hshort _ rfl (by decide)
  split
  · subst c
    exact hshort 'n' rfl (by decide)
  split
  · subst c
    exact hshort 'r' rfl (by decide)
  split
  · subst c
    exact hshort 't' rfl (by decide)
  split
  · rename_i hback
    obtain rfl : c = '\x08' := Char.toNat_inj.mp hback
    exact hshort 'b' rfl (by decide)
  split
  · rename_i hfeed
    obtain rfl : c = '\x0c' := Char.toNat_inj.mp hfeed
    exact hshort 'f' rfl (by decide)
  rename_i hself _ _ _ _ _
  obtain ⟨hquote, hbackslash⟩ := not_or.mp hself
  split
  · rename_i hprinted
    rw [hone (by omega)]
    exact stringUnits?_plain hquote hbackslash
  split
  · rename_i hsmall
    rw [hone hsmall]
    exact stringUnits?_unitEscape hsmall
  · rename_i hlarge
    have hvalid := toNat_valid c
    have hfirst : 0xD800 + (c.toNat - 0x10000) / 0x400 < 0x10000 := by omega
    have hsecond : 0xDC00 + (c.toNat - 0x10000) % 0x400 < 0x10000 := by omega
    rw [units, if_neg hlarge, List.append_assoc, stringUnits?_unitEscape hfirst,
      stringUnits?_unitEscape hsecond, Option.map_map]
    rfl

theorem joinUnits?_units (c : Char) (rest : List Nat) :
    joinUnits? (units c ++ rest) = (joinUnits? rest).map (c :: ·) := by
  have hvalid := toNat_valid c
  unfold units
  split
  · have hfirst : ¬ (0xD800 ≤ c.toNat ∧ c.toNat < 0xDC00) := by omega
    have hsecond : ¬ (0xDC00 ≤ c.toNat ∧ c.toNat < 0xE000) := by omega
    have hhalf : ¬ (0xD800 ≤ c.toNat ∧ c.toNat < 0xE000) := by omega
    cases rest with
    | nil =>
      show joinUnits? [c.toNat] = some [c]
      rw [joinUnits?, if_neg hhalf, Char.ofNat_toNat]
    | cons next rest =>
      show joinUnits? (c.toNat :: next :: rest) = _
      rw [joinUnits?, if_neg hfirst, if_neg hsecond, Char.ofNat_toNat]
  · rename_i hlarge
    generalize hoffset : c.toNat - 0x10000 = offset
    have hfirst : 0xD800 ≤ 0xD800 + offset / 0x400 ∧ 0xD800 + offset / 0x400 < 0xDC00 := by omega
    have hsecond : 0xDC00 ≤ 0xDC00 + offset % 0x400 ∧ 0xDC00 + offset % 0x400 < 0xE000 := by omega
    have hjoined : 0x10000 + (0xD800 + offset / 0x400 - 0xD800) * 0x400
        + (0xDC00 + offset % 0x400 - 0xDC00) = c.toNat := by omega
    show joinUnits? (_ :: _ :: rest) = _
    rw [joinUnits?, if_pos hfirst, if_pos hsecond, hjoined, Char.ofNat_toNat]

theorem stringUnits?_string (s : List Char) (rest : List Char) :
    stringUnits? (s.flatMap escapedChar ++ '"' :: rest) = some (s.flatMap units, rest) := by
  induction s with
  | nil => rfl
  | cons c s ih =>
    rw [List.flatMap_cons, List.append_assoc, stringUnits?_escapedChar, ih]
    rfl

theorem joinUnits?_flatMap (s : List Char) : joinUnits? (s.flatMap units) = some s := by
  induction s with
  | nil => rfl
  | cons c s ih =>
    rw [List.flatMap_cons, joinUnits?_units, ih]
    rfl

theorem string?_string (s : List Char) (rest : List Char) :
    string? (s.flatMap escapedChar ++ '"' :: rest) = some (String.ofList s, rest) := by
  rw [string?, stringUnits?_string]
  show (joinUnits? (s.flatMap units) >>= fun chars => some (String.ofList chars, rest)) = _
  rw [joinUnits?_flatMap]
  rfl

end Json

/-! ## Integers -/

namespace Text

theorem hexValue?_digitChar : ∀ d < 10, hexValue? (Nat.digitChar d) = some d := by decide

theorem appendDigits?_toDigits (n : Nat) : appendDigits? 10 0 (Nat.toDigits 10 n) = some n := by
  -- The last digit is written behind those of the tenth part.
  induction n using Nat.strongRecOn with
  | ind n ih =>
    have hlast : n % 10 < 10 := by omega
    rw [Nat.toDigits_eq_if (by decide)]
    split
    · rename_i hdigit
      simp [appendDigits?, hexValue?_digitChar n hdigit, hdigit]
    · rw [appendDigits?_append, ih (n / 10) (by omega)]
      simp only [Option.bind_some, appendDigits?, hexValue?_digitChar _ hlast, if_pos hlast,
        Option.some.injEq]
      exact Nat.div_add_mod' n 10

theorem ofDigits?_toDigits (n : Nat) : ofDigits? 10 (Nat.toDigits 10 n) = some n := by
  unfold ofDigits?
  split
  · rename_i hnone
    exact absurd hnone Nat.toDigits_ne_nil
  · exact appendDigits?_toDigits n

theorem isDigit_of_mem_digits (n : Nat) : ∀ c ∈ Nat.toDigits 10 n, c.isDigit :=
  fun _ => Nat.isDigit_of_mem_toDigits (by decide) (by decide)

end Text

namespace Json
variable {w rest : List Char}

theorem digits_split (n : Nat) : (Nat.toDigits 10 n).takeWhile Char.isDigit = Nat.toDigits 10 n
    ∧ (Nat.toDigits 10 n).dropWhile Char.isDigit = [] :=
  ⟨List.takeWhile_eq_self_iff.mpr (Text.isDigit_of_mem_digits n),
    List.dropWhile_eq_nil_iff.mpr (Text.isDigit_of_mem_digits n)⟩

theorem toList_natCast (m : Nat) : (toString (m : Int)).toList = Nat.toDigits 10 m :=
  Nat.toList_repr

theorem toList_negSucc (m : Nat) :
    (toString (Int.negSucc m)).toList = '-' :: Nat.toDigits 10 (m + 1) := by
  show ("-" ++ (m + 1).repr).toList = _
  rw [String.toList_append, Nat.toList_repr]
  rfl

theorem isDigit_of_mem_int {n : Int} : ∀ c ∈ (toString n).toList, c = '-' ∨ c.isDigit := by
  intro c hc
  cases n with
  | ofNat m => exact .inr (Text.isDigit_of_mem_digits m c (toList_natCast m ▸ hc))
  | negSucc m =>
    rw [toList_negSucc] at hc
    exact (List.mem_cons.mp hc).imp_right (Text.isDigit_of_mem_digits (m + 1) c)

theorem number?_int (n : Int) : number? (toString n).toList = some (.int n) := by
  cases n with
  | ofNat m =>
    obtain ⟨htake, hdrop⟩ := digits_split m
    have hread := Text.ofDigits?_toDigits m
    show number? (toString (m : Int)).toList = _
    have hsign : ∀ rest, Nat.toDigits 10 m ≠ '-' :: rest := by
      intro rest heq
      cases Text.isDigit_of_mem_digits m '-' (heq ▸ List.mem_cons_self)
    rw [toList_natCast]
    generalize Nat.toDigits 10 m = digits at htake hdrop hread hsign
    rw [number?]
    · simp only [htake, hdrop, hread]
      rfl
    · exact hsign
  | negSucc m =>
    obtain ⟨htake, hdrop⟩ := digits_split (m + 1)
    have hread := Text.ofDigits?_toDigits (m + 1)
    rw [toList_negSucc]
    simp only [number?, htake, hdrop, hread]
    rfl

theorem int_ne_nil (n : Int) : (toString n).toList ≠ [] := by
  cases n with
  | ofNat m => exact toList_natCast m ▸ Nat.toDigits_ne_nil
  | negSucc m => exact toList_negSucc m ▸ List.cons_ne_nil _ _

theorem isWordChar_of_mem_int {n : Int} : ∀ c ∈ (toString n).toList, isWordChar c := by
  intro c hc
  rcases isDigit_of_mem_int c hc with rfl | hdigit
  · decide
  · simp [isWordChar, Char.isAlphanum, hdigit]

theorem word?_int (n : Int) : word? (toString n).toList = some (.int n) := by
  have hother : ∀ c ∈ (toString n).toList, c ≠ 'n' ∧ c ≠ 't' ∧ c ≠ 'f' := by
    intro c hc
    rcases isDigit_of_mem_int c hc with rfl | hdigit
    · decide
    · refine ⟨?_, ?_, ?_⟩ <;> rintro rfl <;> cases hdigit
  have hnull : (toString n).toList ≠ "null".toList := fun h =>
    (hother 'n' (h ▸ by decide)).1 rfl
  have htrue : (toString n).toList ≠ "true".toList := fun h =>
    (hother 't' (h ▸ by decide)).2.1 rfl
  have hfalse : (toString n).toList ≠ "false".toList := fun h =>
    (hother 'f' (h ▸ by decide)).2.2 rfl
  rw [word?, if_neg hnull, if_neg htrue, if_neg hfalse, number?_int]

/-! ## Words -/

/-- Whether a character is white space between the parts of a text. -/
def isBlank (c : Char) : Bool := c == ' ' || c == '\n' || c == '\r' || c == '\t'

theorem skipBlank_append {blanks : List Char} (blank : ∀ c ∈ blanks, isBlank c) :
    skipBlank (blanks ++ rest) = skipBlank rest :=
  List.dropWhile_append_of_pos blank

theorem skipBlank_cons {c : Char} (visible : isBlank c = false) :
    skipBlank (c :: rest) = c :: rest :=
  List.dropWhile_cons_of_neg (Bool.eq_false_iff.mp visible)

theorem isWordChar_of_isBlank {c : Char} (blank : isBlank c) : isWordChar c = false := by
  simp only [isBlank, Bool.or_eq_true, beq_iff_eq] at blank
  rcases blank with ((rfl | rfl) | rfl) | rfl <;> decide

theorem isBlank_of_isWordChar {c : Char} (word : isWordChar c) : isBlank c = false := by
  by_contra hblank
  rw [isWordChar_of_isBlank (eq_true_of_ne_false hblank)] at word
  cases word

/-- What can stand behind a number or a word: a character that cannot go on with it, or nothing. -/
def Ends (rest : List Char) : Prop := ∀ c ∈ rest.head?, isWordChar c = false

theorem takeWhile_word (word : ∀ c ∈ w, isWordChar c) (ends : Ends rest) :
    (w ++ rest).takeWhile isWordChar = w ∧ (w ++ rest).dropWhile isWordChar = rest := by
  rw [List.takeWhile_append_of_pos word, List.dropWhile_append_of_pos word]
  cases rest with
  | nil => exact ⟨List.append_nil w, rfl⟩
  | cons c rest =>
    have hend : isWordChar c = false := ends c rfl
    rw [List.takeWhile_cons, List.dropWhile_cons, hend]
    exact ⟨List.append_nil w, rfl⟩

theorem value?_word {fuel : Nat} {s : Scalar} (read : word? w = some s)
    (word : ∀ c ∈ w, isWordChar c) (nonempty : w ≠ []) (ends : Ends rest) :
    value? (fuel + 1) (w ++ rest) = some (.scalar s, rest) := by
  obtain ⟨htake, hdrop⟩ := takeWhile_word word ends
  obtain ⟨c, tail, rfl⟩ := List.exists_cons_of_ne_nil nonempty
  have hc : isWordChar c = true := word c List.mem_cons_self
  rw [value?, List.cons_append, skipBlank_cons (isBlank_of_isWordChar hc)]
  -- None of the characters that open a string, a list or an object is part of a word.
  split
  case h_1 heq | h_2 heq | h_3 heq =>
    obtain ⟨rfl, -⟩ := List.cons.inj heq
    cases hc
  case h_4 =>
    rw [← List.cons_append, htake, hdrop, read]
    rfl

end Json

end CarCare

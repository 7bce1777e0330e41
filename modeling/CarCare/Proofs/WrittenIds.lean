import CarCare.Uuid
import Mathlib.Algebra.GroupWithZero.Nat
import Mathlib.Data.List.Nodup

/-!
Written identifiers: texts of one shape, so that comparing them character by character compares the
numbers that they write, and each is read back as the id that it was written of.

What is proved:
  1. `append_lt_append_iff`: lists that begin with parts of one length compare by these parts first.
  2. `Text.fixedDigits_lt`: of two numbers that fit a width, the smaller one has the smaller digits.
  3. `Uuid.text_le_text`: hyphens stand at the same places in all ids, so ids stand in the order of
     their texts.
  4. `Text.ofDigits?_fixedDigits` and `Uuid.joinGroups?_hyphenated`: digits are read back as their
     number, and groups are joined to the digits that they were parted from.
  5. `Uuid.ofPayload?_text`: hence payloads may give an id in its written form.
-/
namespace CarCare

theorem append_lt_append_iff {α : Type} [LT α] [Std.Irrefl (α := α) (· < ·)] {a a' b b' : List α}
    (length : a.length = a'.length) : a ++ b < a' ++ b' ↔ a < a' ∨ (a = a' ∧ b < b') := by
  induction a generalizing a' with
  | nil =>
    obtain rfl := List.length_eq_zero_iff.mp length.symm
    simp
  | cons x rest ih =>
    cases a' with
    | nil => cases length
    | cons x' rest' =>
      have ih := ih (Nat.succ.inj length)
      simp only [List.cons_append, List.cons_lt_cons_iff, ih, List.cons.injEq]
      grind

namespace Text

theorem hexDigit_lt : ∀ {d e : Nat}, d < e → e < 16 → hexDigit d < hexDigit e := by
  have h : ∀ e < 16, ∀ d < e, hexDigit d < hexDigit e := by decide
  intro d e hlt hbound
  exact h e hbound d hlt

theorem fixedDigits_lt {width n m : Nat} (lt : n < m) (fits : m < 16 ^ width) :
    fixedDigits 16 width n < fixedDigits 16 width m := by
  induction width generalizing n m with
  | zero =>
    rw [Nat.pow_zero] at fits
    omega
  | succ width ih =>
    rw [Nat.pow_succ] at fits
    have hlength : (fixedDigits 16 width (n / 16)).length
        = (fixedDigits 16 width (m / 16)).length := by
      rw [length_fixedDigits, length_fixedDigits]
    rw [fixedDigits, fixedDigits, append_lt_append_iff hlength]
    -- Either the digits in front decide, or they are the same and the last one does.
    by_cases hfront : n / 16 = m / 16
    · right
      have hlast : hexDigit (n % 16) < hexDigit (m % 16) := hexDigit_lt (by omega) (by omega)
      exact ⟨by rw [hfront], List.cons_lt_cons_iff.mpr (.inl hlast)⟩
    · left
      exact ih (by omega) (by omega)

/-! ## Reading digits back -/

theorem hexValue?_hexDigit : ∀ d < 16, hexValue? (hexDigit d) = some d := by decide

theorem appendDigits?_append (base n : Nat) (front back : List Char) :
    appendDigits? base n (front ++ back)
      = (appendDigits? base n front).bind fun m => appendDigits? base m back := by
  induction front generalizing n with
  | nil => rfl
  | cons c rest ih =>
    simp only [List.cons_append, appendDigits?]
    cases hexValue? c with
    | none => rfl
    | some d =>
      dsimp only
      split
      · exact ih (n * base + d)
      · rfl

theorem appendDigits?_fixedDigits {width n : Nat} (fits : n < 16 ^ width) (m : Nat) :
    appendDigits? 16 m (fixedDigits 16 width n) = some (m * 16 ^ width + n) := by
  induction width generalizing n with
  | zero =>
    have hzero : n = 0 := by
      rw [Nat.pow_zero] at fits
      omega
    simp [fixedDigits, appendDigits?, hzero]
  | succ width ih =>
    rw [Nat.pow_succ] at fits
    have hfront := ih (n := n / 16) (by omega)
    have hlast : n % 16 < 16 := by omega
    rw [fixedDigits, appendDigits?_append, hfront]
    simp only [Option.bind_some, appendDigits?, hexValue?_hexDigit _ hlast, if_pos hlast,
      Option.some.injEq]
    rw [Nat.pow_succ]
    calc (m * 16 ^ width + n / 16) * 16 + n % 16
        = m * (16 ^ width * 16) + (n / 16 * 16 + n % 16) := by
          rw [Nat.add_mul, Nat.mul_assoc, Nat.add_assoc]
      _ = m * (16 ^ width * 16) + n := by rw [Nat.div_add_mod' n 16]

theorem ofDigits?_fixedDigits {width n : Nat} (fits : n < 16 ^ (width + 1)) :
    ofDigits? 16 (fixedDigits 16 (width + 1) n) = some n := by
  have hread := appendDigits?_fixedDigits fits 0
  rw [Nat.zero_mul, Nat.zero_add] at hread
  unfold ofDigits?
  split
  · rename_i hnone
    have hlength := length_fixedDigits 16 (width + 1) n
    rw [hnone] at hlength
    cases hlength
  · exact hread

theorem mem_fixedDigits {width n : Nat} {c : Char} (h : c ∈ fixedDigits 16 width n) :
    ∃ d < 16, c = hexDigit d := by
  induction width generalizing n with
  | zero => cases h
  | succ width ih =>
    rcases List.mem_append.mp h with hfront | hlast
    · exact ih hfront
    · exact ⟨n % 16, by omega, List.mem_singleton.mp hlast⟩

end Text

namespace Uuid

/-- Hyphens between groups of the same lengths leave the order of digits alone. -/
theorem hyphenated_lt {lengths : List Nat} (groups : lengths ≠ []) {a b : List Char} (lt : a < b)
    (length : a.length = b.length) : hyphenated lengths a < hyphenated lengths b := by
  -- The first group decides, or both are the same there and the groups behind it do.
  induction lengths generalizing a b with
  | nil => exact absurd rfl groups
  | cons n rest ih =>
    cases rest with
    | nil => exact lt
    | cons next rest =>
      have hfront : (a.take n).length = (b.take n).length := by
        rw [List.length_take, List.length_take, length]
      have hback : (a.drop n).length = (b.drop n).length := by
        rw [List.length_drop, List.length_drop, length]
      rw [← List.take_append_drop n a, ← List.take_append_drop n b,
        append_lt_append_iff hfront] at lt
      show a.take n ++ '-' :: hyphenated (next :: rest) (a.drop n)
        < b.take n ++ '-' :: hyphenated (next :: rest) (b.drop n)
      rw [append_lt_append_iff hfront]
      rcases lt with hlt | ⟨heq, hlt⟩
      · exact .inl hlt
      · have hrest := ih nofun hlt hback
        exact .inr ⟨heq, List.cons_lt_cons_iff.mpr (.inr ⟨rfl, hrest⟩)⟩

theorem text_lt_text {a b : Uuid} (lt : a < b) : a.text < b.text := by
  have hdigits : Text.fixedDigits 16 32 a.bits.toNat < Text.fixedDigits 16 32 b.bits.toNat :=
    Text.fixedDigits_lt lt b.bits.isLt
  have hlength : (Text.fixedDigits 16 32 a.bits.toNat).length
      = (Text.fixedDigits 16 32 b.bits.toNat).length := by
    rw [Text.length_fixedDigits, Text.length_fixedDigits]
  rw [text, text, String.lt_iff, String.toList_ofList, String.toList_ofList]
  exact hyphenated_lt (by decide) hdigits hlength

theorem text_le_text {a b : Uuid} : a.text ≤ b.text ↔ a ≤ b := by
  constructor
  · intro hle
    by_contra hlt
    exact absurd (text_lt_text (Nat.lt_of_not_le hlt)) (String.not_lt.mpr hle)
  · intro hle
    rcases Nat.lt_or_eq_of_le hle with hlt | heq
    · exact String.not_lt.mp (String.lt_asymm (text_lt_text hlt))
    · obtain rfl : a = b := congrArg Uuid.mk (BitVec.eq_of_toNat_eq heq)
      exact String.le_refl _

/-! ## Reading ids back -/

theorem joinGroups?_cons {n next : Nat} {lengths : List Nat} {s rest : List Char}
    (hyphen : s.drop n = '-' :: rest) : joinGroups? (n :: next :: lengths) s =
      (joinGroups? (next :: lengths) rest).map (s.take n ++ ·) := by
  simp only [joinGroups?, hyphen]

theorem joinGroups?_hyphenated {lengths : List Nat} {digits : List Char}
    (length : digits.length = lengths.sum) :
    joinGroups? lengths (hyphenated lengths digits) = some digits := by
  induction lengths generalizing digits with
  | nil =>
    obtain rfl := List.eq_nil_of_length_eq_zero length
    rfl
  | cons n rest ih =>
    cases rest with
    | nil => exact if_pos (by simpa [hyphenated] using length)
    | cons next rest =>
      rw [List.sum_cons] at length
      have hfront : (digits.take n).length = n := by
        rw [List.length_take]
        omega
      have hback : (digits.drop n).length = (next :: rest).sum := by
        rw [List.length_drop]
        omega
      show joinGroups? (n :: next :: rest)
        (digits.take n ++ '-' :: hyphenated (next :: rest) (digits.drop n)) = some digits
      rw [joinGroups?_cons (List.drop_left' hfront), List.take_left' hfront, ih hback,
        Option.map_some, List.take_append_drop]

theorem ofHyphenated?_text (u : Uuid) : ofHyphenated? u.text.toList = some u := by
  have hlength := Text.length_fixedDigits 16 32 u.bits.toNat
  have hfits : u.bits.toNat < 16 ^ (31 + 1) := u.bits.isLt
  have hread := Text.ofDigits?_fixedDigits hfits
  rw [text, String.toList_ofList, ofHyphenated?]
  generalize Text.fixedDigits 16 32 u.bits.toNat = digits at hlength hread
  rw [joinGroups?_hyphenated hlength]
  simp only [Option.bind_eq_bind, Option.bind_some, ofDigits?, if_pos hlength, hread,
    Option.map_some, BitVec.ofNat_toNat, BitVec.setWidth_eq]

theorem head?_text (u : Uuid) : ∃ d < 16, u.text.toList.head? = some (Text.hexDigit d) := by
  have hlength := Text.length_fixedDigits 16 32 u.bits.toNat
  rw [text, String.toList_ofList]
  cases hdigits : Text.fixedDigits 16 32 u.bits.toNat with
  | nil =>
    rw [hdigits] at hlength
    cases hlength
  | cons c rest =>
    obtain ⟨d, hd, rfl⟩ := Text.mem_fixedDigits (hdigits ▸ List.mem_cons_self)
    exact ⟨d, hd, rfl⟩

theorem length_text (u : Uuid) : u.text.toList.length = 36 := by
  have hlength := Text.length_fixedDigits 16 32 u.bits.toNat
  rw [text, String.toList_ofList]
  generalize Text.fixedDigits 16 32 u.bits.toNat = digits at hlength
  simp [groupLengths, hyphenated, hlength]

/-- An id is read back from its text: it does not begin like a resource name or with a brace, and its
hyphens tell it from digits alone. -/
theorem ofPayload?_text (u : Uuid) : ofPayload? u.text.toList = some u := by
  obtain ⟨d, hd, hhead⟩ := u.head?_text
  have hlength := u.length_text
  have hread := u.ofHyphenated?_text
  have hother : ∀ d < 16, Text.hexDigit d ≠ 'u' ∧ Text.hexDigit d ≠ '\x7b' := by decide
  obtain ⟨hname, hbrace⟩ := hother d hd
  generalize u.text.toList = s at hhead hlength hread
  unfold ofPayload?
  split
  · exact absurd (Option.some.inj hhead).symm hname
  · exact absurd (Option.some.inj hhead).symm hbrace
  · rw [if_neg (by omega), hread]

end Uuid

end CarCare

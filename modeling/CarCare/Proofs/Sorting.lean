import Mathlib.Data.List.Nodup

/-!
Stable sorting: an element goes before everything that it may stand before, so that sorting and
leaving elements out can be exchanged.
-/
namespace CarCare

section
variable {α : Type} {le : α → α → Bool} (le_trans : ∀ a b c, le a b → le b c → le a c)
  (le_total : ∀ a b, le a b || le b a)
include le_trans le_total

/-- Where an element goes in a sorted list: behind those that it may not stand before. -/
theorem mergeSort_split (a : α) (l : List α) :
    let behind := (l.mergeSort le).filter (!le a ·)
    let before := (l.mergeSort le).filter (le a ·)
    l.mergeSort le = behind ++ before ∧ (a :: l).mergeSort le = behind ++ a :: before := by
  intro behind before
  obtain ⟨smaller, larger, hcons, hrest, hsmaller⟩ := List.mergeSort_cons le_trans le_total a l
  have hlarger : ∀ b ∈ larger, le a b := by
    have hsorted := List.pairwise_mergeSort le_trans le_total (a :: l)
    rw [hcons] at hsorted
    exact (List.pairwise_cons.mp (List.pairwise_append.mp hsorted).2.1).1
  have hbehind : behind = smaller := by
    have hnone : larger.filter (!le a ·) = [] :=
      List.filter_eq_nil_iff.mpr fun b hb => by simp [hlarger b hb]
    show (l.mergeSort le).filter (!le a ·) = smaller
    rw [hrest, List.filter_append, List.filter_eq_self.mpr hsmaller, hnone, List.append_nil]
  have hbefore : before = larger := by
    have hnone : smaller.filter (le a ·) = [] :=
      List.filter_eq_nil_iff.mpr fun b hb => by simpa using hsmaller b hb
    show (l.mergeSort le).filter (le a ·) = larger
    rw [hrest, List.filter_append, List.filter_eq_self.mpr hlarger, hnone, List.nil_append]
  rw [hbehind, hbefore]
  exact ⟨hrest, hcons⟩

theorem mergeSort_filter (p : α → Bool) (l : List α) :
    (l.mergeSort le).filter p = (l.filter p).mergeSort le := by
  induction l with
  | nil => simp
  | cons a rest ih =>
    obtain ⟨hrest, hcons⟩ := mergeSort_split le_trans le_total a rest
    by_cases ha : p a
    · obtain ⟨_, hsplit⟩ := mergeSort_split le_trans le_total a (rest.filter p)
      rw [List.filter_cons_of_pos ha, hsplit, ← ih, hcons, List.filter_append,
        List.filter_cons_of_pos ha]
      simp only [List.filter_filter, Bool.and_comm]
    · calc ((a :: rest).mergeSort le).filter p
        _ = (rest.mergeSort le).filter p := by
          rw [hcons, List.filter_append, List.filter_cons_of_neg ha, ← List.filter_append, ← hrest]
        _ = ((a :: rest).filter p).mergeSort le := by rw [ih, List.filter_cons_of_neg ha]

end

end CarCare

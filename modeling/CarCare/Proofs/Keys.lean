import Mathlib.Data.List.Nodup

/-!
Lists whose elements are told apart by a key, as the rows of a table are.
-/
namespace CarCare

section
variable {α κ : Type} {key : α → κ}

theorem find?_key_eq_some [BEq κ] [LawfulBEq κ] {l : List α} (keys : (l.map key).Nodup) {k : κ}
    {a : α} : l.find? (key · == k) = some a ↔ a ∈ l ∧ key a = k := by
  refine ⟨fun h => ⟨List.mem_of_find?_eq_some h, by simpa using List.find?_some h⟩, ?_⟩
  rintro ⟨ha, rfl⟩
  cases hf : l.find? (key · == key a) with
  | none => exact absurd ha fun ha => by simpa using List.find?_eq_none.mp hf a ha
  | some b =>
    have hkey : key b = key a := by simpa using List.find?_some hf
    rw [List.inj_on_of_nodup_map keys (List.mem_of_find?_eq_some hf) ha hkey]

theorem lookup_eq_some_iff_mem {β : Type} [BEq κ] [LawfulBEq κ] {l : List (κ × β)}
    (keys : (l.map (·.1)).Nodup) {k : κ} {b : β} : l.lookup k = some b ↔ (k, b) ∈ l := by
  induction l with
  | nil => simp
  | cons head rest ih =>
    obtain ⟨k', b'⟩ := head
    obtain ⟨hhead, hrest⟩ := List.nodup_cons.mp keys
    rw [List.lookup_cons, List.mem_cons]
    by_cases hk : k = k'
    · subst hk
      have hlater : (k, b) ∉ rest := fun h => hhead (List.mem_map.mpr ⟨_, h, rfl⟩)
      simp [hlater, eq_comm]
    · have hne : (k == k') = false := by simpa using hk
      simp [hne, hk, ih hrest]

theorem exists_lookup_iff {β : Type} [BEq κ] [LawfulBEq κ] {l : List (κ × β)} {k : κ} :
    (∃ b, l.lookup k = some b) ↔ k ∈ l.map (·.1) := by
  rw [← Option.isSome_iff_exists, List.lookup_isSome_iff, List.mem_map]
  constructor
  · rintro ⟨entry, hentry, hkey⟩
    exact ⟨entry, hentry, (beq_iff_eq.mp hkey).symm⟩
  · rintro ⟨entry, hentry, rfl⟩
    exact ⟨entry, hentry, beq_self_eq_true entry.1⟩

theorem lookup_of_not_mem {β : Type} [BEq κ] [LawfulBEq κ] {l : List (κ × β)} {k : κ}
    (h : k ∉ l.map (·.1)) : l.lookup k = none := by
  apply Option.eq_none_iff_forall_ne_some.mpr
  intro b hb
  exact h (exists_lookup_iff.mp ⟨b, hb⟩)

theorem lookup_filter_key {β : Type} [BEq κ] [LawfulBEq κ] (p : κ → Bool) (l : List (κ × β))
    (k : κ) : (l.filter fun entry => p entry.1).lookup k = if p k then l.lookup k else none := by
  induction l with
  | nil => simp
  | cons head rest ih =>
    obtain ⟨k', b⟩ := head
    by_cases hk : k = k'
    · subst hk
      by_cases hp : p k <;> simp [hp, ih]
    · have hne : (k == k') = false := by simpa using hk
      by_cases hp : p k' <;> simp [hp, ih, List.lookup_cons, hne]

/-- A map that keeps keys and leaves some elements out leaves the keys of the others in order. -/
theorem map_key_filterMap {β : Type} {key' : β → κ} {f : α → Option β}
    (same : ∀ a b, f a = some b → key' b = key a) (l : List α) :
    ((l.filterMap f).map key').Sublist (l.map key) := by
  induction l with
  | nil => exact .slnil
  | cons a rest ih =>
    cases h : f a with
    | none => simpa [h] using ih.cons _
    | some b =>
      rw [List.filterMap_cons_some h, List.map_cons, List.map_cons, same a b h]
      exact ih.cons_cons _

theorem find?_filterMap_key {β : Type} [BEq κ] [LawfulBEq κ] {key' : β → κ} {f : α → Option β}
    (same : ∀ a b, f a = some b → key' b = key a) {l : List α} (keys : (l.map key).Nodup) (k : κ) :
    (l.filterMap f).find? (key' · == k) = (l.find? (key · == k)).bind f := by
  have hkeys : ((l.filterMap f).map key').Nodup := keys.sublist (map_key_filterMap same l)
  apply Option.ext
  intro b
  rw [find?_key_eq_some hkeys, List.mem_filterMap, Option.bind_eq_some_iff]
  constructor
  · rintro ⟨⟨a, ha, hb⟩, rfl⟩
    exact ⟨a, (find?_key_eq_some keys).mpr ⟨ha, (same a b hb).symm⟩, hb⟩
  · rintro ⟨a, ha, hb⟩
    obtain ⟨hmem, hkey⟩ := (find?_key_eq_some keys).mp ha
    exact ⟨⟨a, hmem, hb⟩, (same a b hb).trans hkey⟩

/-- What is found is the same after elements that do not fit are put in the place of such. -/
theorem find?_map_of_unfit {p : α → Bool} {f : α → α} {l : List α}
    (h : ∀ a ∈ l, f a = a ∨ (p a = false ∧ p (f a) = false)) : (l.map f).find? p = l.find? p := by
  induction l with
  | nil => rfl
  | cons a rest ih =>
    have ih := ih fun b hb => h b (List.mem_cons_of_mem _ hb)
    rw [List.map_cons, List.find?_cons, List.find?_cons, ih]
    rcases h a List.mem_cons_self with hsame | ⟨hold, hnew⟩
    · rw [hsame]
    · rw [hold, hnew]

theorem filter_eq_toList_find? {p : α → Bool} {l : List α} (nodup : l.Nodup)
    (single : ∀ a ∈ l, ∀ b ∈ l, p a → p b → a = b) : l.filter p = (l.find? p).toList := by
  induction l with
  | nil => rfl
  | cons a rest ih =>
    obtain ⟨hnew, hrest⟩ := List.nodup_cons.mp nodup
    by_cases ha : p a
    · have hnone : rest.filter p = [] := by
        apply List.filter_eq_nil_iff.mpr
        intro b hb hpb
        have hab := single a List.mem_cons_self b (List.mem_cons_of_mem a hb) ha hpb
        exact hnew (hab ▸ hb)
      rw [List.filter_cons_of_pos ha, List.find?_cons_of_pos ha, hnone]
      rfl
    · rw [List.filter_cons_of_neg ha, List.find?_cons_of_neg ha]
      exact ih hrest fun b hb c hc =>
        single b (List.mem_cons_of_mem a hb) c (List.mem_cons_of_mem a hc)

/-- Where keys are distinct, a key is one of those that fit if what is found by it fits. -/
theorem contains_map_filter [BEq κ] [LawfulBEq κ] {l : List α} (keys : (l.map key).Nodup)
    (p : α → Bool) (k : κ) :
    ((l.filter p).map key).contains k = (l.find? (key · == k)).any p := by
  rw [Bool.eq_iff_iff, List.contains_iff_mem, List.mem_map]
  constructor
  · rintro ⟨a, ha, rfl⟩
    obtain ⟨hmem, hp⟩ := List.mem_filter.mp ha
    rw [(find?_key_eq_some keys).mpr ⟨hmem, rfl⟩]
    exact hp
  · intro h
    cases hfound : l.find? (key · == k) with
    | none =>
      rw [hfound] at h
      cases h
    | some a =>
      obtain ⟨hmem, hkey⟩ := (find?_key_eq_some keys).mp hfound
      rw [hfound] at h
      exact ⟨a, List.mem_filter.mpr ⟨hmem, h⟩, hkey⟩

theorem nodup_map_append {l : List α} (h : (l.map key).Nodup) {a : α}
    (new : ∀ b ∈ l, key b ≠ key a) : ((l ++ [a]).map key).Nodup := by
  rw [List.map_append]
  refine List.nodup_append.mpr ⟨h, List.nodup_singleton _, ?_⟩
  intro k hk k' hk'
  obtain ⟨b, hb, rfl⟩ := List.mem_map.mp hk
  rw [List.mem_singleton.mp hk']
  exact new b hb

end

end CarCare

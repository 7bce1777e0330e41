import CarCare.Proofs.Resolution.Layers
import Mathlib.Data.List.Nodup

/-!
Commodity sections of a resolved path: which section wins for a commodity, and from which level.

What is proved:
  1. `winner?_eq_some`: of the sections that a record holds, the one entered last for a commodity is
     the one with the largest place in the display order, and of equal places the last listed.
     Sorting is stable, so this is a recursion over the list as it is held (`winner?_cons`).
  2. `winner?_filter`: placeholders make no difference to that.
  3. `sections_merge`: a commodity has the winner of the most specific level that has one.
  4. `resolve_sections`: all of it, for every lookup of records and every path with a customer.
-/
namespace CarCare

namespace Section

/-- Whether a section declares something for a commodity. -/
def declares (commodity : String) (s : Section) : Bool :=
  !s.isPlaceholder && s.commodity == commodity

/-- The section that is entered last for a commodity. -/
def winner? (commodity : String) (sections : List Section) : Option Section :=
  (ordered sections).reverse.find? (·.declares commodity)

/-- A section that wins for a commodity: it declares something for it, nothing listed before it has
a larger place, and everything listed after it has a smaller one. -/
def Wins (commodity : String) (sections : List Section) (s : Section) : Prop :=
  s.declares commodity ∧ ∃ before after, sections = before ++ s :: after ∧
    (∀ t ∈ before, t.declares commodity → t.position ≤ s.position) ∧
    ∀ t ∈ after, t.declares commodity → t.position < s.position

/-! ## The order of sections -/

theorem comesBefore_iff {a b : Section} : a.comesBefore b ↔
    a.position < b.position ∨ (a.position = b.position ∧ a.commodity ≤ b.commodity) := by
  simp [comesBefore]

theorem comesBefore_trans (a b c : Section) :
    a.comesBefore b → b.comesBefore c → a.comesBefore c := by
  simp only [comesBefore_iff]
  rintro (hab | ⟨hab, hn⟩) (hbc | ⟨hbc, hm⟩)
  · exact .inl (Int.lt_trans hab hbc)
  · exact .inl (hbc ▸ hab)
  · exact .inl (hab ▸ hbc)
  · exact .inr ⟨hab.trans hbc, String.le_trans hn hm⟩

theorem comesBefore_total (a b : Section) : a.comesBefore b || b.comesBefore a := by
  simp only [Bool.or_eq_true, comesBefore_iff]
  rcases Int.lt_trichotomy a.position b.position with h | h | h
  · exact .inl (.inl h)
  · rcases String.le_total a.commodity b.commodity with hn | hn
    · exact .inl (.inr ⟨h, hn⟩)
    · exact .inr (.inr ⟨h.symm, hn⟩)
  · exact .inr (.inl h)

theorem declares_commodity {c : String} {s : Section} (h : s.declares c) : s.commodity = c := by
  simp only [declares, Bool.and_eq_true, beq_iff_eq] at h
  exact h.2

theorem comesBefore_of_declares {c : String} {a b : Section} (ha : a.declares c)
    (hb : b.declares c) : a.comesBefore b ↔ a.position ≤ b.position := by
  rw [comesBefore_iff, declares_commodity ha, declares_commodity hb]
  constructor
  · rintro (h | ⟨h, _⟩) <;> omega
  · intro h
    rcases Int.lt_or_eq_of_le h with h | h
    · exact .inl h
    · exact .inr ⟨h, String.le_refl c⟩

/-! ## The winner of a list -/

theorem winner?_nil (c : String) : winner? c [] = none := by
  simp [winner?, ordered]

theorem winner?_mem {c : String} {sections : List Section} {s : Section}
    (h : winner? c sections = some s) : s ∈ sections ∧ s.declares c := by
  have hmem := List.mem_of_find?_eq_some h
  rw [List.mem_reverse] at hmem
  exact ⟨List.mem_mergeSort.mp hmem, List.find?_some h⟩

theorem winner?_eq_none {c : String} {sections : List Section} :
    winner? c sections = none ↔ ∀ s ∈ sections, ¬ s.declares c := by
  simp [winner?, ordered]

theorem winner?_cons (c : String) (a : Section) (rest : List Section) :
    winner? c (a :: rest) =
      if a.declares c ∧ ∀ s ∈ winner? c rest, s.position < a.position then some a
      else winner? c rest := by
  -- The sorted list is that of the others with `a` put in before everything that it comes before.
  obtain ⟨smaller, larger, hcons, hrest, hsmaller⟩ :=
    List.mergeSort_cons comesBefore_trans comesBefore_total a rest
  have hlarger : ∀ s ∈ larger, a.comesBefore s := by
    have hsorted := List.pairwise_mergeSort comesBefore_trans comesBefore_total (a :: rest)
    rw [hcons] at hsorted
    exact (List.pairwise_cons.mp (List.pairwise_append.mp hsorted).2.1).1
  simp only [winner?, ordered, hcons, hrest, List.reverse_append, List.reverse_cons,
    List.append_assoc, List.find?_append, List.singleton_append, List.find?_cons]
  cases hl : larger.reverse.find? (·.declares c) with
  | some s =>
    -- A section that is sorted behind `a` is entered after it, and its place is no smaller.
    have hs : s.declares c := List.find?_some hl
    have hle := hlarger s (List.mem_reverse.mp (List.mem_of_find?_eq_some hl))
    rw [if_neg]
    · simp
    · rintro ⟨ha, hlt⟩
      rw [comesBefore_of_declares ha hs] at hle
      have := hlt s (by simp)
      omega
  | none =>
    cases ha : a.declares c with
    | false => simp
    | true =>
      -- Everything else for the commodity is sorted before `a`, which it does not come before.
      rw [if_pos]
      · simp
      · refine ⟨rfl, fun s hs => ?_⟩
        have hfind : smaller.reverse.find? (·.declares c) = some s := by simpa using hs
        have hdecl : s.declares c := List.find?_some hfind
        have hmem := List.mem_reverse.mp (List.mem_of_find?_eq_some hfind)
        have hnot : ¬ a.comesBefore s := by simpa using hsmaller s hmem
        rw [comesBefore_of_declares ha hdecl] at hnot
        omega

theorem Wins.position_le {c : String} {sections : List Section} {s t : Section}
    (h : Wins c sections s) (ht : t ∈ sections) (hd : t.declares c) :
    t.position ≤ s.position := by
  obtain ⟨_, before, after, rfl, hbefore, hafter⟩ := h
  rcases List.mem_append.mp ht with hb | hr
  · exact hbefore t hb hd
  · rcases List.mem_cons.mp hr with rfl | ha
    · exact Int.le_refl _
    · exact Int.le_of_lt (hafter t ha hd)

theorem wins_cons {c : String} {a s : Section} {rest : List Section} :
    Wins c (a :: rest) s ↔
      (s = a ∧ a.declares c ∧ ∀ t ∈ rest, t.declares c → t.position < a.position) ∨
      (Wins c rest s ∧ (a.declares c → a.position ≤ s.position)) := by
  constructor
  · rintro ⟨hs, before, after, heq, hbefore, hafter⟩
    cases before with
    | nil =>
      obtain ⟨rfl, rfl⟩ := List.cons.inj heq
      exact .inl ⟨rfl, hs, hafter⟩
    | cons b before =>
      obtain ⟨rfl, rfl⟩ := List.cons.inj heq
      refine .inr ⟨⟨hs, before, after, rfl, fun t ht => ?_, hafter⟩, ?_⟩
      · exact hbefore t (List.mem_cons_of_mem _ ht)
      · exact hbefore a List.mem_cons_self
  · rintro (⟨rfl, hs, hrest⟩ | ⟨⟨hs, before, after, rfl, hbefore, hafter⟩, ha⟩)
    · exact ⟨hs, [], rest, rfl, by simp, hrest⟩
    · refine ⟨hs, a :: before, after, rfl, fun t ht => ?_, hafter⟩
      rcases List.mem_cons.mp ht with rfl | ht
      · exact ha
      · exact hbefore t ht

theorem winner?_eq_some {c : String} {sections : List Section} {s : Section} :
    winner? c sections = some s ↔ Wins c sections s := by
  induction sections generalizing s with
  | nil => simp [winner?_nil, Wins]
  | cons a rest ih =>
    rw [winner?_cons, wins_cons]
    -- The winner of the others has the largest place among them, so it can stand for all of them.
    have hbelow : (∀ t ∈ winner? c rest, t.position < a.position) ↔
        ∀ t ∈ rest, t.declares c → t.position < a.position := by
      constructor
      · intro h t ht hd
        cases hw : winner? c rest with
        | none => exact absurd hd (winner?_eq_none.mp hw t ht)
        | some w =>
          have hle := (ih.mp hw).position_le ht hd
          have hlt := h w hw
          omega
      · intro h t ht
        exact h t (winner?_mem ht).1 (winner?_mem ht).2
    split
    · rename_i ha
      rw [Option.some.injEq]
      constructor
      · rintro rfl
        exact .inl ⟨rfl, ha.1, hbelow.mp ha.2⟩
      · rintro (⟨rfl, _⟩ | ⟨hw, hle⟩)
        · rfl
        · have hlt := ha.2 s (ih.mpr hw)
          have := hle ha.1
          omega
    · rename_i ha
      rw [ih]
      constructor
      · intro hw
        refine .inr ⟨hw, fun hd => ?_⟩
        apply Int.not_lt.mp
        intro hlt
        refine ha ⟨hd, fun t ht => ?_⟩
        rw [Option.mem_def.mp (ih.mpr hw)] at ht
        rwa [← Option.some.inj ht]
      · rintro (⟨rfl, hd, hrest⟩ | ⟨hw, _⟩)
        · exact absurd ⟨hd, hbelow.mpr hrest⟩ ha
        · exact hw

/-- Placeholders make no difference to what wins. -/
theorem winner?_filter (c : String) (sections : List Section) :
    winner? c (sections.filter (!·.isPlaceholder)) = winner? c sections := by
  induction sections with
  | nil => rfl
  | cons a rest ih =>
    cases ha : a.isPlaceholder with
    | false => rw [List.filter_cons_of_pos (by simp [ha]), winner?_cons, winner?_cons, ih]
    | true =>
      have hd : ¬ a.declares c := by simp [declares, ha]
      rw [List.filter_cons_of_neg (by simp [ha]), winner?_cons, ih, if_neg fun h => hd h.1]

theorem winner?_of_nodup {sections : List Section}
    (commodities : (sections.map (·.commodity)).Nodup) {s : Section} (hs : s ∈ sections)
    (hd : ¬ s.isPlaceholder) : winner? s.commodity sections = some s := by
  obtain ⟨before, after, rfl⟩ := List.append_of_mem hs
  rw [winner?_eq_some]
  have hunique : ∀ t ∈ before ++ s :: after, t.declares s.commodity → t = s := fun t ht h =>
    List.inj_on_of_nodup_map commodities ht hs (declares_commodity h)
  refine ⟨by simp [declares, hd], before, after, rfl, fun t ht h => ?_, fun t ht h => ?_⟩
  · exact Int.le_of_eq (congrArg position (hunique t (List.mem_append_left _ ht) h))
  · obtain rfl := hunique t (List.mem_append_right _ (List.mem_cons_of_mem _ ht)) h
    have hnodup := (List.nodup_append.mp commodities.of_map).2.1
    exact absurd ht (List.nodup_cons.mp hnodup).1

end Section

/-! ## Entering sections -/

namespace SectionMap

theorem get?_foldl_put (l : Level) (sections : List Section) (m : SectionMap) (c : String) :
    (sections.foldl (fun m s => m.put s.commodity ⟨s, l⟩) m).get? c =
      sections.foldl
        (fun entry s => (if s.commodity == c then some ⟨s, l⟩ else none).or entry) (m.get? c) := by
  induction sections generalizing m with
  | nil => rfl
  | cons s rest ih =>
    rw [List.foldl_cons, List.foldl_cons, ih]
    congr 1
    by_cases h : s.commodity = c
    · rw [← h, get?_put_self]
      simp
    · rw [get?_put_of_ne (Ne.symm h)]
      simp [h]

theorem get?_layer (l : Level) (sections : List Section) (m : SectionMap) (c : String) :
    (m.layer l sections).get? c =
      ((Section.winner? c sections).map (⟨·, l⟩)).or (m.get? c) := by
  unfold layer Section.winner?
  rw [get?_foldl_put, foldl_or, ← List.filter_reverse]
  congr 1
  induction (Section.ordered sections).reverse with
  | nil => rfl
  | cons s rest ih =>
    cases hp : s.isPlaceholder with
    | true => simpa [Section.declares, hp] using ih
    | false => by_cases hc : s.commodity = c <;> simp_all [Section.declares]

theorem put_keys (c : String) (e : Sourced Section) (m : SectionMap) :
    (m.put c e).map (·.1) =
      if c ∈ m.map (·.1) then m.map (·.1) else m.map (·.1) ++ [c] := by
  induction m with
  | nil => rfl
  | cons head rest ih =>
    obtain ⟨d, e'⟩ := head
    by_cases h : d = c
    · simp [put, h]
    · simp only [put, h, if_false, List.map_cons, ih, List.mem_cons, Ne.symm h, false_or]
      split <;> rfl

theorem put_nodup {m : SectionMap} (h : (m.map (·.1)).Nodup) (c : String) (e : Sourced Section) :
    ((m.put c e).map (·.1)).Nodup := by
  rw [put_keys]
  split
  · exact h
  · rename_i hc
    rw [← List.concat_eq_append]
    exact h.concat hc

theorem layer_nodup {m : SectionMap} (h : (m.map (·.1)).Nodup) (l : Level)
    (sections : List Section) : ((m.layer l sections).map (·.1)).Nodup := by
  unfold layer
  induction (Section.ordered sections).filter (!·.isPlaceholder) generalizing m with
  | nil => exact h
  | cons s rest ih => exact ih (put_nodup h s.commodity ⟨s, l⟩)

end SectionMap

section
variable (look : Level → Uuid → Option Instruction)

def Path.sections (path : Path) (kind : SectionKind) (l : Level) : List Section :=
  ((path.record? look l).map (·.sections kind)).getD []

theorem Effective.sections_merge (path : Path) (layers : List Layer) (kind : SectionKind) :
    (merge path layers).sections kind = mergeSections kind layers := by
  cases kind <;> rfl

theorem mergeSections_nodup (kind : SectionKind) (layers : List Layer) :
    ((Effective.mergeSections kind layers).map (·.1)).Nodup := by
  unfold Effective.mergeSections
  suffices h : ∀ m : SectionMap, (m.map (·.1)).Nodup →
      ((layers.foldl (fun m l => m.layer l.level (l.sections kind)) m).map (·.1)).Nodup from
    h [] List.nodup_nil
  induction layers with
  | nil => exact fun m h => h
  | cons l rest ih => exact fun m h => ih _ (SectionMap.layer_nodup h l.level (l.sections kind))

theorem mergeSections_get? (kind : SectionKind) (layers : List Layer) (m : SectionMap)
    (c : String) :
    (layers.foldl (fun m l => m.layer l.level (l.sections kind)) m).get? c =
      layers.foldl
        (fun entry l => ((Section.winner? c (l.sections kind)).map (⟨·, l.level⟩)).or entry)
        (m.get? c) := by
  -- Levels are entered one over the other, whatever the map held for the commodity before.
  induction layers generalizing m with
  | nil => rfl
  | cons l rest ih => rw [List.foldl_cons, List.foldl_cons, ih, SectionMap.get?_layer]

theorem sections_merge (path : Path) (kind : SectionKind) (c : String) :
    ((Effective.merge path (path.layers look)).sections kind).get? c =
      Level.deepest fun l => Section.winner? c (path.sections look kind l) := by
  rw [Effective.sections_merge]
  unfold Effective.mergeSections
  rw [mergeSections_get?]
  exact path.foldl_layers look fun l => Section.winner? c (l.sections kind)

/-- A path with a customer resolves to one entry at most for each commodity, whatever sections its
records hold and in whatever order. There is an entry if some level declares a section that is no
placeholder; it is one whole section, the winner of the most specific such level. Nothing but the
sections of the kind that are no placeholders, as each record lists them, makes any difference. -/
theorem resolve_sections (path : Path) (rooted : path.customer.id.isSome) (kind : SectionKind) :
    ∃ e, resolve (m := Id) look path = .ok e ∧
      ((e.sections kind).map (·.1)).Nodup ∧
      (∀ c, ((e.sections kind).get? c).isSome ↔
        ∃ l, ∃ s ∈ path.sections look kind l, s.declares c) ∧
      (∀ c s l, (e.sections kind).get? c = some ⟨s, l⟩ ↔
        Section.Wins c (path.sections look kind l) s ∧
          ∀ m, l.rank < m.rank → ∀ t ∈ path.sections look kind m, ¬ t.declares c) ∧
      ∀ look' e', resolve (m := Id) look' path = .ok e' →
        (∀ l, (path.sections look' kind l).filter (!·.isPlaceholder) =
          (path.sections look kind l).filter (!·.isPlaceholder)) →
        ∀ c, (e'.sections kind).get? c = (e.sections kind).get? c := by
  refine ⟨.merge path (path.layers look), resolve_id look path rooted, ?_, fun c => ?_,
    fun c s l => ?_, fun look' e' he' hsame c => ?_⟩
  · rw [Effective.sections_merge]
    exact mergeSections_nodup kind _
  · rw [sections_merge, Option.isSome_iff_ne_none, ne_eq, Level.deepest_eq_none]
    simp only [Section.winner?_eq_none]
    constructor
    · intro h
      obtain ⟨l, hl⟩ := Classical.not_forall.mp h
      obtain ⟨s, hs⟩ := Classical.not_forall.mp hl
      obtain ⟨hmem, hd⟩ := Classical.not_imp.mp hs
      exact ⟨l, s, hmem, Classical.not_not.mp hd⟩
    · rintro ⟨l, s, hmem, hd⟩ h
      exact h l s hmem hd
  · rw [sections_merge, Level.deepest_eq_some, Section.winner?_eq_some]
    simp only [Section.winner?_eq_none]
  · have he : e' = .merge path (path.layers look') := by
      rw [resolve_id look' path rooted] at he'
      exact (Except.ok.inj he').symm
    rw [he, sections_merge, sections_merge]
    congr 1
    funext l
    rw [← Section.winner?_filter, hsame l, Section.winner?_filter]

end

def vendorSection (commodity vendor : String) (inherits : Option Bool) (sortOrder : Option Int) :
    Section where
  id := none
  owner := none
  commodity := commodity
  details := fun
    | .preferredGasketVendor => some (.text vendor)
    | _ => none
  inherits := inherits
  sortOrder := sortOrder

def crowdedPath : Path where
  customer := ⟨some ⟨1⟩, none⟩
  rider := ⟨some ⟨3⟩, none⟩
  amendment := ⟨some ⟨4⟩, none⟩

/-- Records for which the order of sections matters: the rider names one commodity four times, twice
in one place, and the amendment has a placeholder for it. -/
def crowdedRecords : Level → Uuid → Option Instruction
  | .customer, _ => some { sealing :=
      [vendorSection "Latex" "Acme" none none, vendorSection "Molasses" "Acme" (some true) none] }
  | .rider, _ => some { sealing :=
      [vendorSection "Latex" "Early" (some false) (some 2),
       vendorSection "Latex" "Late" none (some 2),
       vendorSection "Latex" "Negative" none (some (-3)),
       vendorSection "Latex" "Unplaced" none none] }
  | .amendment, _ => some { sealing := [vendorSection "Latex" "Nobody" (some true) (some 9)] }
  | .masterLease, _ => none

/-- The same records without the amendment's, and with fields and linings. -/
def barerRecords : Level → Uuid → Option Instruction
  | .amendment, _ => none
  | l, id => (crowdedRecords l id).map fun record =>
      { record with
        fields := fun _ => some (.flag true)
        lining := [vendorSection "Latex" "Lined" none (some 9)] }

theorem resolve_sections_crowded : crowdedPath.customer.id.isSome ∧
    ∃ e, resolve (m := Id) crowdedRecords crowdedPath = .ok e ∧
      e.sealing.get? "Latex" = some ⟨vendorSection "Latex" "Late" none (some 2), .rider⟩ ∧
      e.sealing.get? "Molasses" = none ∧
      ∃ e', resolve (m := Id) barerRecords crowdedPath = .ok e' ∧
        e'.sealing.get? "Latex" = e.sealing.get? "Latex" := by
  obtain ⟨e, he, _, hsome, hwins, hsame⟩ := resolve_sections crowdedRecords crowdedPath rfl .sealing
  refine ⟨rfl, e, he, ?_, ?_, _, resolve_id barerRecords crowdedPath rfl, ?_⟩
  · refine (hwins _ _ _).mpr ⟨⟨by decide, [_], [_, _], rfl, by decide, by decide⟩, ?_⟩
    intro m hm
    cases m <;> simp [Level.rank] at hm
    decide
  · refine Option.not_isSome_iff_eq_none.mp fun h => ?_
    obtain ⟨l, hl⟩ := (hsome "Molasses").mp h
    revert hl
    cases l <;> decide
  · exact hsame barerRecords _ (resolve_id barerRecords crowdedPath rfl)
      (fun l => by cases l <;> rfl) "Latex"

end CarCare

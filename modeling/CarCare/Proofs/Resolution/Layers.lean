import CarCare.Resolution.Effective

/-!
What a resolution merges: the layers of a path, as a lookup that always answers alike supplies them.

What is proved:
  1. `resolve_id` and `resolve_traced`: a path with a customer resolves to the merge of its layers,
     and on the way the lookup is asked once for each scope that is present, customer first.
  2. `foldl_or`: entering offers one over the other leaves the last one that is there.
  3. `Level.deepest_eq_some`: of what the levels offer, `deepest` is the offer of the most specific
     one. The merges of fields and of sections both come down to it.
-/
namespace CarCare

/-! ## The most specific offer -/

theorem foldl_or {α β : Type} (offer : α → Option β) (items : List α) (base : Option β) :
    items.foldl (fun merged a => (offer a).or merged) base =
      (items.reverse.findSome? offer).or base := by
  induction items generalizing base with
  | nil => rfl
  | cons a rest ih =>
    rw [List.foldl_cons, ih, List.reverse_cons, List.findSome?_append, Option.or_assoc]
    cases h : offer a <;> simp [h]

namespace Level

/-- The offer of the most specific level that has one. -/
def deepest {α : Type} (offer : Level → Option α) : Option (Sourced α) :=
  all.reverse.findSome? fun l => (offer l).map (⟨·, l⟩)

theorem all_reverse_descends : all.reverse.Pairwise fun a b => b.rank < a.rank := by decide

theorem deepest_eq_some {α : Type} {offer : Level → Option α} {a : α} {l : Level} :
    deepest offer = some ⟨a, l⟩ ↔
      offer l = some a ∧ ∀ m, l.rank < m.rank → offer m = none := by
  constructor
  · intro h
    obtain ⟨before, k, after, hall, hk, hnone⟩ := List.findSome?_eq_some_iff.mp h
    obtain ⟨b, hb, hbk⟩ := Option.map_eq_some_iff.mp hk
    obtain ⟨rfl, rfl⟩ := Sourced.mk.inj hbk
    refine ⟨hb, fun m hm => ?_⟩
    -- Levels are tried from the deepest on: a deeper one than `k` cannot come after it.
    have hdown := all_reverse_descends
    have hmem : m ∈ all.reverse := List.mem_reverse.mpr (mem_all m)
    rw [hall] at hdown hmem
    rcases List.mem_append.mp hmem with hbefore | hrest
    · simpa using hnone m hbefore
    · rcases List.mem_cons.mp hrest with rfl | hafter
      · omega
      · have := (List.pairwise_cons.mp (List.pairwise_append.mp hdown).2.1).1 m hafter
        omega
  · rintro ⟨ha, hdeeper⟩
    obtain ⟨before, after, hall⟩ := List.append_of_mem (List.mem_reverse.mpr (mem_all l))
    have hdown := all_reverse_descends
    rw [hall] at hdown
    refine List.findSome?_eq_some_iff.mpr ⟨before, l, after, hall, by rw [ha]; rfl, ?_⟩
    intro m hm
    rw [hdeeper m ((List.pairwise_append.mp hdown).2.2 m hm l List.mem_cons_self)]
    rfl

theorem deepest_eq_none {α : Type} {offer : Level → Option α} :
    deepest offer = none ↔ ∀ l, offer l = none := by
  simp only [deepest, List.findSome?_eq_none_iff, List.mem_reverse, Option.map_eq_none_iff]
  exact ⟨fun h l => h l (mem_all l), fun h l _ => h l⟩

theorem deepest_of_hidden {α : Type} {offer offer' : Level → Option α} {l m : Level}
    (same : ∀ k, k ≠ l → offer' k = offer k) (deeper : l.rank < m.rank)
    (offered : (offer m).isSome) : deepest offer' = deepest offer := by
  cases htop : deepest offer with
  | none =>
    rw [deepest_eq_none.mp htop m] at offered
    cases offered
  | some top =>
    obtain ⟨a, k⟩ := top
    obtain ⟨hk, hnone⟩ := deepest_eq_some.mp htop
    have hbelow : l.rank < k.rank := by
      rcases Nat.lt_or_ge k.rank m.rank with hlt | hle
      · rw [hnone m hlt] at offered
        cases offered
      · exact Nat.lt_of_lt_of_le deeper hle
    have hne : ∀ n : Level, k.rank ≤ n.rank → n ≠ l := by
      rintro n hn rfl
      omega
    refine deepest_eq_some.mpr ⟨(same k (hne k (Nat.le_refl _))).trans hk, fun n hn => ?_⟩
    rw [same n (hne n (Nat.le_of_lt hn))]
    exact hnone n hn

end Level

/-! ## The layers of a path -/

section
variable (look : Level → Uuid → Option Instruction)

/-- The record that a lookup answers for the scope of a path at a level; an absent scope has
none. -/
def Path.record? (path : Path) (l : Level) : Option Instruction := (path.step l).id.bind (look l)

/-- A step with the record that a lookup answers for it. -/
def Layer.found (l : Level) (step : Step) : Layer := ⟨l, step, step.id.bind (look l)⟩

/-- The layers that a path has, from the most general to the most specific. -/
def Path.layers (path : Path) : List Layer := path.steps.map fun (l, step) => .found look l step

theorem Path.layers_eq (path : Path) :
    path.layers look = Level.all.map fun l => ⟨l, path.step l, path.record? look l⟩ := rfl

/-- Entering what the layers of a path offer leaves the offer of the most specific one. -/
theorem Path.foldl_layers {α : Type} (path : Path) (offer : Layer → Option α) :
    (path.layers look).foldl
        (fun merged l => ((offer l).map (⟨·, l.level⟩ : α → Sourced α)).or merged) none =
      Level.deepest fun l => offer ⟨l, path.step l, path.record? look l⟩ := by
  rw [foldl_or, Option.or_none, Path.layers_eq, ← List.map_reverse, List.findSome?_map]
  rfl

/-! ## Looking the layers up -/

theorem readLayer_id (l : Level) (step : Step) :
    readLayer (m := Id) look l step = .found look l step := by
  unfold readLayer Layer.found
  cases step.id <;> rfl

theorem resolve_id (path : Path) (rooted : path.customer.id.isSome) :
    resolve (m := Id) look path = .ok (.merge path (path.layers look)) := by
  obtain ⟨c, hc⟩ := Option.isSome_iff_exists.mp rooted
  have hlayers : path.steps.mapM (m := Id) (fun (l, step) => readLayer (m := Id) look l step) =
      path.layers look := by
    simp only [readLayer_id]
    exact List.mapM_pure
  simp only [resolve, hc]
  show Except.ok (Effective.merge path (path.steps.mapM (m := Id) _)) = _
  rw [hlayers]

theorem readLayer_traced (l : Level) (step : Step) (log : List (Level × Uuid)) :
    (readLayer (Lookup.traced look) l step).run log =
      (.found look l step, log ++ (step.id.map (l, ·)).toList) := by
  unfold readLayer Layer.found
  cases step.id with
  | none =>
    show ((⟨l, step, none⟩ : Layer), log) = (_, log ++ [])
    rw [List.append_nil]
    rfl
  | some id => rfl

theorem readLayers_traced (steps : List (Level × Step)) (log : List (Level × Uuid)) :
    (steps.mapM fun (l, step) => readLayer (Lookup.traced look) l step).run log =
      (steps.map fun (l, step) => .found look l step,
        log ++ steps.filterMap fun (l, step) => step.id.map (l, ·)) := by
  -- Questions are added at the end of the log, so the induction is for every log so far.
  induction steps generalizing log with
  | nil =>
    show (([] : List Layer), log) = ([], log ++ [])
    rw [List.append_nil]
  | cons head rest ih =>
    obtain ⟨l, step⟩ := head
    rw [List.mapM_cons, StateT.run_bind, readLayer_traced]
    show (do
      let layers ← rest.mapM fun (l, step) => readLayer (Lookup.traced look) l step
      pure (Layer.found look l step :: layers) : StateM _ _).run _ = _
    rw [StateT.run_bind, ih]
    show (_, _) = (_, _)
    cases h : step.id <;> simp [h]

theorem resolve_traced (path : Path) (rooted : path.customer.id.isSome)
    (log : List (Level × Uuid)) :
    (resolve (Lookup.traced look) path).run log =
      (.ok (.merge path (path.layers look)), log ++ path.present) := by
  obtain ⟨c, hc⟩ := Option.isSome_iff_exists.mp rooted
  simp only [resolve, hc, StateT.run_bind]
  rw [readLayers_traced]
  rfl

end

end CarCare

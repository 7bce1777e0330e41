import CarCare.Proofs.Resolution.Layers

/-!
Fields with their sources: what a resolved path holds for each field, which level it took it from,
and what its chain tells about the levels.

What is proved:
  1. `fields_merge`: a field has the value and the source of the most specific level that declares
     it. Every value counts, false and the empty text included.
  2. `chain_merge`: the chain has one item for each level, customer first, and names every field
     that the level declares, also those that deeper levels override.
  3. `resolve_provenance`: both, for every lookup of records and every path with a customer, along
     with what the lookup is asked.
-/
namespace CarCare

section
variable (look : Level → Uuid → Option Instruction)

/-- What the record of a path at a level declares for a field. -/
def Path.declared? (path : Path) (l : Level) (f : Field) : Option FieldValue :=
  (path.record? look l).bind (·.fields f)

theorem Layer.fields_apply (l : Layer) (f : Field) : l.fields f = l.record.bind (·.fields f) := by
  unfold Layer.fields
  cases l.record <;> rfl

/-! ## Fields -/

theorem overlayFields_apply (layers : List Layer) (merged : Field → Option (Sourced FieldValue))
    (f : Field) :
    layers.foldl Effective.overlayFields merged f =
      layers.foldl (fun entry l => ((l.fields f).map (⟨·, l.level⟩)).or entry) (merged f) := by
  -- One field at a time: what a level does to a field does not depend on the others.
  induction layers generalizing merged with
  | nil => rfl
  | cons l rest ih => exact ih (Effective.overlayFields merged l)

theorem fields_merge (path : Path) (f : Field) :
    (Effective.merge path (path.layers look)).fields f =
      Level.deepest fun l => path.declared? look l f := by
  show (path.layers look).foldl Effective.overlayFields (fun _ => none) f = _
  rw [overlayFields_apply, path.foldl_layers look fun l => l.fields f]
  simp only [Layer.fields_apply]
  rfl

/-! ## The chain -/

theorem Fields.declared_names (fields : Fields) :
    fields.declared.map (·.1) = Field.all.filter fun f => (fields f).isSome := by
  unfold Fields.declared
  induction Field.all with
  | nil => rfl
  | cons f rest ih => cases h : fields f <;> simp [h, ih]

theorem chain_merge (path : Path) :
    (Effective.merge path (path.layers look)).chain = Level.all.map fun l =>
      { level := l
        id := (path.step l).id
        name := (path.step l).name.or ((path.record? look l).bind (·.scopeName))
        defined := Field.all.filter fun f => (path.declared? look l f).isSome } := by
  show (path.layers look).map Layer.chainItem = _
  rw [Path.layers_eq, List.map_map]
  refine List.map_congr_left fun l _ => ?_
  simp only [Function.comp, Layer.chainItem, Fields.declared_names, Layer.fields_apply]
  rfl

/-! ## Resolution -/

/-- A path with a customer resolves, whatever records its levels hold and whichever of its other
scopes are absent. A field has a value if some level declares it, and then the value and the level
are those of the most specific one; the chain has an item for each level, named as the path names
it, or if the path does not as its record does. Each scope that is present is asked for once, from
the customer on, and nothing else is. -/
theorem resolve_provenance (path : Path) (rooted : path.customer.id.isSome) :
    ∃ e, (∀ log, (resolve (Lookup.traced look) path).run log = (.ok e, log ++ path.present)) ∧
      (∀ f v l, e.fields f = some ⟨v, l⟩ ↔ path.declared? look l f = some v ∧
        ∀ m, l.rank < m.rank → path.declared? look m f = none) ∧
      (∀ f, e.fields f = none ↔ ∀ l, path.declared? look l f = none) ∧
      e.chain = Level.all.map fun l =>
        { level := l
          id := (path.step l).id
          name := (path.step l).name.or ((path.record? look l).bind (·.scopeName))
          defined := Field.all.filter fun f => (path.declared? look l f).isSome } := by
  refine ⟨.merge path (path.layers look), resolve_traced look path rooted, ?_, ?_,
    chain_merge look path⟩
  · intro f v l
    rw [fields_merge]
    exact Level.deepest_eq_some
  · intro f
    rw [fields_merge]
    exact Level.deepest_eq_none

end

/-- A path from a customer straight to an amendment that the path does not name. -/
def gapPath : Path where
  customer := ⟨some ⟨1⟩, some "Acme"⟩
  amendment := ⟨some ⟨4⟩, none⟩

/-- Records for which values that look empty matter: the amendment takes the customer's food grade
back to false and sets an empty pressure. -/
def gapRecords : Level → Uuid → Option Instruction
  | .customer, ⟨1⟩ => some { fields := fun
      | .foodGrade => some (.flag true)
      | .additionalNotes => some (.text "rinse twice")
      | _ => none }
  | .amendment, ⟨4⟩ => some
    { scopeName := some "Extension"
      fields := fun
        | .foodGrade => some (.flag false)
        | .nitrogenPsi => some (.text "")
        | _ => none }
  | .rider, _ => some { fields := fun _ => some (.text "not on the path") }
  | _, _ => none

theorem resolve_provenance_across_gap : gapPath.customer.id.isSome ∧
    ∃ e, (resolve (Lookup.traced gapRecords) gapPath).run [] =
        (.ok e, [(.customer, ⟨1⟩), (.amendment, ⟨4⟩)]) ∧
      e.fields .foodGrade = some ⟨.flag false, .amendment⟩ ∧
      e.fields .nitrogenPsi = some ⟨.text "", .amendment⟩ ∧
      e.fields .additionalNotes = some ⟨.text "rinse twice", .customer⟩ ∧
      e.fields .kosherWash = none ∧
      e.chain = [⟨.customer, some ⟨1⟩, some "Acme", [.foodGrade, .additionalNotes]⟩,
        ⟨.masterLease, none, none, []⟩, ⟨.rider, none, none, []⟩,
        ⟨.amendment, some ⟨4⟩, some "Extension", [.foodGrade, .nitrogenPsi]⟩] := by
  obtain ⟨e, hrun, hsome, hnone, hchain⟩ := resolve_provenance gapRecords gapPath rfl
  refine ⟨rfl, e, hrun [], ?_, ?_, ?_, ?_, hchain.trans rfl⟩
  · exact (hsome _ _ _).mpr ⟨rfl, fun m _ => by cases m <;> simp_all [Level.rank]⟩
  · exact (hsome _ _ _).mpr ⟨rfl, fun m _ => by cases m <;> simp_all [Level.rank]⟩
  · exact (hsome _ _ _).mpr ⟨rfl, fun m _ => by cases m <;> simp_all [Level.rank] <;> rfl⟩
  · exact (hnone _).mpr fun m => by cases m <;> rfl

end CarCare

import CarCare.Proofs.Schema.Overriding
import CarCare.Proofs.Store.Outcomes
import CarCare.Proofs.Store.Reached

/-!
Updates of an instruction as patches of its fields. A field that a payload gives a value is set to
it, and nothing else changes but the age of the instruction.

What is proved:
  1. `Fields.overlay_overlay`, `Fields.overlay_self` and `Fields.overlay_comm`: how changes of
     fields compose.
  2. `Service.update_patched`: an update of a current instruction puts its change over the fields,
     and leaves every other column and all sections alone.
  3. `Store.Later.declared`: no run takes a declared field back.
  4. `field_updates_compose`: so updates compose as their payloads do.
-/
namespace CarCare

/-! ## Changes of fields -/

namespace Fields

theorem overlay_overlay (later earlier fields : Fields) :
    later.overlay (earlier.overlay fields) = (later.overlay earlier).overlay fields := by
  funext f
  exact Option.or_assoc.symm

theorem overlay_self (change : Fields) : change.overlay change = change := by
  funext f
  exact Option.or_self

theorem overlay_comm {a b : Fields} (disjoint : ∀ f, (a f).isSome → b f = Option.none) :
    a.overlay b = b.overlay a := by
  funext f
  show (a f).or (b f) = (b f).or (a f)
  cases ha : a f with
  | none => rw [Option.none_or, Option.or_none]
  | some v =>
    have hb : b f = Option.none := disjoint f (by rw [ha]; rfl)
    rw [hb, Option.or_none, Option.none_or]

/-- Fields after a payload: each that it gives a value holds this value, in the form that the field
has, and each that it leaves out or gives an empty value holds what it held before. -/
structure SetBy (payload : Members) (before after : Fields) : Prop where
  set : ∀ f value, payload.lookup f.name = some value → value ≠ .null →
    ∃ v : FieldValue, (Schema.Rule.ofKind f.kind).convert value = .ok v.toValue ∧ after f = some v
  kept : ∀ f, payload.lookup f.name = Option.none ∨ payload.lookup f.name = some .null →
    after f = before f

theorem setBy {payload members : Members}
    (accepted : Service.accept .fields (.object payload) = .ok members) (fields : Fields) :
    SetBy payload fields ((ofMembers members).overlay fields) := by
  constructor
  · intro f value hvalue hfull
    obtain ⟨v, hconvert, hset⟩ := (Service.accept_fields accepted f).1 value
      (Value.given?_eq_some.mpr ⟨(Value.get?_object _ _).trans hvalue, hfull⟩)
    refine ⟨v, hconvert, ?_⟩
    show (ofMembers members f).or (fields f) = _
    rw [hset, Option.some_or]
  · intro f hleft
    rw [← Value.get?_object] at hleft
    have hset := (Service.accept_fields accepted f).2 (Value.given?_eq_none.mpr hleft)
    show (ofMembers members f).or (fields f) = _
    rw [hset, Option.none_or]

end Fields

/-! ## Updates -/

/-- The row with other fields, of another age. -/
def InstructionRow.patched (r : InstructionRow) (fields : Fields) (age : Timestamp) :
    InstructionRow :=
  { r with fields := fields, updatedAt := age }

/-- An update that leaves other fields of a row, and perhaps another age, and nothing else. -/
def Database.Patched (db : Database) (row : InstructionRow) (fields : Fields)
    (out : Service.Outcome Instruction) : Prop :=
  ∃ age, out = (.ok (row.patched fields age).read, db.put (row.patched fields age))

namespace Service
variable {db : Database} {row : InstructionRow} {payload : Value} {members : Members}

theorem update_patched (current : db.instructions.current? row.id = some row)
    (accepted : accept .fields payload = .ok members) (now : Timestamp) :
    db.Patched row ((Fields.ofMembers members).overlay row.fields)
      (update now db row.id payload) := by
  obtain ⟨age, heq⟩ := Session.overlaid_eq now (.ofMembers members) row
  have hupdate := update_of_current current accepted now
  rw [heq] at hupdate
  exact ⟨age, hupdate⟩

end Service

theorem Database.Patched.update {db : Database} {row : InstructionRow} {fields : Fields}
    {out : Service.Outcome Instruction} {payload : Value} {members : Members}
    (h : db.Patched row fields out) (current : db.instructions.current? row.id = some row)
    (accepted : Service.accept .fields payload = .ok members) (now : Timestamp) :
    db.Patched row ((Fields.ofMembers members).overlay fields)
      (Service.update now out.2 row.id payload) := by
  obtain ⟨age, rfl⟩ := h
  have hcurrent : (db.put (row.patched fields age)).instructions.current? _ = _ :=
    Database.current?_put current rfl rfl
  obtain ⟨age', hupdate⟩ := Service.update_patched hcurrent accepted now
  exact ⟨age', hupdate.trans (congrArg (Prod.mk _) (Database.put_put rfl))⟩

theorem Session.overlaid_again (first second : Timestamp) (change : Fields) (row : InstructionRow) :
    overlaid second change (overlaid first change row) = overlaid first change row := by
  obtain ⟨age, heq⟩ := overlaid_eq first change row
  rw [heq, overlaid]
  dsimp only
  rw [if_pos]
  rw [Fields.same_iff, Fields.overlay_overlay, Fields.overlay_self]

theorem Service.update_again {db : Database} {row : InstructionRow} {payload : Value}
    {members : Members} (current : db.instructions.current? row.id = some row)
    (accepted : accept .fields payload = .ok members) (first second : Timestamp) :
    update second (update first db row.id payload).2 row.id payload =
      update first db row.id payload := by
  let new := Session.overlaid first (.ofMembers members) row
  have hfirst : update first db row.id payload = (.ok new.read, db.put new) :=
    update_of_current current accepted first
  obtain ⟨hid, _, _, _, hcurrent, _⟩ := Session.overlaid_frame first (.ofMembers members) row
  have hnew : (db.put new).instructions.current? row.id = some new :=
    hid ▸ Database.current?_put current hid hcurrent
  have hsecond := update_of_current hnew accepted second
  rw [Session.overlaid_again] at hsecond
  rw [hfirst]
  exact hsecond.trans (congrArg (Prod.mk _) (Database.put_put rfl))

/-! ## Runs -/

namespace Store
variable {s s' : Store} {row new : InstructionRow} {f : Field}

theorem Revision.declared (h : s.Revision row new) (f : Field) (declared : (row.fields f).isSome) :
    (new.fields f).isSome := by
  cases h with
  | overlaid now change _ =>
    obtain ⟨age, heq⟩ := Session.overlaid_eq now change row
    rw [heq]
    show ((change f).or (row.fields f)).isSome
    rw [Option.isSome_or, declared, Bool.or_true]
  | retired now => exact declared
  | sectionAdded kind _ _ _ _ _ _ | sectionChanged kind _ _ _ _ _ _ _ | sectionRemoved kind _ _ =>
    rw [row.withSections_fields]
    exact declared

/-- However a store goes on, an instruction is still there and declares the fields that it did. -/
theorem Later.declared (h : s.Later s') (reached : s.Reached) {id : Uuid}
    (found : s.row? id = some row) :
    ∃ row', s'.row? id = some row' ∧ ∀ f, (row.fields f).isSome → (row'.fields f).isSome := by
  induction h with
  | same => exact ⟨row, found, fun _ h => h⟩
  | @write s' before leases w ih =>
    obtain ⟨row', hrow', hdeclared⟩ := ih
    have hmove := (w.move { leases, instructions := s' } (before.reached reached).filed.ids).2
    obtain ⟨row'', hrow'', hmade⟩ := hmove.row?_after hrow'
    refine ⟨row'', hrow'', ?_⟩
    intro f hf
    rcases hmade with rfl | ⟨_, hrevision⟩
    · exact hdeclared f hf
    · exact hrevision.declared f (hdeclared f hf)

end Store

/-- Updates of a current instruction are patches of its fields. One sets each field that its payload
gives a value to this value, and leaves all other fields, columns and sections as they were, the age
apart. Two in turn leave what the later payload over the earlier one leaves at once. One that is
made again changes nothing, and two that give values for different fields can be exchanged. So
however the store goes on, the instruction declares at least the fields that it declares now. -/
theorem field_updates_compose (db : Database) (reached : db.instructions.Reached)
    (row : InstructionRow) (current : db.instructions.current? row.id = some row)
    (u v : Members) {du dv : Members} (hu : Service.accept .fields (.object u) = .ok du)
    (hv : Service.accept .fields (.object v) = .ok dv) :
    let update (now : Timestamp) (db : Database) (payload : Members) :=
      Service.update now db row.id (.object payload)
    (∀ t, ∃ fields, db.Patched row fields (update t db u) ∧ Fields.SetBy u row.fields fields) ∧
    (∀ t₁ t₂ t, ∃ fields, db.Patched row fields (update t₂ (update t₁ db u).2 v) ∧
      db.Patched row fields (update t db (v.override Fields.counts u))) ∧
    (∀ t₁ t₂, update t₂ (update t₁ db u).2 u = update t₁ db u) ∧
    ((∀ key, u.decides Fields.counts key → v.decides Fields.counts key = false) →
      ∀ t₁ t₂ t₃ t₄, ∃ fields, db.Patched row fields (update t₂ (update t₁ db u).2 v) ∧
        db.Patched row fields (update t₄ (update t₃ db v).2 u)) ∧
    ∀ s', db.instructions.Later s' → ∃ row', s'.row? row.id = some row' ∧
      ∀ f, (row.fields f).isSome → (row'.fields f).isSome := by
  intro update
  have htwo : ∀ {a b da db' : Members}, Service.accept .fields (.object a) = .ok da →
      Service.accept .fields (.object b) = .ok db' → ∀ t₁ t₂,
        db.Patched row ((Fields.ofMembers db').overlay ((Fields.ofMembers da).overlay row.fields))
          (update t₂ (update t₁ db a).2 b) := fun ha hb t₁ t₂ =>
    (Service.update_patched current ha t₁).update current hb t₂
  refine ⟨?_, ?_, ?_, ?_, ?_⟩
  · intro t
    exact ⟨_, Service.update_patched current hu t, Fields.setBy hu row.fields⟩
  · intro t₁ t₂ t
    obtain ⟨both, hboth, heq⟩ := Service.accept_fields_override hu hv
    refine ⟨_, htwo hu hv t₁ t₂, ?_⟩
    rw [Fields.overlay_overlay, ← heq]
    exact Service.update_patched current hboth t
  · exact Service.update_again current hu
  · intro hdisjoint t₁ t₂ t₃ t₄
    have hfields : ∀ f, (Fields.ofMembers du f).isSome → Fields.ofMembers dv f = none := by
      intro f hf
      have hdv := Fields.isSome_ofMembers (Service.accept_object.mp hv) f
      rw [Fields.isSome_ofMembers (Service.accept_object.mp hu) f,
        Schema.decides_dump Schema.fields_names (Service.accept_object.mp hu)] at hf
      rw [Schema.decides_dump Schema.fields_names (Service.accept_object.mp hv),
        hdisjoint f.name hf] at hdv
      simpa using hdv
    refine ⟨_, htwo hu hv t₁ t₂, ?_⟩
    rw [Fields.overlay_overlay, ← Fields.overlay_comm hfields, ← Fields.overlay_overlay]
    exact htwo hv hu t₃ t₄
  · intro s' later
    exact later.declared reached (Store.current?_eq_some.mp current).1

/-- One payload leaves a field empty that the other one sets, and one sets a field to the empty
text. -/
theorem field_updates_compose_acme :
    let u : Members :=
      [("food_grade", .text "yes"), ("kosher_wash", .null), ("nitrogen_psi", .text "")]
    let v : Members := [("food_grade", .null), ("mineral_wipe", .int 0)]
    let update (now : Timestamp) (db : Database) (payload : Members) :=
      Service.update now db ⟨10⟩ (.object payload)
    let after := acmeDatabase.run [.update ⟨2⟩ ⟨10⟩ (.object v), .delete ⟨3⟩ ⟨10⟩]
    ∃ row fields, acmeDatabase.instructions.current? ⟨10⟩ = some row ∧
      acmeDatabase.Patched row fields (update ⟨3⟩ (update ⟨2⟩ acmeDatabase u).2 v) ∧
      acmeDatabase.Patched row fields (update ⟨3⟩ (update ⟨2⟩ acmeDatabase v).2 u) ∧
      fields.declared =
        [(.foodGrade, .flag true), (.mineralWipe, .flag false), (.nitrogenPsi, .text "")] ∧
      update ⟨3⟩ (update ⟨2⟩ acmeDatabase u).2 u = update ⟨2⟩ acmeDatabase u ∧
      (∃ row', after.instructions.row? ⟨10⟩ = some row' ∧ (row'.fields .foodGrade).isSome) := by
  intro u v update after
  have hreached : acmeDatabase.instructions.Reached :=
    Database.run_reached { leases := acmeTables } .empty _
  have hrow : ∃ row, acmeDatabase.instructions.current? ⟨10⟩ = some row ∧
      (row.fields .foodGrade).isSome := by
    have hheld : ((acmeDatabase.instructions.current? ⟨10⟩).any
        fun row => (row.fields .foodGrade).isSome) := by decide +kernel
    rwa [Option.any_eq_true] at hheld
  obtain ⟨row, hrow, hdeclared⟩ := hrow
  have hid : row.id = ⟨10⟩ := Store.current?_id hrow
  obtain ⟨du, hu⟩ := exists_of_isOk (x := Service.accept .fields (.object u)) (by decide +kernel)
  obtain ⟨dv, hv⟩ := exists_of_isOk (x := Service.accept .fields (.object v)) (by decide +kernel)
  have hgiven : ∀ key ∈ u.map (·.1), u.decides Fields.counts key →
      v.decides Fields.counts key = false := by decide +kernel
  have hdisjoint : ∀ key, u.decides Fields.counts key → v.decides Fields.counts key = false := by
    intro key hkey
    obtain ⟨value, hvalue, _⟩ := Members.decides_eq_true.mp hkey
    exact hgiven key (exists_lookup_iff.mp ⟨value, hvalue⟩) hkey
  obtain ⟨_, _, hagain, hcommute, hrun⟩ :=
    field_updates_compose acmeDatabase hreached row (hid ▸ hrow) u v hu hv
  have hlater : acmeDatabase.instructions.Later after.instructions := Store.Later.same.run _
  rw [hid] at hagain hcommute hrun
  obtain ⟨fields, huv, hvu⟩ := hcommute hdisjoint ⟨2⟩ ⟨3⟩ ⟨2⟩ ⟨3⟩
  have hanswer : (update ⟨3⟩ (update ⟨2⟩ acmeDatabase u).2 v).1.toOption.map (·.fields.declared) =
      some [(.foodGrade, .flag true), (.mineralWipe, .flag false), (.nitrogenPsi, .text "")] := by
    decide +kernel
  have hfields : fields.declared =
      [(.foodGrade, .flag true), (.mineralWipe, .flag false), (.nitrogenPsi, .text "")] := by
    obtain ⟨age, hout⟩ := huv
    rw [show update ⟨3⟩ (update ⟨2⟩ acmeDatabase u).2 v = _ from hout] at hanswer
    exact Option.some.inj hanswer
  obtain ⟨row', hrow', hkept⟩ := hrun _ hlater
  exact ⟨row, fields, hrow, huv, hvu, hfields, hagain ⟨2⟩ ⟨3⟩, row', hrow', hkept _ hdeclared⟩

end CarCare

import CarCare.Proofs.Resolution.Preview

/-!
Resolution along the hierarchy: what a scope resolves to is what its parent resolves to, with the
scope's own record entered over it. A path is climbed from the scope upwards and its records are
merged from the customer downwards; this law ties the two together.

What is proved:
  1. `Path.foldl_layers_enter`: whatever is merged along a path, a scope that is entered below all
     others comes last, and the levels that a path skips make no difference.
  2. `fields_enter`, `sections_enter` and `chain_enter`: hence what the scope adds to each part.
  3. `resolution_composes`: the law for the scopes of any leasing tables, dangling ones included.
-/
namespace CarCare

/-! ## A scope below a path -/

theorem foldl_idle {α σ : Type} {step : σ → α → σ} {items : List α}
    (idle : ∀ a ∈ items, ∀ acc, step acc a = acc) (acc : σ) : items.foldl step acc = acc := by
  induction items with
  | nil => rfl
  | cons a rest ih =>
    rw [List.foldl_cons, idle a List.mem_cons_self]
    exact ih fun b hb => idle b (List.mem_cons_of_mem _ hb)

section
variable (look : Level → Uuid → Option Instruction) {above : Path} {s : Scope}

/-- The layer of a scope: the scope as a step, with its own record. -/
def Scope.layer (s : Scope) : Layer := .found look s.level ⟨some s.id, s.name⟩

theorem Path.layers_found (path : Path) :
    path.layers look = Level.all.map fun l => .found look l (path.step l) := by
  rw [Path.layers, Path.steps, List.map_map]
  rfl

theorem Path.foldl_layers_enter {σ : Type} {enter : σ → Layer → σ}
    (idle : ∀ l acc, enter acc (.found look l {}) = acc)
    (deeper : ∀ m : Level, s.level.rank ≤ m.rank → above.step m = {}) (base : σ) :
    ((above.enter s).layers look).foldl enter base =
      enter ((above.layers look).foldl enter base) (s.layer look) := by
  obtain ⟨upper, lower, hall, hupper, hlower⟩ := s.level.all_split
  have hstep : ∀ l, l ≠ s.level → (above.enter s).step l = above.step l := fun l hl =>
    Path.step_set_of_ne hl _ _
  have hself : Layer.found look s.level ((above.enter s).step s.level) = s.layer look := by
    rw [Path.enter, Path.step_set_self, Scope.layer]
  have hempty : above.step s.level = {} := deeper s.level (Nat.le_refl _)
  -- Above the scope the two paths are one, and below it both are empty.
  have hsame : upper.map (fun l => Layer.found look l ((above.enter s).step l)) =
      upper.map fun l => .found look l (above.step l) := by
    refine List.map_congr_left fun l hl => ?_
    rw [hstep l fun h => by simpa [h] using hupper l hl]
  have hidle : ∀ p : Path, (∀ l ∈ lower, p.step l = {}) → ∀ acc,
      (lower.map fun l => Layer.found look l (p.step l)).foldl enter acc = acc := by
    intro p hp acc
    rw [List.foldl_map]
    refine foldl_idle (fun l hl acc => ?_) acc
    rw [hp l hl, idle]
  have hbelow : ∀ l ∈ lower, above.step l = {} := fun l hl =>
    deeper l (Nat.le_of_lt (hlower l hl))
  have hbelow' : ∀ l ∈ lower, (above.enter s).step l = {} := fun l hl => by
    rw [hstep l fun h => by simpa [h] using hlower l hl, hbelow l hl]
  simp only [Path.layers_found, hall, List.map_append, List.map_cons, List.foldl_append,
    List.foldl_cons]
  rw [hsame, hself, hempty, idle, hidle _ hbelow, hidle _ hbelow']

/-! ## The parts of a merge -/

theorem fields_enter (deeper : ∀ m : Level, s.level.rank ≤ m.rank → above.step m = {}) (f : Field) :
    (Effective.merge (above.enter s) ((above.enter s).layers look)).fields f =
      (((look s.level s.id).bind (·.fields f)).map (⟨·, s.level⟩)).or
        ((Effective.merge above (above.layers look)).fields f) := by
  have hidle : ∀ l merged, Effective.overlayFields merged (.found look l {}) = merged := by
    intro l merged
    funext f
    exact Option.none_or
  have hfold := Path.foldl_layers_enter look hidle deeper fun _ => none
  refine (congrFun hfold f).trans ?_
  rw [Effective.overlayFields, Layer.fields_apply]
  rfl

theorem SectionMap.layer_nil (l : Level) (m : SectionMap) : m.layer l [] = m := by
  simp [layer, Section.ordered]

theorem sections_enter (deeper : ∀ m : Level, s.level.rank ≤ m.rank → above.step m = {})
    (kind : SectionKind) :
    (Effective.merge (above.enter s) ((above.enter s).layers look)).sections kind =
      ((Effective.merge above (above.layers look)).sections kind).layer s.level
        ((s.layer look).sections kind) := by
  rw [Effective.sections_merge, Effective.sections_merge]
  exact Path.foldl_layers_enter look (fun l m => m.layer_nil l) deeper _

theorem chain_enter : (Effective.merge (above.enter s) ((above.enter s).layers look)).chain =
    (Effective.merge above (above.layers look)).chain.map fun item =>
      if item.level = s.level then (s.layer look).chainItem else item := by
  show ((above.enter s).layers look).map Layer.chainItem =
    ((above.layers look).map Layer.chainItem).map _
  simp only [Path.layers_found, List.map_map]
  refine List.map_congr_left fun l _ => ?_
  show (Layer.found look l ((above.enter s).step l)).chainItem =
    if l = s.level then (s.layer look).chainItem
    else (Layer.found look l (above.step l)).chainItem
  by_cases h : l = s.level
  · subst h
    rw [if_pos rfl, Path.enter, Path.step_set_self, Scope.layer]
  · rw [if_neg h, Path.enter, Path.step_set_of_ne h]

end

/-! ## Scopes and their parents -/

theorem Directory.pathForScope_of_parent {d : Directory} (graded : Graded d.scope?) {level : Level}
    {id : Uuid} {s : Scope} {parent : Level × Uuid} {path : Path}
    (known : d.scope? level id = some s) (hangs : s.parent? = some parent)
    (above : d.pathForScope parent.1 parent.2 = .ok path) :
    d.pathForScope level id = .ok (path.enter s) := by
  obtain ⟨p, hp, _⟩ := (pathForScope_eq_ok graded).mp above
  obtain ⟨rfl, rfl⟩ := Prod.mk.inj (graded.key known)
  obtain ⟨level, id⟩ := parent
  obtain ⟨rfl, rfl⟩ := Prod.mk.inj (graded.key hp)
  exact pathForScope_child graded known hangs hp above

/-- A scope with a parent that resolves resolves as well, over any hierarchy and any store that
writes lead to: to what the parent resolves to, overridden by what the scope's own record declares.
The fields and the sections of that record that are no placeholders come from the scope's level, and
all others are the parent's; so is the chain, the item of the scope's level apart. A scope without a
record has the fields and the sections of its parent. -/
theorem resolution_composes (v : Service) (db : Database) (reached : db.instructions.Reached)
    (level : Level) (id : Uuid) (s : Scope) (known : (v.directory db).scope? level id = some s)
    (parent : Level × Uuid) (hangs : s.parent? = some parent) (above : Effective)
    (resolved : v.resolveScope db (.text parent.1.name) parent.2 = .ok above) :
    let own := db.instructions.read level id
    let declares (f : Field) := own.bind (·.fields f)
    let sections (kind : SectionKind) := (own.map (·.sections kind)).getD []
    ∃ e, v.resolveScope db (.text level.name) id = .ok e ∧
      (∀ f x, declares f = some x → e.fields f = some ⟨x, level⟩) ∧
      (∀ f, declares f = none → e.fields f = above.fields f) ∧
      (∀ kind, ∀ x ∈ sections kind, ¬ x.isPlaceholder →
        (e.sections kind).get? x.commodity = some ⟨x, level⟩) ∧
      (∀ kind c, (∀ x ∈ sections kind, ¬ x.declares c) →
        (e.sections kind).get? c = (above.sections kind).get? c) ∧
      (e.chain = above.chain.map fun item =>
        if item.level = level then
          { level, id := some id
            name := s.name.or (own.bind (·.scopeName))
            defined := Field.all.filter fun f => (declares f).isSome }
        else item) ∧
      (own = none → e.fields = above.fields ∧ ∀ kind, e.sections kind = above.sections kind) := by
  intro own declares sections
  have graded := db.leases.graded v.today
  obtain ⟨path, hpath, hrooted, rfl⟩ := Service.resolveScope_eq_ok.mp resolved
  have hlt : parent.1.rank < level.rank := graded.parent known hangs
  have hchild := Directory.pathForScope_of_parent graded known hangs hpath
  obtain ⟨rfl, rfl⟩ := Prod.mk.inj (graded.key known)
  -- The path of the parent ends above the scope.
  have hdeeper : ∀ m : Level, s.level.rank ≤ m.rank → path.step m = {} := fun m hm =>
    (Directory.pathForScope_step graded hpath).2 m (Nat.lt_of_lt_of_le hlt hm)
  have hchildRooted : (path.enter s).customer.id.isSome := by
    have hstep : (path.enter s).step .customer = path.step .customer :=
      Path.step_set_of_ne (fun h => by rw [← h] at hlt; exact Nat.not_lt_zero _ hlt) _ _
    exact (congrArg (·.id.isSome) hstep).trans hrooted
  have hfields := fields_enter (Service.reader db) hdeeper
  have hsections := sections_enter (Service.reader db) hdeeper
  have hcommodities : ∀ kind, ((sections kind).map (·.commodity)).Nodup := by
    intro kind
    cases hown : own with
    | none => simp [sections, hown]
    | some r => simpa [sections, hown] using (reached.filed.read hown).2 kind
  refine ⟨_, Service.resolveScope_of_path hchild hchildRooted, fun f x hx => ?_, fun f hnone => ?_,
    fun kind x hx hd => ?_, fun kind c hnone => ?_, ?_,
    fun hown => ⟨funext fun f => ?_, fun kind => ?_⟩⟩
  · have hx : (Service.reader db s.level s.id).bind (·.fields f) = some x := hx
    rw [hfields, hx, Option.map_some, Option.some_or]
  · have hnone : (Service.reader db s.level s.id).bind (·.fields f) = none := hnone
    rw [hfields, hnone, Option.map_none, Option.none_or]
  · have hwins := Section.winner?_of_nodup (hcommodities kind) hx hd
    rw [hsections, SectionMap.get?_layer]
    show ((Section.winner? x.commodity (sections kind)).map _).or _ = _
    rw [hwins, Option.map_some, Option.some_or]
  · have hloses := Section.winner?_eq_none.mpr hnone
    rw [hsections, SectionMap.get?_layer]
    show ((Section.winner? c (sections kind)).map _).or _ = _
    rw [hloses, Option.map_none, Option.none_or]
  · rw [chain_enter, Layer.chainItem, Fields.declared_names]
    simp only [Layer.fields_apply]
    rfl
  · have hnone : Service.reader db s.level s.id = none := hown
    rw [hfields, hnone, Option.bind_none, Option.map_none, Option.none_or]
  · have hbare : (s.layer (Service.reader db)).sections kind = [] := by
      show sections kind = []
      simp [sections, hown]
    rw [hsections, hbare, SectionMap.layer_nil]

/-- Declares an amendment of a lease over its customer, with a placeholder for what the customer
seals. -/
def composedWrites : List Write := previewedWrites ++
  [.create { today := ⟨1⟩ } ⟨⟨60⟩, ⟨3⟩⟩ (.text "amendment")
     (.text "00000000-0000-0000-0000-000000000020") (.object [("food_grade", .bool true)]) none,
   .addSection .sealing ⟨⟨61⟩, ⟨4⟩⟩ ⟨60⟩
     (.object [("commodity", .text "Latex"), ("inherit_from_parent", .bool true)])]

theorem resolution_composes_across_gap :
    let v : Service := { today := ⟨5⟩ }
    let declared := Database.run { leases := danglingTables } composedWrites
    let db : Database := { leases := danglingTables, instructions := declared.instructions }
    ∃ above e bare, v.resolveScope db (.text "master_lease") ⟨10⟩ = .ok above ∧
      above.fields .foodGrade = some ⟨.flag false, .customer⟩ ∧
      v.resolveScope db (.text "amendment") ⟨32⟩ = .ok e ∧
      e.fields .foodGrade = some ⟨.flag true, .amendment⟩ ∧
      e.fields .kosherWash = above.fields .kosherWash ∧
      e.sealing.get? "Latex" = above.sealing.get? "Latex" ∧
      v.resolveScope db (.text "rider") ⟨20⟩ = .ok bare ∧ bare.fields = above.fields := by
  intro v declared db
  have hreached : db.instructions.Reached :=
    Database.run_reached { leases := danglingTables } .empty composedWrites
  have hlease := Service.resolveScope_of_path
    (show (v.directory db).pathForScope .masterLease ⟨10⟩ = .ok _ from rfl) rfl
  obtain ⟨e, he, hown, hinherited, _, hsections, _⟩ :=
    resolution_composes v db hreached .amendment ⟨32⟩ _ rfl (.masterLease, ⟨10⟩) rfl _ hlease
  obtain ⟨bare, hbare, _, _, _, _, _, hsame⟩ :=
    resolution_composes v db hreached .rider ⟨20⟩ _ rfl (.masterLease, ⟨10⟩) rfl _ hlease
  have hdeclared : (db.instructions.read .amendment ⟨32⟩).bind (·.fields .foodGrade) =
      some (.flag true) := by decide +kernel
  have hundeclared : (db.instructions.read .amendment ⟨32⟩).bind (·.fields .kosherWash) = none := by
    decide +kernel
  have hplaceholder : ∀ x ∈ ((db.instructions.read .amendment ⟨32⟩).map
      (·.sections .sealing)).getD [], ¬ x.declares "Latex" := by decide +kernel
  have hnone : (db.instructions.read .rider ⟨20⟩).isNone := by decide +kernel
  exact ⟨_, e, bare, hlease, by decide +kernel, he, hown _ _ hdeclared,
    hinherited _ hundeclared, hsections .sealing _ hplaceholder, hbare,
    (hsame (Option.isNone_iff_eq_none.mp hnone)).1⟩

end CarCare

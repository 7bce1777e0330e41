import CarCare.Proofs.Resolution.Provenance
import CarCare.Proofs.Resolution.Requests
import CarCare.Proofs.Resolution.Sections
import CarCare.Proofs.Store.Reached

/-!
The parent preview against the merge. Where a scope declares nothing itself, the preview shows what
the merge takes from the nearest record above it.

What is proved:
  1. `fields_of_nearest` and `sections_of_nearest`: the merge of a path takes all that the nearest
     record declares; `merge_eq_empty`: without any record it is empty.
  2. `Directory.nearest?_of_bare`: a scope without a record has the nearest record of its parent.
  3. `preview_inherited` and `preview_amendment`: what the preview shows is the nearest record. That
     of a lease or a rider finds it wherever it is, that of an amendment at its parent only.
  4. `preview_agrees_with_merge`: so the preview of a scope agrees with what the scope resolves to.
-/
namespace CarCare

/-! ## The nearest record -/

section
variable (look : Level → Uuid → Option Instruction)

/-- The record of a path that is nearest to its end, with the level that it is found at. -/
def Path.nearest? (path : Path) : Option (Sourced Instruction) := Level.deepest (path.record? look)

variable {look} {path : Path} {r : Instruction} {l : Level}

theorem fields_of_nearest (h : path.nearest? look = some ⟨r, l⟩) {f : Field} {x : FieldValue}
    (hx : r.fields f = some x) :
    (Effective.merge path (path.layers look)).fields f = some ⟨x, l⟩ := by
  obtain ⟨hr, hdeeper⟩ := Level.deepest_eq_some.mp h
  rw [fields_merge]
  refine Level.deepest_eq_some.mpr ⟨?_, fun m hm => ?_⟩
  · rw [Path.declared?, hr]
    exact hx
  · rw [Path.declared?, hdeeper m hm]
    rfl

theorem sections_of_nearest (h : path.nearest? look = some ⟨r, l⟩) {kind : SectionKind}
    (commodities : ((r.sections kind).map (·.commodity)).Nodup) {s : Section}
    (hs : s ∈ r.sections kind) (hd : ¬ s.isPlaceholder) :
    ((Effective.merge path (path.layers look)).sections kind).get? s.commodity =
      some ⟨s, l⟩ := by
  obtain ⟨hr, hdeeper⟩ := Level.deepest_eq_some.mp h
  rw [sections_merge]
  refine Level.deepest_eq_some.mpr ⟨?_, fun m hm => ?_⟩
  · rw [Path.sections, hr]
    exact Section.winner?_of_nodup commodities hs hd
  · rw [Path.sections, hdeeper m hm]
    exact Section.winner?_nil _

theorem SectionMap.eq_nil {m : SectionMap} (h : ∀ c, m.get? c = none) : m = [] := by
  cases m with
  | nil => rfl
  | cons head rest =>
    have hhead := h head.1
    simp [get?] at hhead

theorem merge_eq_empty (h : path.nearest? look = none) :
    (∀ f, (Effective.merge path (path.layers look)).fields f = none) ∧
      ∀ kind, (Effective.merge path (path.layers look)).sections kind = [] := by
  have hnone := Level.deepest_eq_none.mp h
  refine ⟨fun f => ?_, fun kind => SectionMap.eq_nil fun c => ?_⟩
  · rw [fields_merge]
    refine Level.deepest_eq_none.mpr fun m => ?_
    rw [Path.declared?, hnone m]
    rfl
  · rw [sections_merge]
    refine Level.deepest_eq_none.mpr fun m => ?_
    rw [Path.sections, hnone m]
    exact Section.winner?_nil _

end

/-! ## Climbing to it -/

namespace Directory
variable {d : Directory} {look : Level → Uuid → Option Instruction} {level : Level} {id : Uuid}
  {path : Path}

theorem nearest?_of_read (graded : Graded d.scope?) (h : d.pathForScope level id = .ok path)
    {r : Instruction} (hr : look level id = some r) : path.nearest? look = some ⟨r, level⟩ := by
  obtain ⟨hstep, hdeeper⟩ := pathForScope_step graded h
  refine Level.deepest_eq_some.mpr ⟨?_, fun m hm => ?_⟩
  · rw [Path.record?, hstep]
    exact hr
  · rw [Path.record?, hdeeper m hm]
    rfl

theorem nearest?_customer (graded : Graded d.scope?) (h : d.pathForScope .customer id = .ok path) :
    (path.nearest? look).map (·.value) = look .customer id := by
  cases hr : look .customer id with
  | some r => rw [nearest?_of_read graded h hr, Option.map_some]
  | none =>
    obtain ⟨hstep, hdeeper⟩ := pathForScope_step graded h
    have hnone : path.nearest? look = none := by
      refine Level.deepest_eq_none.mpr fun m => ?_
      cases m with
      | customer =>
        rw [Path.record?, hstep]
        exact hr
      | masterLease | rider | amendment =>
        rw [Path.record?, hdeeper _ (by decide)]
        rfl
    rw [hnone, Option.map_none]

/-- A scope without a record adds none to the path that it is entered into. -/
theorem nearest?_enter {above : Path} {s : Scope} (free : above.step s.level = {})
    (bare : look s.level s.id = none) : (above.enter s).nearest? look = above.nearest? look := by
  refine congrArg Level.deepest (funext fun m => ?_)
  unfold Path.record? Path.enter
  by_cases hm : m = s.level
  · subst hm
    rw [Path.step_set_self, free]
    exact bare
  · rw [Path.step_set_of_ne hm]

theorem nearest?_of_bare (graded : Graded d.scope?) (h : d.pathForScope level id = .ok path)
    (rooted : path.customer.id.isSome) (deeper : level ≠ .customer) (bare : look level id = none) :
    ∃ s parent above, d.scope? level id = some s ∧ s.parent? = some parent ∧
      parent.1.rank < level.rank ∧ d.pathForScope parent.1 parent.2 = .ok above ∧
      above.customer.id.isSome ∧ path.nearest? look = above.nearest? look := by
  obtain ⟨s, parent, above, hs, hparent, hlt, habove, hrooted, rfl⟩ :=
    pathForScope_parent graded h rooted deeper
  obtain ⟨rfl, rfl⟩ := Prod.mk.inj (graded.key hs)
  have hfree := (pathForScope_step graded habove).2 s.level hlt
  exact ⟨s, parent, above, hs, hparent, hlt, habove, hrooted, nearest?_enter hfree bare⟩

end Directory

/-! ## The preview -/

theorem Scope.parent?_eq_some {s : Scope} {parent : Level × Uuid} :
    s.parent? = some parent ↔ s.parentLevel = some parent.1 ∧ s.parentId = some parent.2 := by
  obtain ⟨level, id⟩ := parent
  unfold parent?
  cases s.parentLevel <;> cases s.parentId <;> simp

theorem LeaseTables.rider_parent? {t : LeaseTables} {today : Date} {id : Uuid} {s : Scope}
    (h : (t.directory today).scope? .rider id = some s) :
    ∃ lease, s.parent? = some (.masterLease, lease) := by
  obtain ⟨rider, _, hs⟩ := Option.bind_eq_some_iff.mp h
  obtain ⟨lease, _, rfl⟩ := Option.map_eq_some_iff.mp hs
  exact ⟨rider.leaseId, rfl⟩

section
variable {t : LeaseTables} {today : Date} {look : Level → Uuid → Option Instruction} {id : Uuid}
  {path : Path}

theorem parentPreview_direct {d : Directory} {level : Level} {s : Scope} {parent : Level × Uuid}
    (kind : level = .masterLease ∨ level = .amendment) (hs : d.scope? level id = some s)
    (hparent : s.parent? = some parent) :
    parentPreview (m := Id) d look level id = look parent.1 parent.2 := by
  rcases kind with rfl | rfl <;>
    simp only [parentPreview, hs, Option.bind_some, hparent]

theorem previewOfRider_eq (d : Directory) (look : Level → Uuid → Option Instruction)
    (lease : Uuid) : previewOfRider (m := Id) d look lease =
      (look .masterLease lease).or
        (((d.scope? .masterLease lease).bind (·.parentId)).bind (look .customer)) := by
  unfold previewOfRider
  cases hr : look .masterLease lease with
  | some r => rfl
  | none => cases hc : (d.scope? .masterLease lease).bind (·.parentId) <;> rfl

theorem parentPreview_rider {d : Directory} {s : Scope} {lease : Uuid}
    (hs : d.scope? .rider id = some s) (hparent : s.parent? = some (.masterLease, lease)) :
    parentPreview (m := Id) d look .rider id =
      (look .masterLease lease).or
        (((d.scope? .masterLease lease).bind (·.parentId)).bind (look .customer)) := by
  have hlease := (Scope.parent?_eq_some.mp hparent).2
  rw [← previewOfRider_eq]
  simp only [parentPreview, hs, Option.bind_some, hlease]

theorem preview_lease (h : (t.directory today).pathForScope .masterLease id = .ok path)
    (rooted : path.customer.id.isSome) (bare : look .masterLease id = none) :
    parentPreview (m := Id) (t.directory today) look .masterLease id =
      (path.nearest? look).map (·.value) := by
  have graded := t.graded today
  obtain ⟨s, ⟨level, parent⟩, above, hs, hparent, hlt, habove, _, hnearest⟩ :=
    Directory.nearest?_of_bare graded h rooted nofun bare
  obtain rfl : level = .customer := Level.rank_inj (Nat.lt_one_iff.mp hlt)
  rw [parentPreview_direct (.inl rfl) hs hparent, hnearest,
    Directory.nearest?_customer graded habove]

theorem preview_rider (h : (t.directory today).pathForScope .rider id = .ok path)
    (rooted : path.customer.id.isSome) (bare : look .rider id = none) :
    parentPreview (m := Id) (t.directory today) look .rider id =
      (path.nearest? look).map (·.value) := by
  have graded := t.graded today
  obtain ⟨s, parent, above, hs, hparent, _, habove, hrooted, hnearest⟩ :=
    Directory.nearest?_of_bare graded h rooted nofun bare
  obtain ⟨lease, hlease⟩ := LeaseTables.rider_parent? hs
  obtain rfl := Option.some.inj (hlease.symm.trans hparent)
  rw [parentPreview_rider hs hlease, hnearest]
  cases hr : look .masterLease lease with
  | some r => rw [Directory.nearest?_of_read graded habove hr, Option.some_or, Option.map_some]
  | none =>
    -- What the lease would inherit is one step further up, at its customer.
    obtain ⟨_, ⟨level, customer⟩, top, hl, hparent, hlt, htop, _, hnearest⟩ :=
      Directory.nearest?_of_bare graded habove hrooted nofun hr
    obtain rfl : level = .customer := Level.rank_inj (Nat.lt_one_iff.mp hlt)
    rw [hnearest, Directory.nearest?_customer graded htop, Option.none_or, hl, Option.bind_some,
      (Scope.parent?_eq_some.mp hparent).2, Option.bind_some]

/-- The preview of a lease or a rider finds the nearest record wherever it is. -/
theorem preview_inherited {level : Level}
    (h : (t.directory today).pathForScope level id = .ok path) (rooted : path.customer.id.isSome)
    (deeper : level ≠ .customer) (climbs : level ≠ .amendment) (bare : look level id = none) :
    parentPreview (m := Id) (t.directory today) look level id =
      (path.nearest? look).map (·.value) := by
  cases level with
  | customer => exact absurd rfl deeper
  | masterLease => exact preview_lease h rooted bare
  | rider => exact preview_rider h rooted bare
  | amendment => exact absurd rfl climbs

theorem preview_amendment (h : (t.directory today).pathForScope .amendment id = .ok path)
    (rooted : path.customer.id.isSome) (bare : look .amendment id = none) {r : Instruction}
    (hr : parentPreview (m := Id) (t.directory today) look .amendment id = some r) :
    ∃ l, path.nearest? look = some ⟨r, l⟩ := by
  have graded := t.graded today
  obtain ⟨s, parent, above, hs, hparent, _, habove, _, hnearest⟩ :=
    Directory.nearest?_of_bare graded h rooted nofun bare
  rw [parentPreview_direct (.inr rfl) hs hparent] at hr
  exact ⟨parent.1, hnearest ▸ Directory.nearest?_of_read graded habove hr⟩

end

theorem Service.preview_name (v : Service) (db : Database) (level : Level) (id : Uuid) :
    v.preview db (.text level.name) id =
      .ok (parentPreview (m := Id) (v.directory db) (reader db) level id) := by
  rw [preview, Level.parse_name]
  rfl

/-- For a scope below the customers that has no current record and resolves, the preview agrees with
what it resolves to, over any hierarchy and any store that writes lead to. If the preview shows a
record, the scope takes from the record's level every field that the record declares and every
section of it that is no placeholder. If the preview of a lease or a rider shows none, the scope has
neither fields nor sections. -/
theorem preview_agrees_with_merge (v : Service) (db : Database) (reached : db.instructions.Reached)
    (level : Level) (id : Uuid) (e : Effective) (deeper : level ≠ .customer)
    (bare : db.instructions.read level id = none)
    (resolved : v.resolveScope db (.text level.name) id = .ok e) :
    ∃ preview, v.preview db (.text level.name) id = .ok preview ∧
      (∀ r, preview = some r → ∃ l, r.level = some l ∧
        (∀ f x, r.fields f = some x → e.fields f = some ⟨x, l⟩) ∧
        ∀ kind, ∀ s ∈ r.sections kind, ¬ s.isPlaceholder →
          (e.sections kind).get? s.commodity = some ⟨s, l⟩) ∧
      (preview = none → level ≠ .amendment →
        (∀ f, e.fields f = none) ∧ ∀ kind, e.sections kind = []) := by
  obtain ⟨path, hpath, hrooted, rfl⟩ := Service.resolveScope_eq_ok.mp resolved
  refine ⟨_, v.preview_name db level id, fun r hr => ?_, fun hnone hlevel => ?_⟩
  · obtain ⟨l, hl⟩ : ∃ l, path.nearest? (Service.reader db) = some ⟨r, l⟩ := by
      by_cases hamendment : level = .amendment
      · subst hamendment
        exact preview_amendment hpath hrooted bare hr
      · have hnearest := preview_inherited hpath hrooted deeper hamendment bare
        obtain ⟨⟨_, l⟩, hl, rfl⟩ := Option.map_eq_some_iff.mp (hnearest.symm.trans hr)
        exact ⟨l, hl⟩
    obtain ⟨scope, _, hread⟩ := Option.bind_eq_some_iff.mp (Level.deepest_eq_some.mp hl).1
    obtain ⟨hlevel, hcommodities⟩ := reached.filed.read hread
    exact ⟨l, hlevel, fun f x => fields_of_nearest hl, fun kind s hs =>
      sections_of_nearest hl (hcommodities kind) hs⟩
  · have hnearest := preview_inherited hpath hrooted deeper hlevel bare
    exact merge_eq_empty (Option.map_eq_none_iff.mp (hnearest.symm.trans hnone))

/-- Declares a customer's instruction with a sealing and a placeholder. -/
def previewedWrites : List Write :=
  [acmeCreate ⟨50⟩ 0,
   .addSection .sealing ⟨⟨51⟩, ⟨1⟩⟩ ⟨50⟩ (.object [("commodity", .text "Latex")]),
   .addSection .sealing ⟨⟨52⟩, ⟨2⟩⟩ ⟨50⟩
     (.object [("commodity", .text "Molasses"), ("inherit_from_parent", .bool true)])]

theorem previewedWrites_row : ∃ row,
    (Database.run { leases := danglingTables } previewedWrites).instructions.byScope?
      .customer ⟨1⟩ = some row ∧
    row.level = .customer ∧ row.fields .foodGrade = some (.flag false) ∧
    ∃ x ∈ row.sealing, x.commodity = "Latex" ∧ x.inherits = false := by
  have h : ((Database.run { leases := danglingTables } previewedWrites).instructions.byScope?
      .customer ⟨1⟩).any fun row =>
        row.level == .customer && row.fields .foodGrade == some (.flag false) &&
          row.sealing.any fun x => x.commodity == "Latex" && !x.inherits := by decide +kernel
  simpa [Option.any_eq_true, and_assoc] using h

theorem preview_agrees_with_merge_rider :
    let v : Service := { today := ⟨5⟩ }
    let declared := Database.run { leases := danglingTables } previewedWrites
    let db : Database := { leases := danglingTables, instructions := declared.instructions }
    (∃ r e, v.preview db (.text "rider") ⟨20⟩ = .ok (some r) ∧ r.level = some .customer ∧
      v.resolveScope db (.text "rider") ⟨20⟩ = .ok e ∧
      e.fields .foodGrade = some ⟨.flag false, .customer⟩ ∧
      ∃ s ∈ r.sealing, e.sealing.get? "Latex" = some ⟨s, .customer⟩) ∧
    ∃ e, v.resolveScope { leases := danglingTables } (.text "rider") ⟨20⟩ = .ok e ∧
      (∀ f, e.fields f = none) ∧ e.sealing = [] := by
  intro v declared db
  constructor
  · have hreached : db.instructions.Reached :=
      Database.run_reached { leases := danglingTables } .empty previewedWrites
    have hbare : ∀ scope ∈ [(Level.rider, (⟨20⟩ : Uuid)), (.masterLease, ⟨10⟩)],
        (db.instructions.read scope.1 scope.2).isNone := by decide +kernel
    have hnone := Option.isNone_iff_eq_none.mp (hbare (.rider, ⟨20⟩) (by simp))
    have hlease := Option.isNone_iff_eq_none.mp (hbare (.masterLease, ⟨10⟩) (by simp))
    obtain ⟨row, hrow, hlevel, hgrade, x, hx, hlatex, hinherits⟩ := previewedWrites_row
    have hresolved := Service.resolveScope_of_path
      (show (v.directory db).pathForScope .rider ⟨20⟩ = .ok _ from rfl) rfl
    obtain ⟨preview, hpreview, hsome, _⟩ :=
      preview_agrees_with_merge v db hreached .rider ⟨20⟩ _ nofun hnone hresolved
    have hshown : preview = some row.read := by
      rw [Service.preview_name] at hpreview
      rw [← Except.ok.inj hpreview]
      refine (previewOfRider_eq (v.directory db) (Service.reader db) ⟨10⟩).trans ?_
      show (db.instructions.read .masterLease ⟨10⟩).or (db.instructions.read .customer ⟨1⟩) = _
      rw [hlease, Option.none_or]
      exact congrArg (Option.map InstructionRow.read) hrow
    obtain ⟨l, hl, hfields, hsections⟩ := hsome row.read hshown
    obtain rfl : row.level = l := Option.some.inj hl
    have hmem : x.toSection row.id ∈ row.read.sections .sealing := by
      rw [row.read_sections]
      exact List.mem_map_of_mem (List.mem_mergeSort.mpr hx)
    have hwins := hsections .sealing _ hmem
      (by simp [Section.isPlaceholder, SectionRow.toSection, hinherits])
    rw [hlevel] at hl hfields hwins
    refine ⟨row.read, _, hshown ▸ hpreview, hl, hresolved, hfields _ _ hgrade, _, hmem, ?_⟩
    rw [← hlatex]
    exact hwins
  · have hresolved := Service.resolveScope_of_path
      (show (v.directory { leases := danglingTables }).pathForScope .rider ⟨20⟩ = .ok _ from rfl) rfl
    obtain ⟨preview, hpreview, _, hempty⟩ :=
      preview_agrees_with_merge v { leases := danglingTables } .empty .rider ⟨20⟩ _ nofun rfl hresolved
    have hnone := hempty (Except.ok.inj hpreview).symm nofun
    exact ⟨_, hresolved, hnone.1, hnone.2 .sealing⟩

end CarCare

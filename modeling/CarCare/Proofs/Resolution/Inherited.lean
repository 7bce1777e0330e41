import CarCare.Proofs.Resolution.Preview
import CarCare.Proofs.Store.Soundness

/-!
Which record the parent preview of a scope is, over hierarchies whose references may dangle.

The preview follows the ids that rows refer to, and asks for records there without asking whether
there is such a row. A path follows the scopes that are found. The two part where a reference
dangles; but over tables that stay as they are, no record is declared at a scope that they do not
know.

What is proved:
  1. `Store.Sound.located`: a record that is read is declared at a known scope.
  2. `Directory.inherited?_step`: a scope inherits the record of its parent, or else what the parent
     inherits, whether the parent is known or not.
  3. `LeaseTables.parentPreview_inherited`: the preview of a lease or a rider is what it inherits.
  4. `LeaseTables.parentPreview_source`: the preview of any scope is declared at a more general
     level.
  5. `preview_rule`: what the preview is, scope by scope.
-/
namespace CarCare

/-! ## Records at known scopes -/

theorem Store.Sound.located {s : Store} {t : LeaseTables} (h : s.Sound t) {level : Level}
    {scope : Uuid} {r : Instruction} (hr : s.read level scope = some r) (today : Date) :
    ((t.directory today).scope? level scope).isSome := by
  obtain ⟨row, hrow, rfl⟩ := Option.map_eq_some_iff.mp hr
  obtain ⟨hmem, _, hget⟩ := byScope?_eq_some hrow
  obtain ⟨own, hown, hknown⟩ := (h.rows row hmem).located
  rw [hown] at hget
  have hlevel : level = row.level := by
    by_contra hne
    rw [ScopeIds.get_only_of_ne hne] at hget
    cases hget
  subst hlevel
  rw [ScopeIds.get_only_self] at hget
  rw [← Option.some.inj hget]
  exact hknown today

theorem Store.Filed.read_current {s : Store} (h : s.Filed) {level : Level} {scope : Uuid}
    {r : Instruction} (hr : s.read level scope = some r) :
    r.isCurrent = some true ∧ r.level = some level ∧ r.scopeId = some scope := by
  have hlevel := (h.read hr).1
  obtain ⟨row, hrow, rfl⟩ := Option.map_eq_some_iff.mp hr
  obtain ⟨_, hcurrent, hget⟩ := byScope?_eq_some hrow
  refine ⟨congrArg some hcurrent, hlevel, ?_⟩
  rw [Instruction.scopeId, hlevel]
  exact hget

/-! ## What a scope inherits -/

/-- A record that is the nearest one of a path above a level: one at a more general level, with none
at the levels between. -/
structure Path.NearestAbove (path : Path) (look : Level → Uuid → Option Instruction)
    (level : Level) (r : Instruction) (l : Level) : Prop where
  above : l.rank < level.rank
  record : path.record? look l = some r
  between : ∀ m : Level, l.rank < m.rank → m.rank < level.rank → path.record? look m = none

namespace Directory

/-- The nearest record above a scope. -/
def inherited? (d : Directory) (look : Level → Uuid → Option Instruction) (s : Scope) :
    Option Instruction :=
  ((d.above s).nearest? look).map (·.value)

variable {d : Directory} {look : Level → Uuid → Option Instruction} {level : Level} {id : Uuid}
  {s : Scope} {r : Instruction}

theorem inherited?_eq_some (graded : Graded d.scope?) (known : d.scope? s.level s.id = some s) :
    d.inherited? look s = some r ↔
      ∃ l, ((d.above s).enter s).NearestAbove look s.level r l := by
  have habove : ∀ m : Level, m.rank < s.level.rank →
      ((d.above s).enter s).record? look m = (d.above s).record? look m := by
    intro m hm
    have hne : m ≠ s.level := fun h => Nat.lt_irrefl _ (h ▸ hm)
    rw [Path.record?, Path.enter, Path.step_set_of_ne hne]
    rfl
  have hdeeper : ∀ m : Level, s.level.rank ≤ m.rank → (d.above s).record? look m = none := by
    intro m hm
    rw [Path.record?, above_deeper graded known m hm]
    rfl
  have hsome : d.inherited? look s = some r ↔ ∃ l, (d.above s).nearest? look = some ⟨r, l⟩ := by
    rw [inherited?, Option.map_eq_some_iff]
    constructor
    · rintro ⟨⟨_, l⟩, h, rfl⟩
      exact ⟨l, h⟩
    · rintro ⟨l, h⟩
      exact ⟨_, h, rfl⟩
  rw [hsome]
  refine exists_congr fun l => Iff.trans Level.deepest_eq_some ?_
  constructor
  · rintro ⟨hrecord, hnone⟩
    have hl : l.rank < s.level.rank := by
      by_contra hge
      rw [hdeeper l (Nat.le_of_not_lt hge)] at hrecord
      cases hrecord
    exact ⟨hl, (habove l hl).trans hrecord, fun m hm hlt => (habove m hlt).trans (hnone m hm)⟩
  · rintro ⟨hl, hrecord, hbetween⟩
    refine ⟨(habove l hl).symm.trans hrecord, fun m hm => ?_⟩
    by_cases hlt : m.rank < s.level.rank
    · exact (habove m hlt).symm.trans (hbetween m hm hlt)
    · exact hdeeper m (Nat.le_of_not_lt hlt)

/-- A scope inherits the record of its parent, or else what the parent inherits. A parent that is
not known has neither. -/
theorem inherited?_step (graded : Graded d.scope?)
    (located : ∀ {l i r}, look l i = some r → (d.scope? l i).isSome)
    (found : d.scope? level id = some s) {l : Level} {i : Uuid} (link : s.parent? = some (l, i)) :
    d.inherited? look s = (look l i).or ((d.scope? l i).bind (d.inherited? look)) := by
  obtain ⟨rfl, rfl⟩ := Prod.mk.inj (graded.key found)
  have hfound : s.found? d.scope? = d.scope? l i := by rw [Scope.found?, link, Option.bind_some]
  cases hparent : d.scope? l i with
  | none =>
    have hlook : look l i = none := by
      by_contra hsome
      obtain ⟨r, hr⟩ := Option.ne_none_iff_exists'.mp hsome
      have := located hr
      rw [hparent] at this
      cases this
    rw [inherited?, above, hfound, hparent, hlook]
    rfl
  | some parent =>
    obtain ⟨rfl, rfl⟩ := Prod.mk.inj (graded.key hparent)
    rw [inherited?, above_of_found graded found (hfound.trans hparent)]
    cases hr : look parent.level parent.id with
    | some r =>
      rw [nearest?_of_read graded (pathForScope_ok graded hparent) hr]
      rfl
    | none =>
      have hfree := above_deeper graded hparent parent.level (Nat.le_refl _)
      rw [nearest?_enter hfree hr]
      rfl

theorem inherited?_customer (graded : Graded d.scope?) (found : d.scope? .customer id = some s) :
    d.inherited? look s = none := by
  obtain ⟨hlevel, rfl⟩ := Prod.mk.inj (graded.key found)
  rw [inherited?, Option.map_eq_none_iff]
  refine Level.deepest_eq_none.mpr fun m => ?_
  rw [Path.record?, above_deeper graded (hlevel.symm ▸ found) m (hlevel ▸ Nat.zero_le _)]
  rfl

end Directory

/-! ## The preview -/

namespace LeaseTables
variable {t : LeaseTables} {today : Date} {look : Level → Uuid → Option Instruction} {id : Uuid}
  {s : Scope} {r : Instruction}

theorem lease_parent? (h : (t.directory today).scope? .masterLease id = some s) :
    ∃ customer, s.parent? = some (.customer, customer) := by
  obtain ⟨lease, _, rfl⟩ := Option.map_eq_some_iff.mp h
  exact ⟨lease.customerId, rfl⟩

theorem parentPreview_unknown {d : Directory} {level : Level} (h : d.scope? level id = none) :
    parentPreview (m := Id) d look level id = none := by
  cases level <;> simp only [parentPreview, h, Option.bind_none] <;> rfl

theorem inherited?_lease
    (located : ∀ {l i r}, look l i = some r → ((t.directory today).scope? l i).isSome)
    (h : (t.directory today).scope? .masterLease id = some s) :
    (t.directory today).inherited? look s = s.parentId.bind (look .customer) := by
  have graded := t.graded today
  obtain ⟨customer, link⟩ := lease_parent? h
  have htop : ((t.directory today).scope? .customer customer).bind
      ((t.directory today).inherited? look) = none := by
    cases hc : (t.directory today).scope? .customer customer with
    | none => rfl
    | some c => exact Directory.inherited?_customer graded hc
  rw [Directory.inherited?_step graded located h link, htop, Option.or_none,
    (Scope.parent?_eq_some.mp link).2, Option.bind_some]

theorem parentPreview_inherited {level : Level} (climbs : level = .masterLease ∨ level = .rider)
    (located : ∀ {l i r}, look l i = some r → ((t.directory today).scope? l i).isSome)
    (h : (t.directory today).scope? level id = some s) :
    parentPreview (m := Id) (t.directory today) look level id =
      (t.directory today).inherited? look s := by
  have graded := t.graded today
  rcases climbs with rfl | rfl
  · obtain ⟨customer, link⟩ := lease_parent? h
    rw [parentPreview_direct (.inl rfl) h link, inherited?_lease located h,
      (Scope.parent?_eq_some.mp link).2, Option.bind_some]
  · obtain ⟨lease, link⟩ := rider_parent? h
    rw [parentPreview_rider h link, Directory.inherited?_step graded located h link]
    congr 1
    cases hl : (t.directory today).scope? .masterLease lease with
    | none => rfl
    | some l =>
      rw [Option.bind_some, Option.bind_some]
      exact (inherited?_lease located hl).symm

/-- The preview of an amendment is the record of its rider, or of its lease if it names no rider. -/
theorem parentPreview_amendment {a : Amendment} (h : t.amendment? id = some a) :
    parentPreview (m := Id) (t.directory today) look .amendment id =
      a.parent?.bind fun (level, parent) => look level parent := by
  have hs : (t.directory today).scope? .amendment id = some (t.amendmentScope today a) :=
    congrArg (Option.map (t.amendmentScope today)) h
  have hparent : (t.amendmentScope today a).parent? = a.parent? := Amendment.toScope_parent? a _ _
  simp only [parentPreview, hs, Option.bind_some, hparent]
  cases a.parent? <;> rfl

theorem parentPreview_source {level : Level}
    (h : parentPreview (m := Id) (t.directory today) look level id = some r) :
    ∃ l i, l.rank < level.rank ∧ look l i = some r := by
  have direct : level = .masterLease ∨ level = .amendment →
      ∃ l i, l.rank < level.rank ∧ look l i = some r := by
    intro kind
    cases hlink : ((t.directory today).scope? level id).bind (·.parent?) with
    | none => rcases kind with rfl | rfl <;> simp [parentPreview, hlink] at h
    | some parent =>
      obtain ⟨s, hs, hparent⟩ := Option.bind_eq_some_iff.mp hlink
      rw [parentPreview_direct kind hs hparent] at h
      exact ⟨parent.1, parent.2, (t.graded today).parent hs hparent, h⟩
  cases level with
  | customer => cases h
  | masterLease => exact direct (.inl rfl)
  | amendment => exact direct (.inr rfl)
  | rider =>
    cases hs : (t.directory today).scope? .rider id with
    | none =>
      rw [parentPreview_unknown hs] at h
      cases h
    | some s =>
      obtain ⟨lease, link⟩ := rider_parent? hs
      rw [parentPreview_rider hs link, Option.or_eq_some_iff] at h
      rcases h with h | ⟨_, h⟩
      · exact ⟨.masterLease, lease, by decide, h⟩
      · obtain ⟨customer, _, h⟩ := Option.bind_eq_some_iff.mp h
        exact ⟨.customer, customer, by decide, h⟩

end LeaseTables

/-- What the parent preview is, over leasing tables whose references may dangle and any store that
writes lead to. A customer has none, and neither has a scope that is not known. That of a lease or a
rider is the nearest record above it on its path, and there is none if no scope above has a record.
That of an amendment is the record of its rider, or of its lease if it names no rider, and of
nothing further up. The record that is previewed is a current one, declared at a more general level,
and so never that of the scope itself. -/
theorem preview_rule (leases : LeaseTables) (writes : List Write) (v : Service) (level : Level)
    (id : Uuid) :
    let db := Database.run { leases } writes
    let d := v.directory db
    let read := db.instructions.read
    ∃ preview, v.preview db (.text level.name) id = .ok preview ∧
      (level = .customer ∨ d.scope? level id = none → preview = none) ∧
      (level = .masterLease ∨ level = .rider → (d.scope? level id).isSome →
        ∃ path, d.pathForScope level id = .ok path ∧
          ∀ r, preview = some r ↔ ∃ l, path.NearestAbove read level r l) ∧
      (level = .amendment → ∀ a, leases.amendment? id = some a →
        (∀ rider, a.riderId = some rider → preview = read .rider rider) ∧
        (a.riderId = none → preview = a.leaseId.bind (read .masterLease))) ∧
      ∀ r, preview = some r → r.isCurrent = some true ∧
        (∃ l i, l.rank < level.rank ∧ r.level = some l ∧ r.scopeId = some i ∧
          read l i = some r) ∧
        read level id ≠ some r := by
  intro db d read
  obtain ⟨hleases, sound⟩ := Database.run_sound { leases } (.empty leases) writes
  have filed := (Database.run_reached { leases } .empty writes).filed
  have located : ∀ {l i r}, read l i = some r → (d.scope? l i).isSome :=
    fun hr => Store.Sound.located sound hr v.today
  refine ⟨_, v.preview_name db level id, ?_, ?_, ?_, ?_⟩
  · rintro (rfl | hunknown)
    · rfl
    · exact LeaseTables.parentPreview_unknown hunknown
  · intro climbs known
    obtain ⟨s, hs⟩ := Option.isSome_iff_exists.mp known
    have graded : Graded d.scope? := db.leases.graded v.today
    have hpreview : parentPreview (m := Id) d read level id = d.inherited? read s :=
      LeaseTables.parentPreview_inherited climbs located hs
    refine ⟨_, Directory.pathForScope_ok graded hs, fun r => ?_⟩
    obtain ⟨rfl, rfl⟩ := Prod.mk.inj (graded.key hs)
    exact (iff_of_eq (congrArg (· = some r) hpreview)).trans
      (Directory.inherited?_eq_some graded hs)
  · rintro rfl a ha
    have ha : db.leases.amendment? id = some a := by rw [hleases]; exact ha
    have hpreview : parentPreview (m := Id) d read .amendment id =
        a.parent?.bind fun (level, parent) => read level parent :=
      LeaseTables.parentPreview_amendment ha
    rw [Amendment.parent?] at hpreview
    refine ⟨fun rider hrider => ?_, fun hrider => ?_⟩
    · rw [hrider] at hpreview
      exact hpreview
    · rw [hrider] at hpreview
      refine hpreview.trans ?_
      cases a.leaseId <;> rfl
  · intro r hr
    obtain ⟨l, i, hlt, hread⟩ := LeaseTables.parentPreview_source hr
    obtain ⟨hcurrent, hlevel, hscope⟩ := filed.read_current hread
    refine ⟨hcurrent, ⟨l, i, hlt, hlevel, hscope, hread⟩, fun hself => ?_⟩
    obtain rfl := Option.some.inj (hlevel.symm.trans (filed.read hself).1)
    exact Nat.lt_irrefl _ hlt

/-- Declares a customer's instruction, and one at a lease of the customer that is retired again. -/
def retiredBetweenWrites : List Write := previewedWrites ++
  [.create { today := ⟨1⟩ } ⟨⟨60⟩, ⟨3⟩⟩ (.text "master_lease")
     (.text "00000000-0000-0000-0000-00000000000a") (.object [("food_grade", .bool true)]) none,
   .delete ⟨4⟩ ⟨60⟩]

/-- The rider looks past the retired record of its lease, the amendment of that lease does not, and
a lease whose customer is missing has nothing to inherit. -/
theorem preview_rule_retired_between :
    let v : Service := { today := ⟨5⟩ }
    let db := Database.run { leases := danglingTables } retiredBetweenWrites
    (∃ r ∈ db.instructions.rows, r.id = ⟨60⟩ ∧ r.isCurrent = false) ∧
      (∃ r, v.preview db (.text "rider") ⟨20⟩ = .ok (some r) ∧ r.level = some .customer ∧
        r.scopeId = some ⟨1⟩ ∧ r.isCurrent = some true) ∧
      v.preview db (.text "amendment") ⟨32⟩ = .ok none ∧
      v.preview db (.text "master_lease") ⟨11⟩ = .ok none := by
  intro v db
  have hd : v.directory db = danglingTables.directory ⟨5⟩ := congrArg (LeaseTables.directory · ⟨5⟩)
    (Database.run_sound { leases := danglingTables } (.empty _) retiredBetweenWrites).1
  have hreads : (db.instructions.read .customer ⟨1⟩).isSome ∧
      (db.instructions.read .masterLease ⟨10⟩).isNone := by decide +kernel
  obtain ⟨r, hr⟩ := Option.isSome_iff_exists.mp hreads.1
  have hlease := Option.isNone_iff_eq_none.mp hreads.2
  refine ⟨by decide +kernel, ?_, ?_, ?_⟩
  · obtain ⟨preview, hpreview, _, hclimb, _, hsource⟩ :=
      preview_rule danglingTables retiredBetweenWrites v .rider ⟨20⟩
    obtain ⟨path, hpath, hnearest⟩ := hclimb (.inr rfl) (by rw [hd]; decide)
    rw [hd] at hpath
    obtain rfl := Except.ok.inj hpath
    have hshown : preview = some r := by
      refine (hnearest r).mpr ⟨.customer, by decide, hr, fun m hm hlt => ?_⟩
      cases m with
      | masterLease => exact hlease
      | customer | rider | amendment => exact absurd (And.intro hm hlt) (by decide)
    have hreached :=
      Database.run_reached { leases := danglingTables } .empty retiredBetweenWrites
    obtain ⟨_, hlevel, hscope⟩ := hreached.filed.read_current hr
    exact ⟨r, hshown ▸ hpreview, hlevel, hscope, (hsource r hshown).1⟩
  · obtain ⟨preview, hpreview, _, _, hamendment, _⟩ :=
      preview_rule danglingTables retiredBetweenWrites v .amendment ⟨32⟩
    have hnone := (hamendment rfl ⟨⟨32⟩, none, some ⟨10⟩, "A32", some "Wash", ⟨5⟩⟩ rfl).2 rfl
    exact hpreview.trans (congrArg Except.ok (hnone.trans hlease))
  · obtain ⟨preview, hpreview, _, hclimb, _, _⟩ :=
      preview_rule danglingTables retiredBetweenWrites v .masterLease ⟨11⟩
    obtain ⟨path, hpath, hnearest⟩ := hclimb (.inl rfl) (by rw [hd]; decide)
    rw [hd] at hpath
    obtain rfl := Except.ok.inj hpath
    have hnone : preview = none := by
      refine Option.eq_none_iff_forall_ne_some.mpr fun r hr => ?_
      obtain ⟨l, hl⟩ := (hnearest r).mp hr
      cases l with
      | customer => cases hl.record
      | masterLease | rider | amendment => exact absurd hl.above (by decide)
    exact hpreview.trans (congrArg Except.ok hnone)

end CarCare

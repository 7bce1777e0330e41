import CarCare.Proofs.Resolution.Editing
import CarCare.Proofs.Schema.SectionPayload
import CarCare.Proofs.Store.Faults

/-!
Places in the display order: they, and the order in which a record lists its sections, make no
difference to what is resolved, because a record holds one section at most for a commodity.

What is proved:
  1. `Section.winner?_rearranged`: a rearranged list has the same winner, at its new place.
  2. `Path.Rearranged.resolves`: hence what is resolved along a path whose records are rearranged.
  3. `Service.rearranged_of_update`: a change of a place rearranges every path.
  4. `places_are_display_only`: hence both for records of any kind, and for a store that writes lead
     to.
-/
namespace CarCare
open scoped List

/-! ## Sections at other places -/

def Section.movedTo (place : Section → Option Int) (s : Section) : Section :=
  { s with sortOrder := place s }

/-- A record with the same sections as another one, in any order and at any places. -/
structure Instruction.Rearranged (place : SectionKind → Section → Option Int)
    (r r' : Instruction) : Prop where
  fields : r'.fields = r.fields
  scopeName : r'.scopeName = r.scopeName
  sections : ∀ kind, r'.sections kind ~ (r.sections kind).map (.movedTo (place kind))

/-- A path along which the records of one lookup are those of another one rearranged. -/
def Path.Rearranged (path : Path) (look look' : Level → Uuid → Option Instruction)
    (place : Level → SectionKind → Section → Option Int) : Prop :=
  ∀ l, Option.Rel (Instruction.Rearranged (place l)) (path.record? look l) (path.record? look' l)

/-- A merge that differs from another in the places of its sections only. -/
structure Effective.Rearranged (place : Level → SectionKind → Section → Option Int)
    (e e' : Effective) : Prop where
  fields : e'.fields = e.fields
  chain : e'.chain = e.chain
  path : e'.path = e.path
  sections : ∀ kind c, (e'.sections kind).get? c =
    ((e.sections kind).get? c).map fun x => { x with value := x.value.movedTo (place x.source kind) }

/-- Answers that are the same error, or results in a relation. -/
inductive Alike {ε α : Type} (R : α → α → Prop) : Except ε α → Except ε α → Prop
  | ok {a b} (related : R a b) : Alike R (.ok a) (.ok b)
  | error (e) : Alike R (.error e) (.error e)

namespace Section
variable {place : Section → Option Int} {sections sections' : List Section} {c : String}

theorem winner?_rearranged (commodities : (sections.map (·.commodity)).Nodup)
    (same : sections' ~ sections.map (.movedTo place)) :
    winner? c sections' = (winner? c sections).map (.movedTo place) := by
  have hcommodities : (sections'.map (·.commodity)).Nodup := by
    apply (same.map (·.commodity)).nodup_iff.mpr
    rw [List.map_map]
    exact commodities
  cases hwinner : winner? c sections with
  | none =>
    apply winner?_eq_none.mpr
    intro s' hs'
    obtain ⟨s, hs, rfl⟩ := List.mem_map.mp (same.mem_iff.mp hs')
    exact winner?_eq_none.mp hwinner s hs
  | some s =>
    obtain ⟨hs, hdeclares⟩ := winner?_mem hwinner
    have hs' : s.movedTo place ∈ sections' := same.mem_iff.mpr (List.mem_map_of_mem hs)
    have hplaceholder : ¬ (s.movedTo place).isPlaceholder := by
      have hfull : s.isPlaceholder = false := by
        simpa using (Bool.and_eq_true_iff.mp hdeclares).1
      exact Bool.eq_false_iff.mp hfull
    rw [← declares_commodity hdeclares]
    exact winner?_of_nodup hcommodities hs' hplaceholder

end Section

/-- What levels offer in another form is what the most specific one offers, in this form. -/
theorem Level.deepest_map {α β : Type} (offer : Level → Option α) (form : Level → α → β) :
    deepest (fun l => (offer l).map (form l)) =
      (deepest offer).map fun x => ⟨form x.source x.value, x.source⟩ := by
  cases htop : deepest offer with
  | none =>
    apply deepest_eq_none.mpr
    intro l
    rw [deepest_eq_none.mp htop l]
    rfl
  | some top =>
    obtain ⟨hvalue, hdeeper⟩ := deepest_eq_some.mp htop
    apply deepest_eq_some.mpr
    refine ⟨?_, fun m hm => ?_⟩
    · rw [hvalue]
      rfl
    · rw [hdeeper m hm]
      rfl

/-! ## Rearranged records -/

namespace Path.Rearranged
variable {path : Path} {look look' : Level → Uuid → Option Instruction}
  {place : Level → SectionKind → Section → Option Int}

/-- What is read off a record, and is not about its sections, is read off the rearranged one. -/
theorem bind_eq {α : Type} (h : path.Rearranged look look' place) {read : Instruction → Option α}
    (same : ∀ {l r r'}, r.Rearranged (place l) r' → read r' = read r) (l : Level) :
    (path.record? look' l).bind read = (path.record? look l).bind read := by
  have hrecord := h l
  revert hrecord
  generalize path.record? look l = before
  generalize path.record? look' l = after
  rintro (hrecord | _)
  · exact same hrecord
  · rfl

theorem declared? (h : path.Rearranged look look' place) (l : Level) (f : Field) :
    path.declared? look' l f = path.declared? look l f :=
  h.bind_eq (fun hrecord => congrFun hrecord.fields f) l

theorem scopeName (h : path.Rearranged look look' place) (l : Level) :
    (path.record? look' l).bind (·.scopeName) = (path.record? look l).bind (·.scopeName) :=
  h.bind_eq (fun hrecord => hrecord.scopeName) l

theorem sections (h : path.Rearranged look look' place) (l : Level) (kind : SectionKind) :
    path.sections look' kind l ~ (path.sections look kind l).map (.movedTo (place l kind)) := by
  have hrecord := h l
  unfold Path.sections
  revert hrecord
  generalize path.record? look l = before
  generalize path.record? look' l = after
  rintro (hrecord | _)
  · exact hrecord.sections kind
  · exact .nil

theorem merges (h : path.Rearranged look look' place)
    (commodities : ∀ l kind, ((path.sections look kind l).map (·.commodity)).Nodup) :
    (Effective.merge path (path.layers look)).Rearranged place
      (.merge path (path.layers look')) where
  fields := by
    funext f
    rw [fields_merge, fields_merge]
    simp only [h.declared?]
  chain := by
    rw [chain_merge, chain_merge]
    simp only [h.declared?, h.scopeName]
  path := rfl
  sections kind c := by
    rw [sections_merge, sections_merge,
      ← Level.deepest_map _ fun l => Section.movedTo (place l kind)]
    congr 1
    funext l
    exact Section.winner?_rearranged (commodities l kind) (h.sections l kind)

theorem resolves (h : path.Rearranged look look' place)
    (commodities : ∀ l kind, ((path.sections look kind l).map (·.commodity)).Nodup) :
    Alike (Effective.Rearranged place) (resolve (m := Id) look path)
      (resolve (m := Id) look' path) := by
  cases hcustomer : path.customer.id with
  | none =>
    simp only [resolve, hcustomer]
    exact .error _
  | some c =>
    have rooted : path.customer.id.isSome := Option.isSome_of_eq_some hcustomer
    rw [resolve_id look path rooted, resolve_id look' path rooted]
    exact .ok (h.merges commodities)

end Path.Rearranged

/-! ## A place changed -/

/-- The places of sections after one of a kind is moved. -/
def SectionKind.placing (kind : SectionKind) (id : Uuid) (moved : Option Int) :
    SectionKind → Section → Option Int :=
  fun k s => if k = kind ∧ s.id = some id then moved else s.sortOrder

theorem InstructionRow.read_rearranged {r r' : InstructionRow}
    {place : SectionKind → Section → Option Int} (fields : r'.fields = r.fields)
    (scopeName : r'.scopeName = r.scopeName)
    (sections : ∀ kind, (r'.sections kind).map (·.toSection r'.id) =
      ((r.sections kind).map (·.toSection r.id)).map (.movedTo (place kind))) :
    r.read.Rearranged place r'.read where
  fields := fields
  scopeName := scopeName
  sections kind := by
    rw [r.read_sections, r'.read_sections]
    calc ((r'.sections kind).mergeSort SectionRow.shownBefore).map (·.toSection r'.id)
      _ ~ (r'.sections kind).map (·.toSection r'.id) := (List.mergeSort_perm _ _).map _
      _ = ((r.sections kind).map (·.toSection r.id)).map (.movedTo (place kind)) := sections kind
      _ ~ (((r.sections kind).mergeSort SectionRow.shownBefore).map (·.toSection r.id)).map
            (.movedTo (place kind)) := ((List.mergeSort_perm _ _).symm.map _).map _

theorem SectionKind.placing_other {kind k : SectionKind} {id owner : Uuid} {moved : Option Int}
    {sections : List SectionRow} (other : k = kind → ∀ x ∈ sections, x.id ≠ id) :
    (sections.map (·.toSection owner)).map (.movedTo (kind.placing id moved k)) =
      sections.map (·.toSection owner) := by
  rw [List.map_map]
  apply List.map_congr_left
  intro x hx
  have hplace : kind.placing id moved k (x.toSection owner) = some x.sortOrder := by
    apply if_neg
    rintro ⟨hk, hid⟩
    exact other hk x hx (Option.some.inj hid)
  show Section.movedTo _ (x.toSection owner) = x.toSection owner
  rw [Section.movedTo, hplace]
  rfl

/-- A row with a section at another place is read as a rearranged record. -/
theorem InstructionRow.Filed.read_placed {row : InstructionRow} (filed : row.Filed)
    {kind : SectionKind} {old : SectionRow} (held : old ∈ row.sections kind) (n : Int) :
    row.read.Rearranged (kind.placing old.id (some n))
      (row.withSections kind ((row.sections kind).map fun y =>
        if y.id = old.id then { old with sortOrder := n } else y)).read := by
  obtain ⟨hid, _⟩ := row.withSections_frame kind
    ((row.sections kind).map fun y => if y.id = old.id then { old with sortOrder := n } else y)
  apply InstructionRow.read_rearranged
  · cases kind <;> rfl
  · cases kind <;> rfl
  · intro k
    by_cases hk : k = kind
    · subst hk
      rw [row.sections_withSections_self, hid, List.map_map, List.map_map]
      apply List.map_congr_left
      intro y hy
      show (if y.id = old.id then _ else y).toSection row.id = Section.movedTo _ (y.toSection row.id)
      by_cases hy' : y.id = old.id
      · obtain rfl := List.inj_on_of_nodup_map (filed.sectionIds k) hy held hy'
        rw [if_pos rfl, Section.movedTo, SectionKind.placing, if_pos ⟨rfl, rfl⟩]
        rfl
      · rw [if_neg hy', Section.movedTo, SectionKind.placing,
          if_neg fun h => hy' (Option.some.inj h.2)]
    · rw [row.sections_withSections_of_ne hk, hid]
      exact (SectionKind.placing_other fun h => absurd h hk).symm

theorem InstructionRow.read_unplaced {r : InstructionRow} {kind : SectionKind} {id : Uuid}
    (other : ∀ x ∈ r.sections kind, x.id ≠ id) (moved : Option Int) :
    r.read.Rearranged (kind.placing id moved) r.read := by
  apply InstructionRow.read_rearranged rfl rfl
  intro k
  apply (SectionKind.placing_other _).symm
  rintro rfl
  exact other

/-- The records of a path hold one section at most for a commodity. -/
theorem Store.Filed.path_commodities {db : Database} (filed : db.instructions.Filed) (path : Path)
    (l : Level) (kind : SectionKind) :
    ((path.sections (Service.reader db) kind l).map (·.commodity)).Nodup := by
  unfold Path.sections
  cases hrecord : path.record? (Service.reader db) l with
  | none => exact List.nodup_nil
  | some r =>
    obtain ⟨i, _, hread⟩ := Option.bind_eq_some_iff.mp hrecord
    exact (filed.read hread).2 kind

/-- After a row is replaced by one with its scopes, this one is found where the row was. -/
theorem Store.byScope?_replace {s : Store} {row new : InstructionRow}
    (ids : (s.rows.map (·.id)).Nodup) (held : row ∈ s.rows) (same : new.id = row.id)
    (scopes : new.scopes = row.scopes) (current : new.isCurrent = row.isCurrent) (level : Level)
    (scope : Uuid) :
    (s.replace new).byScope? level scope =
      (s.byScope? level scope).map fun r => if r.id = new.id then new else r := by
  unfold byScope? replace
  rw [List.find?_map, ← List.head?_filter, ← List.head?_filter]
  congr 2
  apply List.filter_congr
  intro r hr
  by_cases hid : r.id = new.id
  · have hrow : r = row := List.inj_on_of_nodup_map ids hr held (hid.trans same)
    rw [Function.comp_apply, if_pos hid, scopes, current, hrow]
  · rw [Function.comp_apply, if_neg hid]

namespace Service
variable {kind : SectionKind} {db db' : Database} {id : Uuid} {payload : Value} {members : Members}

theorem change_of_place (accepted : accept (.ofSection kind true) payload = .ok members)
    (only : ∀ key, key ≠ "sort_order" → payload.get? key = none) :
    SectionChange.ofMembers kind members = { sortOrder := payload.place? } := by
  have hleft : ∀ key ∈ Schema.ofSection kind true, key.name ≠ "sort_order" →
      members.lookup key.name = none := fun key hkey hname =>
    ((accept_given accepted (section_names kind true) hkey).2 (only key.name hname)).2
  have hcommodity : members.lookup "commodity" = none :=
    hleft { name := "commodity", rule := .text true (some 200) } (by simp [Schema.ofSection])
      (by decide)
  have hmark : members.lookup "inherit_from_parent" = none :=
    hleft { name := "inherit_from_parent", rule := .flag } (by simp [Schema.ofSection]) (by decide)
  have hdetail : ∀ d ∈ kind.details, members.lookup d.name = none := fun d hd =>
    hleft _ (Schema.detail_mem hd true) (by cases d <;> decide)
  have hdetails : (fun d => if kind.details.contains d then SectionChange.detailMember members d
      else none) = fun _ => none := by
    funext d
    split
    · rename_i hd
      rw [SectionChange.detailMember, hdetail d (List.contains_iff_mem.mp hd)]
      rfl
    · rfl
  rw [← accept_place accepted, SectionChange.ofMembers, SectionChange.textMember,
    SectionChange.flagMember, hcommodity, hmark, hdetails]
  rfl

/-- A change of nothing but a place rearranges every path, by moving one section. -/
theorem rearranged_of_update (reached : db.instructions.Reached) {x : Section}
    (updated : updateSection kind db id payload = (.ok (some x), db'))
    (only : ∀ key, key ≠ "sort_order" → payload.get? key = none) (path : Path) :
    path.Rearranged (reader db) (reader db') fun _ => kind.placing id x.sortOrder := by
  obtain ⟨members, row, old, new, haccepted, hfound, hcurrent, _, happlied, rfl, rfl⟩ :=
    updateSection_eq_ok.mp updated
  obtain ⟨hrow, hold, rfl⟩ := Store.section?_eq_some hfound
  have hnew : new = { old with sortOrder := new.sortOrder } := by
    rw [change_of_place haccepted only, SectionChange.apply_eq_ok] at happlied
    rw [happlied.2]
    rfl
  rw [hnew]
  generalize new.sortOrder = n
  let sections := (row.sections kind).map fun y =>
    if y.id = old.id then { old with sortOrder := n } else y
  obtain ⟨hid, _, hscopes, _, hkept⟩ := row.withSections_frame kind sections
  have hread : ∀ r ∈ db.instructions.rows, r.read.Rearranged (kind.placing old.id (some n))
      (if r.id = (row.withSections kind sections).id then row.withSections kind sections
        else r).read := by
    intro r hr
    rw [hid]
    by_cases hsame : r.id = row.id
    · obtain rfl := List.inj_on_of_nodup_map reached.filed.ids hr hrow hsame
      rw [if_pos rfl]
      exact (reached.filed.rows r hr).read_placed hold n
    · rw [if_neg hsame]
      apply InstructionRow.read_unplaced
      intro y hy hyid
      exact hsame (congrArg InstructionRow.id (reached.owned r hr row hrow kind y hy old hold hyid))
  intro l
  cases hstep : (path.step l).id with
  | none =>
    rw [Path.record?, Path.record?, hstep]
    exact .none
  | some i =>
    rw [Path.record?_reader hstep, Path.record?_reader hstep,
      Store.byScope?_replace reached.filed.ids hrow hid hscopes hkept]
    cases hscope : db.instructions.byScope? l i with
    | none => exact .none
    | some r => exact .some (hread r (Store.byScope?_eq_some hscope).1)

theorem requests_alike {R : Effective → Effective → Prop} (leases : db'.leases = db.leases)
    (paths : ∀ path, Alike R (resolve (m := Id) (reader db) path)
      (resolve (m := Id) (reader db') path)) (v : Service) :
    (∀ car asOf, Alike R (v.resolveCar db car asOf) (v.resolveCar db' car asOf)) ∧
      ∀ level scope, Alike R (v.resolveScope db level scope) (v.resolveScope db' level scope) := by
  have hdirectory : v.directory db' = v.directory db := by
    rw [directory, directory, leases]
  constructor
  · intro car asOf
    unfold resolveCar resolveForCar
    rw [hdirectory]
    cases (v.directory db).carPath? car (some (asOf.getD v.today)) with
    | none => exact .error _
    | some path => exact paths path
  · intro level scope
    unfold resolveScope
    rw [hdirectory]
    cases Level.parse level with
    | error e => exact .error e
    | ok level =>
      show Alike R (resolveForScope (m := Id) (v.directory db) (reader db) level scope)
        (resolveForScope (m := Id) (v.directory db) (reader db') level scope)
      unfold resolveForScope
      cases (v.directory db).pathForScope level scope with
      | error e => exact .error e
      | ok path => exact paths path

end Service

/-- Places in the display order are for display only. For records that hold one section at most for a
commodity, a path resolves to the same in whatever order the records list their sections and at
whatever places, these places apart. So in a store that writes lead to, after a change that gives a
section nothing but a place, every path, every car and every scope resolve to the same as before: the
same fields from the same levels, the same chain, and for every commodity the same section from the
same level, in which nothing differs but the place, and this in the changed section only. -/
theorem places_are_display_only :
    (∀ (path : Path) (look look' : Level → Uuid → Option Instruction)
        (place : Level → SectionKind → Section → Option Int),
      path.Rearranged look look' place →
      (∀ l kind, ((path.sections look kind l).map (·.commodity)).Nodup) →
      Alike (Effective.Rearranged place) (resolve (m := Id) look path)
        (resolve (m := Id) look' path)) ∧
    ∀ (db db' : Database) (kind : SectionKind) (id : Uuid) (payload : Value) (x : Section),
      db.instructions.Reached →
      (∀ key, key ≠ "sort_order" → payload.get? key = none) →
      Service.updateSection kind db id payload = (.ok (some x), db') →
      let same := Alike (ε := Error) (Effective.Rearranged fun _ => kind.placing id x.sortOrder)
      (∀ path, same (resolve (m := Id) (Service.reader db) path)
        (resolve (m := Id) (Service.reader db') path)) ∧
      ∀ v : Service,
        (∀ car asOf, same (v.resolveCar db car asOf) (v.resolveCar db' car asOf)) ∧
        ∀ level scope, same (v.resolveScope db level scope) (v.resolveScope db' level scope) := by
  refine ⟨fun path look look' place h commodities => h.resolves commodities, ?_⟩
  intro db db' kind id payload x reached only updated same
  have hleases : db'.leases = db.leases := by
    obtain ⟨_, _, _, _, _, _, _, _, _, _, rfl⟩ := Service.updateSection_eq_ok.mp updated
    rfl
  have hpaths : ∀ path, same (resolve (m := Id) (Service.reader db) path)
      (resolve (m := Id) (Service.reader db') path) := by
    intro path
    apply (Service.rearranged_of_update reached updated only path).resolves
    intro l kind
    exact reached.filed.path_commodities path l kind
  exact ⟨hpaths, Service.requests_alike hleases hpaths⟩

/-- A record with two sealings, one of them at a place. -/
def placedRecord : Instruction :=
  { sealing := [vendorSection "Latex" "Acme" none (some 2),
      vendorSection "Molasses" "Acme" none none] }

/-- The same sealings in the other order and at other places. -/
def replacedRecord : Instruction :=
  { sealing := [vendorSection "Molasses" "Acme" none (some (-3)),
      vendorSection "Latex" "Acme" none none] }

theorem places_are_display_only_customer :
    (∃ e e', resolve (m := Id) (fun _ _ => some placedRecord) crowdedPath = .ok e ∧
      resolve (m := Id) (fun _ _ => some replacedRecord) crowdedPath = .ok e' ∧
      e.sealing.get? "Latex" = some ⟨vendorSection "Latex" "Acme" none (some 2), .amendment⟩ ∧
      e'.sealing.get? "Latex" = some ⟨vendorSection "Latex" "Acme" none none, .amendment⟩) ∧
    let v : Service := { today := ⟨5⟩ }
    let declared := Database.run { leases := danglingTables } (previewedWrites.take 2)
    let db : Database := { leases := danglingTables, instructions := declared.instructions }
    ∃ x db' e e' s, Service.updateSection .sealing db ⟨51⟩ (.object [("sort_order", .text "7")]) =
        (.ok (some x), db') ∧
      v.resolveScope db (.text "rider") ⟨20⟩ = .ok e ∧
      v.resolveScope db' (.text "rider") ⟨20⟩ = .ok e' ∧ e'.fields = e.fields ∧
      e.sealing.get? "Latex" = some ⟨s, .customer⟩ ∧ s.sortOrder = some 0 ∧
      e'.sealing.get? "Latex" = some ⟨{ s with sortOrder := some 7 }, .customer⟩ := by
  constructor
  · let place : Level → SectionKind → Section → Option Int := fun _ _ s =>
      if s.commodity = "Latex" then none else some (-3)
    have hrecord : ∀ l, placedRecord.Rearranged (place l) replacedRecord := by
      intro l
      refine ⟨rfl, rfl, ?_⟩
      rintro (_ | _)
      · exact .swap _ _ _
      · exact .nil
    have hpath : crowdedPath.Rearranged (fun _ _ => some placedRecord)
        (fun _ _ => some replacedRecord) place := by
      intro l
      cases l with
      | masterLease => exact .none
      | customer => exact .some (hrecord .customer)
      | rider => exact .some (hrecord .rider)
      | amendment => exact .some (hrecord .amendment)
    have h := places_are_display_only.1 crowdedPath _ _ place hpath
      (by intro l kind; cases l <;> cases kind <;> decide)
    rw [resolve_id _ crowdedPath rfl, resolve_id _ crowdedPath rfl] at h
    obtain ⟨related⟩ := h
    have hbefore : (Effective.merge crowdedPath (crowdedPath.layers fun _ _ =>
        some placedRecord)).sealing.get? "Latex" =
          some ⟨vendorSection "Latex" "Acme" none (some 2), .amendment⟩ := by
      have hmem : vendorSection "Latex" "Acme" none (some 2) ∈ placedRecord.sealing :=
        List.mem_cons_self
      have hwinner : Section.winner? "Latex" placedRecord.sealing =
          some (vendorSection "Latex" "Acme" none (some 2)) :=
        Section.winner?_of_nodup (by decide) hmem (by decide)
      refine (sections_merge _ crowdedPath .sealing "Latex").trans
        (Level.deepest_eq_some.mpr ⟨hwinner, ?_⟩)
      intro m hm
      cases m <;> exact absurd hm (by decide)
    refine ⟨_, _, resolve_id _ crowdedPath rfl, resolve_id _ crowdedPath rfl, hbefore, ?_⟩
    exact (related.sections .sealing "Latex").trans (congrArg (Option.map _) hbefore)
  · intro v declared db
    have hreached : db.instructions.Reached :=
      Database.run_reached { leases := danglingTables } .empty (previewedWrites.take 2)
    have hanswer : (Service.updateSection .sealing db ⟨51⟩
        (.object [("sort_order", .text "7")])).1.toOption.join.any (·.sortOrder == some 7) := by
      decide +kernel
    generalize hupdated : Service.updateSection .sealing db ⟨51⟩
      (.object [("sort_order", .text "7")]) = updated at hanswer
    obtain ⟨answer, db'⟩ := updated
    obtain ⟨x, hx, hplace⟩ := (Option.any_eq_true _ _).mp hanswer
    obtain rfl : answer = .ok (some x) := by
      cases answer with
      | error e => cases hx
      | ok found => rw [show found = some x from hx]
    have honly : ∀ key, key ≠ "sort_order" →
        (Value.object [("sort_order", .text "7")]).get? key = none := by
      intro key hkey
      have hkey : (Scalar.text key == .text "sort_order") = false := by simpa using hkey
      simp [Value.object, Value.get?, List.lookup_cons, hkey]
    obtain ⟨e, hbefore, hlatex⟩ : ∃ e, v.resolveScope db (.text "rider") ⟨20⟩ = .ok e ∧
        (e.sealing.get? "Latex").any fun y => y.source == .customer && y.value.id == some ⟨51⟩ &&
          y.value.sortOrder == some 0 :=
      ⟨_, Service.resolveScope_of_path
        (show (v.directory db).pathForScope .rider ⟨20⟩ = .ok _ from rfl) rfl, by decide +kernel⟩
    obtain ⟨⟨s, l⟩, hs, hentry⟩ := (Option.any_eq_true _ _).mp hlatex
    simp only [Bool.and_eq_true, beq_iff_eq] at hentry hplace
    obtain ⟨⟨rfl, hid⟩, hold⟩ := hentry
    have h := places_are_display_only.2 db db' .sealing ⟨51⟩ _ x hreached honly hupdated
    have hscope := (h.2 v).2 (.text "rider") ⟨20⟩
    rw [hbefore] at hscope
    generalize hafter : v.resolveScope db' (.text "rider") ⟨20⟩ = after at hscope
    obtain ⟨related⟩ := hscope
    refine ⟨x, db', e, _, s, rfl, hbefore, hafter, related.fields, hs, hold, ?_⟩
    refine (related.sections .sealing "Latex").trans ?_
    rw [Effective.sections, hs, Option.map_some, Section.movedTo, SectionKind.placing,
      if_pos ⟨rfl, hid⟩, hplace]

end CarCare

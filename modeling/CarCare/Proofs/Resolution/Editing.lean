import CarCare.Proofs.Resolution.Composition
import CarCare.Proofs.Resolution.Isolation
import CarCare.Proofs.Schema.Accepted
import CarCare.Proofs.Store.Outcomes

/-!
Edited fields, as resolution shows them: an update is seen through every path that its instruction
is on, but only where no deeper level hides it, and nothing else is seen of it.

What is proved:
  1. `Path.Overlaid`: one level of a path declares some fields anew. `Overlaid.fields_set`,
     `Overlaid.fields_hidden`, `Overlaid.fields_unset`, `Overlaid.sections_same` and
     `Overlaid.chain_defined` say what that does to each part of the merge.
  2. `Service.overlaid_of_update`: an update overlays every path through its scope.
  3. `update_seen_where_not_hidden`: hence what the payload of an update does to what is resolved.
-/
namespace CarCare

/-! ## One level overlaid -/

/-- A path whose record at a level has some fields declared anew, and is otherwise the same. -/
structure Path.Overlaid (path : Path) (look look' : Level → Uuid → Option Instruction) (l : Level)
    (change : Fields) : Prop where
  elsewhere : ∀ m, m ≠ l → path.record? look' m = path.record? look m
  fields : ∀ f, path.declared? look' l f = (change f).or (path.declared? look l f)
  sections : ∀ kind, path.sections look' kind l = path.sections look kind l
  name : (path.record? look' l).bind (·.scopeName) = (path.record? look l).bind (·.scopeName)

namespace Path.Overlaid
variable {path : Path} {look look' : Level → Uuid → Option Instruction} {l : Level}
  {change : Fields} {f : Field}

theorem declared_of_ne (h : path.Overlaid look look' l change) (f : Field) {m : Level}
    (hm : m ≠ l) : path.declared? look' m f = path.declared? look m f := by
  rw [declared?, declared?, h.elsewhere m hm]

theorem fields_set (h : path.Overlaid look look' l change) {v : FieldValue}
    (set : change f = some v) (bare : ∀ m, l.rank < m.rank → path.declared? look m f = none) :
    (Effective.merge path (path.layers look')).fields f = some ⟨v, l⟩ := by
  rw [fields_merge, Level.deepest_eq_some]
  refine ⟨by rw [h.fields, set, Option.some_or], fun m hm => ?_⟩
  have hne : m ≠ l := fun h => by rw [h] at hm; exact Nat.lt_irrefl _ hm
  rw [h.declared_of_ne f hne]
  exact bare m hm

theorem fields_hidden (h : path.Overlaid look look' l change) {m : Level}
    (deeper : l.rank < m.rank) (declared : (path.declared? look m f).isSome) :
    (Effective.merge path (path.layers look')).fields f =
      (Effective.merge path (path.layers look)).fields f := by
  rw [fields_merge, fields_merge]
  exact Level.deepest_of_hidden (fun k hk => h.declared_of_ne f hk) deeper declared

theorem fields_unset (h : path.Overlaid look look' l change) (unset : change f = none) :
    (Effective.merge path (path.layers look')).fields f =
      (Effective.merge path (path.layers look)).fields f := by
  have hsame : (fun m => path.declared? look' m f) = fun m => path.declared? look m f := by
    funext m
    by_cases hm : m = l
    · subst hm
      rw [h.fields, unset, Option.none_or]
    · exact h.declared_of_ne f hm
  rw [fields_merge, fields_merge, hsame]

theorem sections_same (h : path.Overlaid look look' l change) (kind : SectionKind) :
    (Effective.merge path (path.layers look')).sections kind =
      (Effective.merge path (path.layers look)).sections kind := by
  have hsame : ∀ m, path.sections look' kind m = path.sections look kind m := by
    intro m
    by_cases hm : m = l
    · subst hm
      exact h.sections kind
    · unfold Path.sections
      rw [h.elsewhere m hm]
  rw [Effective.sections_merge, Effective.sections_merge, Effective.mergeSections,
    Effective.mergeSections, Path.layers_eq, Path.layers_eq, List.foldl_map, List.foldl_map]
  congr 1
  funext m k
  exact congrArg (fun s => m.layer k s) (hsame k)

theorem chain_defined (h : path.Overlaid look look' l change) :
    (Effective.merge path (path.layers look')).chain =
      (Effective.merge path (path.layers look)).chain.map fun item =>
        if item.level = l then
          { item with
            defined := Field.all.filter fun f => item.defined.contains f || (change f).isSome }
        else item := by
  rw [chain_merge, chain_merge, List.map_map]
  refine List.map_congr_left fun m _ => ?_
  by_cases hm : m = l
  · subst hm
    simp only [Function.comp, if_true, h.name, ChainItem.mk.injEq, true_and]
    refine List.filter_congr fun f _ => ?_
    have hdefined : (Field.all.filter fun g => (path.declared? look m g).isSome).contains f =
        (path.declared? look m f).isSome := by
      simp [f.mem_all]
    rw [hdefined, h.fields, Option.isSome_or, Bool.or_comm]
  · simp only [Function.comp, if_neg hm, h.elsewhere m hm]
    simp only [h.declared_of_ne _ hm]

end Path.Overlaid

/-! ## Updates -/

theorem Session.overlaid_read (now : Timestamp) (change : Fields) (r : InstructionRow) :
    (overlaid now change r).read.fields = change.overlay r.read.fields ∧
      (∀ kind, (overlaid now change r).read.sections kind = r.read.sections kind) ∧
      (overlaid now change r).read.scopeName = r.read.scopeName := by
  obtain ⟨age, heq⟩ := overlaid_eq now change r
  rw [heq]
  exact ⟨rfl, fun kind => by cases kind <;> rfl, rfl⟩

section
variable {db : Database} {row : InstructionRow} {l : Level} {i : Uuid} {path : Path}

theorem Path.record?_reader (through : (path.step l).id = some i) :
    path.record? (Service.reader db) l = (db.instructions.byScope? l i).map (·.read) := by
  rw [record?, through]
  rfl

/-- A path through the scope of a current instruction is overlaid by what an update sets. -/
theorem Service.overlaid_of_update (reached : db.instructions.Reached)
    (current : db.instructions.current? row.id = some row) (declared : row.scope? = some (l, i))
    (through : (path.step l).id = some i) (now : Timestamp) {change : Fields}
    (accepted : change.Accepted) :
    path.Overlaid (reader db) (reader { db with
      instructions := db.instructions.replace (Session.overlaid now change row) }) l change := by
  let new := Session.overlaid now change row
  let db' : Database := { db with instructions := db.instructions.replace new }
  have hrevision : db.instructions.Revision row new := .overlaid now change accepted
  obtain ⟨_, _, _, _, hcurrent, _⟩ := Session.overlaid_frame now change row
  obtain ⟨hfields, hsections, hname⟩ := Session.overlaid_read now change row
  obtain ⟨hrow, hkept⟩ := Store.current?_eq_some.mp current
  have hmem : row ∈ db.instructions.rows := (Store.row?_eq_some hrow).1
  have hscope : row.scopes.get l = some i :=
    (reached.filed.rows row hmem).scope?_eq_some.mp declared
  -- The row is what was found at the scope, and its successor is what is found there now.
  have hold : path.record? (reader db) l = some row.read := by
    rw [Path.record?_reader through, reached.single.byScope?_of_mem hmem hkept hscope]
    rfl
  have hnew : path.record? (reader db') l = some new.read := by
    rw [Path.record?_reader through, reached.single.byScope?_replace current hrevision
      (hcurrent.trans hkept) hscope]
    rfl
  constructor
  case elsewhere =>
    intro m hm
    cases hstep : (path.step m).id with
    | none => rw [Path.record?, Path.record?, hstep, Option.bind_none, Option.bind_none]
    | some j =>
      have hother : row.scope? ≠ some (m, j) := by
        rw [declared]
        exact fun h => hm (congrArg Prod.fst (Option.some.inj h)).symm
      rw [Path.record?_reader hstep, Path.record?_reader hstep,
        hrevision.byScope?_of_ne reached.filed current hother]
  case fields =>
    intro f
    rw [Path.declared?, Path.declared?, hold, hnew]
    exact congrFun hfields f
  case sections =>
    intro kind
    rw [Path.sections, Path.sections, hold, hnew]
    exact hsections kind
  case name =>
    rw [hold, hnew]
    exact hname

end

/-- What an update with an accepted payload does to what a path resolves to that its instruction is
on, over any leasing tables and any store that writes lead to. A field that the payload gives a
value takes this value, in the form that the field holds, and the level of the instruction; but where
a deeper level of the path declares the field, it stays as it was. All other fields stay, and so do
both maps of sections. In the chain, the item of that level has the fields of the payload added to
those that it defined, in the order of the form. -/
theorem update_seen_where_not_hidden (db : Database) (reached : db.instructions.Reached)
    (row : InstructionRow) (current : db.instructions.current? row.id = some row) (l : Level)
    (i : Uuid) (declared : row.scope? = some (l, i)) (now : Timestamp) (payload : Value)
    (members : Members) (accepted : Service.accept .fields payload = .ok members) (path : Path)
    (rooted : path.customer.id.isSome) (through : (path.step l).id = some i) :
    ∃ r db' e e', Service.update now db row.id payload = (.ok r, db') ∧
      resolve (m := Id) (Service.reader db) path = .ok e ∧
      resolve (m := Id) (Service.reader db') path = .ok e' ∧
      (∀ f value, payload.given? f.name = some value →
        ∃ v : FieldValue, (Schema.Rule.ofKind f.kind).convert value = .ok v.toValue ∧
          ((∀ m, l.rank < m.rank → path.declared? (Service.reader db) m f = none) →
            e'.fields f = some ⟨v, l⟩) ∧
          ∀ m, l.rank < m.rank → (path.declared? (Service.reader db) m f).isSome →
            e'.fields f = e.fields f) ∧
      (∀ f, payload.given? f.name = none → e'.fields f = e.fields f) ∧
      (∀ kind, e'.sections kind = e.sections kind) ∧
      e'.chain = e.chain.map fun item =>
        if item.level = l then
          { item with
            defined := Field.all.filter fun f =>
              item.defined.contains f || (payload.given? f.name).isSome }
        else item := by
  have hoverlaid := Service.overlaid_of_update reached current declared through now
    ⟨payload, members, accepted, rfl⟩
  have hfields := Service.accept_fields accepted
  refine ⟨_, _, _, _, Service.update_of_current current accepted now,
    resolve_id _ path rooted, resolve_id _ path rooted, fun f value hvalue => ?_, fun f hnone => ?_,
    hoverlaid.sections_same, ?_⟩
  · obtain ⟨v, hconvert, hset⟩ := (hfields f).1 value hvalue
    exact ⟨v, hconvert, hoverlaid.fields_set hset, fun m => hoverlaid.fields_hidden⟩
  · exact hoverlaid.fields_unset ((hfields f).2 hnone)
  · have hgiven : ∀ f : Field, (Fields.ofMembers members f).isSome =
        (payload.given? f.name).isSome := by
      intro f
      cases hvalue : payload.given? f.name with
      | none => rw [(hfields f).2 hvalue]; rfl
      | some value =>
        obtain ⟨v, _, hset⟩ := (hfields f).1 value hvalue
        rw [hset]
        rfl
    rw [hoverlaid.chain_defined]
    simp only [hgiven]

/-- A payload for the customer's instruction: a flag that the amendment hides, one that nobody
declares, and a null. -/
def composedChange : Value :=
  .object [("food_grade", .text "yes"), ("mineral_wipe", .int 1), ("kosher_wash", .null)]

theorem update_seen_where_not_hidden_amendment :
    let declared := Database.run { leases := danglingTables } composedWrites
    let db : Database := { leases := danglingTables, instructions := declared.instructions }
    let path : Path := { customer := ⟨some ⟨1⟩, some "Acme"⟩, amendment := ⟨some ⟨32⟩, none⟩ }
    ∃ r db' e e', Service.update ⟨9⟩ db ⟨50⟩ composedChange = (.ok r, db') ∧
      resolve (m := Id) (Service.reader db) path = .ok e ∧
      resolve (m := Id) (Service.reader db') path = .ok e' ∧
      e.fields .foodGrade = some ⟨.flag true, .amendment⟩ ∧
      e'.fields .foodGrade = some ⟨.flag true, .amendment⟩ ∧
      e.fields .mineralWipe = none ∧
      e'.fields .mineralWipe = some ⟨.flag true, .customer⟩ ∧
      e'.fields .kosherWash = e.fields .kosherWash ∧
      e'.chain.map (·.defined) = [[.foodGrade, .mineralWipe], [], [], [.foodGrade]] := by
  intro declared db path
  have hreached : db.instructions.Reached :=
    Database.run_reached { leases := danglingTables } .empty composedWrites
  have hheld : ∃ row, db.instructions.current? ⟨50⟩ = some row ∧
      row.scope? == some (.customer, ⟨1⟩) := by
    rw [← Option.any_eq_true]
    decide +kernel
  obtain ⟨row, hrow, hscope⟩ := hheld
  have hid := Store.current?_id hrow
  have haccepted : (Service.accept .fields composedChange).isOk := by decide +kernel
  cases hmembers : Service.accept .fields composedChange with
  | error e =>
    rw [hmembers] at haccepted
    cases haccepted
  | ok members =>
    obtain ⟨r, db', e, e', hupdate, he, he', hgiven, hunset, _, hchain⟩ :=
      update_seen_where_not_hidden db hreached row (hid ▸ hrow) .customer ⟨1⟩
        (beq_iff_eq.mp hscope) ⟨9⟩ composedChange members hmembers path rfl rfl
    obtain rfl := Except.ok.inj (he.symm.trans (resolve_id (Service.reader db) path rfl))
    have hhidden : ((path.declared? (Service.reader db) .amendment .foodGrade).isSome) := by
      decide +kernel
    have hbare : ∀ m, path.declared? (Service.reader db) m .mineralWipe = none := by
      intro m
      cases m <;> decide +kernel
    obtain ⟨_, _, _, hgrade⟩ := hgiven .foodGrade (.text "yes") rfl
    obtain ⟨v, hv, hwipe, _⟩ := hgiven .mineralWipe (.int 1) rfl
    have hv : Except.ok (Value.bool true) = .ok v.toValue := hv
    obtain rfl : v = .flag true := by
      cases v with
      | flag b => cases hv; rfl
      | text s => cases hv
    refine ⟨r, db', _, e', hid ▸ hupdate, he, he', by decide +kernel, ?_, by decide +kernel, ?_,
      hunset .kosherWash rfl, ?_⟩
    · rw [hgrade .amendment (by decide) hhidden]
      decide +kernel
    · exact hwipe fun m _ => hbare m
    · rw [hchain]
      decide +kernel

end CarCare

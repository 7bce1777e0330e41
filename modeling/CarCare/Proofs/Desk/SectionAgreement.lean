import CarCare.Proofs.Desk.Agreement

/-!
Sections at a desk against sections in a session, for dictionaries whose values are of the kinds of
their columns. A section that has been stored shows what it holds, and of what is given for it only
the rest is written; what comes out is the same as if all of it were.

What is proved:
  1. `Desk.trims_kept` and `Desk.Trims.updateSection`: what is written asks for no less of the
     session than the whole dictionary does.
  2. `Database.atDesk_addSection` and `Database.atDesk_updateSection`: the answers are the same, and
     so is what is committed.
  3. `Service.addSection_atDesk` and `Service.updateSection_atDesk`: hence such writes of a service
     are requests at a desk.
-/
namespace CarCare

namespace Desk
variable {a : Affinity} {db : Database} {data : Members} {kind : SectionKind}

/-! ## Values of sections -/

theorem section_column_kind {c : Column} (hc : c ∈ Column.sections kind)
    (other : c ≠ Column.place) : c.kind ≠ .integer := by
  rcases List.mem_append.mp hc with hc | hc
  · rcases List.mem_cons.mp hc with rfl | hc
    · nofun
    · obtain ⟨d, _, rfl⟩ := List.mem_map.mp hc
      cases d.kind <;> nofun
  · rcases List.mem_pair.mp hc with rfl | rfl
    · nofun
    · exact absurd rfl other

theorem integer_of_place (fitting : Column.Fitting (Column.sections kind) data) {value : Value}
    (h : Column.place.given? data = some value) : ∃ n, value = .int n := by
  have hfits := fitting.given Column.place_mem h
  cases value with
  | list _ | map _ => cases hfits
  | scalar x =>
    cases x with
    | int n => exact ⟨n, rfl⟩
    | null => cases (Option.filter_eq_some_iff.mp h).2
    | bool _ | text _ | float _ | date _ => cases hfits

theorem flag_of_placeholder (fitting : Column.Fitting (Column.sections kind) data) {value : Value}
    (h : Column.placeholder.given? data = some value) : ∃ b, value = .bool b := by
  have hfits := fitting.given Column.placeholder_mem h
  cases value with
  | list _ | map _ => cases hfits
  | scalar x =>
    cases x with
    | bool b => exact ⟨b, rfl⟩
    | null => cases (Option.filter_eq_some_iff.mp h).2
    | int _ | text _ | float _ | date _ => cases hfits

theorem sortOrder_given (fitting : Column.Fitting (Column.sections kind) data) :
    Column.place.given? data = (SectionChange.ofMembers kind data).sortOrder.map .int := by
  show _ = (SectionChange.integerMember data Column.place.name).map Value.int
  rw [SectionChange.integerMember]
  cases hgiven : Column.place.given? data with
  | none =>
    rw [Column.given?_of_skipping rfl] at hgiven
    rcases Value.filter_full (data.lookup Column.place.name) with hfull | ⟨hnull, _⟩
    · rw [← hfull, hgiven]
      rfl
    · rw [hnull]
      rfl
  | some value =>
    obtain ⟨n, rfl⟩ := integer_of_place fitting hgiven
    rw [Column.lookup_of_given hgiven]
    rfl

theorem commodity_cases (fitting : Column.Fitting (Column.sections kind) data) :
    (commodityOf data = .null ∧ (SectionChange.ofMembers kind data).named? = none) ∨
      ∃ s, commodityOf data = .text s ∧ (SectionChange.ofMembers kind data).named? = some s := by
  rw [show (SectionChange.ofMembers kind data).named?
    = (SectionChange.textMember data Column.commodity.name).join from rfl, commodityOf,
    SectionChange.textMember]
  cases hvalue : data.lookup Column.commodity.name with
  | none => exact .inl ⟨rfl, rfl⟩
  | some value =>
    have hfits := fitting _ Column.commodity_mem value hvalue
    cases value with
    | list _ | map _ => cases hfits
    | scalar x =>
      cases x with
      | null => exact .inl ⟨rfl, rfl⟩
      | text s => exact .inr ⟨s, rfl, rfl⟩
      | bool _ | int _ | float _ | date _ => cases hfits

theorem showsCommodity_fresh (owner : Uuid) (value : Value) (row : SectionRow) :
    (fresh db).showsCommodity kind owner value row ↔ value = .text row.commodity := by
  have hshown : (fresh db).shownColumns kind owner row Column.commodity.name
      = some (.text row.commodity) := ((row.toSection owner).columns_lookup kind).commodity
  rw [showsCommodity, hshown]
  exact Value.equals_text

theorem showsCommodity_text (owner : Uuid) (s : String) :
    (fresh db).showsCommodity kind owner (.text s) = (·.commodity == s) := by
  funext old
  rw [Bool.eq_iff_iff, showsCommodity_fresh, beq_iff_eq]
  exact ⟨fun h => (Scalar.text.inj (Value.scalar.inj h)).symm, fun h => by rw [h]⟩

theorem overflows_given (fitting : Column.Fitting (Column.sections kind) data) :
    (Column.place.given? data).any Value.overflows
      = (SectionChange.ofMembers kind data).overflows := by
  rw [sortOrder_given fitting, Option.any_map]
  rfl

theorem write_section (a : Affinity) (fitting : Column.Fitting (Column.sections kind) data)
    (storable : (SectionChange.ofMembers kind data).overflows = false) :
    ∃ kept, a.write (fun _ => none) (Column.given (Column.sections kind) data) = .ok kept ∧
      SectionChange.ofMembers kind kept = .ofMembers kind data ∧
      kept.lookup Column.place.name = Column.place.given? data := by
  obtain ⟨kept, hwrite, hlookup, _⟩ := a.write_of_storable (fun _ => none)
    (Column.sections_names kind) fitting fun c hc => by
      by_cases hplace : c = Column.place
      · rw [hplace, Column.fresh?_new, overflows_given fitting, storable]
      · exact not_overflows fitting hc (section_column_kind hc hplace) _
  have hkept : ∀ c ∈ Column.sections kind, kept.lookup c.name = c.given? data := fun c hc =>
    (hlookup c hc).trans (c.fresh?_new data)
  exact ⟨kept, hwrite, SectionChange.ofMembers_kept hkept, hkept _ Column.place_mem⟩

theorem taken_fresh (fitting : Column.Fitting (Column.sections kind) data) (id : Uuid)
    (row : InstructionRow) :
    (if (row.sections kind).any ((fresh db).showsCommodity kind id (commodityOf data)) then
      some (Error.commodityTaken (commodityOf data).display id) else none)
      = ((SectionChange.ofMembers kind data).named?.filter (row.hasCommodity kind)).map
          (.commodityTaken · id) := by
  rcases commodity_cases fitting with ⟨hnull, hnone⟩ | ⟨s, htext, hnamed⟩
  · rw [hnull, hnone]
    refine if_neg fun hany => ?_
    obtain ⟨old, _, hshows⟩ := List.any_eq_true.mp hany
    cases (showsCommodity_fresh id .null old).mp hshows
  · rw [htext, hnamed, showsCommodity_text]
    show (if row.hasCommodity kind s then _ else none) = _
    rw [Option.filter_some]
    cases row.hasCommodity kind s <;> rfl

/-- A new section of which the columns keep what it was given crowds a row if it names no commodity,
or one that is taken. -/
theorem crowds_kept (fitting : Column.Fitting (Column.sections kind) data) (row : InstructionRow)
    {kept : Members} (same : SectionChange.ofMembers kind kept = .ofMembers kind data)
    (place : kept.lookup Column.place.name = Column.place.given? data) :
    crowds kind row kept
      = (SectionChange.ofMembers kind data).named?.all (row.hasCommodity kind) := by
  have hplace : clearsPlace kept = false := by
    rw [clearsPlace, place, sortOrder_given fitting, Option.any_map]
    cases (SectionChange.ofMembers kind data).sortOrder <;> rfl
  rw [crowds, hplace, same, Bool.false_or]

theorem addSection_agrees (a : Affinity) (fitting : Column.Fitting (Column.sections kind) data)
    (stamp : Stamp) (id : Uuid) :
    Agrees ((fresh db).addSection a kind stamp id data)
      ((Session.start db).addSection kind stamp id (.ofMembers kind data)) := by
  let change := SectionChange.ofMembers kind data
  unfold addSection
  cases hrow : (fresh db).store.current? id with
  | none =>
    rw [Session.addSection_of_unknown (s := .start db) hrow]
    exact .refused ..
  | some row =>
    dsimp only
    rw [taken_fresh fitting]
    cases htaken : change.named?.filter (row.hasCommodity kind) with
    | some commodity =>
      rw [Session.addSection_of_taken (s := .start db) hrow htaken]
      exact .refused ..
    | none =>
      cases hlarge : change.overflows with
      | true =>
        have hwrite := a.write_of_tooLarge (fun _ => none) fitting Column.place_mem
          (by rw [Column.fresh?_new, overflows_given fitting, hlarge])
        rw [hwrite, Session.addSection_of_overflow (s := .start db) hrow htaken hlarge]
        exact .refused ..
      | false =>
        obtain ⟨kept, hwrite, hsame, hplace⟩ := write_section a fitting hlarge
        have hcrowds := crowds_kept fitting row hsame hplace
        rw [hwrite]
        show Agrees ((fresh db).request none (if crowds kind row kept then _ else _)) _
        rw [hcrowds]
        cases hnamed : change.named? with
        | none =>
          rw [Session.addSection_of_blank (s := .start db) hrow hnamed hlarge]
          exact .refused ..
        | some commodity =>
          rw [hnamed] at htaken
          rw [Option.all_some, if_neg (Option.filter_eq_none_iff.mp htaken commodity rfl), ← hsame]
          exact agrees_of_writes _ _ _ _ fun value h =>
            integer_of_place fitting (hplace.symm.trans h)

/-! ## Changes of sections -/

/-- A change that asks for the same of a section as another one does, and may leave out what the
section holds already. -/
structure Trims (old : SectionRow) (trimmed change : SectionChange) : Prop where
  commodity : trimmed.commodity = change.commodity ∨
    trimmed.commodity = none ∧ change.commodity = some (some old.commodity)
  details : ∀ d, trimmed.details d = change.details d ∨
    trimmed.details d = none ∧ change.details d = some (old.details d)
  inherits : trimmed.inherits = change.inherits ∨
    trimmed.inherits = none ∧ change.inherits = some old.inherits
  sortOrder : trimmed.sortOrder = change.sortOrder ∨
    trimmed.sortOrder = none ∧ change.sortOrder = some old.sortOrder

namespace Trims
variable {old : SectionRow} {trimmed change : SectionChange}

theorem getD_eq {β : Type} {o o' : Option β} {held : β}
    (h : o = o' ∨ o = none ∧ o' = some held) : o.getD held = o'.getD held := by
  rcases h with rfl | ⟨rfl, rfl⟩ <;> rfl

theorem renamedOnto? (h : Trims old trimmed change) (kind : SectionKind) (row : InstructionRow) :
    Session.renamedOnto? kind row old trimmed = Session.renamedOnto? kind row old change := by
  unfold Session.renamedOnto? SectionChange.named?
  rcases h.commodity with hsame | ⟨hnone, hheld⟩
  · rw [hsame]
  · rw [hnone, hheld]
    show none = (some old.commodity).filter _
    rw [Option.filter_some, bne_self_eq_false, Bool.false_and]
    rfl

theorem fault? (h : Trims old trimmed change) (storable : change.overflows = false)
    (kind : SectionKind) : trimmed.fault? kind = change.fault? kind := by
  have htrimmed : trimmed.overflows = false := by
    rcases h.sortOrder with hsame | ⟨hnone, _⟩
    · rw [SectionChange.overflows, hsame, ← SectionChange.overflows, storable]
    · rw [SectionChange.overflows, hnone]
      rfl
  have hcleared : trimmed.commodity = some none ↔ change.commodity = some none := by
    rcases h.commodity with hsame | ⟨hnone, hheld⟩
    · rw [hsame]
    · rw [hnone, hheld]
      exact ⟨nofun, nofun⟩
  unfold SectionChange.overflows at htrimmed storable
  unfold SectionChange.fault?
  rw [htrimmed, storable]
  simp only [hcleared]

theorem apply (h : Trims old trimmed change) (storable : change.overflows = false)
    (kind : SectionKind) : trimmed.apply kind old = change.apply kind old := by
  have hcommodity : trimmed.named?.getD old.commodity = change.named?.getD old.commodity := by
    unfold SectionChange.named?
    rcases h.commodity with hsame | ⟨hnone, hheld⟩
    · rw [hsame]
    · rw [hnone, hheld]
      rfl
  have hdetails : ∀ d, (trimmed.details d).getD (old.details d)
      = (change.details d).getD (old.details d) := fun d => getD_eq (h.details d)
  unfold SectionChange.apply SectionChange.applyDetails
  rw [h.fault? storable, hcommodity]
  simp only [hdetails, getD_eq h.inherits, getD_eq h.sortOrder]

theorem updateSection (h : Trims old trimmed change) (storable : change.overflows = false)
    {s : Session} {id : Uuid} {row : InstructionRow}
    (found : s.store.section? kind id = some (row, old)) :
    s.updateSection kind id trimmed = s.updateSection kind id change := by
  unfold Session.updateSection
  rw [found]
  dsimp only
  rw [h.renamedOnto?, h.apply storable]

end Trims

theorem fresh?_cases (c : Column) (shown : String → Option Value) (data : Members) :
    c.fresh? shown data = c.given? data ∨ c.fresh? shown data = none ∧
      ∃ value held, c.given? data = some value ∧ shown c.name = some held ∧ value.equals held := by
  unfold Column.fresh?
  cases hgiven : c.given? data with
  | none => exact .inl rfl
  | some value =>
    rw [Option.filter_some]
    by_cases hshown : (shown c.name).any value.equals
    · obtain ⟨held, hheld, hequal⟩ := (Option.any_eq_true _ _).mp hshown
      exact .inr ⟨by rw [hshown]; rfl, value, held, rfl, hheld, hequal⟩
    · exact .inl (by simp [hshown])

/-- What is read of the values that are written for a column is what is read of the given ones,
unless the record shows an equal value already. -/
theorem kept_or_held {β : Type} (read : Members → Option β) {c : Column}
    {shown : String → Option Value} {kept : Members} {held : β}
    (lookup : kept.lookup c.name = c.fresh? shown data)
    (same : kept.lookup c.name = c.given? data → read kept = read data)
    (blank : kept.lookup c.name = none → read kept = none)
    (equal : ∀ value x, c.given? data = some value → shown c.name = some x → value.equals x →
      read data = some held) :
    read kept = read data ∨ read kept = none ∧ read data = some held := by
  rcases fresh?_cases c shown data with hsame | ⟨hnone, value, x, hgiven, hshown, hequal⟩
  · exact .inl (same (lookup.trans hsame))
  · exact .inr ⟨blank (lookup.trans hnone), equal value x hgiven hshown hequal⟩

/-- What is written to a section trims what the dictionary asks for. -/
theorem trims_kept (fitting : Column.Fitting (Column.sections kind) data) (owner : Uuid)
    (old : SectionRow) {kept : Members} (lookup : ∀ c ∈ Column.sections kind,
      kept.lookup c.name = c.fresh? ((fresh db).shownColumns kind owner old) data) :
    Trims old (.ofMembers kind kept) (.ofMembers kind data) := by
  have holds := (old.toSection owner).columns_lookup kind
  refine { commodity := ?commodity, details := fun d => ?detail, inherits := ?placeholder,
           sortOrder := ?place }
  case commodity =>
    refine kept_or_held (SectionChange.textMember · Column.commodity.name)
      (lookup _ Column.commodity_mem) SectionChange.textMember_kept (fun hblank => ?_)
      (fun value x hgiven hshown hequal => ?_)
    · rw [SectionChange.textMember, hblank]
      rfl
    · obtain rfl := Option.some.inj (holds.commodity.symm.trans hshown)
      obtain rfl := Value.equals_text.mp hequal
      rw [SectionChange.textMember, Column.lookup_of_given hgiven]
      rfl
  case detail =>
    by_cases hd : kind.details.contains d
    · have hmem := List.contains_iff_mem.mp hd
      have hset : ∀ members, (SectionChange.ofMembers kind members).details d
          = SectionChange.detailMember members d := fun _ => if_pos hd
      have hname : (Column.ofKind d.name false d.kind).name = d.name := Column.ofKind_name ..
      rw [hset, hset]
      refine kept_or_held (SectionChange.detailMember · d)
        (lookup _ (Column.detail_mem hmem)) (fun hsame => ?_) (fun hblank => ?_)
        (fun value x hgiven hshown hequal => ?_)
      · rw [hname] at hsame
        exact SectionChange.detailMember_kept hsame
      · rw [hname] at hblank
        rw [SectionChange.detailMember, hblank]
        rfl
      · have hfits := fitting.given (Column.detail_mem hmem) hgiven
        rw [hname] at hshown
        obtain rfl := Option.some.inj ((holds.detail d hmem).symm.trans hshown)
        rw [Column.given?_detail] at hgiven
        rw [SectionChange.detailMember, hgiven, Option.map_some,
          Column.ofValue?_of_equals hfits hequal]
        rfl
    · have hset : ∀ members, (SectionChange.ofMembers kind members).details d = none :=
        fun _ => if_neg hd
      exact .inl ((hset kept).trans (hset data).symm)
  case placeholder =>
    refine kept_or_held (SectionChange.flagMember · Column.placeholder.name)
      (lookup _ Column.placeholder_mem) SectionChange.flagMember_kept (fun hblank => ?_)
      (fun value x hgiven hshown hequal => ?_)
    · rw [SectionChange.flagMember, hblank]
    · obtain ⟨b, rfl⟩ := flag_of_placeholder fitting hgiven
      obtain rfl := Option.some.inj (holds.inherits.symm.trans hshown)
      rw [SectionChange.flagMember, Column.lookup_of_given hgiven]
      exact congrArg some (Value.eq_of_equals_bool b old.inherits hequal)
  case place =>
    refine kept_or_held (SectionChange.integerMember · Column.place.name)
      (lookup _ Column.place_mem) SectionChange.integerMember_kept (fun hblank => ?_)
      (fun value x hgiven hshown hequal => ?_)
    · rw [SectionChange.integerMember, hblank]
    · obtain ⟨n, rfl⟩ := integer_of_place fitting hgiven
      obtain rfl := Option.some.inj (holds.place.symm.trans hshown)
      rw [SectionChange.integerMember, Column.lookup_of_given hgiven]
      exact congrArg some (beq_iff_eq.mp hequal)

theorem renamed_fresh (fitting : Column.Fitting (Column.sections kind) data)
    (row : InstructionRow) (old : SectionRow) :
    (if (fresh db).renames kind row old data then
      some (Error.commodityTaken (commodityOf data).display row.id) else none)
      = (Session.renamedOnto? kind row old (.ofMembers kind data)).map
          (.commodityTaken · row.id) := by
  rcases commodity_cases fitting with ⟨hnull, hnone⟩ | ⟨s, htext, hnamed⟩
  · have hrenames : (fresh db).renames kind row old data = false := by
      rw [renames, hnull]
      rfl
    rw [Session.renamedOnto?, hrenames, hnone]
    rfl
  · have hrenames : (fresh db).renames kind row old data = (s != old.commodity
        && ((row.sections kind).filter (·.id != old.id)).any (·.commodity == s)) := by
      rw [renames, htext, showsCommodity_text, bne, BEq.comm]
      rfl
    rw [Session.renamedOnto?, hrenames, htext, hnamed, Option.filter_some]
    split <;> rfl

theorem fresh?_place_overflows (db : Database)
    (fitting : Column.Fitting (Column.sections kind) data) (owner : Uuid)
    {old : SectionRow} (stored : Store.storable old.sortOrder) :
    (Column.place.fresh? ((fresh db).shownColumns kind owner old) data).any Value.overflows
      = (SectionChange.ofMembers kind data).overflows := by
  rcases fresh?_cases Column.place ((fresh db).shownColumns kind owner old) data with
    hsame | ⟨hnone, value, held, hgiven, hheld, hequal⟩
  · rw [hsame, overflows_given fitting]
  · obtain ⟨n, rfl⟩ := integer_of_place fitting hgiven
    have hplace := ((old.toSection owner).columns_lookup kind).place
    obtain rfl := Option.some.inj (hplace.symm.trans hheld)
    have hn : n = old.sortOrder := beq_iff_eq.mp hequal
    rw [hnone, ← overflows_given fitting, hgiven, hn]
    show false = !Store.storable old.sortOrder
    rw [stored]
    rfl

/-- What is written to a section, where it can be. -/
theorem write_change (a : Affinity) (fitting : Column.Fitting (Column.sections kind) data)
    (owner : Uuid) {old : SectionRow} (stored : Store.storable old.sortOrder)
    (storable : (SectionChange.ofMembers kind data).overflows = false) :
    ∃ kept, a.write ((fresh db).shownColumns kind owner old)
        (Column.given (Column.sections kind) data) = .ok kept ∧
      Trims old (.ofMembers kind kept) (.ofMembers kind data) ∧
      ∀ value, kept.lookup Column.place.name = some value → ∃ n, value = .int n := by
  let shown := (fresh db).shownColumns kind owner old
  have hsmall : ∀ c ∈ Column.sections kind, (c.fresh? shown data).any Value.overflows = false := by
    intro c hc
    by_cases hplace : c = Column.place
    · rw [hplace, fresh?_place_overflows db fitting owner stored, storable]
    · exact not_overflows fitting hc (section_column_kind hc hplace) shown
  obtain ⟨kept, hwrite, hlookup, _⟩ :=
    a.write_of_storable shown (Column.sections_names kind) fitting hsmall
  refine ⟨kept, hwrite, trims_kept fitting owner old hlookup, fun value h => ?_⟩
  rw [hlookup _ Column.place_mem] at h
  exact integer_of_place fitting (Option.filter_eq_some_iff.mp h).1

/-- What the tables refuse of a trimmed change is what they refuse of the whole one. -/
theorem misfit?_kept {row : InstructionRow} {old : SectionRow} {kept : Members}
    {change : SectionChange} (trims : Trims old (.ofMembers kind kept) change)
    (storable : change.overflows = false)
    (renamed : Session.renamedOnto? kind row old change = none)
    (place : ∀ value, kept.lookup Column.place.name = some value → ∃ n, value = .int n) :
    misfit? kind row old kept = change.fault? kind := by
  have hplace : clearsPlace kept = false := by
    rw [clearsPlace]
    cases hvalue : kept.lookup Column.place.name with
    | none => rfl
    | some value =>
      obtain ⟨n, rfl⟩ := place value hvalue
      rfl
  rw [misfit?, hplace, trims.fault? storable, trims.renamedOnto?, renamed]
  exact Option.or_none

theorem updateSection_agrees (a : Affinity) (fitting : Column.Fitting (Column.sections kind) data)
    {id : Uuid} (storable : ∀ row old, db.instructions.section? kind id = some (row, old) →
      Store.storable old.sortOrder) :
    Agrees ((fresh db).updateSection a kind id data)
      ((Session.start db).updateSection kind id (.ofMembers kind data)) := by
  let change := SectionChange.ofMembers kind data
  unfold updateSection
  cases hfound : (fresh db).store.section? kind id with
  | none =>
    rw [Session.updateSection_of_unknown (s := .start db) hfound]
    exact ⟨rfl, fun _ => rfl⟩
  | some found =>
    obtain ⟨row, old⟩ := found
    dsimp only
    cases hcurrent : row.isCurrent with
    | false =>
      rw [Session.updateSection_of_retired (s := .start db) hfound hcurrent]
      exact .refused ..
    | true =>
      rw [Bool.not_true, if_neg Bool.false_ne_true, renamed_fresh fitting]
      cases hrenamed : Session.renamedOnto? kind row old change with
      | some commodity =>
        rw [Session.updateSection_of_taken (s := .start db) hfound hcurrent hrenamed]
        exact .refused ..
      | none =>
        have hstored := storable row old hfound
        cases hlarge : change.overflows with
        | true =>
          have hwrite := a.write_of_tooLarge _ fitting Column.place_mem
            ((fresh?_place_overflows db fitting row.id hstored).trans hlarge)
          have hfault : change.fault? kind = some .integerTooLarge :=
            SectionChange.fault?_eq_some.mpr (.inl ⟨hlarge, rfl⟩)
          rw [hwrite,
            Session.updateSection_of_fault (s := .start db) hfound hcurrent hrenamed hfault]
          exact .refused ..
        | false =>
          obtain ⟨kept, hwrite, htrims, hplace⟩ := write_change a fitting row.id hstored hlarge
          have hmisfit := misfit?_kept htrims hlarge hrenamed hplace
          rw [hwrite, show (Except.ok kept : Except Error Members) = pure kept from rfl, pure_bind,
            hmisfit]
          cases hfault : change.fault? kind with
          | some e =>
            rw [Session.updateSection_of_fault (s := .start db) hfound hcurrent hrenamed hfault]
            exact .refused ..
          | none =>
            rw [← htrims.updateSection (s := .start db) hlarge hfound]
            exact agrees_of_writes _ _ _ _ hplace

end Desk

/-! ## Requests at a desk of their own -/

namespace Database
variable {a : Affinity} {data : Members} {kind : SectionKind}

theorem atDesk_addSection (db : Database) (fitting : Column.Fitting (Column.sections kind) data)
    (stamp : Stamp) (id : Uuid) :
    db.atDesk (Desk.addSection a kind stamp id data)
      = onShelf (db.transact (Session.addSection kind stamp id (.ofMembers kind data))) :=
  Desk.atDesk_of_agrees (Desk.addSection_agrees a fitting stamp id)
    (Desk.addSection_committed ..) (Session.addSection_committed ..)

theorem atDesk_updateSection (db : Database)
    (fitting : Column.Fitting (Column.sections kind) data) {id : Uuid}
    (storable : ∀ row old, db.instructions.section? kind id = some (row, old) →
      Store.storable old.sortOrder) :
    db.atDesk (Desk.updateSection a kind id data)
      = onShelf (db.transact (Session.updateSection kind id (.ofMembers kind data))) :=
  Desk.atDesk_of_agrees (Desk.updateSection_agrees a fitting storable)
    (Desk.updateSection_committed ..) (Session.updateSection_committed ..)

end Database

/-! ## Writes of a service -/

namespace Service
variable {a : Affinity} {payload : Value} {members : Members} {kind : SectionKind}

theorem addSection_atDesk (stamp : Stamp) (db : Database) (id : Uuid)
    (accepted : accept (.ofSection kind false) payload = .ok members) :
    db.atDesk (Desk.addSection a kind stamp id members)
      = onShelf (addSection kind stamp db id payload) := by
  rw [db.atDesk_addSection (accept_section_fitting accepted), addSection, accepted]
  rfl

theorem updateSection_atDesk (db : Database) {id : Uuid}
    (accepted : accept (.ofSection kind true) payload = .ok members)
    (storable : ∀ row old, db.instructions.section? kind id = some (row, old) →
      Store.storable old.sortOrder) :
    db.atDesk (Desk.updateSection a kind id members)
      = onShelf (updateSection kind db id payload) := by
  rw [db.atDesk_updateSection (accept_section_fitting accepted) storable, updateSection, accepted]
  rfl

end Service

end CarCare

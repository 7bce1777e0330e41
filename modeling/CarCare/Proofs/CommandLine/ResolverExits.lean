import CarCare.CommandLine.Resolver
import CarCare.Proofs.Hierarchy.Ancestors
import CarCare.Proofs.Hierarchy.Selection
import CarCare.Proofs.Json.RoundTrip
import CarCare.Proofs.Resolution.Preview
import CarCare.Proofs.Resolution.Requests

/-!
How a run of the resolver ends, for every database and every command.

A command is mistaken if it names a level that there is not. It is lost if what it asks for is not
there: a car without an active placement that leads up to a customer, or a scope from which no
customer is reached. The rest have an answer.

What is proved:
  1. `Effective.toValue_plain`, `Instruction.toValue_plain` and `Node.toValues_plain`: answers are
     plain values, so that they are read back from what is written.
  2. `CommandLine.Command.answer_cases`: which commands are refused, for which reason, and which are
     answered.
  3. `resolver_exits`: so the status and the output of a run tell the three apart, and the shared
     provider is closed in any case.
-/
namespace CarCare

/-! ## Answers -/

open Json (Plain)

namespace Json.Plain

theorem ofOption {α : Type} {encode : α → Value} (plain : ∀ a, Plain (encode a)) (o : Option α) :
    Plain (.ofOption encode o) := by
  cases o with
  | none => exact .null
  | some a => exact plain a

theorem textOption {α : Type} (write : α → String) (o : Option α) :
    Plain (.ofOption (fun a => .text (write a)) o) :=
  ofOption (fun a => .text (write a)) o

theorem list_map {α : Type} {encode : α → Value} (plain : ∀ a, Plain (encode a)) (l : List α) :
    Plain (.list (l.map encode)) := by
  refine .list _ fun item hitem => ?_
  obtain ⟨a, _, rfl⟩ := List.mem_map.mp hitem
  exact plain a

end Json.Plain

theorem FieldValue.toValue_plain (v : FieldValue) : Plain v.toValue := by
  cases v with
  | flag b => exact .bool b
  | text s => exact .text s

theorem Section.toValue_plain (kind : SectionKind) (s : Section) : Plain (s.toValue kind) := by
  refine .object _ ?_
  simp only [List.forall_mem_append, List.forall_mem_cons, List.forall_mem_map]
  exact ⟨⟨⟨.textOption .., .textOption .., .text _, nofun⟩,
    fun d _ => .ofOption FieldValue.toValue_plain (s.details d)⟩,
    .ofOption .bool s.inherits, .ofOption .int s.sortOrder, nofun⟩

theorem Instruction.toValue_plain (i : Instruction) (withSections : Bool) :
    Plain (i.toValue withSections) := by
  have hmembers : ∀ m ∈ i.members, Plain m.2 := by
    simp only [members, List.forall_mem_append, List.forall_mem_cons, List.forall_mem_map]
    exact ⟨⟨⟨⟨.textOption .., .textOption .., .textOption .., .textOption .., nofun⟩,
      fun l _ => .textOption ..⟩, fun f _ => .ofOption FieldValue.toValue_plain (i.fields f)⟩,
      .ofOption .int i.version, .ofOption .bool i.isCurrent, .textOption .., .textOption ..,
      .textOption .., .textOption .., nofun⟩
  have hsections : ∀ m ∈ i.sectionMembers, Plain m.2 := by
    simp only [sectionMembers, List.forall_mem_map]
    exact fun k _ => .list_map (Section.toValue_plain k) (i.sections k)
  refine .object _ (List.forall_mem_append.mpr ⟨hmembers, ?_⟩)
  cases withSections with
  | false => exact nofun
  | true => exact hsections

theorem Path.toValue_plain (p : Path) : Plain p.toValue := by
  refine .object _ fun m hm => ?_
  obtain ⟨⟨l, step⟩, _, hm⟩ := List.mem_flatMap.mp hm
  have hstep : ∀ m ∈ [(l.column, Value.ofOption (.text ·.text) step.id),
      (nameKey l, .ofOption .text step.name)], Plain m.2 := by
    simp only [List.forall_mem_cons]
    exact ⟨.textOption .., .textOption .., nofun⟩
  exact hstep m hm

theorem SectionMap.toValue_plain (kind : SectionKind) (m : SectionMap) :
    Plain (m.toValue kind) := by
  refine .object _ ?_
  simp only [List.forall_mem_map]
  intro entry _
  refine .object _ ?_
  simp only [List.forall_mem_cons]
  exact ⟨Section.toValue_plain kind _, .text _, nofun⟩

theorem Effective.fieldMembers_plain (e : Effective) {shown : Sourced FieldValue → Value}
    (plain : ∀ v, Plain (shown v)) : Plain (e.fieldMembers shown) := by
  refine .object _ fun m hm => ?_
  obtain ⟨f, _, hf⟩ := List.mem_filterMap.mp hm
  obtain ⟨v, _, rfl⟩ := Option.map_eq_some_iff.mp hf
  exact plain v

theorem Effective.toValue_plain (e : Effective) : Plain e.toValue := by
  refine .object _ ?_
  simp only [List.forall_mem_cons]
  refine ⟨e.fieldMembers_plain fun v => v.value.toValue_plain,
    e.fieldMembers_plain fun v => .text _, .list_map (fun i => .object _ ?_) e.chain,
    e.sealing.toValue_plain .sealing, e.lining.toValue_plain .lining, e.path.toValue_plain, nofun⟩
  simp only [List.forall_mem_cons]
  exact ⟨.text _, .textOption .., .textOption .., .list_map (fun f => .text _) i.defined, nofun⟩

namespace Node

mutual

theorem toValue_plain (node : Node) : Plain node.toValue := by
  cases node with
  | mk scope hasOverride children =>
    rw [toValue]
    refine .object _ ?_
    simp only [List.forall_mem_cons]
    exact ⟨.text _, .text _, .textOption .., .textOption .., .bool _, .bool _,
      .list _ (toValues_plain children), nofun⟩

theorem toValues_plain (nodes : List Node) : ∀ v ∈ toValues nodes, Plain v := by
  cases nodes with
  | nil =>
    rw [toValues]
    exact nofun
  | cons node rest =>
    rw [toValues]
    exact List.forall_mem_cons.mpr ⟨toValue_plain node, toValues_plain rest⟩

end

end Node

/-! ## Requests -/

namespace Level

theorem ofName?_eq_none {name : String} : ofName? name = none ↔ ∀ l : Level, l.name ≠ name := by
  rw [ofName?, List.find?_eq_none]
  simp only [beq_iff_eq]
  exact ⟨fun h l => h l l.mem_all, fun h l _ => h l⟩

theorem name_injective {l m : Level} (h : l.name = m.name) : l = m := by
  have hname := ofName?_name l
  rw [h, ofName?_name] at hname
  exact (Option.some.inj hname).symm

theorem name_or_refused (name : String) : (∃ l : Level, l.name = name)
    ∨ (∀ l : Level, l.name ≠ name) ∧ parse (.text name) = .error (.invalidLevel (.text name)) := by
  cases h : ofName? name with
  | some l => exact .inl ⟨l, by simpa using List.find?_some h⟩
  | none =>
    have hvalue : ofValue? (.text name) = none := h
    exact .inr ⟨ofName?_eq_none.mp h, by rw [parse, hvalue]⟩

end Level

/-- Whether an active placement of a car leads up to a customer. -/
def LeaseTables.IsPlaced (t : LeaseTables) (car : String) : Prop :=
  ∃ p : Placed, p.Complete t car

/-- Whether a scope is known and a customer is reached from it by following parents. -/
def Directory.IsRooted (d : Directory) (level : Level) (id : Uuid) : Prop :=
  ∃ s a, d.scope? level id = some s ∧ s.Reaches d.scope? a ∧ a.level = .customer

namespace Service
variable {v : Service} {db : Database} {level : Level} {id : Uuid} {car : String}

theorem resolveCar_of_unplaced (keyed : db.leases.Keyed) (unplaced : ¬ db.leases.IsPlaced car)
    (asOf : Option Date) : v.resolveCar db car asOf = .error (.carNotPlaced car) := by
  have hplacement : db.leases.activePlacement? car = none :=
    keyed.activePlacement?_eq_none.mpr fun p hp => unplaced ⟨p, hp⟩
  have hpath : (v.directory db).carPath? car (some (asOf.getD v.today)) = none := by
    show (db.leases.activePlacement? car).map _ = none
    rw [hplacement]
    rfl
  rw [resolveCar, resolveForCar, hpath]
  rfl

theorem resolveCar_of_placed (keyed : db.leases.Keyed) (placed : db.leases.IsPlaced car)
    (asOf : Option Date) : ∃ e, v.resolveCar db car asOf = .ok e := by
  obtain ⟨p, hp⟩ := placed
  have hpath : ∃ path, (v.directory db).carPath? car asOf = some path := by
    show ∃ path, (db.leases.activePlacement? car).map _ = some path
    cases hplacement : db.leases.activePlacement? car with
    | none => exact absurd hp (keyed.activePlacement?_eq_none.mp hplacement p)
    | some q => exact ⟨_, rfl⟩
  obtain ⟨path, hpath⟩ := hpath
  exact ⟨_, resolveCar_of_path hpath⟩

/-- A scope that is unknown is not found, and neither is a customer above one that is. -/
theorem resolveScope_of_unrooted (unrooted : ¬ (v.directory db).IsRooted level id) :
    ∃ e, v.resolveScope db (.text level.name) id = .error e ∧ e.isNotFound := by
  have graded : Graded (v.directory db).scope? := db.leases.graded v.today
  rw [resolveScope_name, resolveForScope]
  cases hscope : (v.directory db).scope? level id with
  | none =>
    rw [Directory.pathForScope_error hscope]
    exact ⟨_, rfl, rfl⟩
  | some s =>
    obtain ⟨rfl, rfl⟩ := Prod.mk.inj (graded.key hscope)
    have hcustomer : ¬ (((v.directory db).above s).enter s).customer.id.isSome := by
      rw [Directory.rooted_iff graded hscope]
      rintro ⟨a, ha, htop⟩
      exact unrooted ⟨s, a, hscope, ha, htop⟩
    rw [Option.not_isSome_iff_eq_none] at hcustomer
    rw [Directory.pathForScope_ok graded hscope]
    dsimp only
    rw [resolve, hcustomer]
    exact ⟨_, rfl, rfl⟩

theorem resolveScope_of_rooted (rooted : (v.directory db).IsRooted level id) :
    ∃ e, v.resolveScope db (.text level.name) id = .ok e := by
  have graded : Graded (v.directory db).scope? := db.leases.graded v.today
  obtain ⟨s, a, hscope, ha, htop⟩ := rooted
  obtain ⟨rfl, rfl⟩ := Prod.mk.inj (graded.key hscope)
  have hcustomer := (Directory.rooted_iff graded hscope).mpr ⟨a, ha, htop⟩
  exact ⟨_, resolveScope_of_path (Directory.pathForScope_ok graded hscope) hcustomer⟩

end Service

/-! ## Commands -/

namespace CommandLine

namespace Command

/-- Whether a command names a level that there is not. -/
def IsMistaken : Command → Prop
  | .scope level _ | .preview level _ => ∀ l : Level, l.name ≠ level
  | .car .. | .tree _ => False

/-- Whether a command asks for what is not there: a car that is not placed, or a scope that is
unknown or leads up to no customer. -/
def IsLost (t : LeaseTables) (today : Date) : Command → Prop
  | .car number _ => ¬ t.IsPlaced number
  | .scope level id => ∃ l : Level, l.name = level ∧ ¬ (t.directory today).IsRooted l id
  | .preview .. | .tree _ => False

/-- A mistaken command is refused for its level, whatever it asks for. A lost one is refused because
something is not found, and each of the others is answered. -/
theorem answer_cases (v : Service) {db : Database} (keyed : db.leases.Keyed) (command : Command) :
    (command.IsMistaken ∧ ¬ command.IsLost db.leases v.today
      ∧ ∃ value, command.answer v db = .error (.invalidLevel value))
    ∨ (¬ command.IsMistaken ∧ command.IsLost db.leases v.today
      ∧ ∃ e, command.answer v db = .error e ∧ e.isNotFound)
    ∨ (¬ command.IsMistaken ∧ ¬ command.IsLost db.leases v.today
      ∧ ∃ value, command.answer v db = .ok value ∧ Plain value) := by
  cases command with
  | car number asOf =>
    by_cases hplaced : db.leases.IsPlaced number
    · obtain ⟨e, he⟩ := Service.resolveCar_of_placed (v := v) keyed hplaced asOf
      refine .inr (.inr ⟨not_false, not_not.mpr hplaced, e.toValue, ?_, e.toValue_plain⟩)
      rw [answer, he]
      rfl
    · have hrefused := Service.resolveCar_of_unplaced (v := v) keyed hplaced asOf
      refine .inr (.inl ⟨not_false, hplaced, .carNotPlaced number, ?_, rfl⟩)
      rw [answer, hrefused]
      rfl
  | scope level id =>
    rcases Level.name_or_refused level with ⟨l, rfl⟩ | ⟨hnone, hparse⟩
    · have hnamed : ¬ ∀ m : Level, m.name ≠ l.name := fun h => h l rfl
      by_cases hrooted : (v.directory db).IsRooted l id
      · obtain ⟨e, he⟩ := Service.resolveScope_of_rooted hrooted
        refine .inr (.inr ⟨hnamed, ?_, e.toValue, ?_, e.toValue_plain⟩)
        · rintro ⟨m, hm, hunrooted⟩
          obtain rfl := Level.name_injective hm
          exact hunrooted hrooted
        · rw [answer, he]
          rfl
      · obtain ⟨e, he, hmissing⟩ := Service.resolveScope_of_unrooted hrooted
        refine .inr (.inl ⟨hnamed, ⟨l, rfl, hrooted⟩, e, ?_, hmissing⟩)
        rw [answer, he]
        rfl
    · refine .inl ⟨hnone, fun ⟨l, hl, _⟩ => hnone l hl, .text level, ?_⟩
      rw [answer, Service.resolveScope, hparse]
      rfl
  | preview level id =>
    rcases Level.name_or_refused level with ⟨l, rfl⟩ | ⟨hnone, hparse⟩
    · refine .inr (.inr ⟨fun h => h l rfl, not_false, _, ?_,
        .ofOption (Instruction.toValue_plain · true)
          (parentPreview (v.directory db) (Service.reader db) l id)⟩)
      rw [answer, Service.preview_name]
      rfl
    · refine .inl ⟨hnone, not_false, .text level, ?_⟩
      rw [answer, Service.preview, hparse]
      rfl
  | tree customer =>
    have hplain : Plain (.list (Node.toValues (v.tree db customer))) :=
      .list _ (Node.toValues_plain (v.tree db customer))
    exact .inr (.inr ⟨not_false, not_false, _, rfl, hplain⟩)

theorem exit_of_missing {e : Error} (missing : e.isNotFound) : exit (.error e) = .ok ⟨1, ""⟩ := by
  cases e <;> first | rfl | cases missing

end Command

/-! ## Runs -/

theorem Resolver.run_eq {v : Surroundings} {source : ConfigSource} {args : List String}
    {db stored : Database} {shared : SharedProvider} {file : Option String} {command : Command}
    {config : Config} (parsed : parse args = .ok (file, command))
    (configured : configure source file = .ok config)
    (found : (shared.connect (.ofConfig v.environment config.database) (some db)).1.database
      = some stored) :
    (run v source args db shared).1
        = Command.exit (command.answer ⟨config.tree.hideInactive, v.today⟩ stored)
      ∧ (run v source args db shared).2.current = none := by
  simp only [run, parsed, configured, runCommand, found]
  exact ⟨trivial, rfl⟩

end CommandLine

open CommandLine

/-- A run of the resolver on arguments that are understood, with a configuration that is found, ends
with an exit status and with the shared provider closed, whatever the database holds. The status is
2, and nothing is written, if and only if the command names a level that there is not; this is the
refusal of the level, which comes before anything is looked up. The status is 1, and nothing is
written, if and only if the command asks for a car without an active placement whose rider, lease
and customer all exist, or for a scope that is unknown or whose parents lead up to no customer; this
is the refusal of what is not found. Else the status is 0, and what is written is read back, as one
value, as what the service answers; a preview that shows nothing is read as null. -/
theorem resolver_exits (v : Surroundings) (source : ConfigSource) (args : List String)
    (db : Database) (shared : SharedProvider) {file : Option String} {command : Command}
    {config : Config} {stored : Database} (parsed : Resolver.parse args = .ok (file, command))
    (configured : configure source file = .ok config)
    (found : (shared.connect (.ofConfig v.environment config.database) (some db)).1.database
      = some stored) (keyed : stored.leases.Keyed) :
    let service : Service := ⟨config.tree.hideInactive, v.today⟩
    let answer := command.answer service stored
    let out := Resolver.run v source args db shared
    out.2.current = none ∧ ∃ exit, out.1 = .ok exit
      ∧ (exit = ⟨2, ""⟩ ↔ command.IsMistaken)
      ∧ (exit = ⟨2, ""⟩ ↔ ∃ value, answer = .error (.invalidLevel value))
      ∧ (exit = ⟨1, ""⟩ ↔ command.IsLost stored.leases v.today)
      ∧ (exit = ⟨1, ""⟩ ↔ ∃ e, answer = .error e ∧ e.isNotFound)
      ∧ (¬ command.IsMistaken → ¬ command.IsLost stored.leases v.today → exit.status = 0
        ∧ ∃ value, answer = .ok value ∧ Json.read? exit.output = some value)
      ∧ ∀ level id, command = .preview level id →
        service.preview stored (.text level) id = .ok none →
        Json.read? exit.output = some .null := by
  intro service answer out
  obtain ⟨hout, hclosed⟩ := Resolver.run_eq parsed configured found
  refine ⟨hclosed, ?_⟩
  rw [show out.1 = Command.exit answer from hout]
  have hnull : ∀ {level id}, command = .preview level id →
      service.preview stored (.text level) id = .ok none → answer = .ok .null := by
    rintro level id rfl hnone
    show (service.preview stored (.text level) id).map _ = _
    rw [hnone]
    rfl
  rcases Command.answer_cases service keyed command with ⟨hmistaken, hlost, value, hanswer⟩ |
    ⟨hmistaken, hlost, e, hanswer, hmissing⟩ | ⟨hmistaken, hlost, value, hanswer, hplain⟩
  · have hexit : Command.exit answer = .ok ⟨2, ""⟩ := congrArg Command.exit hanswer
    have hnever : ∀ {value}, answer ≠ .ok value := fun h => nomatch hanswer.symm.trans h
    have hfound : ¬ ∃ e, answer = .error e ∧ e.isNotFound := by
      rintro ⟨e, he, hmissing⟩
      obtain rfl := Except.error.inj (hanswer.symm.trans he)
      cases hmissing
    exact ⟨⟨2, ""⟩, hexit, iff_of_true rfl hmistaken, iff_of_true rfl ⟨value, hanswer⟩,
      iff_of_false nofun hlost, iff_of_false nofun hfound, fun h => absurd hmistaken h,
      fun level id hpreview hnone => absurd (hnull hpreview hnone) hnever⟩
  · have hexit : Command.exit answer = .ok ⟨1, ""⟩ :=
      (congrArg Command.exit hanswer).trans (Command.exit_of_missing hmissing)
    have hnever : ∀ {value}, answer ≠ .ok value := fun h => nomatch hanswer.symm.trans h
    have htaken : ¬ ∃ value, answer = .error (.invalidLevel value) := by
      rintro ⟨value, he⟩
      obtain rfl := Except.error.inj (hanswer.symm.trans he)
      cases hmissing
    exact ⟨⟨1, ""⟩, hexit, iff_of_false nofun hmistaken, iff_of_false nofun htaken,
      iff_of_true rfl hlost, iff_of_true rfl ⟨e, hanswer, hmissing⟩, fun _ h => absurd hlost h,
      fun level id hpreview hnone => absurd (hnull hpreview hnone) hnever⟩
  · have hexit : Command.exit answer = .ok ⟨0, Json.indented value ++ "\n"⟩ :=
      congrArg Command.exit hanswer
    have hnever : ∀ {e}, answer ≠ .error e := fun h => nomatch hanswer.symm.trans h
    have hread := Json.read?_indented hplain
    refine ⟨_, hexit, iff_of_false nofun hmistaken, iff_of_false nofun fun ⟨_, he⟩ => hnever he,
      iff_of_false nofun hlost, iff_of_false nofun fun ⟨_, he, _⟩ => hnever he,
      fun _ _ => ⟨rfl, value, hanswer, hread⟩, fun level id hpreview hnone => ?_⟩
    obtain rfl := Except.ok.inj (hanswer.symm.trans (hnull hpreview hnone))
    exact hread

/-- Tables with names beyond ASCII, and with a lease and a placement that lead nowhere. -/
def foreignTables : LeaseTables where
  customers := [⟨⟨1⟩, "ZUCK", "Zucker & Söhne 🍬", true⟩]
  leases := [⟨⟨10⟩, ⟨1⟩, "L10", some "Süd \"A\"", "Active"⟩, ⟨⟨11⟩, ⟨9⟩, "L11", none, "Active"⟩]
  riders := [⟨⟨20⟩, ⟨10⟩, "R20", none, "Active"⟩, ⟨⟨21⟩, ⟨11⟩, "R21", none, "Active"⟩]
  placements := [⟨⟨40⟩, ⟨20⟩, "TILX 7", true⟩, ⟨⟨41⟩, ⟨21⟩, "TILX 8", true⟩]

theorem foreignTables_keyed : foreignTables.Keyed where
  scopes level := by cases level <;> decide
  placements := by decide

/-- A scope below a customer with a name beyond ASCII is resolved, and its names are read back. A
level that there is not is refused though the id is unknown as well. A lease that is known is not
found when its customer is missing, nor is a car that is placed below it. An unknown scope has
nothing to preview. -/
theorem resolver_exits_foreign :
    let v : Surroundings := { today := ⟨5⟩ }
    let db : Database := { leases := foreignTables }
    let directory := foreignTables.directory v.today
    let run (args : List String) := Resolver.run v (fun _ => .ok {}) args db {}
    let uuid (last : String) := "00000000-0000-0000-0000-0000000000" ++ last
    foreignTables.Keyed
      ∧ (∃ exit, ∃ e : Effective, (run ["scope", "rider", uuid "14"]).1 = .ok exit ∧ exit.status = 0
        ∧ e.path.customer.name = some "Zucker & Söhne 🍬"
        ∧ Json.read? exit.output = some e.toValue)
      ∧ (run ["scope", "rider", uuid "14"]).2.current = none
      ∧ (run ["preview", "yard", uuid "63"]).1 = .ok ⟨2, ""⟩
      ∧ ((run ["scope", "master_lease", uuid "0b"]).1 = .ok ⟨1, ""⟩
        ∧ ¬ directory.IsRooted .masterLease ⟨11⟩)
      ∧ ((run ["car", "TILX 8"]).1 = .ok ⟨1, ""⟩ ∧ ¬ foreignTables.IsPlaced "TILX 8")
      ∧ ∃ exit, (run ["preview", "rider", uuid "63"]).1 = .ok exit
        ∧ Json.read? exit.output = some .null := by
  intro v db directory run uuid
  have keyed := foreignTables_keyed
  have hconfig : configure (fun _ => .ok {}) none = .ok {} := rfl
  have hrooted : directory.IsRooted .rider ⟨20⟩ :=
    ⟨_, _, rfl, .head rfl (.head rfl .refl), rfl⟩
  refine ⟨keyed, ?_, ?_, ?_, ?_, ?_, ?_⟩
  · have hparsed : Resolver.parse ["scope", "rider", uuid "14"]
        = .ok (none, .scope "rider" ⟨20⟩) := by decide +kernel
    obtain ⟨-, exit, hexit, -, -, -, -, hanswered, -⟩ :=
      resolver_exits v (fun _ => .ok {}) _ db {} hparsed hconfig rfl keyed
    have hfound : ¬ Command.IsLost foreignTables v.today (.scope "rider" ⟨20⟩) := by
      rintro ⟨l, hl, hunrooted⟩
      obtain rfl : l = .rider := Level.name_injective hl
      exact hunrooted hrooted
    obtain ⟨hstatus, value, hanswer, hread⟩ := hanswered (fun h => h .rider rfl) hfound
    have hresolves : ∃ e, Service.resolveScope ⟨false, v.today⟩ db (.text Level.rider.name) ⟨20⟩
        = .ok e := Service.resolveScope_of_rooted hrooted
    obtain ⟨e, he⟩ := hresolves
    have hvalue : value = e.toValue := by
      refine Except.ok.inj (hanswer.symm.trans ?_)
      show (Service.resolveScope ⟨false, v.today⟩ db (.text Level.rider.name) ⟨20⟩).map _ = _
      rw [he]
      rfl
    have hname : (directory.pathForScope .rider ⟨20⟩).toOption.bind (·.customer.name)
        = some "Zucker & Söhne 🍬" := by decide +kernel
    obtain ⟨path, hpath, -, rfl⟩ := Service.resolveScope_eq_ok.mp he
    have hpath : directory.pathForScope .rider ⟨20⟩ = .ok path := hpath
    rw [hpath] at hname
    exact ⟨exit, _, hexit, hstatus, hname, hvalue ▸ hread⟩
  · have hparsed : Resolver.parse ["scope", "rider", uuid "14"]
        = .ok (none, .scope "rider" ⟨20⟩) := by decide +kernel
    exact (resolver_exits v (fun _ => .ok {}) _ db {} hparsed hconfig rfl keyed).1
  · have hparsed : Resolver.parse ["preview", "yard", uuid "63"]
        = .ok (none, .preview "yard" ⟨99⟩) := by decide +kernel
    obtain ⟨-, exit, hexit, hmistaken, -⟩ :=
      resolver_exits v (fun _ => .ok {}) _ db {} hparsed hconfig rfl keyed
    have hyard : ∀ l : Level, l.name ≠ "yard" := by
      intro l
      cases l <;> decide
    rw [hmistaken.mpr hyard] at hexit
    exact hexit
  · have hparsed : Resolver.parse ["scope", "master_lease", uuid "0b"]
        = .ok (none, .scope "master_lease" ⟨11⟩) := by decide +kernel
    obtain ⟨-, exit, hexit, -, -, hlost, hmissing, -⟩ :=
      resolver_exits v (fun _ => .ok {}) _ db {} hparsed hconfig rfl keyed
    obtain rfl := hmissing.mpr ⟨.pathWithoutCustomer, rfl, rfl⟩
    obtain ⟨l, hl, hunrooted⟩ := hlost.mp rfl
    obtain rfl : l = .masterLease := Level.name_injective hl
    exact ⟨hexit, hunrooted⟩
  · have hparsed : Resolver.parse ["car", "TILX 8"] = .ok (none, .car "TILX 8" none) := by
      decide +kernel
    obtain ⟨-, exit, hexit, -, -, hlost, hmissing, -⟩ :=
      resolver_exits v (fun _ => .ok {}) _ db {} hparsed hconfig rfl keyed
    obtain rfl := hmissing.mpr ⟨.carNotPlaced "TILX 8", rfl, rfl⟩
    exact ⟨hexit, hlost.mp rfl⟩
  · have hparsed : Resolver.parse ["preview", "rider", uuid "63"]
        = .ok (none, .preview "rider" ⟨99⟩) := by decide +kernel
    obtain ⟨-, exit, hexit, -, -, -, -, -, hnull⟩ :=
      resolver_exits v (fun _ => .ok {}) _ db {} hparsed hconfig rfl keyed
    exact ⟨exit, hexit, hnull "rider" ⟨99⟩ rfl rfl⟩

end CarCare

import CarCare.Config

/-!
The limits of a configuration. What an accepted one holds is traced back to the keys of its file.

What is proved:
  1. `Config.read_cases`: what reading a file comes to, told by the values under its keys.
  2. `LimitedNumber.forM_check`: the checks end at the first number that is not admitted; by
     induction on the numbers that are looked at.
  3. `Config.check_eq_ok`: hence a configuration passes the checks exactly when its level has a name
     and all of its numbers are admitted.
  4. `accepted_configuration_in_limits`: an accepted configuration is within its limits, unless a
     truth value stands for one of its numbers. Truth values count as 0 and 1 and are let through.
-/
namespace CarCare

/-- A value that stands where a mapping belongs: it is not empty, and no mapping. -/
def Value.isStray : Value → Bool
  | .map _ => false
  | v => v.isFull

/-! ## Reading -/

namespace Config

/-- What a file holds under a key of a section. -/
def member? (file : Value) (name key : String) : Option Value := (file.get? name).bind (·.get? key)

def levelOf (file : Value) : Value :=
  (member? file "logging" "level").getD (.text ({} : LoggingConfig).level)

def numberOf (file : Value) (number : LimitedNumber) : Value :=
  (member? file "database" number.key).getD (number.value {})

def sectionNames : List String := ["database", "logging", "hierarchy_tree"]

/-- A file that can be read as a configuration: all sections are in their form, and the level can be
put in words. -/
structure Reads (file : Value) (c : Config) : Prop where
  fits : file.isStray = false
  sections : ∀ name ∈ sectionNames, ∀ v, file.get? name = some v → v.isStray = false
  writable : (levelOf file).isWritable
  level : c.logging.level = Text.upperCase (levelOf file).display
  number : ∀ number, LimitedNumber.value c.database number = numberOf file number

variable {refusal : ConfigError} {v file : Value} {entries : ConfigSection} {c : Config}

theorem entriesOf_of_stray (h : v.isStray) : entriesOf refusal v = .error refusal := by
  cases v with
  | map entries => cases h
  | scalar s => exact if_pos h
  | list items => exact if_pos h

theorem entriesOf_of_fitting (refusal : ConfigError) (h : v.isStray = false) :
    ∃ entries, entriesOf refusal v = .ok entries
      ∧ ∀ key, entries.lookup (.text key) = v.get? key := by
  cases v with
  | map entries => exact ⟨entries, rfl, fun _ => rfl⟩
  | scalar s => exact ⟨[], if_neg (Bool.eq_false_iff.mp h), fun _ => rfl⟩
  | list items => exact ⟨[], if_neg (Bool.eq_false_iff.mp h), fun _ => rfl⟩

/-- A section is refused if a stray value stands there. Otherwise its keys are those of the file. -/
theorem sectionOf_cases (keys : ∀ key, entries.lookup (.text key) = file.get? key) (name : String) :
    (sectionOf entries name = .error .sectionNotAMapping
        ∧ ∃ v, file.get? name = some v ∧ v.isStray)
      ∨ ∃ held, sectionOf entries name = .ok held
        ∧ (∀ v, file.get? name = some v → v.isStray = false)
        ∧ ∀ key default, held.getOr key default = (member? file name key).getD default := by
  unfold sectionOf ConfigSection.getOr member?
  rw [keys]
  cases hvalue : file.get? name with
  | none => exact .inr ⟨[], rfl, nofun, fun _ _ => rfl⟩
  | some v =>
    cases hstray : v.isStray with
    | true => exact .inl ⟨entriesOf_of_stray hstray, v, rfl, hstray⟩
    | false =>
      obtain ⟨held, hheld, hget⟩ := entriesOf_of_fitting .sectionNotAMapping hstray
      refine .inr ⟨held, hheld, ?_, fun key default => ?_⟩
      · intro w hw
        rw [← Option.some.inj hw]
        exact hstray
      · rw [hget]
        rfl

theorem readLogging_cases {held : ConfigSection} {level : Value}
    (h : held.getOr "level" (.text ({} : LoggingConfig).level) = level) :
    (readLogging held = .error .tooManyDigits ∧ level.isWritable = false)
      ∨ ∃ l, readLogging held = .ok l ∧ level.isWritable
        ∧ l.level = Text.upperCase level.display := by
  subst h
  unfold readLogging
  dsimp only
  split
  · exact .inr ⟨_, rfl, ‹_›, rfl⟩
  · exact .inl ⟨rfl, Bool.eq_false_iff.mpr ‹_›⟩

/-- Reading fails on a stray value in the place of the file or of a section, and on a level that
cannot be put in words; the first of these ends it. -/
theorem read_cases (file : Value) :
    (read file = .error .notAMapping ∧ file.isStray)
      ∨ (read file = .error .sectionNotAMapping
        ∧ ∃ name ∈ sectionNames, ∃ v, file.get? name = some v ∧ v.isStray)
      ∨ (read file = .error .tooManyDigits ∧ (levelOf file).isWritable = false)
      ∨ ∃ c, read file = .ok c ∧ Reads file c := by
  cases hfile : file.isStray with
  | true =>
    refine .inl ⟨?_, rfl⟩
    simp only [read, entriesOf_of_stray hfile, bind, Except.bind]
  | false =>
    obtain ⟨entries, hentries, hkeys⟩ := entriesOf_of_fitting .notAMapping hfile
    -- The sections are read one after the other, and each of them may end the reading.
    rcases sectionOf_cases hkeys "database" with
      ⟨hdatabase, hstray⟩ | ⟨database, hdatabase, hfits₁, hget₁⟩
    · refine .inr (.inl ⟨?_, "database", by simp [sectionNames], hstray⟩)
      simp only [read, hentries, hdatabase, bind, Except.bind]
    rcases sectionOf_cases hkeys "logging" with
      ⟨hlogging, hstray⟩ | ⟨logging, hlogging, hfits₂, hget₂⟩
    · refine .inr (.inl ⟨?_, "logging", by simp [sectionNames], hstray⟩)
      simp only [read, hentries, hdatabase, hlogging, bind, Except.bind]
    rcases readLogging_cases (hget₂ "level" _) with
      ⟨hread, hwritable⟩ | ⟨l, hread, hwritable, hlevel⟩
    · refine .inr (.inr (.inl ⟨?_, hwritable⟩))
      simp only [read, hentries, hdatabase, hlogging, hread, bind, Except.bind]
    rcases sectionOf_cases hkeys "hierarchy_tree" with
      ⟨htree, hstray⟩ | ⟨tree, htree, hfits₃, -⟩
    · refine .inr (.inl ⟨?_, "hierarchy_tree", by simp [sectionNames], hstray⟩)
      simp only [read, hentries, hdatabase, hlogging, hread, htree, bind, Except.bind]
    refine .inr (.inr (.inr ⟨⟨readDatabase database, l, readTree tree⟩, ?_, ?_⟩))
    · simp only [read, hentries, hdatabase, hlogging, hread, htree, bind, Except.bind]
      rfl
    · refine ⟨hfile, ?_, hwritable, hlevel, fun number => ?_⟩
      · simp only [sectionNames, List.forall_mem_cons]
        exact ⟨hfits₁, hfits₂, hfits₃, nofun⟩
      · cases number <;> exact hget₁ _ _

theorem reads_of_ok (h : read file = .ok c) : Reads file c := by
  rcases read_cases file with ⟨he, -⟩ | ⟨he, -⟩ | ⟨he, -⟩ | ⟨c', hc', hreads⟩
  · cases h.symm.trans he
  · cases h.symm.trans he
  · cases h.symm.trans he
  · rw [Except.ok.inj (h.symm.trans hc')]
    exact hreads

end Config

/-! ## Checking -/

namespace LimitedNumber

variable {v : Value} {number : LimitedNumber}

theorem mem_all (number : LimitedNumber) : number ∈ all := by cases number <;> decide

/-- What counts as a number within a limit: an integer, or a truth value as 0 or 1. -/
theorem admits_iff : number.admits v
    ↔ ∃ n : Int, number.allows n ∧ (v = .int n ∨ ∃ b : Bool, v = .bool b ∧ n = b.toNat) := by
  unfold admits wholeNumber?
  split
  · simp
  · simp
  · rename_i hint hbool
    refine iff_of_false (by simp) fun ⟨n, _, hv⟩ => ?_
    rcases hv with hv | ⟨b, hv, -⟩
    · exact hint n hv
    · exact hbool b hv

theorem check_of_admitted {d : DatabaseConfig} (h : number.admits (number.value d)) :
    check d number = .ok () :=
  if_pos h

/-- A refusal shows the value, and is only reported if that can be put in words. -/
theorem check_of_refused {d : DatabaseConfig} (h : number.admits (number.value d) = false) :
    ∃ e, check d number = .error e ∧ e.isReported = (number.value d).isWritable := by
  unfold check
  dsimp only
  rw [if_neg (Bool.eq_false_iff.mp h)]
  cases (number.value d).isWritable with
  | true => exact ⟨_, rfl, by cases number <;> rfl⟩
  | false => exact ⟨_, rfl, rfl⟩

theorem forM_check (d : DatabaseConfig) (numbers : List LimitedNumber) :
    numbers.forM (check d)
      = match numbers.find? fun number => !number.admits (number.value d) with
        | none => .ok ()
        | some number => check d number := by
  -- A number that is admitted passes the check, and any other one ends the loop.
  induction numbers with
  | nil => rfl
  | cons number rest ih =>
    show (check d number >>= fun _ => rest.forM (check d)) = _
    rw [List.find?_cons]
    cases h : number.admits (number.value d) with
    | true =>
      rw [check_of_admitted h]
      exact ih
    | false =>
      obtain ⟨e, hcheck, -⟩ := check_of_refused h
      show _ = check d number
      rw [hcheck]
      rfl

theorem default_allowed (number : LimitedNumber) :
    ∃ n : Int, number.value {} = .int n ∧ number.allows n := by
  cases number <;> exact ⟨_, rfl, by decide⟩

end LimitedNumber

namespace Config

variable {file : Value} {c : Config}

theorem check_of_unnamed (h : c.logging.level ∉ levelNames) :
    c.check = .error (.level c.logging.level) := by
  have hcontains : levelNames.contains c.logging.level = false := by simpa using h
  unfold check
  rw [hcontains]
  rfl

theorem check_of_named (h : c.logging.level ∈ levelNames) :
    c.check = LimitedNumber.all.forM (LimitedNumber.check c.database) := by
  have hcontains : levelNames.contains c.logging.level = true := by simpa using h
  unfold check
  rw [hcontains]
  rfl

theorem check_eq_ok : c.check = .ok () ↔ c.logging.level ∈ levelNames
    ∧ ∀ number, LimitedNumber.admits (number.value c.database) number := by
  by_cases hlevel : c.logging.level ∈ levelNames
  · rw [check_of_named hlevel, LimitedNumber.forM_check]
    cases hfirst : LimitedNumber.all.find? fun n => !n.admits (n.value c.database) with
    | none =>
      refine iff_of_true rfl ⟨hlevel, fun number => ?_⟩
      simpa using List.find?_eq_none.mp hfirst number number.mem_all
    | some number =>
      have hrefused : number.admits (number.value c.database) = false := by
        simpa using List.find?_some hfirst
      obtain ⟨e, hcheck, -⟩ := LimitedNumber.check_of_refused hrefused
      show LimitedNumber.check c.database number = .ok () ↔ _
      rw [hcheck]
      exact iff_of_false nofun fun h => absurd (h.2 number) (Bool.eq_false_iff.mp hrefused)
  · rw [check_of_unnamed hlevel]
    exact iff_of_false nofun fun h => hlevel h.1

theorem ofValue_of_read_error {e : ConfigError} (h : read file = .error e) :
    ofValue file = .error e := by
  simp only [ofValue, h, bind, Except.bind]

theorem ofValue_of_check_error {e : ConfigError} (h : read file = .ok c) (h' : c.check = .error e) :
    ofValue file = .error e := by
  simp only [ofValue, h, h', bind, Except.bind]

theorem ofValue_of_checked (h : read file = .ok c) (h' : c.check = .ok ()) :
    ofValue file = .ok c := by
  simp only [ofValue, h, h', bind, Except.bind]
  rfl

theorem ofValue_eq_ok : ofValue file = .ok c ↔ Config.read file = .ok c ∧ c.check = .ok () := by
  refine ⟨fun h => ?_, fun h => ofValue_of_checked h.1 h.2⟩
  cases hread : Config.read file with
  | error e => cases (ofValue_of_read_error hread).symm.trans h
  | ok c' =>
    cases hcheck : c'.check with
    | error e => cases (ofValue_of_check_error hread hcheck).symm.trans h
    | ok _ =>
      obtain rfl := Except.ok.inj ((ofValue_of_checked hread hcheck).symm.trans h)
      exact ⟨rfl, hcheck⟩

/-- A configuration within its limits, where an integer is no truth value. -/
structure InLimits (c : Config) : Prop where
  level : c.logging.level ∈ levelNames
  poolSize : ∃ n, c.database.poolSize = .int n ∧ 1 ≤ n
  poolTimeout : ∃ n, c.database.poolTimeout = .int n ∧ 1 ≤ n
  poolRecycle : ∃ n, c.database.poolRecycle = .int n ∧ 1 ≤ n
  maxOverflow : ∃ n, c.database.maxOverflow = .int n ∧ 0 ≤ n
  port : ∃ n, c.database.port = .int n ∧ 1 ≤ n ∧ n ≤ 65535

theorem inLimits_iff : c.InLimits ↔ c.logging.level ∈ levelNames
    ∧ ∀ number : LimitedNumber, ∃ n, number.value c.database = .int n ∧ number.allows n := by
  have hport : ∀ n, LimitedNumber.port.allows n ↔ 1 ≤ n ∧ n ≤ 65535 := by
    intro n
    simp only [LimitedNumber.allows, Bool.and_eq_true, decide_eq_true_eq]
    omega
  refine ⟨fun h => ⟨h.level, fun number => ?_⟩, fun ⟨hlevel, h⟩ => ?_⟩
  · cases number with
    | poolSize => exact h.poolSize.imp fun n hn => ⟨hn.1, decide_eq_true hn.2⟩
    | poolTimeout => exact h.poolTimeout.imp fun n hn => ⟨hn.1, decide_eq_true hn.2⟩
    | poolRecycle => exact h.poolRecycle.imp fun n hn => ⟨hn.1, decide_eq_true hn.2⟩
    | maxOverflow => exact h.maxOverflow.imp fun n hn => ⟨hn.1, decide_eq_true hn.2⟩
    | port => exact h.port.imp fun n hn => ⟨hn.1, (hport n).mpr hn.2⟩
  · exact
      { level := hlevel
        poolSize := (h .poolSize).imp fun n hn => ⟨hn.1, of_decide_eq_true hn.2⟩
        poolTimeout := (h .poolTimeout).imp fun n hn => ⟨hn.1, of_decide_eq_true hn.2⟩
        poolRecycle := (h .poolRecycle).imp fun n hn => ⟨hn.1, of_decide_eq_true hn.2⟩
        maxOverflow := (h .maxOverflow).imp fun n hn => ⟨hn.1, of_decide_eq_true hn.2⟩
        port := (h .port).imp fun n hn => ⟨hn.1, (hport n).mp hn.2⟩ }

end Config

/-- What an accepted configuration holds. The level has one of the five names. Every limited number
is what the file has under its key, or the default if the key is absent; the default is an integer
within the limit. What the file has is an integer within the limit too, or a truth value, which
counts as 0 or 1 there. So a configuration is within its limits exactly if no truth value stands for
one of its numbers. -/
theorem accepted_configuration_in_limits (file : Value) (c : Config)
    (accepted : Config.ofValue file = .ok c) :
    c.logging.level ∈ Config.levelNames
      ∧ (∀ number : LimitedNumber, number.value c.database
          = (Config.member? file "database" number.key).getD (number.value {}))
      ∧ (∀ number : LimitedNumber, ∃ n : Int, number.allows n
        ∧ (number.value c.database = .int n
          ∨ ∃ b : Bool, number.value c.database = .bool b ∧ n = b.toNat))
      ∧ (∀ number : LimitedNumber, Config.member? file "database" number.key = none →
        ∃ n : Int, number.value c.database = .int n ∧ number.allows n)
      ∧ (c.InLimits ↔ ∀ (number : LimitedNumber) (b : Bool),
        number.value c.database ≠ .bool b) := by
  obtain ⟨hread, hcheck⟩ := Config.ofValue_eq_ok.mp accepted
  obtain ⟨hlevel, hadmits⟩ := Config.check_eq_ok.mp hcheck
  have hreads := Config.reads_of_ok hread
  refine ⟨hlevel, hreads.number, fun number => LimitedNumber.admits_iff.mp (hadmits number),
    fun number habsent => ?_, ?_⟩
  · have hdefault : number.value c.database = number.value {} := by
      rw [hreads.number, Config.numberOf, habsent, Option.getD_none]
    rw [hdefault]
    exact number.default_allowed
  · rw [Config.inLimits_iff]
    refine ⟨fun h number b hb => ?_, fun h => ⟨hlevel, fun number => ?_⟩⟩
    · obtain ⟨n, hn, -⟩ := h.2 number
      cases hn.symm.trans hb
    · obtain ⟨n, hallows, hn | ⟨b, hb, -⟩⟩ := LimitedNumber.admits_iff.mp (hadmits number)
      · exact ⟨n, hn, hallows⟩
      · exact absurd hb (h number b)

/-- A file that sets two numbers and leaves out the others. -/
def partialFile : Value :=
  .object [("logging", .object [("level", .text "warning")]),
    ("database", .object [("port", .int 65535), ("max_overflow", .int 0)])]

theorem accepted_configuration_in_limits_partial : ∃ c, Config.ofValue partialFile = .ok c
    ∧ c.logging.level = "WARNING" ∧ c.database.poolSize = .int 5 ∧ c.InLimits := by
  refine ⟨_, rfl, rfl, rfl, ?_⟩
  obtain ⟨-, -, -, -, hlimits⟩ := accepted_configuration_in_limits partialFile _ rfl
  refine hlimits.mpr fun number b => ?_
  cases number <;> nofun

/-- A file in which a truth value stands for the size of the pool. -/
def truthFile : Value := .object [("database", .object [("pool_size", .bool true)])]

/-- A truth value is accepted as the size of the pool, which is no integer then. -/
theorem truth_value_as_pool_size : ∃ c, Config.ofValue truthFile = .ok c
    ∧ c.database.poolSize = .bool true ∧ ¬ c.InLimits := by
  refine ⟨_, rfl, rfl, fun h => ?_⟩
  obtain ⟨n, hn, -⟩ := h.poolSize
  cases hn

end CarCare

import CarCare.Proofs.Config.Limits

/-!
How a configuration is refused. A refusal should be reported as one of the configuration. Two faults
of the program are not: the keys of a section are asked for before it is known to be a mapping, and
integers of too many digits cannot be put in words, neither as a level nor in a refusal.

What is proved:
  1. `Config.check_cases`: what the checks come to for a file that can be read.
  2. `unreported_configurations`: the files for which a fault gets out are those that run into one
     of the two, and no others.
-/
namespace CarCare

namespace Config

variable {file : Value} {c : Config} {e : ConfigError}

/-- The first limited number that a file has outside its limit. -/
def firstRefused? (file : Value) : Option LimitedNumber :=
  LimitedNumber.all.find? fun number => !number.admits (numberOf file number)

/-- The files whose refusal is not reported as one of a configuration. -/
inductive Escapes (file : Value) : Prop where
  /-- A value that is full and no mapping stands for a section. -/
  | strayed (name : String) (v : Value) (known : name ∈ sectionNames)
    (held : file.get? name = some v) (stray : v.isStray)
  /-- The level cannot be put in words. -/
  | wordless (level : (levelOf file).isWritable = false)
  /-- The first number outside its limit cannot be put in words, and the level has a name. -/
  | unshown (number : LimitedNumber) (named : Text.upperCase (levelOf file).display ∈ levelNames)
    (first : firstRefused? file = some number) (hidden : (numberOf file number).isWritable = false)

theorem get?_of_stray (h : file.isStray) (name : String) : file.get? name = none := by
  cases file with
  | map entries => cases h
  | scalar s => rfl
  | list items => rfl

/-- A file that is no mapping says nothing of its sections. -/
theorem not_escapes_of_stray (h : file.isStray) : ¬ Escapes file := by
  have habsent : ∀ name key, member? file name key = none := by
    intro name key
    rw [member?, get?_of_stray h]
    rfl
  intro hescapes
  cases hescapes with
  | strayed name v _ held _ => cases (get?_of_stray h name).symm.trans held
  | wordless level =>
    rw [levelOf, habsent] at level
    cases level
  | unshown number _ first _ =>
    have hnumber : ∀ number, numberOf file number = number.value {} := by
      intro number
      rw [numberOf, habsent]
      rfl
    simp only [firstRefused?, hnumber] at first
    cases first

theorem check_cases (reads : Reads file c) :
    (c.check = .ok () ∧ firstRefused? file = none)
      ∨ (∃ name, c.check = .error (.level name)
        ∧ Text.upperCase (levelOf file).display ∉ levelNames)
      ∨ ∃ number e, c.check = .error e ∧ firstRefused? file = some number
        ∧ Text.upperCase (levelOf file).display ∈ levelNames
        ∧ e.isReported = (numberOf file number).isWritable := by
  rw [← reads.level]
  have hfirst : (LimitedNumber.all.find? fun number => !number.admits (number.value c.database))
      = firstRefused? file := by
    simp only [firstRefused?, reads.number]
  by_cases hlevel : c.logging.level ∈ levelNames
  · rw [check_of_named hlevel, LimitedNumber.forM_check, hfirst]
    cases hrefused : firstRefused? file with
    | none => exact .inl ⟨rfl, rfl⟩
    | some number =>
      have houtside : number.admits (number.value c.database) = false := by
        simpa using List.find?_some (hfirst.trans hrefused)
      obtain ⟨e, hcheck, hreported⟩ := LimitedNumber.check_of_refused houtside
      rw [reads.number] at hreported
      exact .inr (.inr ⟨number, e, hcheck, rfl, hlevel, hreported⟩)
  · exact .inr (.inl ⟨_, check_of_unnamed hlevel, hlevel⟩)

theorem unreported_iff (h : ofValue file = .error e) :
    (∃ e, ofValue file = .error e ∧ e.isReported = false) ↔ e.isReported = false := by
  refine ⟨fun ⟨e', he', hunreported⟩ => ?_, fun hunreported => ⟨e, h, hunreported⟩⟩
  rw [Except.error.inj (h.symm.trans he')]
  exact hunreported

theorem escapes_iff (reads : Reads file c) : Escapes file
    ↔ ∃ number, Text.upperCase (levelOf file).display ∈ levelNames
      ∧ firstRefused? file = some number ∧ (numberOf file number).isWritable = false := by
  refine ⟨fun h => ?_, fun ⟨number, named, first, hidden⟩ => .unshown number named first hidden⟩
  cases h with
  | strayed name v known held stray => cases stray.symm.trans (reads.sections name known v held)
  | wordless level => cases level.symm.trans reads.writable
  | unshown number named first hidden => exact ⟨number, named, first, hidden⟩

end Config

/-- A file is read and checked, or refused in words of the configuration, unless a value that is
full and no mapping stands for a section, or the level has too many digits, or the first number
outside its limit has and the level has a name. For those files, and only those, a fault of the
program gets out. A file is taken here as the value that has been read of it. Of texts with a day
that no calendar has, a day with a time, a number without digits, binary data or a set, which have
no such value, nothing is said. -/
theorem unreported_configurations (file : Value) :
    (∃ e, Config.ofValue file = .error e ∧ e.isReported = false) ↔ Config.Escapes file := by
  rcases Config.read_cases file with
    ⟨hread, hstray⟩ | ⟨hread, name, hname, v, hv, hstray⟩ | ⟨hread, hwordless⟩ | ⟨c, hread, hreads⟩
  · rw [Config.unreported_iff (Config.ofValue_of_read_error hread)]
    exact iff_of_false nofun (Config.not_escapes_of_stray hstray)
  · exact iff_of_true ⟨_, Config.ofValue_of_read_error hread, rfl⟩ (.strayed name v hname hv hstray)
  · exact iff_of_true ⟨_, Config.ofValue_of_read_error hread, rfl⟩ (.wordless hwordless)
  · rw [Config.escapes_iff hreads]
    rcases Config.check_cases hreads with
      ⟨hcheck, hnone⟩ | ⟨name, hcheck, hunnamed⟩ | ⟨number, e, hcheck, hfirst, hnamed, hreported⟩
    · have haccepted := Config.ofValue_of_checked hread hcheck
      refine iff_of_false (fun ⟨e, he, _⟩ => ?_) fun ⟨number, _, hfirst, _⟩ => ?_
      · cases haccepted.symm.trans he
      · cases hnone.symm.trans hfirst
    · rw [Config.unreported_iff (Config.ofValue_of_check_error hread hcheck)]
      exact iff_of_false nofun fun ⟨number, hnamed, _⟩ => hunnamed hnamed
    · rw [Config.unreported_iff (Config.ofValue_of_check_error hread hcheck), hreported]
      refine ⟨fun hhidden => ⟨number, hnamed, hfirst, hhidden⟩, fun ⟨other, _, hother, hhidden⟩ => ?_⟩
      rw [Option.some.inj (hfirst.symm.trans hother)]
      exact hhidden

/-- A text where the logging section belongs is a fault that gets out, though the file is a
mapping. -/
theorem text_for_a_section_escapes :
    ∃ e, Config.ofValue (.object [("logging", .text "debug")]) = .error e ∧ e.isReported = false :=
  ⟨_, rfl, rfl⟩

end CarCare

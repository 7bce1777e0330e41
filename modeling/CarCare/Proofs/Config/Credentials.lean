import CarCare.Proofs.Config.Limits

/-!
Credentials of the database: its password, and its address, which may hold a password. They are read
and kept, but nothing that is told of a configuration depends on them.

What is proved:
  1. `Config.check_hidden`, `Config.exported_hidden`: neither the checks nor the export look at the
     credentials.
  2. `Config.read_alike`: files that differ at most in their credentials are refused alike, or read
     to configurations that differ at most there.
  3. `credentials_stay_hidden`: hence such files are refused for the same cause, or accepted and
     exported alike.
-/
namespace CarCare

/-! ## Sections that differ in some keys -/

namespace ConfigSection

/-- Two sections that agree on all keys but those that are named. -/
def SameBut (names : List String) (s t : ConfigSection) : Prop :=
  ∀ key : Scalar, (∀ name ∈ names, key ≠ .text name) → s.lookup key = t.lookup key

variable {names : List String} {s t : ConfigSection} {key : String}

theorem SameBut.getOr (h : s.SameBut names t) (default : Value) (other : key ∉ names) :
    s.getOr key default = t.getOr key default := by
  have hother : ∀ name ∈ names, Scalar.text key ≠ .text name := by
    intro name hname heq
    rw [Scalar.text.inj heq] at other
    exact other hname
  unfold ConfigSection.getOr
  rw [h (.text key) hother]

end ConfigSection

/-! ## Configurations without credentials -/

def DatabaseConfig.hidden (d : DatabaseConfig) : DatabaseConfig :=
  { d with password := .null, url := .null }

namespace Config

def hidden (c : Config) : Config := { c with database := c.database.hidden }

/-- The keys of the database section that hold credentials. -/
def credentialKeys : List String := ["password", "url"]

/-- Two files that differ at most in the credentials of the database. These may be any values, and
may be absent in one of the files, also along with the section. -/
inductive SameButCredentials : Value → Value → Prop where
  | same (file : Value) : SameButCredentials file file
  | apart {a b : Value} (s t d e : ConfigSection)
    (left : entriesOf .notAMapping a = .ok s) (right : entriesOf .notAMapping b = .ok t)
    (outside : s.SameBut ["database"] t)
    (leftSection : sectionOf s "database" = .ok d) (rightSection : sectionOf t "database" = .ok e)
    (inside : d.SameBut credentialKeys e) : SameButCredentials a b

variable {a b : Value} {s t : ConfigSection} {c : Config}

@[simp] theorem exported_hidden (c : Config) : c.hidden.exported = c.exported := rfl

@[simp] theorem value_hidden (d : DatabaseConfig) (number : LimitedNumber) :
    number.value d.hidden = number.value d := by
  cases number <;> rfl

@[simp] theorem check_hidden (c : Config) : c.hidden.check = c.check := by
  have hnumbers : LimitedNumber.check c.hidden.database = LimitedNumber.check c.database := by
    funext number
    simp [LimitedNumber.check, hidden]
  unfold check
  rw [hnumbers]
  rfl

theorem sectionOf_of_same {name : String} (h : s.SameBut ["database"] t)
    (other : name ≠ "database") : sectionOf s name = sectionOf t name := by
  unfold sectionOf
  rw [h.getOr .null (by simpa using other)]

theorem readDatabase_hidden (h : s.SameBut credentialKeys t) :
    (readDatabase s).hidden = (readDatabase t).hidden := by
  have hsame : ∀ key default, key ∉ credentialKeys → s.getOr key default = t.getOr key default :=
    fun _ default other => h.getOr default other
  unfold readDatabase DatabaseConfig.hidden
  simp (disch := decide) only [hsame]

theorem read_hidden (h : SameButCredentials a b) :
    (read a).map hidden = (read b).map hidden := by
  cases h with
  | same => rfl
  | apart s t d e left right outside leftSection rightSection inside =>
    have hlogging := sectionOf_of_same outside (show "logging" ≠ "database" by decide)
    have htree := sectionOf_of_same outside (show "hierarchy_tree" ≠ "database" by decide)
    have hdatabase := readDatabase_hidden inside
    -- The other sections are the same in both files, so that a refusal there is one and the same.
    simp only [read, left, right, leftSection, rightSection, hlogging, htree, bind, Except.bind]
    cases sectionOf t "logging" with
    | error _ => rfl
    | ok logging =>
      dsimp only
      cases readLogging logging with
      | error _ => rfl
      | ok l =>
        dsimp only
        cases sectionOf t "hierarchy_tree" with
        | error _ => rfl
        | ok tree =>
          show Except.ok (hidden ⟨readDatabase d, l, readTree tree⟩)
            = Except.ok (hidden ⟨readDatabase e, l, readTree tree⟩)
          unfold hidden
          rw [hdatabase]

theorem read_alike (h : SameButCredentials a b) :
    (∃ e, read a = .error e ∧ read b = .error e)
      ∨ ∃ c d, read a = .ok c ∧ read b = .ok d ∧ c.hidden = d.hidden := by
  have hread := read_hidden h
  cases ha : read a with
  | error e =>
    cases hb : read b with
    | error e' =>
      rw [ha, hb] at hread
      have hsame : e = e' := Except.error.inj hread
      exact .inl ⟨e, rfl, by rw [hsame]⟩
    | ok d =>
      rw [ha, hb] at hread
      cases hread
  | ok c =>
    cases hb : read b with
    | error e =>
      rw [ha, hb] at hread
      cases hread
    | ok d =>
      rw [ha, hb] at hread
      exact .inr ⟨c, d, rfl, rfl, Except.ok.inj hread⟩

end Config

/-- Two files that differ at most in the credentials of the database are refused for the same cause,
or both are accepted and show the same in the export. -/
theorem credentials_stay_hidden (a b : Value) (alike : Config.SameButCredentials a b) :
    (∃ e, Config.ofValue a = .error e ∧ Config.ofValue b = .error e)
      ∨ ∃ c d, Config.ofValue a = .ok c ∧ Config.ofValue b = .ok d ∧ c.exported = d.exported := by
  rcases Config.read_alike alike with ⟨e, ha, hb⟩ | ⟨c, d, ha, hb, hhidden⟩
  · exact .inl ⟨e, Config.ofValue_of_read_error ha, Config.ofValue_of_read_error hb⟩
  · have hchecks : c.check = d.check := by
      calc c.check = c.hidden.check := c.check_hidden.symm
        _ = d.hidden.check := by rw [hhidden]
        _ = d.check := d.check_hidden
    have hexports : c.exported = d.exported := by
      calc c.exported = c.hidden.exported := c.exported_hidden.symm
        _ = d.hidden.exported := by rw [hhidden]
        _ = d.exported := d.exported_hidden
    cases hcheck : d.check with
    | error e =>
      exact .inl ⟨e, Config.ofValue_of_check_error ha (hchecks.trans hcheck),
        Config.ofValue_of_check_error hb hcheck⟩
    | ok _ =>
      exact .inr ⟨c, d, Config.ofValue_of_checked ha (hchecks.trans hcheck),
        Config.ofValue_of_checked hb hcheck, hexports⟩

/-- A database section with a password, beside a logging section. -/
def passwordFile : Value :=
  .object [("logging", .object [("level", .text "debug")]),
    ("database", .object [("host", .text "db"), ("password", .text "hunter2")])]

/-- The same without a password, but with a list of addresses that hold one. -/
def addressFile : Value :=
  .object [("database", .object
      [("url", .list [.text "postgresql://ccm:hunter3@db/ccm"]), ("host", .text "db")]),
    ("logging", .object [("level", .text "debug")])]

/-- The passwords are read, but the exports are one. -/
theorem credentials_stay_hidden_address : ∃ c d, Config.ofValue passwordFile = .ok c
    ∧ Config.ofValue addressFile = .ok d ∧ c.exported = d.exported
    ∧ c.database.password = .text "hunter2" ∧ d.database.password = .text "ccm_password" := by
  have halike : Config.SameButCredentials passwordFile addressFile := by
    refine .apart _ _ _ _ rfl rfl ?_ rfl rfl ?_
    · intro key hkey
      have hother : (key == Scalar.text "database") = false := by simpa using hkey
      simp [List.lookup_cons, hother]
    · intro key hkey
      have hother : (key == Scalar.text "password") = false
          ∧ (key == Scalar.text "url") = false := by
        simpa [Config.credentialKeys] using hkey
      simp [List.lookup_cons, hother]
  rcases credentials_stay_hidden passwordFile addressFile halike with
    ⟨e, hrefused, -⟩ | ⟨c, d, hc, hd, hexports⟩
  · cases hrefused
  · cases hc
    cases hd
    exact ⟨_, _, rfl, rfl, hexports, rfl, rfl⟩

end CarCare

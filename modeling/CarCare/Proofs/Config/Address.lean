import CarCare.Proofs.Json.Tokens
import CarCare.Settings

/-!
The address that settings make up of the parts of a target. The parts stand in a row with separators
between them and are written as they are, so that a separator within a part is not told from one
that divides two parts.

What is proved:
  1. `Text.cut_cases`: if one text is cut at two separators, these stand in one place, or one of
     them stands within a piece of the other cut.
  2. `Target.eq_of_row_eq`: hence a target is told from its row, as long as none of its parts holds
     what can be taken for a separator.
  3. `Target.Unshared.oneReading`: a part that does hold it can be divided there, which gives
     another target with the same row.
  4. `address_unshared_iff`: so the targets of 2, and no others, have an address to themselves.
  5. `target_eq_of_plain`: no two targets share an address if their users hold no colon, their
     passwords no at sign and their hosts no slash.
-/
namespace CarCare

/-! ## Cutting a text -/

namespace Text
variable {a b c d : List Char} {x y : Char}

/-- Two ways to cut one text at a separator. -/
theorem cut_cases (h : a ++ x :: b = c ++ y :: d) :
    (a = c ∧ x = y ∧ b = d) ∨ (∃ m, a = c ++ y :: m ∧ d = m ++ x :: b)
      ∨ ∃ m, c = a ++ x :: m ∧ b = m ++ y :: d := by
  rcases List.append_eq_append_iff.mp h with ⟨m, hc, hb⟩ | ⟨m, ha, hd⟩
  · cases m with
    | nil =>
      obtain ⟨rfl, rfl⟩ := List.cons.inj hb
      exact .inl ⟨by simpa using hc.symm, rfl, rfl⟩
    | cons z m =>
      obtain ⟨rfl, rfl⟩ := List.cons.inj hb
      exact .inr (.inr ⟨m, hc, rfl⟩)
  · cases m with
    | nil =>
      obtain ⟨rfl, rfl⟩ := List.cons.inj hd
      exact .inl ⟨by simpa using ha, rfl, rfl⟩
    | cons z m =>
      obtain ⟨rfl, rfl⟩ := List.cons.inj hd
      exact .inr (.inl ⟨m, ha, rfl⟩)

theorem cut_behind (h : a ++ x :: b = c ++ y :: d) (other : x ≠ y) (free : y ∉ a) :
    ∃ m, c = a ++ x :: m ∧ b = m ++ y :: d := by
  rcases cut_cases h with ⟨-, hsame, -⟩ | ⟨m, rfl, -⟩ | hbehind
  · exact absurd hsame other
  · simp at free
  · exact hbehind

theorem cut_first (h : a ++ x :: b = c ++ x :: d) (left : x ∉ a) (right : x ∉ c) :
    a = c ∧ b = d := by
  rcases cut_cases h with ⟨hsame, -, hrest⟩ | ⟨m, rfl, -⟩ | ⟨m, rfl, -⟩
  · exact ⟨hsame, hrest⟩
  · simp at left
  · simp at right

theorem cut_last (h : a ++ x :: b = c ++ x :: d) (left : x ∉ b) (right : x ∉ d) :
    a = c ∧ b = d := by
  rcases cut_cases h with ⟨hsame, -, hrest⟩ | ⟨m, -, rfl⟩ | ⟨m, -, rfl⟩
  · exact ⟨hsame, hrest⟩
  · simp at right
  · simp at left

theorem not_mem_int (n : Int) (mark : x = ':' ∨ x = '@' ∨ x = '/') : x ∉ (toString n).toList := by
  have sign : x ≠ '-' := by
    rcases mark with rfl | rfl | rfl <;> decide
  have digit : x.isDigit = false := by
    rcases mark with rfl | rfl | rfl <;> decide
  intro hx
  rcases Json.isDigit_of_mem_int x hx with hsign | hdigit
  · exact sign hsign
  · exact absurd (digit.symm.trans hdigit) Bool.false_ne_true

theorem int_inj {m n : Int} (h : (toString m).toList = (toString n).toList) : m = n := by
  have hread := (Json.number?_int m).symm.trans (h ▸ Json.number?_int n)
  simpa using hread

end Text

/-! ## Targets -/

/-- Who connects, and to what. The port is one that can be put in words, as there is no address with
any other. -/
structure Target where
  user : String
  password : String
  host : String
  port : Int
  database : String
  writable : (Value.int port).isWritable
deriving DecidableEq

/-- Settings that give no address, but the parts of a target. -/
structure Settings.Names (s : Settings) (t : Target) : Prop where
  url : s.url.isFull = false
  user : s.user = .text t.user
  password : s.password = .text t.password
  host : s.host = .text t.host
  port : s.port = .int t.port
  database : s.database = .text t.database

namespace Target
variable {t t' : Target}

def portText (t : Target) : List Char := (toString t.port).toList

/-- What stands behind the user and the password. -/
def place (t : Target) : List Char :=
  t.host.toList ++ ':' :: (t.portText ++ '/' :: t.database.toList)

/-- The parts in a row, as an address has them behind its scheme. -/
def row (t : Target) : List Char :=
  (t.user.toList ++ ':' :: t.password.toList) ++ '@' :: t.place

def settings (t : Target) : Settings :=
  { user := .text t.user, password := .text t.password, host := .text t.host, port := .int t.port,
    database := .text t.database }

theorem settings_names (t : Target) : t.settings.Names t := ⟨rfl, rfl, rfl, rfl, rfl, rfl⟩

/-- A text with a port in it, between a colon and a slash. -/
def HoldsPort (text : List Char) : Prop :=
  ∃ (port : Int) (before after : List Char), (Value.int port).isWritable
    ∧ text = before ++ ':' :: ((toString port).toList ++ '/' :: after)

/-- A target none of whose parts holds what can be taken for a separator of the row. An at sign in
the user does no harm, nor does a colon in the host or the database that is not followed by a port
and a slash. -/
structure OneReading (t : Target) : Prop where
  user : ':' ∉ t.user.toList
  password : ':' ∉ t.password.toList ∧ '@' ∉ t.password.toList
  host : '@' ∉ t.host.toList ∧ ¬ HoldsPort t.host.toList
  database : ¬ HoldsPort t.database.toList

theorem not_holdsPort (text : List Char) (free : ':' ∉ text ∨ '/' ∉ text) : ¬ HoldsPort text := by
  rintro ⟨port, before, after, -, rfl⟩
  simp at free

theorem eq_of_parts (user : t.user.toList = t'.user.toList)
    (password : t.password.toList = t'.password.toList) (host : t.host.toList = t'.host.toList)
    (port : t.portText = t'.portText) (database : t.database.toList = t'.database.toList) :
    t = t' := by
  have hport := Text.int_inj port
  simp only [String.toList_inj] at user password host database
  cases t
  cases t'
  simp only [mk.injEq]
  exact ⟨user, password, host, hport, database⟩

/-! ## From the row to the parts -/

theorem place_inj (reads : t.OneReading) (h : t'.place = t.place) :
    t'.host.toList = t.host.toList ∧ t'.portText = t.portText
      ∧ t'.database.toList = t.database.toList := by
  rcases Text.cut_cases h with ⟨hhost, -, hrest⟩ | ⟨m, -, hrest⟩ | ⟨m, hhost, hrest⟩
  · obtain ⟨hport, hdatabase⟩ := Text.cut_first hrest
      (Text.not_mem_int _ (by decide)) (Text.not_mem_int _ (by decide))
    exact ⟨hhost, hport, hdatabase⟩
  · -- The other host ends within the database.
    obtain ⟨n, -, hdatabase⟩ := Text.cut_behind hrest (by decide) (Text.not_mem_int _ (by decide))
    exact absurd ⟨t'.port, n, _, t'.writable, hdatabase⟩ reads.database
  · -- The other host ends within the host.
    obtain ⟨n, rfl, -⟩ := Text.cut_behind hrest (by decide) (Text.not_mem_int _ (by decide))
    exact absurd ⟨t'.port, _, n, t'.writable, hhost⟩ reads.host.2

theorem eq_of_row_eq (reads : t.OneReading) (h : t'.row = t.row) : t' = t := by
  rcases Text.cut_cases h with ⟨hfront, -, hplace⟩ | ⟨m, -, hplace⟩ | ⟨m, hfront, -⟩
  · obtain ⟨huser, -, hpassword⟩ :=
      (List.append_cons_inj_of_notMem reads.user reads.password.1).mp hfront.symm
    obtain ⟨hhost, hport, hdatabase⟩ := place_inj reads hplace
    exact eq_of_parts huser.symm hpassword.symm hhost hport hdatabase
  · -- The other place starts within the place, and so within the database.
    obtain ⟨n, -, hrest⟩ := Text.cut_behind hplace (by decide) reads.host.1
    obtain ⟨k, -, hdatabase⟩ := Text.cut_behind hrest (by decide) (Text.not_mem_int _ (by decide))
    refine absurd ⟨t'.port, k ++ '@' :: t'.host.toList, t'.database.toList, t'.writable, ?_⟩
      reads.database
    rw [hdatabase]
    simp [place, portText]
  · -- The other place starts within the user or the password.
    rcases Text.cut_cases hfront with ⟨-, hmark, -⟩ | ⟨n, huser, -⟩ | ⟨n, -, hpassword⟩
    · exact absurd hmark (by decide)
    · exact absurd (by simp [huser]) reads.user
    · exact absurd (by simp [hpassword]) reads.password.2

/-! ## Other targets of a row -/

/-- A target whose row no other target has. -/
def Unshared (t : Target) : Prop := ∀ other : Target, other.row = t.row → other = t

namespace Unshared

theorem user_eq (unshared : t.Unshared) (user password : List Char)
    (h : user ++ ':' :: password = t.user.toList ++ ':' :: t.password.toList) :
    user = t.user.toList := by
  have hsame := unshared
    { t with
      user := String.ofList user
      password := String.ofList password }
    (by simp only [row, place, portText, String.toList_ofList, h])
  exact String.toList_ofList.symm.trans (congrArg (fun other => other.user.toList) hsame)

theorem password_eq (unshared : t.Unshared) (password host : List Char)
    (h : password ++ '@' :: host = t.password.toList ++ '@' :: t.host.toList) :
    password = t.password.toList := by
  have hsame := unshared
    { t with
      password := String.ofList password
      host := String.ofList host }
    (by simpa [row, place, portText] using
      congrArg (· ++ ':' :: (t.portText ++ '/' :: t.database.toList)) h)
  exact String.toList_ofList.symm.trans (congrArg (fun other => other.password.toList) hsame)

theorem host_eq (unshared : t.Unshared) (host database : List Char) (port : Int)
    (writable : (Value.int port).isWritable)
    (h : host ++ ':' :: ((toString port).toList ++ '/' :: database) = t.place) :
    host = t.host.toList := by
  rw [place, portText] at h
  have hsame := unshared
    { t with
      host := String.ofList host
      port
      database := String.ofList database
      writable }
    (by simp only [row, place, portText, String.toList_ofList, h])
  exact String.toList_ofList.symm.trans (congrArg (fun other => other.host.toList) hsame)

/-- A separator that is within a part divides the parts of another target. -/
theorem oneReading (unshared : t.Unshared) : t.OneReading := by
  -- Each part is divided at the separator in question, and what is cut off goes to its neighbour.
  refine ⟨fun hmem => ?_, ⟨fun hmem => ?_, fun hmem => ?_⟩, ⟨fun hmem => ?_, ?_⟩, ?_⟩
  · obtain ⟨a, b, huser⟩ := List.append_of_mem hmem
    have hsame := unshared.user_eq a (b ++ ':' :: t.password.toList) (by simp [huser])
    simp [huser] at hsame
  · obtain ⟨a, b, hpassword⟩ := List.append_of_mem hmem
    have hsame := unshared.user_eq (t.user.toList ++ ':' :: a) b (by simp [hpassword])
    simp at hsame
  · obtain ⟨a, b, hpassword⟩ := List.append_of_mem hmem
    have hsame := unshared.password_eq a (b ++ '@' :: t.host.toList) (by simp [hpassword])
    simp [hpassword] at hsame
  · obtain ⟨a, b, hhost⟩ := List.append_of_mem hmem
    have hsame := unshared.password_eq (t.password.toList ++ '@' :: a) b (by simp [hhost])
    simp at hsame
  · rintro ⟨port, a, b, writable, hhost⟩
    have hsame := unshared.host_eq a (b ++ ':' :: (t.portText ++ '/' :: t.database.toList)) port
      writable (by simp [place, hhost])
    simp [hhost] at hsame
  · rintro ⟨port, a, b, writable, hdatabase⟩
    have hsame := unshared.host_eq (t.host.toList ++ ':' :: (t.portText ++ '/' :: a)) b port
      writable (by simp [place, hdatabase])
    simp at hsame

end Unshared

theorem unshared_iff : t.Unshared ↔ t.OneReading :=
  ⟨Unshared.oneReading, fun reads _ hrow => eq_of_row_eq reads hrow⟩

/-- A target whose user, password and host do without the separator that ends them. -/
structure Plain (t : Target) : Prop where
  user : ':' ∉ t.user.toList
  password : '@' ∉ t.password.toList
  host : '/' ∉ t.host.toList

theorem eq_of_plain (plain : t.Plain) (plain' : t'.Plain) (h : t.row = t'.row) : t = t' := by
  have hfront : t.user.toList ++ ':' :: (t.password.toList ++ '@' :: t.place)
      = t'.user.toList ++ ':' :: (t'.password.toList ++ '@' :: t'.place) := by
    simpa [row] using h
  obtain ⟨huser, hrest⟩ := Text.cut_first hfront plain.user plain'.user
  obtain ⟨hpassword, hplace⟩ := Text.cut_first hrest plain.password plain'.password
  have hback : (t.host.toList ++ ':' :: t.portText) ++ '/' :: t.database.toList
      = (t'.host.toList ++ ':' :: t'.portText) ++ '/' :: t'.database.toList := by
    simpa [place] using hplace
  -- There may be colons in the host, so that its end is found from the port.
  have hfree : ∀ t : Target, t.Plain → '/' ∉ t.host.toList ++ ':' :: t.portText := by
    intro t plain
    have hport : '/' ∉ t.portText := Text.not_mem_int _ (by decide)
    simp [plain.host, hport]
  obtain ⟨hserver, hdatabase⟩ := Text.cut_first hback (hfree t plain) (hfree t' plain')
  obtain ⟨hhost, hport⟩ := Text.cut_last hserver
    (Text.not_mem_int _ (by decide)) (Text.not_mem_int _ (by decide))
  exact eq_of_parts huser hpassword hhost hport hdatabase

end Target

/-! ## Addresses -/

namespace Settings
variable {s s' : Settings} {t t' : Target}

theorem Names.address_eq (names : s.Names t) : ∃ text : String, s.address = .text text
    ∧ text.toList = "postgresql+psycopg2://".toList ++ t.row := by
  refine ⟨"postgresql+psycopg2://" ++ t.user ++ ":" ++ t.password ++ "@" ++ t.host ++ ":"
    ++ toString t.port ++ "/" ++ t.database, ?_, ?_⟩
  · rw [address, names.url, names.user, names.password, names.host, names.port, names.database]
    rfl
  · generalize "postgresql+psycopg2://" = scheme
    simp [Target.row, Target.place, Target.portText]

theorem Names.address_eq_iff (names : s.Names t) (names' : s'.Names t') :
    s.address = s'.address ↔ t.row = t'.row := by
  obtain ⟨text, haddress, htext⟩ := names.address_eq
  obtain ⟨text', haddress', htext'⟩ := names'.address_eq
  rw [haddress, haddress']
  calc Value.text text = Value.text text'
    _ ↔ text.toList = text'.toList := by simp [String.toList_inj]
    _ ↔ t.row = t'.row := by rw [htext, htext', List.append_cancel_left_eq]

end Settings

/-- Settings that give no address make one up that is no other target's, exactly if none of their
parts holds what can be taken for a separator. Nothing is escaped, so that a separator within a part
reads like one between two parts. -/
theorem address_unshared_iff (s : Settings) (t : Target) (names : s.Names t) :
    (∀ (s' : Settings) (t' : Target), s'.Names t' → s'.address = s.address → t' = t)
      ↔ t.OneReading := by
  rw [← Target.unshared_iff]
  constructor
  · intro alone t' hrow
    exact alone _ t' t'.settings_names ((t'.settings_names.address_eq_iff names).mpr hrow)
  · intro unshared s' t' names' haddress
    exact unshared t' ((names'.address_eq_iff names).mp haddress)

/-- A target with separators in all of its parts, where they do no harm. -/
def crowdedTarget : Target :=
  { user := "ccm@corp", password := "s/cret", host := "::1", port := 5432,
    database := "ccm:v2@eu", writable := by decide +kernel }

/-- A target whose password ends in what can be taken for the start of its host. -/
def splitTarget : Target := { crowdedTarget with password := "p@ss" }

/-- The first target has its address to itself, and the second has not. -/
theorem address_unshared_iff_crowded : crowdedTarget.settings.Names crowdedTarget
    ∧ (∀ (s' : Settings) (t' : Target), s'.Names t' → s'.address = crowdedTarget.settings.address →
      t' = crowdedTarget)
    ∧ ¬ ∀ (s' : Settings) (t' : Target), s'.Names t' → s'.address = splitTarget.settings.address →
      t' = splitTarget := by
  refine ⟨Target.settings_names _, ?_, fun hunshared => ?_⟩
  · refine (address_unshared_iff _ crowdedTarget (Target.settings_names _)).mpr
      ⟨by decide, ⟨by decide, by decide⟩, ⟨by decide, ?_⟩, ?_⟩
    · exact Target.not_holdsPort _ (.inr (by decide))
    · exact Target.not_holdsPort _ (.inr (by decide))
  · have hreads := (address_unshared_iff _ splitTarget (Target.settings_names _)).mp hunshared
    exact hreads.password.2 (by decide)

/-- A colon belongs to the user or to the password, and the address does not tell to which. -/
theorem colon_of_user_or_password : ∃ s s' : Settings,
    Settings.ofEnvironment [("DB_USER", "ccm:x"), ("DB_PASSWORD", "y")] = .ok s
      ∧ Settings.ofEnvironment [("DB_USER", "ccm"), ("DB_PASSWORD", "x:y")] = .ok s'
      ∧ s.url.isFull = false ∧ s'.url.isFull = false
      ∧ s.address = s'.address ∧ s.user = .text "ccm:x" ∧ s'.user = .text "ccm" :=
  ⟨_, _, rfl, rfl, rfl, rfl, rfl, rfl, rfl⟩

/-- No two targets with plain users, passwords and hosts share an address. There may be any colons
in their passwords, and anything in the names of their databases. -/
theorem target_eq_of_plain {s s' : Settings} {t t' : Target} (names : s.Names t)
    (names' : s'.Names t') (plain : t.Plain) (plain' : t'.Plain) (h : s.address = s'.address) :
    t = t' :=
  Target.eq_of_plain plain plain' ((names.address_eq_iff names').mp h)

end CarCare

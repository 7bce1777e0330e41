import CarCare.Proofs.Json.Tokens

/-!
A written value is read back.

A value is plain if it is made of texts, integers, truth values and nulls, in lists and under text
keys. The reader takes a bound on the number of parts, and the length of the text is enough of one.

What is proved:
  1. `Json.items?_render` and `Json.entries?_render`: items, and members, are read back if each
     value among them is.
  2. `Json.reads_of_plain`: so, by induction over a plain value, it is read back at any depth, and
     in front of anything that does not go on with it.
  3. `Json.read?_indented`: a plain value on lines of its own is read back as a whole text.
-/
namespace CarCare.Json

/-- A value of texts, integers, truth values and nulls, in lists and under text keys. -/
inductive Plain : Value → Prop
  | null : Plain .null
  | bool (b : Bool) : Plain (.bool b)
  | int (n : Int) : Plain (.int n)
  | text (s : String) : Plain (.text s)
  | list (items : List Value) (plain : ∀ item ∈ items, Plain item) : Plain (.list items)
  | object (members : List (String × Value)) (plain : ∀ m ∈ members, Plain m.2) :
    Plain (.object members)

/-- A layout that has nothing but blanks between the parts of a text, and a colon behind a key. -/
structure Layout.Spaced (layout : Layout) : Prop where
  lineBreak : ∀ depth, ∀ c ∈ (layout.lineBreak depth).toList, isBlank c
  colon : ∃ blanks, layout.colon.toList = ':' :: blanks ∧ ∀ c ∈ blanks, isBlank c

theorem Layout.indented_spaced : Layout.indented.Spaced where
  lineBreak depth := by
    intro c hc
    have hc : c ∈ ("\n" ++ String.ofList (List.replicate (2 * depth) ' ')).toList := hc
    rw [String.toList_append, List.mem_append] at hc
    rcases hc with hfeed | hspace
    · obtain rfl := List.mem_singleton.mp hfeed
      rfl
    · rw [String.toList_ofList] at hspace
      obtain rfl := List.eq_of_mem_replicate hspace
      rfl
  colon := ⟨[' '], rfl, List.all_eq_true.mp rfl⟩

section
variable {blanks rest : List Char} {fuel : Nat}

theorem value?_skip (blank : ∀ c ∈ blanks, isBlank c) (s : List Char) :
    value? fuel (blanks ++ s) = value? fuel s := by
  cases fuel with
  | zero => rfl
  | succ fuel => rw [value?, value?, skipBlank_append blank]

theorem items?_skip (blank : ∀ c ∈ blanks, isBlank c) (s : List Char) :
    items? fuel (blanks ++ s) = items? fuel s := by
  cases fuel with
  | zero => rfl
  | succ fuel => rw [items?, items?, value?_skip blank]

theorem entries?_skip (blank : ∀ c ∈ blanks, isBlank c) (s : List Char) :
    entries? fuel (blanks ++ s) = entries? fuel s := by
  cases fuel with
  | zero => rfl
  | succ fuel => rw [entries?, entries?, skipBlank_append blank]

theorem ends_cons {c : Char} (other : isWordChar c = false) : Ends (c :: rest) := by
  rintro _ ⟨⟩
  exact other

/-- No number and no word goes on with blanks, nor with what is no part of one. -/
theorem ends_append (blank : ∀ c ∈ blanks, isBlank c) {c : Char} (other : isWordChar c = false) :
    Ends (blanks ++ c :: rest) := by
  cases blanks with
  | nil => exact ends_cons other
  | cons b blanks => exact ends_cons (isWordChar_of_isBlank (blank b List.mem_cons_self))

end

/-! ## Lists -/

/-- Whether the text of a value is read back, at any depth and in front of anything that does not go
on with it, by a reader that may take as many parts as the text has characters. -/
def Reads (layout : Layout) (v : Value) : Prop :=
  ∀ (depth fuel : Nat) (rest : List Char), Ends rest →
    (render layout depth v).toList.length ≤ fuel →
    value? (fuel + 1) ((render layout depth v).toList ++ rest) = some (v, rest)

section
variable {fuel : Nat} {s next rest : List Char} {item : Value} {items : List Value}

theorem items?_last (read : value? fuel s = some (item, next))
    (close : skipBlank next = ']' :: rest) : items? (fuel + 1) s = some ([item], rest) := by
  simp only [items?, read, close, Option.bind_eq_bind, Option.bind_some]

theorem items?_cons (read : value? fuel s = some (item, next)) {later : List Char}
    (comma : skipBlank next = ',' :: later) (rest_read : items? fuel later = some (items, rest)) :
    items? (fuel + 1) s = some (item :: items, rest) := by
  simp only [items?, read, comma, rest_read, Option.bind_eq_bind, Option.bind_some]

end

theorem toList_renderItems_cons (layout : Layout) (depth : Nat) (item : Value)
    (items : List Value) : (renderItems layout depth (item :: items)).toList
      = ',' :: ((layout.lineBreak depth).toList
        ++ ((render layout depth item).toList ++ (renderItems layout depth items).toList)) := by
  simp only [renderItems, String.toList_append, List.append_assoc]
  rfl

section
variable {layout : Layout} (spaced : layout.Spaced) {blanks rest : List Char}
include spaced

theorem items?_render (blank : ∀ c ∈ blanks, isBlank c) {items : List Value} {item : Value}
    (reads : ∀ v ∈ item :: items, Reads layout v) {depth fuel : Nat}
    (enough : (render layout depth item).toList.length
      + (renderItems layout depth items).toList.length ≤ fuel) :
    items? (fuel + 2) ((render layout depth item).toList
      ++ ((renderItems layout depth items).toList ++ (blanks ++ ']' :: rest)))
      = some (item :: items, rest) := by
  -- A comma cannot go on with the item before it, and each item leaves fuel for the next ones.
  induction items generalizing item fuel with
  | nil =>
    have hends : Ends (blanks ++ ']' :: rest) := ends_append blank (by decide)
    have hitem := reads item List.mem_cons_self depth fuel _ hends (by omega)
    exact items?_last hitem ((skipBlank_append blank).trans rfl)
  | cons next items ih =>
    have hends : ∀ r, Ends (',' :: r) := fun r => ends_cons (by decide)
    rw [toList_renderItems_cons, List.length_cons, List.length_append, List.length_append] at enough
    obtain ⟨fuel, rfl⟩ : ∃ f, fuel = f + 1 := ⟨fuel - 1, by omega⟩
    rw [toList_renderItems_cons, List.cons_append, List.append_assoc, List.append_assoc]
    have hitem := fun r =>
      reads item List.mem_cons_self depth (fuel + 1) (',' :: r) (hends r) (by omega)
    refine items?_cons (hitem _) (skipBlank_cons (by decide)) ?_
    rw [items?_skip (spaced.lineBreak depth)]
    exact ih (fun v hv => reads v (List.mem_cons_of_mem item hv)) (by omega)

end

/-! ## Objects -/

def entry (m : String × Value) : Scalar × Value := (.text m.1, m.2)

theorem toList_string_append (s : String) (rest : List Char) :
    (string s).toList ++ rest = '"' :: (s.toList.flatMap escapedChar ++ '"' :: rest) := by
  rw [string, String.toList_ofList, List.cons_append, List.append_assoc]
  rfl

theorem toList_key_append (k : String) (rest : List Char) :
    (key (.text k)).toList ++ rest = '"' :: (k.toList.flatMap escapedChar ++ '"' :: rest) :=
  toList_string_append k rest

theorem toList_renderEntries_cons (layout : Layout) (depth : Nat) (m : String × Value)
    (members : List (String × Value)) :
    (renderEntries layout depth ((m :: members).map entry)).toList
      = ',' :: ((layout.lineBreak depth).toList ++ ((key (.text m.1)).toList
        ++ (layout.colon.toList ++ ((render layout depth m.2).toList
          ++ (renderEntries layout depth (members.map entry)).toList)))) := by
  simp only [List.map_cons, entry, renderEntries, String.toList_append, List.append_assoc]
  rfl

section
variable {layout : Layout} (spaced : layout.Spaced) {blanks rest : List Char}
include spaced

section
variable {fuel : Nat} {k : String} {s next : List Char} {v : Value}

theorem entries?_last (read : value? fuel s = some (v, next))
    (close : skipBlank next = '\x7d' :: rest) :
    entries? (fuel + 1) ((key (.text k)).toList ++ (layout.colon.toList ++ s))
      = some ([(.text k, v)], rest) := by
  obtain ⟨blanks, hcolon, blank⟩ := spaced.colon
  have hquote : ∀ t, skipBlank ('"' :: t) = '"' :: t := fun t => skipBlank_cons (by decide)
  have hmiddle : ∀ t, skipBlank (':' :: t) = ':' :: t := fun t => skipBlank_cons (by decide)
  rw [toList_key_append, hcolon, List.cons_append]
  simp only [entries?, hquote, string?_string, hmiddle, value?_skip blank, read, close,
    Option.bind_eq_bind, Option.bind_some, String.ofList_toList]

theorem entries?_cons (read : value? fuel s = some (v, next)) {later : List Char}
    {entries : List (Scalar × Value)} (comma : skipBlank next = ',' :: later)
    (others : entries? fuel later = some (entries, rest)) :
    entries? (fuel + 1) ((key (.text k)).toList ++ (layout.colon.toList ++ s))
      = some ((.text k, v) :: entries, rest) := by
  obtain ⟨blanks, hcolon, blank⟩ := spaced.colon
  have hquote : ∀ t, skipBlank ('"' :: t) = '"' :: t := fun t => skipBlank_cons (by decide)
  have hmiddle : ∀ t, skipBlank (':' :: t) = ':' :: t := fun t => skipBlank_cons (by decide)
  rw [toList_key_append, hcolon, List.cons_append]
  simp only [entries?, hquote, string?_string, hmiddle, value?_skip blank, read, comma, others,
    Option.bind_eq_bind, Option.bind_some, String.ofList_toList]

end

theorem entries?_render (blank : ∀ c ∈ blanks, isBlank c) {members : List (String × Value)}
    {m : String × Value} (reads : ∀ m' ∈ m :: members, Reads layout m'.2) {depth fuel : Nat}
    (enough : (render layout depth m.2).toList.length
      + (renderEntries layout depth (members.map entry)).toList.length ≤ fuel) :
    entries? (fuel + 2) ((key (.text m.1)).toList ++ (layout.colon.toList
      ++ ((render layout depth m.2).toList
        ++ ((renderEntries layout depth (members.map entry)).toList
          ++ (blanks ++ '\x7d' :: rest)))))
      = some ((m :: members).map entry, rest) := by
  induction members generalizing m fuel with
  | nil =>
    have hends : Ends (blanks ++ '\x7d' :: rest) := ends_append blank (by decide)
    have hvalue := reads m List.mem_cons_self depth fuel _ hends (by omega)
    exact entries?_last spaced hvalue ((skipBlank_append blank).trans rfl)
  | cons next members ih =>
    have hends : ∀ r, Ends (',' :: r) := fun r => ends_cons (by decide)
    rw [toList_renderEntries_cons] at enough
    simp only [List.length_cons, List.length_append] at enough
    obtain ⟨fuel, rfl⟩ : ∃ f, fuel = f + 1 := ⟨fuel - 1, by omega⟩
    rw [toList_renderEntries_cons]
    simp only [List.cons_append, List.append_assoc]
    have hvalue := fun r =>
      reads m List.mem_cons_self depth (fuel + 1) (',' :: r) (hends r) (by omega)
    refine entries?_cons spaced (hvalue _) (skipBlank_cons (by decide)) ?_
    rw [entries?_skip (spaced.lineBreak depth)]
    exact ih (fun m' hm => reads m' (List.mem_cons_of_mem m hm)) (by omega)

end

/-! ## Values -/

section
variable (layout : Layout) (depth : Nat)

theorem toList_render_list_cons (item : Value) (items : List Value) :
    (render layout depth (.list (item :: items))).toList
      = '[' :: ((layout.lineBreak (depth + 1)).toList ++ ((render layout (depth + 1) item).toList
        ++ ((renderItems layout (depth + 1) items).toList
          ++ ((layout.lineBreak depth).toList ++ [']'])))) := by
  simp only [render, String.toList_append, List.append_assoc]
  rfl

theorem toList_render_object_cons (m : String × Value) (members : List (String × Value)) :
    (render layout depth (.object (m :: members))).toList
      = '\x7b' :: ((layout.lineBreak (depth + 1)).toList ++ ((key (.text m.1)).toList
        ++ (layout.colon.toList ++ ((render layout (depth + 1) m.2).toList
          ++ ((renderEntries layout (depth + 1) (members.map entry)).toList
            ++ ((layout.lineBreak depth).toList ++ ['\x7d'])))))) := by
  show (render layout depth (.map (entry m :: members.map entry))).toList = _
  simp only [entry, render, String.toList_append, List.append_assoc]
  rfl

/-- The text of a plain value begins with a character that is no blank and closes no list. -/
theorem Plain.head {v : Value} (plain : Plain v) :
    ∃ c tail, (render layout depth v).toList = c :: tail ∧ isBlank c = false ∧ c ≠ ']' := by
  cases plain with
  | null =>
    rw [render]
    exact ⟨'n', _, rfl, by decide, by decide⟩
  | bool b =>
    rw [render]
    cases b with
    | false => exact ⟨'f', _, rfl, by decide, by decide⟩
    | true => exact ⟨'t', _, rfl, by decide, by decide⟩
  | int n =>
    rw [render]
    obtain ⟨c, tail, hcons⟩ := List.exists_cons_of_ne_nil (int_ne_nil n)
    have hword := isWordChar_of_mem_int c (hcons ▸ List.mem_cons_self)
    refine ⟨c, tail, hcons, isBlank_of_isWordChar hword, ?_⟩
    rintro rfl
    cases hword
  | text s =>
    rw [render, scalar, string, String.toList_ofList]
    exact ⟨'"', _, rfl, by decide, by decide⟩
  | list items plain =>
    cases items with
    | nil =>
      rw [render]
      exact ⟨'[', _, rfl, by decide, by decide⟩
    | cons item items =>
      rw [toList_render_list_cons]
      exact ⟨'[', _, rfl, by decide, by decide⟩
  | object members plain =>
    cases members with
    | nil =>
      show ∃ c tail, (render layout depth (.map [])).toList = c :: tail ∧ _
      rw [render]
      exact ⟨'\x7b', _, rfl, by decide, by decide⟩
    | cons m members =>
      rw [toList_render_object_cons]
      exact ⟨'\x7b', _, rfl, by decide, by decide⟩

theorem Plain.front {v : Value} (plain : Plain v) (rest : List Char) :
    skipBlank ((render layout depth v).toList ++ rest) = (render layout depth v).toList ++ rest
      ∧ ∀ r, (render layout depth v).toList ++ rest ≠ ']' :: r := by
  obtain ⟨c, tail, hhead, hseen, hclose⟩ := plain.head layout depth
  rw [hhead]
  exact ⟨skipBlank_cons hseen, fun r heq => hclose (List.cons.inj heq).1⟩

theorem key_front (k : String) (rest : List Char) :
    skipBlank ((key (.text k)).toList ++ rest) = (key (.text k)).toList ++ rest
      ∧ ∀ r, (key (.text k)).toList ++ rest ≠ '\x7d' :: r := by
  rw [toList_key_append]
  exact ⟨skipBlank_cons (by decide), nofun⟩

end

section
variable {fuel : Nat} {s t rest : List Char}

theorem value?_string (s : String) (rest : List Char) :
    value? (fuel + 1) ((string s).toList ++ rest) = some (.text s, rest) := by
  have hquote : ∀ t, skipBlank ('"' :: t) = '"' :: t := fun t => skipBlank_cons (by decide)
  rw [toList_string_append, value?, hquote]
  simp only [string?_string, Option.map_some, String.ofList_toList]

theorem value?_list (skip : skipBlank s = t) (nonempty : ∀ r, t ≠ ']' :: r)
    {items : List Value} (read : items? fuel t = some (items, rest)) :
    value? (fuel + 1) ('[' :: s) = some (.list items, rest) := by
  have hopen : skipBlank ('[' :: s) = '[' :: s := skipBlank_cons (by decide)
  simp only [value?, hopen, skip, read, Option.map_some]

theorem value?_map (skip : skipBlank s = t) (nonempty : ∀ r, t ≠ '\x7d' :: r)
    {entries : List (Scalar × Value)} (read : entries? fuel t = some (entries, rest)) :
    value? (fuel + 1) ('\x7b' :: s) = some (.map entries, rest) := by
  have hopen : skipBlank ('\x7b' :: s) = '\x7b' :: s := skipBlank_cons (by decide)
  simp only [value?, hopen, skip, read, Option.map_some]

end

/-- A plain value is read back, at any depth and in front of anything that does not go on with
it. -/
theorem reads_of_plain {layout : Layout} (spaced : layout.Spaced) {v : Value} (plain : Plain v) :
    Reads layout v := by
  -- A bracket at either end leaves enough for the parts, each of which counts as one at least.
  induction plain with
  | null =>
    intro depth fuel rest ends _
    rw [render]
    exact value?_word (w := "null".toList) rfl (List.all_eq_true.mp rfl) (by decide) ends
  | bool b =>
    intro depth fuel rest ends _
    rw [render]
    cases b with
    | false =>
      exact value?_word (w := "false".toList) rfl (List.all_eq_true.mp rfl) (by decide) ends
    | true =>
      exact value?_word (w := "true".toList) rfl (List.all_eq_true.mp rfl) (by decide) ends
  | int n =>
    intro depth fuel rest ends _
    rw [render]
    exact value?_word (word?_int n) isWordChar_of_mem_int (int_ne_nil n) ends
  | text s =>
    intro depth fuel rest _ _
    rw [render]
    exact value?_string s rest
  | list items plain ih =>
    intro depth fuel rest _ enough
    cases items with
    | nil =>
      rw [render]
      rfl
    | cons item items =>
      rw [toList_render_list_cons] at enough
      simp only [List.length_cons, List.length_append] at enough
      obtain ⟨fuel, rfl⟩ : ∃ f, fuel = f + 2 := ⟨fuel - 2, by omega⟩
      rw [toList_render_list_cons]
      simp only [List.cons_append, List.append_assoc, List.nil_append]
      obtain ⟨hskip, hnonempty⟩ := (plain item List.mem_cons_self).front layout (depth + 1) _
      have hskipped := (skipBlank_append (spaced.lineBreak (depth + 1))).trans hskip
      refine value?_list hskipped hnonempty ?_
      exact items?_render spaced (spaced.lineBreak depth) ih (by omega)
  | object members plain ih =>
    intro depth fuel rest _ enough
    cases members with
    | nil =>
      show value? (fuel + 1) ((render layout depth (.map [])).toList ++ rest) = _
      rw [render]
      rfl
    | cons m members =>
      rw [toList_render_object_cons] at enough
      simp only [List.length_cons, List.length_append] at enough
      obtain ⟨fuel, rfl⟩ : ∃ f, fuel = f + 2 := ⟨fuel - 2, by omega⟩
      rw [toList_render_object_cons]
      simp only [List.cons_append, List.append_assoc, List.nil_append]
      obtain ⟨hskip, hnonempty⟩ := key_front m.1 _
      have hskipped := (skipBlank_append (spaced.lineBreak (depth + 1))).trans hskip
      refine value?_map hskipped hnonempty ?_
      exact entries?_render spaced (spaced.lineBreak depth) ih (by omega)

theorem read?_render {layout : Layout} (spaced : layout.Spaced) {v : Value} (plain : Plain v)
    {tail : String} (blank : ∀ c ∈ tail.toList, isBlank c) :
    read? (render layout 0 v ++ tail) = some v := by
  have hends : Ends tail.toList :=
    fun c hc => isWordChar_of_isBlank (blank c (List.mem_of_mem_head? hc))
  have hread := reads_of_plain spaced plain 0 (render layout 0 v ++ tail).toList.length tail.toList
    hends (by rw [String.toList_append, List.length_append]; omega)
  have hskip : skipBlank tail.toList = [] := List.dropWhile_eq_nil_iff.mpr blank
  rw [← String.toList_append] at hread
  simp only [read?, hread, hskip, Option.bind_eq_bind, Option.bind_some]
  rfl

theorem read?_indented {v : Value} (plain : Plain v) : read? (indented v ++ "\n") = some v :=
  read?_render Layout.indented_spaced plain (List.all_eq_true.mp rfl)

end CarCare.Json

/-
  Reconciliation.Base.Text — printed text that can be read back.

  A code prints a text character by character. Where no code word begins another, what is
  printed determines the text, as long as no code word begins what follows (`encode_cancel`).
  Escaping some characters by a lead character and a word is such a code
  (`Escaping.cancel`). HTML text, CSV records and fragments of a page that may be missing are read back
  this way (`escape_cancel`, `csvRecord_cancel`, `fragment_cancel`).
-/
import Mathlib

namespace Reconciliation.Base.Text

/-! ## Codes -/

def encode (code : Char → String) (s : String) : String := String.join (s.toList.map code)

/-- No code word of a plain character begins another. -/
def PrefixFree (code : Char → String) (plain : Char → Prop) : Prop :=
  ∀ c d x y, plain c → plain d → code c ++ x = code d ++ y → c = d ∧ x = y

/-- No code word of a plain character begins the text. -/
def Stops (code : Char → String) (plain : Char → Prop) (x : String) : Prop := ∀ c y, plain c → x ≠ code c ++ y

theorem join_cancel {code : Char → String} {plain : Char → Prop} (hcode : PrefixFree code plain) {x y : String}
    (hx : Stops code plain x) (hy : Stops code plain y) {l m : List Char} (hl : ∀ c ∈ l, plain c) (hm : ∀ c ∈ m, plain c)
    (h : String.join (l.map code) ++ x = String.join (m.map code) ++ y) : l = m ∧ x = y := by
  induction l generalizing m with
  | nil =>
    cases m with
    | nil => simpa using h
    | cons d m =>
      rw [List.map_nil, String.join_nil, String.empty_append, List.map_cons, String.join_cons, String.append_assoc] at h
      exact absurd h (hx d _ (hm d List.mem_cons_self))
  | cons c l ih =>
    have hc := hl c List.mem_cons_self
    cases m with
    | nil =>
      rw [List.map_nil, String.join_nil, String.empty_append, List.map_cons, String.join_cons, String.append_assoc] at h
      exact absurd h.symm (hy c _ hc)
    | cons d m =>
      rw [List.map_cons, List.map_cons, String.join_cons, String.join_cons, String.append_assoc, String.append_assoc] at h
      obtain ⟨rfl, hrest⟩ := hcode c d _ _ hc (hm d List.mem_cons_self) h
      obtain ⟨rfl, hxy⟩ := ih (fun c hc => hl c (List.mem_cons_of_mem _ hc))
        (fun c hc => hm c (List.mem_cons_of_mem _ hc)) hrest
      exact ⟨rfl, hxy⟩

/-- What is printed determines the text and what follows. -/
theorem encode_cancel {code : Char → String} {plain : Char → Prop} (hcode : PrefixFree code plain) {s t x y : String}
    (hs : ∀ c ∈ s.toList, plain c) (ht : ∀ c ∈ t.toList, plain c) (hx : Stops code plain x) (hy : Stops code plain y)
    (h : encode code s ++ x = encode code t ++ y) : s = t ∧ x = y := by
  obtain ⟨hst, h⟩ := join_cancel hcode hx hy hs ht h
  exact ⟨String.toList_inj.mp hst, h⟩

/-- Two texts that begin with different characters differ. -/
theorem singleton_append_inj {c d : Char} {x y : String} :
    String.singleton c ++ x = String.singleton d ++ y ↔ c = d ∧ x = y := by
  rw [← String.toList_inj]
  simp [String.toList_inj]

/-- A text that begins with a character is that character and a rest. -/
theorem eq_singleton_append {c : Char} {x : String} (h : x.toList.head? = some c) : ∃ y, x = String.singleton c ++ y := by
  obtain ⟨l, hl⟩ := List.head?_eq_some_iff.mp h
  exact ⟨String.ofList l, String.toList_inj.mp (by simp [hl])⟩

theorem head_append {c : Char} {s : String} (h : s.toList.head? = some c) (x : String) : (s ++ x).toList.head? = some c := by
  rw [String.toList_append, List.head?_append, h, Option.some_or]

theorem encode_singleton (s : String) : encode String.singleton s = s := by
  apply String.toList_inj.mp
  simp [encode, String.toList_join, List.flatMap_map]

theorem prefixFree_singleton (plain : Char → Prop) : PrefixFree String.singleton plain :=
  fun _ _ _ _ _ _ h => singleton_append_inj.mp h

/-! ## Escaping -/

/-- Some characters, the lead character among them, are printed as the lead and a word. -/
structure Escaping where
  lead : Char
  word : Char → Option String
  lead_escaped : word lead ≠ none
  words_apart : ∀ c d v w x y, word c = some v → word d = some w → v ++ x = w ++ y → c = d ∧ x = y

namespace Escaping
variable (e : Escaping)

def code (c : Char) : String :=
  match e.word c with
  | some w => String.singleton e.lead ++ w
  | none => String.singleton c

theorem code_some {c : Char} {w : String} (h : e.word c = some w) : e.code c = String.singleton e.lead ++ w := by
  rw [code, h]

theorem code_none {c : Char} (h : e.word c = none) : e.code c = String.singleton c := by rw [code, h]

theorem ne_lead {c : Char} (h : e.word c = none) : c ≠ e.lead := by
  rintro rfl
  exact e.lead_escaped h

theorem prefixFree : PrefixFree e.code fun _ => True := by
  intro c d x y _ _ h
  cases hc : e.word c with
  | none =>
    rw [e.code_none hc] at h
    cases hd : e.word d with
    | none =>
      rw [e.code_none hd] at h
      exact singleton_append_inj.mp h
    | some w =>
      rw [e.code_some hd, String.append_assoc] at h
      exact absurd (singleton_append_inj.mp h).1 (e.ne_lead hc)
  | some v =>
    rw [e.code_some hc, String.append_assoc] at h
    cases hd : e.word d with
    | none =>
      rw [e.code_none hd] at h
      exact absurd (singleton_append_inj.mp h).1.symm (e.ne_lead hd)
    | some w =>
      rw [e.code_some hd, String.append_assoc] at h
      exact e.words_apart c d v w x y hc hd (singleton_append_inj.mp h).2

/-- An escaped character other than the lead ends a printed text. -/
theorem stops {c : Char} (hlead : c ≠ e.lead) (hword : e.word c ≠ none) (x : String) :
    Stops e.code (fun _ => True) (String.singleton c ++ x) := by
  intro d y _ h
  cases hd : e.word d with
  | none =>
    rw [e.code_none hd] at h
    exact hword ((singleton_append_inj.mp h).1 ▸ hd)
  | some w =>
    rw [e.code_some hd, String.append_assoc] at h
    exact hlead (singleton_append_inj.mp h).1

theorem cancel {s t x y : String} (hx : Stops e.code (fun _ => True) x) (hy : Stops e.code (fun _ => True) y)
    (h : encode e.code s ++ x = encode e.code t ++ y) : s = t ∧ x = y :=
  encode_cancel e.prefixFree (fun _ _ => trivial) (fun _ _ => trivial) hx hy h

end Escaping

/-! ## HTML text -/

def htmlWord (c : Char) : Option String :=
  if c = '&' then some "amp;"
  else if c = '<' then some "lt;"
  else if c = '>' then some "gt;"
  else if c = '\'' then some "#39;"
  else if c = '"' then some "#34;"
  else none

def htmlEscaping : Escaping where
  lead := '&'
  word := htmlWord
  lead_escaped := by decide
  words_apart := by
    intro c d v w x y hc hd h
    replace h := congrArg String.toList h
    unfold htmlWord at hc hd
    split_ifs at hc hd <;> cases hc <;> cases hd <;> simp_all [String.toList_inj]

/-- The text inside an element or a quoted attribute. -/
def escape (s : String) : String := encode htmlEscaping.code s

/-- A tag or a closing quote follows. -/
def AtMarkup (x : String) : Prop := x.toList.head? = some '<' ∨ x.toList.head? = some '"'

theorem escape_cancel {s t x y : String} (hx : AtMarkup x) (hy : AtMarkup y) (h : escape s ++ x = escape t ++ y) :
    s = t ∧ x = y := by
  have hstops : ∀ {z : String}, AtMarkup z → Stops htmlEscaping.code (fun _ => True) z := by
    rintro z (hz | hz)
    · obtain ⟨z, rfl⟩ := eq_singleton_append hz
      exact htmlEscaping.stops (by decide) (by decide) z
    · obtain ⟨z, rfl⟩ := eq_singleton_append hz
      exact htmlEscaping.stops (by decide) (by decide) z
  exact htmlEscaping.cancel (hstops hx) (hstops hy) h

/-- A fragment around a text that is left out when the text is empty. -/
def fragment (opening closing s : String) : String := if s = "" then "" else opening ++ (escape s ++ closing)

/-- Where the fragment's opening does not follow, the page determines the text in it. -/
theorem fragment_cancel {opening closing s t x y : String} (hclosing : ∀ z, AtMarkup (closing ++ z))
    (hx : ∀ z, x ≠ opening ++ z) (hy : ∀ z, y ≠ opening ++ z)
    (h : fragment opening closing s ++ x = fragment opening closing t ++ y) : s = t ∧ x = y := by
  unfold fragment at h
  split_ifs at h with hs ht ht
  · exact ⟨hs.trans ht.symm, by simpa using h⟩
  · rw [String.empty_append, String.append_assoc] at h
    exact absurd h (hx _)
  · rw [String.empty_append, String.append_assoc] at h
    exact absurd h.symm (hy _)
  · simp only [String.append_assoc, String.append_right_inj] at h
    obtain ⟨rfl, hrest⟩ := escape_cancel (hclosing x) (hclosing y) h
    exact ⟨rfl, (String.append_right_inj _).mp hrest⟩

/-! ## CSV records -/

section Csv

-- `quotes`: the further characters that put a cell in quotes.
variable (quotes : Char → Bool)

def csvSpecial (c : Char) : Bool := c = ',' || c = '"' || c = '\n' || quotes c

def csvEscaping : Escaping where
  lead := '"'
  word := fun c => if c = '"' then some "\"" else none
  lead_escaped := by decide
  words_apart := by
    intro c d v w x y hc hd h
    split_ifs at hc hd with hc' hd'
    cases hc
    cases hd
    exact ⟨hc'.trans hd'.symm, (String.append_right_inj _).mp h⟩

/-- A cell with a special character is quoted, its quotes doubled. -/
def csvField (cell : String) : String :=
  if cell.toList.any (csvSpecial quotes) then "\"" ++ (encode csvEscaping.code cell ++ "\"") else cell

/-- What follows the first cell of a record. -/
def csvRest : List String → String
  | [] => "\n"
  | cell :: rest => "," ++ (csvField quotes cell ++ csvRest rest)

/-- A record of a single empty cell is quoted. -/
def csvRecord : List String → String
  | [] => "\n"
  | [""] => "\"\"\n"
  | cell :: rest => csvField quotes cell ++ csvRest quotes rest

/-- A separator follows. -/
def AtSeparator (x : String) : Prop := x.toList.head? = some ',' ∨ x.toList.head? = some '\n'

variable {quotes}

theorem atSeparator_csvRest (cells : List String) (x : String) : AtSeparator (csvRest quotes cells ++ x) := by
  cases cells with
  | nil => exact Or.inr (by simp [csvRest])
  | cons cell rest => exact Or.inl (by simp [csvRest])

/-- A cell without special characters does not look like a quoted one. -/
theorem unquoted_ne {s x y : String} (hs : ¬ s.toList.any (csvSpecial quotes)) (hx : AtSeparator x) : s ++ x ≠ "\"" ++ y := by
  intro h
  replace h := congrArg String.toList h
  rw [String.toList_append, String.toList_append] at h
  cases hl : s.toList with
  | nil =>
    rw [hl, List.nil_append] at h
    rcases hx with hx | hx <;> simp [h] at hx
  | cons c l =>
    rw [hl] at h hs
    have hc : c = '"' := by simpa using congrArg List.head? h
    exact hs (by simp [hc, csvSpecial])

theorem csvField_cancel {s t x y : String} (hx : AtSeparator x) (hy : AtSeparator y)
    (h : csvField quotes s ++ x = csvField quotes t ++ y) : s = t ∧ x = y := by
  unfold csvField at h
  split_ifs at h with hs ht ht
  · have hstops : ∀ {z : String}, AtSeparator z → Stops csvEscaping.code (fun _ => True) ("\"" ++ z) := by
      intro z hz c y _ hcode
      replace hcode := congrArg String.toList hcode
      by_cases hc : c = '"'
      · rw [csvEscaping.code_some (w := "\"") (by simp [csvEscaping, hc])] at hcode
        have hz' : z.toList.head? = some '"' := by
          have := congrArg (fun l => l.tail.head?) hcode
          simpa [csvEscaping] using this
        rcases hz with hz | hz <;> simp [hz'] at hz
      · rw [csvEscaping.code_none (by simp [csvEscaping, hc])] at hcode
        have : '"' = c := by simpa using congrArg List.head? hcode
        exact hc this.symm
    simp only [String.append_assoc, String.append_right_inj] at h
    obtain ⟨rfl, hrest⟩ := csvEscaping.cancel (hstops hx) (hstops hy) h
    exact ⟨rfl, (String.append_right_inj _).mp hrest⟩
  · rw [String.append_assoc] at h
    exact absurd h.symm (unquoted_ne ht hy)
  · rw [String.append_assoc] at h
    exact absurd h (unquoted_ne hs hx)
  · have hstops : ∀ {z : String}, AtSeparator z → Stops String.singleton (fun c => ¬ csvSpecial quotes c) z := by
      intro z hz c y hc hcode
      rw [hcode] at hz
      rcases hz with hz | hz <;> simp only [String.toList_append, String.toList_singleton, List.singleton_append,
        List.head?_cons, Option.some.injEq] at hz <;> exact hc (by simp [csvSpecial, hz])
    simp only [List.any_eq_true, not_exists, not_and] at hs ht
    rw [← encode_singleton s, ← encode_singleton t] at h
    exact encode_cancel (prefixFree_singleton _) hs ht (hstops hx) (hstops hy) h

theorem csvRest_cancel {cells cells' : List String} {x y : String}
    (h : csvRest quotes cells ++ x = csvRest quotes cells' ++ y) : cells = cells' ∧ x = y := by
  induction cells generalizing cells' with
  | nil =>
    cases cells' with
    | nil => exact ⟨rfl, (String.append_right_inj _).mp h⟩
    | cons cell' rest' => exact absurd (congrArg (fun s => s.toList.head?) h) (by simp [csvRest])
  | cons cell rest ih =>
    cases cells' with
    | nil => exact absurd (congrArg (fun s => s.toList.head?) h) (by simp [csvRest])
    | cons cell' rest' =>
      simp only [csvRest, String.append_assoc, String.append_right_inj] at h
      obtain ⟨rfl, hrest⟩ := csvField_cancel (atSeparator_csvRest _ _) (atSeparator_csvRest _ _) h
      obtain ⟨rfl, hxy⟩ := ih hrest
      exact ⟨rfl, hxy⟩

/-- A printed record of two cells or more determines its cells. -/
theorem csvRecord_cancel {cells cells' : List String} {x y : String} (hlen : 2 ≤ cells.length) (hlen' : 2 ≤ cells'.length)
    (h : csvRecord quotes cells ++ x = csvRecord quotes cells' ++ y) : cells = cells' ∧ x = y := by
  match cells, cells', hlen, hlen' with
  | a :: b :: cells, c :: d :: cells', _, _ =>
    have hrecord : csvRest quotes (a :: b :: cells) ++ x = csvRest quotes (c :: d :: cells') ++ y := by
      simpa [csvRecord, csvRest, String.append_assoc] using h
    exact csvRest_cancel hrecord

end Csv

end Reconciliation.Base.Text

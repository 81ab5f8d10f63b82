/-
  Reconciliation.Base.Json — JSON documents, and their indented print.

  A number is the text it is printed as. Two documents have the same shape when they differ
  at most in texts, and in whether a text is there at all (`shape`); among documents of one
  shape the print determines the document (`dumps_injective`).
-/
import Reconciliation.Base.Text

namespace Reconciliation.Base

open Text

inductive Json where
  | null
  | bool (b : Bool)
  | number (printed : String)
  | string (s : String)
  | array (items : List Json)
  | object (entries : List (String × Json))

namespace Json

/-! ## Strings -/

/-- The characters with an escape letter. -/
def jsonLetters : List (Char × Char) :=
  [('"', '"'), ('\\', '\\'), ('\n', 'n'), ('\r', 'r'), ('\t', 't'), (Char.ofNat 12, 'f'), (Char.ofNat 8, 'b')]

/-- What follows the backslash: a letter, or the number of any other control character. -/
def jsonWord (c : Char) : Option String :=
  match jsonLetters.find? fun e => e.1 = c with
  | some e => some (String.singleton e.2)
  | none =>
    if c.toNat < 32 then some (String.ofList ['u', '0', '0', Nat.digitChar (c.toNat / 16), Nat.digitChar (c.toNat % 16)])
    else none

theorem jsonWord_some {c : Char} {w : String} (h : jsonWord c = some w) :
    (∃ e ∈ jsonLetters, e.1 = c ∧ w = String.singleton e.2) ∨
      (c.toNat < 32 ∧ w = String.ofList ['u', '0', '0', Nat.digitChar (c.toNat / 16), Nat.digitChar (c.toNat % 16)]) := by
  unfold jsonWord at h
  split at h
  · rename_i e he
    cases h
    have hchar : e.1 = c := by simpa using List.find?_some he
    exact Or.inl ⟨e, List.mem_of_find?_eq_some he, hchar, rfl⟩
  · split_ifs at h with hc
    cases h
    exact Or.inr ⟨hc, rfl⟩

theorem digitChar_inj : ∀ m < 16, ∀ n < 16, Nat.digitChar m = Nat.digitChar n → m = n := by decide

theorem letters_apart : ∀ e ∈ jsonLetters, ∀ e' ∈ jsonLetters, e.2 = e'.2 → e.1 = e'.1 := by decide

/-- No escape letter begins a numbered escape. -/
theorem letters_ne_u : ∀ e ∈ jsonLetters, e.2 ≠ 'u' := by decide

theorem lead_escaped : jsonWord '\\' ≠ none := by decide

/-- The words of escapes are told apart in what follows them. -/
theorem words_apart (c d : Char) (v w x y : String) (hc : jsonWord c = some v) (hd : jsonWord d = some w)
    (h : v ++ x = w ++ y) : c = d ∧ x = y := by
  rcases jsonWord_some hc with ⟨e, he, rfl, rfl⟩ | ⟨hc, rfl⟩ <;>
    rcases jsonWord_some hd with ⟨e', he', rfl, rfl⟩ | ⟨hd, rfl⟩
  · obtain ⟨hletter, hxy⟩ := singleton_append_inj.mp h
    exact ⟨letters_apart e he e' he' hletter, hxy⟩
  · exact absurd (by simpa using congrArg (fun z => z.toList.head?) h) (letters_ne_u e he)
  · exact absurd (by simpa using (congrArg (fun z => z.toList.head?) h).symm) (letters_ne_u e' he')
  · -- two control characters without a letter: both hexadecimal digits agree
    replace h := congrArg String.toList h
    simp only [String.toList_append, String.toList_ofList, List.cons_append, List.nil_append, List.cons.injEq, true_and,
      String.toList_inj] at h
    obtain ⟨hhigh, hlow, hxy⟩ := h
    have := digitChar_inj _ (by omega) _ (by omega) hhigh
    have := digitChar_inj _ (by omega) _ (by omega) hlow
    exact ⟨Char.toNat_inj.mp (by omega), hxy⟩

def jsonEscaping : Escaping where
  lead := '\\'
  word := jsonWord
  lead_escaped := lead_escaped
  words_apart := words_apart

def quoted (s : String) : String := "\"" ++ (encode jsonEscaping.code s ++ "\"")

theorem quoted_cancel {s t x y : String} (h : quoted s ++ x = quoted t ++ y) : s = t ∧ x = y := by
  simp only [quoted, String.append_assoc, String.append_right_inj] at h
  have hstops : ∀ z, Stops jsonEscaping.code (fun _ => True) ("\"" ++ z) := fun z =>
    jsonEscaping.stops (c := '"') (by decide) (by decide) z
  obtain ⟨rfl, hrest⟩ := jsonEscaping.cancel (hstops x) (hstops y) h
  exact ⟨rfl, (String.append_right_inj _).mp hrest⟩

/-! ## Printing -/

/-- Two blanks for each level. -/
def newline (level : Nat) : String := "\n" ++ String.ofList (List.replicate (2 * level) ' ')

mutual

def dumps (level : Nat) : Json → String
  | null => "null"
  | bool true => "true"
  | bool false => "false"
  | number printed => printed
  | string s => quoted s
  | array [] => "[]"
  | array (item :: items) =>
    "[" ++ (newline (level + 1) ++ (dumps (level + 1) item ++ (dumpsItems (level + 1) items ++ (newline level ++ "]"))))
  | object [] => "\x7b\x7d"
  | object ((key, value) :: entries) =>
    "\x7b" ++ (newline (level + 1) ++ (quoted key ++ (": " ++ (dumps (level + 1) value ++
      (dumpsEntries (level + 1) entries ++ (newline level ++ "\x7d"))))))

/-- The items after the first. -/
def dumpsItems (level : Nat) : List Json → String
  | [] => ""
  | item :: items => "," ++ (newline level ++ (dumps level item ++ dumpsItems level items))

/-- The entries after the first. -/
def dumpsEntries (level : Nat) : List (String × Json) → String
  | [] => ""
  | (key, value) :: entries =>
    "," ++ (newline level ++ (quoted key ++ (": " ++ (dumps level value ++ dumpsEntries level entries))))

end

/-! ## Shapes -/

mutual

/-- The document without its texts. -/
def shape : Json → Json
  | null => null
  | bool b => bool b
  | number printed => number printed
  | string _ => null
  | array items => array (shapeItems items)
  | object entries => object (shapeEntries entries)

def shapeItems : List Json → List Json
  | [] => []
  | item :: items => shape item :: shapeItems items

def shapeEntries : List (String × Json) → List (String × Json)
  | [] => []
  | (key, value) :: entries => (key, shape value) :: shapeEntries entries

end

theorem shapeItems_eq (items : List Json) : shapeItems items = items.map shape := by
  induction items with
  | nil => rfl
  | cons item items ih => rw [shapeItems, ih, List.map_cons]

mutual

/-- Documents of one shape are told apart by their prints, whatever follows. -/
theorem dumps_cancel : ∀ (a b : Json) (level : Nat) {x y : String}, a.shape = b.shape →
    dumps level a ++ x = dumps level b ++ y → a = b ∧ x = y
  | null, b, level, x, y, hshape, h => by
    cases b <;> simp [shape] at hshape
    case null => exact ⟨rfl, (String.append_right_inj _).mp h⟩
    case string s => exact absurd (congrArg (fun z => z.toList.head?) h) (by simp [dumps, quoted])
  | bool b, c, level, x, y, hshape, h => by
    cases c <;> simp [shape] at hshape
    subst hshape
    exact ⟨rfl, (String.append_right_inj _).mp h⟩
  | number printed, b, level, x, y, hshape, h => by
    cases b <;> simp [shape] at hshape
    subst hshape
    exact ⟨rfl, (String.append_right_inj _).mp h⟩
  | string s, b, level, x, y, hshape, h => by
    cases b <;> simp [shape] at hshape
    case null => exact absurd (congrArg (fun z => z.toList.head?) h) (by simp [dumps, quoted])
    case string t =>
      obtain ⟨rfl, hxy⟩ := quoted_cancel h
      exact ⟨rfl, hxy⟩
  | array [], b, level, x, y, hshape, h => by
    cases b <;> simp [shape] at hshape
    case array items =>
      cases items <;> simp [shapeItems] at hshape
      exact ⟨rfl, (String.append_right_inj _).mp h⟩
  | array (item :: items), b, level, x, y, hshape, h => by
    cases b <;> simp [shape] at hshape
    case array items' =>
      match items', hshape with
      | item' :: items', hshape =>
        simp only [shapeItems, List.cons.injEq] at hshape
        simp only [dumps, String.append_assoc, String.append_right_inj] at h
        obtain ⟨rfl, hitems⟩ := dumps_cancel item item' (level + 1) hshape.1 h
        obtain ⟨rfl, hrest⟩ := dumpsItems_cancel items items' (level + 1) hshape.2 hitems
        simp only [String.append_right_inj] at hrest
        exact ⟨rfl, hrest⟩
  | object [], b, level, x, y, hshape, h => by
    cases b <;> simp [shape] at hshape
    case object entries =>
      cases entries <;> simp [shapeEntries] at hshape
      exact ⟨rfl, (String.append_right_inj _).mp h⟩
  | object ((key, value) :: entries), b, level, x, y, hshape, h => by
    cases b <;> simp [shape] at hshape
    case object entries' =>
      match entries', hshape with
      | (key', value') :: entries', hshape =>
        simp only [shapeEntries, List.cons.injEq, Prod.mk.injEq] at hshape
        obtain ⟨⟨rfl, hvalue⟩, hentries⟩ := hshape
        simp only [dumps, String.append_assoc, String.append_right_inj] at h
        obtain ⟨rfl, hafter⟩ := dumps_cancel value value' (level + 1) hvalue h
        obtain ⟨rfl, hrest⟩ := dumpsEntries_cancel entries entries' (level + 1) hentries hafter
        simp only [String.append_right_inj] at hrest
        exact ⟨rfl, hrest⟩

theorem dumpsItems_cancel : ∀ (items items' : List Json) (level : Nat) {x y : String}, shapeItems items = shapeItems items' →
    dumpsItems level items ++ x = dumpsItems level items' ++ y → items = items' ∧ x = y
  | [], items', level, x, y, hshape, h => by
    cases items' <;> simp [shapeItems] at hshape
    exact ⟨rfl, (String.append_right_inj _).mp h⟩
  | item :: items, items', level, x, y, hshape, h => by
    match items', hshape with
    | item' :: items', hshape =>
      simp only [shapeItems, List.cons.injEq] at hshape
      simp only [dumpsItems, String.append_assoc, String.append_right_inj] at h
      obtain ⟨rfl, hitems⟩ := dumps_cancel item item' level hshape.1 h
      obtain ⟨rfl, hxy⟩ := dumpsItems_cancel items items' level hshape.2 hitems
      exact ⟨rfl, hxy⟩

theorem dumpsEntries_cancel : ∀ (entries entries' : List (String × Json)) (level : Nat) {x y : String},
    shapeEntries entries = shapeEntries entries' →
    dumpsEntries level entries ++ x = dumpsEntries level entries' ++ y → entries = entries' ∧ x = y
  | [], entries', level, x, y, hshape, h => by
    cases entries' <;> simp [shapeEntries] at hshape
    exact ⟨rfl, (String.append_right_inj _).mp h⟩
  | (key, value) :: entries, entries', level, x, y, hshape, h => by
    match entries', hshape with
    | (key', value') :: entries', hshape =>
      simp only [shapeEntries, List.cons.injEq, Prod.mk.injEq] at hshape
      obtain ⟨⟨rfl, hvalue⟩, hentries⟩ := hshape
      simp only [dumpsEntries, String.append_assoc, String.append_right_inj] at h
      obtain ⟨rfl, hafter⟩ := dumps_cancel value value' level hvalue h
      obtain ⟨rfl, hxy⟩ := dumpsEntries_cancel entries entries' level hentries hafter
      exact ⟨rfl, hxy⟩

end

/-- Among documents of one shape the print determines the document. -/
theorem dumps_injective {a b : Json} (hshape : a.shape = b.shape) (h : dumps 0 a = dumps 0 b) : a = b :=
  (dumps_cancel a b 0 hshape (congrArg (· ++ "") h)).1

end Json

end Reconciliation.Base

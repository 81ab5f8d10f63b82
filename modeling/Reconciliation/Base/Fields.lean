/-
  Reconciliation.Base.Fields — records written as labels and values, one after the other.

  A value may hold anything between quotes, so a reader looks for the next delimiter outside
  them (`following`). Where the values are `Sealed` that finds the end of each, and so two
  records are written alike exactly when they have the same fields, or some label runs over the
  end of the other's and goes on with what the other shows next (`fields_eq_iff`).
-/
import Mathlib

namespace Reconciliation.Base.Fields

/-! ## Quotes -/

/-- Where a reader stands: outside quotes, inside them, or behind a backslash there. -/
inductive Mode where
  | outside
  | inside (quote : Char)
  | escaped (quote : Char)
  deriving DecidableEq

def Mode.next : Mode → Char → Mode
  | outside, c => if c = '\'' ∨ c = '"' then inside c else outside
  | inside quote, c => if c = '\\' then escaped quote else if c = quote then outside else inside quote
  | escaped quote, _ => inside quote

section Delimiter
variable (d : Char)

/-- What is left at the first delimiter outside quotes. -/
def following : Mode → List Char → List Char
  | _, [] => []
  | mode, c :: cs => if mode = .outside ∧ c = d then c :: cs else following (mode.next c) cs

/-- The text opens no quotes that it does not close, and holds the delimiter only inside them. -/
def Sealed (s : String) : Prop := ∀ x, following d .outside (s.toList ++ x) = following d .outside x

/-- Inside the quotes, the text neither closes them nor ends behind a backslash. -/
def Within (quote : Char) (s : String) : Prop :=
  ∀ x, following d (.inside quote) (s.toList ++ x) = following d (.inside quote) x

/-- The text is over, or goes on with the delimiter. -/
def Ends (x : String) : Prop := ∀ c, x.toList.head? = some c → c = d

end Delimiter

section Sealing
variable {d quote : Char} {s t : String}

theorem sealed_empty : Sealed d "" := fun _ => rfl

theorem Sealed.append (hs : Sealed d s) (ht : Sealed d t) : Sealed d (s ++ t) := by
  intro x
  rw [String.toList_append, List.append_assoc, hs, ht]

theorem Within.append (hs : Within d quote s) (ht : Within d quote t) : Within d quote (s ++ t) := by
  intro x
  rw [String.toList_append, List.append_assoc, hs, ht]

theorem within_join {words : List String} (h : ∀ w ∈ words, Within d quote w) : Within d quote (String.join words) := by
  induction words with
  | nil =>
    intro x
    simp
  | cons w words ih =>
    rw [String.join_cons]
    exact (h w List.mem_cons_self).append (ih fun w' hw' => h w' (List.mem_cons_of_mem w hw'))

/-- Text without quotes and without the delimiter. -/
theorem sealed_plain (h : ∀ c ∈ s.toList, c ≠ d ∧ c ≠ '\'' ∧ c ≠ '"') : Sealed d s := by
  have hplain : ∀ l : List Char, (∀ c ∈ l, c ≠ d ∧ c ≠ '\'' ∧ c ≠ '"') → ∀ x,
      following d .outside (l ++ x) = following d .outside x := by
    intro l hl x
    induction l with
    | nil => rfl
    | cons c l ih =>
      obtain ⟨hd, hsingle, hdouble⟩ := hl c List.mem_cons_self
      rw [List.cons_append, following, if_neg fun hc => hd hc.2]
      simp only [Mode.next, hsingle, hdouble, or_self, if_false]
      exact ih fun c' hc' => hl c' (List.mem_cons_of_mem c hc')
  exact hplain s.toList h

theorem within_plain (h : ∀ c ∈ s.toList, c ≠ quote ∧ c ≠ '\\') : Within d quote s := by
  have hplain : ∀ l : List Char, (∀ c ∈ l, c ≠ quote ∧ c ≠ '\\') → ∀ x,
      following d (.inside quote) (l ++ x) = following d (.inside quote) x := by
    intro l hl x
    induction l with
    | nil => rfl
    | cons c l ih =>
      obtain ⟨hquote, hback⟩ := hl c List.mem_cons_self
      rw [List.cons_append, following, if_neg (by simp)]
      simp only [Mode.next, hquote, hback, if_false]
      exact ih fun c' hc' => hl c' (List.mem_cons_of_mem c hc')
  exact hplain s.toList h

/-- A backslash and the character behind it. -/
theorem within_escape (c : Char) : Within d quote (String.ofList ['\\', c]) := by
  intro x
  simp [following, Mode.next]

/-- A text in quotes. -/
theorem sealed_quoted (hquote : quote = '\'' ∨ quote = '"') (hd : quote ≠ d) (h : Within d quote s) :
    Sealed d (String.ofList [quote] ++ s ++ String.ofList [quote]) := by
  intro x
  have hback : quote ≠ '\\' := by rcases hquote with rfl | rfl <;> decide
  simp only [String.toList_append, String.toList_ofList, List.append_assoc, List.cons_append, List.nil_append]
  rw [following, if_neg fun hc => hd hc.2]
  simp only [Mode.next, hquote, if_true]
  rw [h, following, if_neg (by simp)]
  simp only [Mode.next, hback, if_false, if_true]

theorem sealed_intercalate {sep : String} (hsep : Sealed d sep) {words : List String} (h : ∀ w ∈ words, Sealed d w) :
    Sealed d (String.intercalate sep words) := by
  induction words with
  | nil => exact sealed_empty
  | cons w words ih =>
    have hw := h w List.mem_cons_self
    replace ih := ih fun w' hw' => h w' (List.mem_cons_of_mem w hw')
    cases words with
    | nil => rwa [String.intercalate_singleton]
    | cons w' words =>
      rw [String.intercalate_cons_cons]
      exact (hw.append hsep).append ih

theorem following_ends {x : String} (h : Ends d x) : following d .outside x.toList = x.toList := by
  unfold Ends at h
  cases hx : x.toList with
  | nil => rfl
  | cons c cs =>
    rw [hx] at h
    rw [following, if_pos ⟨rfl, h c rfl⟩]

/-- A sealed value and what follows it are told apart. -/
theorem Sealed.cancel (hs : Sealed d s) (ht : Sealed d t) {x y : String} (hx : Ends d x) (hy : Ends d y)
    (h : s ++ x = t ++ y) : s = t ∧ x = y := by
  have hlist := congrArg String.toList h
  rw [String.toList_append, String.toList_append] at hlist
  have hrest := congrArg (following d .outside) hlist
  rw [hs, ht, following_ends hx, following_ends hy, String.toList_inj] at hrest
  subst hrest
  exact ⟨(String.append_left_inj x).mp h, rfl⟩

end Sealing

/-! ## Records -/

/-- The labels and the values, one after the other. -/
def fields : List (String × String) → String
  | [] => ""
  | (label, value) :: rest => label ++ (value ++ fields rest)

/-- At the first label that differs, that of the second record goes on behind the end of the first's,
    with what the first shows next. -/
inductive Overruns : List (String × String) → List (String × String) → Prop
  | here {label more value value' : String} {rest rest' : List (String × String)} (hmore : more ≠ "")
    (hnext : value ++ fields rest = more ++ (value' ++ fields rest')) :
    Overruns ((label, value) :: rest) ((label ++ more, value') :: rest')
  | later {field : String × String} {rest rest' : List (String × String)} (h : Overruns rest rest') :
    Overruns (field :: rest) (field :: rest')

/-- No label is empty, every value is sealed, and every label but the first begins with the delimiter. -/
structure Delimited (d : Char) (record : List (String × String)) : Prop where
  label_ne : ∀ field ∈ record, field.1 ≠ ""
  value_sealed : ∀ field ∈ record, Sealed d field.2
  label_begins : ∀ field ∈ record.tail, field.1.toList.head? = some d

section Records
variable {d : Char} {field : String × String} {record record' rest : List (String × String)}

theorem Delimited.of_cons (h : Delimited d (field :: rest)) : Delimited d rest where
  label_ne := fun f hf => h.label_ne f (List.mem_cons_of_mem field hf)
  value_sealed := fun f hf => h.value_sealed f (List.mem_cons_of_mem field hf)
  label_begins := fun f hf => h.label_begins f (List.mem_of_mem_tail hf)

/-- Behind the first value a field begins, or the record is over. -/
theorem Delimited.ends (h : Delimited d (field :: rest)) : Ends d (fields rest) := by
  cases rest with
  | nil =>
    intro c hc
    simp [fields] at hc
  | cons f rest =>
    intro c hc
    have hbegins := h.label_begins f List.mem_cons_self
    rw [fields, String.toList_append, List.head?_append, hbegins, Option.some_or] at hc
    exact (Option.some.inj hc).symm

theorem Delimited.fields_ne (h : Delimited d (field :: rest)) : fields (field :: rest) ≠ "" := by
  intro he
  have hlen := congrArg String.length he
  rw [fields, String.length_append, String.length_empty] at hlen
  exact h.label_ne field List.mem_cons_self (String.length_eq_zero_iff.mp (by omega))

theorem append_eq_append_iff {s t x y : String} : s ++ x = t ++ y ↔
    (∃ more, t = s ++ more ∧ x = more ++ y) ∨ ∃ more, s = t ++ more ∧ y = more ++ x := by
  rw [← String.toList_inj, String.toList_append, String.toList_append, List.append_eq_append_iff]
  have htext : ∀ {a b : String} {l : List Char}, a.toList = b.toList ++ l ↔ a = b ++ String.ofList l := by
    intro a b l
    rw [← String.toList_inj, String.toList_append, String.toList_ofList]
  have hrest : ∀ {a b : String} {l : List Char}, a.toList = l ++ b.toList ↔ a = String.ofList l ++ b := by
    intro a b l
    rw [← String.toList_inj, String.toList_append, String.toList_ofList]
  simp only [htext, hrest]
  constructor
  · intro h
    rcases h with ⟨l, hl⟩ | ⟨l, hl⟩
    · exact Or.inl ⟨String.ofList l, hl⟩
    · exact Or.inr ⟨String.ofList l, hl⟩
  · intro h
    rcases h with ⟨more, hmore⟩ | ⟨more, hmore⟩
    · exact Or.inl ⟨more.toList, by simpa using hmore⟩
    · exact Or.inr ⟨more.toList, by simpa using hmore⟩

/-- An overrun is between different labels. -/
theorem Overruns.labels_ne (h : Overruns record record') : record.map Prod.fst ≠ record'.map Prod.fst := by
  induction h with
  | @here label more value value' rest rest' hmore hnext =>
    intro he
    have hlabel : label = label ++ more := (List.cons.inj he).1
    have hlen := congrArg String.length hlabel
    rw [String.length_append] at hlen
    exact hmore (String.length_eq_zero_iff.mp (by omega))
  | later h ih => exact fun he => ih (List.cons.inj he).2

theorem Overruns.fields_eq (h : Overruns record record') : fields record = fields record' := by
  induction h with
  | here hmore hnext => rw [fields, fields, hnext, String.append_assoc]
  | later h ih => rw [fields, fields, ih]

/-- Two records are written alike when they have the same fields, or a label of one overruns the other's. -/
theorem fields_eq_iff (h : Delimited d record) (h' : Delimited d record') :
    fields record = fields record' ↔ record = record' ∨ Overruns record record' ∨ Overruns record' record := by
  constructor
  · intro he
    induction record generalizing record' with
    | nil =>
      cases record' with
      | nil => exact Or.inl rfl
      | cons f rest' => exact absurd he (h'.fields_ne).symm
    | cons f rest ih =>
      obtain ⟨label, value⟩ := f
      cases record' with
      | nil => exact absurd he h.fields_ne
      | cons g rest' =>
        obtain ⟨label', value'⟩ := g
        have hvalues : value ++ fields rest = value' ++ fields rest' →
            (label, value) :: rest = (label, value') :: rest' ∨ Overruns ((label, value) :: rest) ((label, value') :: rest') ∨
              Overruns ((label, value') :: rest') ((label, value) :: rest) := by
          intro hv
          obtain ⟨rfl, hrest⟩ := (h.value_sealed _ List.mem_cons_self).cancel (h'.value_sealed _ List.mem_cons_self)
            h.ends h'.ends hv
          rcases ih h.of_cons h'.of_cons hrest with rfl | ho | ho
          · exact Or.inl rfl
          · exact Or.inr (Or.inl ho.later)
          · exact Or.inr (Or.inr ho.later)
        rw [fields, fields] at he
        rcases append_eq_append_iff.mp he with ⟨more, rfl, hnext⟩ | ⟨more, rfl, hnext⟩
        · by_cases hmore : more = ""
          · subst hmore
            rw [String.append_empty]
            exact hvalues (by simpa using hnext)
          · exact Or.inr (Or.inl (.here hmore hnext))
        · by_cases hmore : more = ""
          · subst hmore
            rw [String.append_empty] at hvalues ⊢
            exact hvalues (by simpa using hnext.symm)
          · exact Or.inr (Or.inr (.here hmore hnext))
  · intro hcases
    rcases hcases with rfl | ho | ho
    · rfl
    · exact ho.fields_eq
    · exact ho.fields_eq.symm

/-- The longer label: what it has more begins with the delimiter, unless a value follows the shorter one. -/
theorem Overruns.exists_label (h : Overruns record record') (hd : Delimited d record) : ∃ label more value value',
    (label, value) ∈ record ∧ (label ++ more, value') ∈ record' ∧ more ≠ "" ∧
      (value = "" → more.toList.head? = some d) := by
  induction h with
  | @here label more value value' rest rest' hmore hnext =>
    refine ⟨label, more, value, value', List.mem_cons_self, List.mem_cons_self, hmore, ?_⟩
    rintro rfl
    rw [String.empty_append] at hnext
    obtain ⟨c, hc⟩ : ∃ c, more.toList.head? = some c := by
      cases hl : more.toList with
      | nil => exact absurd (String.toList_eq_nil_iff.mp hl) hmore
      | cons c cs => exact ⟨c, rfl⟩
    have hends := hd.ends c
    rw [hnext, String.toList_append, List.head?_append, hc, Option.some_or] at hends
    rw [hc, hends rfl]
  | later h ih =>
    obtain ⟨label, more, value, value', hin, hin', hmore, hbegins⟩ := ih hd.of_cons
    exact ⟨label, more, value, value', List.mem_cons_of_mem _ hin, List.mem_cons_of_mem _ hin', hmore, hbegins⟩

end Records

/-! ## Separators -/

/-- The separator, before every label but the first. -/
def delimit (sep : String) : List (String × String) → List (String × String)
  | [] => []
  | first :: rest => first :: rest.map fun field => (sep ++ field.1, field.2)

/-- With the separator in between, a label of one record overruns the other's. -/
def Confusable (sep : String) (record record' : List (String × String)) : Prop :=
  Overruns (delimit sep record) (delimit sep record') ∨ Overruns (delimit sep record') (delimit sep record)

section Separators
variable {d : Char} {sep : String} {record record' : List (String × String)}

theorem fields_delimit (sep : String) (record : List (String × String)) :
    fields (delimit sep record) = String.intercalate sep (record.map fun field => field.1 ++ field.2) := by
  have hrest : ∀ rest : List (String × String), fields (rest.map fun field => (sep ++ field.1, field.2)) =
      String.join (rest.map fun field => sep ++ (field.1 ++ field.2)) := by
    intro rest
    induction rest with
    | nil => rfl
    | cons field rest ih =>
      rw [List.map_cons, fields, ih, List.map_cons, String.join_cons]
      simp only [String.append_assoc]
  have hjoin : ∀ (w : String) (words : List String),
      String.intercalate sep (w :: words) = w ++ String.join (words.map fun w' => sep ++ w') := by
    intro w words
    induction words generalizing w with
    | nil => simp
    | cons w' words ih => rw [String.intercalate_cons_cons, ih, List.map_cons, String.join_cons, String.append_assoc,
        String.append_assoc]
  cases record with
  | nil => rfl
  | cons first rest =>
    rw [delimit, fields, hrest, List.map_cons, hjoin, List.map_map, String.append_assoc]
    rfl

theorem delimit_inj : delimit sep record = delimit sep record' ↔ record = record' := by
  constructor
  · intro h
    cases record with
    | nil =>
      cases record' with
      | nil => rfl
      | cons first rest => cases h
    | cons first rest =>
      cases record' with
      | nil => cases h
      | cons first' rest' =>
        obtain ⟨rfl, hrest⟩ := List.cons.inj h
        refine congrArg _ (List.map_injective_iff.mpr (fun f g hfg => ?_) hrest)
        obtain ⟨hlabel, hvalue⟩ := Prod.mk.inj hfg
        exact Prod.ext ((String.append_right_inj sep).mp hlabel) hvalue
  · rintro rfl
    rfl

theorem delimit_labels (h : record.map Prod.fst = record'.map Prod.fst) :
    (delimit sep record).map Prod.fst = (delimit sep record').map Prod.fst := by
  have hlabels : ∀ record : List (String × String), (delimit sep record).map Prod.fst =
      match record.map Prod.fst with
      | [] => []
      | first :: rest => first :: rest.map fun label => sep ++ label := by
    intro record
    cases record with
    | nil => rfl
    | cons first rest => simp [delimit, Function.comp_def]
  rw [hlabels, hlabels, h]

theorem delimited_delimit (hsep : sep.toList.head? = some d) (h : ∀ field ∈ record, field.1 ≠ "" ∧ Sealed d field.2) :
    Delimited d (delimit sep record) := by
  have hbegins : ∀ label, (sep ++ label).toList.head? = some d := by
    intro label
    rw [String.toList_append, List.head?_append, hsep, Option.some_or]
  cases record with
  | nil => exact ⟨by simp [delimit], by simp [delimit], by simp [delimit]⟩
  | cons first rest =>
    constructor
    · intro field hf
      rcases List.mem_cons.mp hf with rfl | hf
      · exact (h field List.mem_cons_self).1
      · obtain ⟨f, -, rfl⟩ := List.mem_map.mp hf
        intro he
        have := hbegins f.1
        simp only at he
        rw [he] at this
        simp at this
    · intro field hf
      rcases List.mem_cons.mp hf with rfl | hf
      · exact (h field List.mem_cons_self).2
      · obtain ⟨f, hin, rfl⟩ := List.mem_map.mp hf
        exact (h f (List.mem_cons_of_mem first hin)).2
    · intro field hf
      obtain ⟨f, -, rfl⟩ := List.mem_map.mp hf
      exact hbegins f.1

/-- Joined records are told apart, unless they are confusable. -/
theorem intercalate_eq_iff (hsep : sep.toList.head? = some d) (h : ∀ field ∈ record, field.1 ≠ "" ∧ Sealed d field.2)
    (h' : ∀ field ∈ record', field.1 ≠ "" ∧ Sealed d field.2) :
    String.intercalate sep (record.map fun field => field.1 ++ field.2) =
        String.intercalate sep (record'.map fun field => field.1 ++ field.2) ↔
      record = record' ∨ Confusable sep record record' := by
  rw [← fields_delimit, ← fields_delimit, fields_eq_iff (delimited_delimit hsep h) (delimited_delimit hsep h'), delimit_inj]
  rfl

/-- Records with the same labels are not confusable. -/
theorem not_confusable_of_labels (h : record.map Prod.fst = record'.map Prod.fst) : ¬ Confusable sep record record' := by
  intro hc
  rcases hc with ho | ho
  · exact ho.labels_ne (delimit_labels h)
  · exact ho.labels_ne (delimit_labels h.symm)

end Separators

end Reconciliation.Base.Fields

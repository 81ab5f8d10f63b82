/-
  Reconciliation.Infrastructure.Logging — what a redacted log event still tells.

  Values under sensitive keys are masked in the event and in the mappings nested in it. A list
  or a tuple is logged as it is, with the mappings inside. So two events that differ in
  sensitive values alone are logged alike exactly when no list or tuple that is logged holds a
  sensitive key (`redacts_iff`, `loginAttempts_disclosed`). Keys always keep their positions,
  and what holds no sensitive key is logged unchanged.
-/
import Mathlib

namespace Reconciliation.Infrastructure

/-! ## Events -/

inductive SequenceKind where
  | list
  | tuple
  deriving DecidableEq

/-- A logged value; `α` is the type of the objects that are no text and no container. -/
inductive LogValue (α : Type) where
  | str (s : String)
  | object (a : α)
  | sequence (kind : SequenceKind) (items : List (LogValue α))
  | dict (entries : List (String × LogValue α))

/-- The entries of a mapping, in order. -/
abbrev LogMapping (α : Type) := List (String × LogValue α)

/-! ## Redaction -/

/-- Keys whose values are always masked. -/
def sensitiveKeys : List String :=
  ["password", "passwd", "secret", "token", "api_key", "apikey", "authorization", "credential", "credentials",
    "access_key", "private_key"]

/-- Keys carrying content; masked unless content logging is enabled. -/
def contentKeys : List String :=
  ["content", "source_content", "locale_content", "text", "navtitle", "title", "label", "source_label", "locale_label",
    "message"]

def mask : String := "[REDACTED]"

section Model
variable {α : Type} (lower : String → String) (redactContent : Bool)

/-- The value under the key is masked; `lower` is `str.lower`. -/
def Sensitive (key : String) : Prop :=
  lower key ∈ sensitiveKeys ∨ (redactContent = true ∧ lower key ∈ contentKeys)

instance (key : String) : Decidable (Sensitive lower redactContent key) := inferInstanceAs (Decidable (_ ∨ _))

mutual

def redactMapping : LogMapping α → LogMapping α
  | [] => []
  | (key, value) :: rest =>
    (key, if Sensitive lower redactContent key then .str mask else redactValue value) :: redactMapping rest

/-- What is logged of a value that is not masked: only mappings are redacted further. -/
def redactValue : LogValue α → LogValue α
  | .dict entries => .dict (redactMapping entries)
  | value => value

end

/-! ## Secrets -/

mutual

/-- Two values are equal except for what stands under sensitive keys, at any depth. -/
def SameApart : LogValue α → LogValue α → Prop
  | .str s, .str t => s = t
  | .object a, .object b => a = b
  | .sequence k xs, .sequence l ys => k = l ∧ SameItems xs ys
  | .dict xs, .dict ys => SameEntries xs ys
  | _, _ => False

def SameItems : List (LogValue α) → List (LogValue α) → Prop
  | [], [] => True
  | x :: xs, y :: ys => SameApart x y ∧ SameItems xs ys
  | _, _ => False

def SameEntries : LogMapping α → LogMapping α → Prop
  | [], [] => True
  | (k, x) :: xs, (l, y) :: ys => k = l ∧ (Sensitive lower redactContent k ∨ SameApart x y) ∧ SameEntries xs ys
  | _, _ => False

end

mutual

/-- A sensitive key occurs in the value. -/
def HoldsSecret : LogValue α → Prop
  | .sequence _ items => SecretInItems items
  | .dict entries => SecretInEntries entries
  | _ => False

def SecretInItems : List (LogValue α) → Prop
  | [] => False
  | x :: xs => HoldsSecret x ∨ SecretInItems xs

def SecretInEntries : LogMapping α → Prop
  | [] => False
  | (k, x) :: xs => Sensitive lower redactContent k ∨ HoldsSecret x ∨ SecretInEntries xs

end

mutual

/-- A list or a tuple that is logged as it is holds a sensitive key. -/
def Leaks : LogMapping α → Prop
  | [] => False
  | (k, x) :: xs => (¬ Sensitive lower redactContent k ∧ LeaksValue x) ∨ Leaks xs

def LeaksValue : LogValue α → Prop
  | .sequence _ items => SecretInItems lower redactContent items
  | .dict entries => Leaks entries
  | _ => False

end

end Model

/-! ## Equal apart from secrets -/

section Secrets
variable {α : Type} {lower : String → String} {redactContent : Bool}

mutual

theorem sameApart_refl : ∀ v : LogValue α, SameApart lower redactContent v v
  | .str _ => by simp [SameApart]
  | .object _ => by simp [SameApart]
  | .sequence _ items => by simp [SameApart, sameItems_refl items]
  | .dict entries => by simp [SameApart, sameEntries_refl entries]

theorem sameItems_refl : ∀ items : List (LogValue α), SameItems lower redactContent items items
  | [] => by simp [SameItems]
  | x :: xs => by simp [SameItems, sameApart_refl x, sameItems_refl xs]

theorem sameEntries_refl : ∀ entries : LogMapping α, SameEntries lower redactContent entries entries
  | [] => by simp [SameEntries]
  | (k, x) :: xs => by simp [SameEntries, sameApart_refl x, sameEntries_refl xs]

end

mutual

/-- Without a sensitive key there is nothing to differ in. -/
theorem eq_of_sameApart : ∀ v w : LogValue α, ¬ HoldsSecret lower redactContent v → SameApart lower redactContent v w → v = w
  | .str s, .str t, _, h => by simpa [SameApart] using h
  | .object a, .object b, _, h => by simpa [SameApart] using h
  | .sequence k xs, .sequence l ys, hno, h => by
    obtain ⟨rfl, hitems⟩ : k = l ∧ SameItems lower redactContent xs ys := by simpa [SameApart] using h
    rw [eq_of_sameItems xs ys (by simpa [HoldsSecret] using hno) hitems]
  | .dict xs, .dict ys, hno, h => by
    rw [eq_of_sameEntries xs ys (by simpa [HoldsSecret] using hno) (by simpa [SameApart] using h)]
  | .str _, .object _, _, h | .str _, .sequence _ _, _, h | .str _, .dict _, _, h
  | .object _, .str _, _, h | .object _, .sequence _ _, _, h | .object _, .dict _, _, h
  | .sequence _ _, .str _, _, h | .sequence _ _, .object _, _, h | .sequence _ _, .dict _, _, h
  | .dict _, .str _, _, h | .dict _, .object _, _, h | .dict _, .sequence _ _, _, h => by simp [SameApart] at h

theorem eq_of_sameItems : ∀ xs ys : List (LogValue α), ¬ SecretInItems lower redactContent xs →
    SameItems lower redactContent xs ys → xs = ys
  | [], [], _, _ => rfl
  | [], _ :: _, _, h | _ :: _, [], _, h => by simp [SameItems] at h
  | x :: xs, y :: ys, hno, h => by
    obtain ⟨hx, hxs⟩ : ¬ HoldsSecret lower redactContent x ∧ ¬ SecretInItems lower redactContent xs := by
      simpa [SecretInItems] using hno
    obtain ⟨hxy, hrest⟩ : SameApart lower redactContent x y ∧ SameItems lower redactContent xs ys := by
      simpa [SameItems] using h
    rw [eq_of_sameApart x y hx hxy, eq_of_sameItems xs ys hxs hrest]

theorem eq_of_sameEntries : ∀ xs ys : LogMapping α, ¬ SecretInEntries lower redactContent xs →
    SameEntries lower redactContent xs ys → xs = ys
  | [], [], _, _ => rfl
  | [], _ :: _, _, h | _ :: _, [], _, h => by simp [SameEntries] at h
  | (k, x) :: xs, (l, y) :: ys, hno, h => by
    obtain ⟨hk, hx, hxs⟩ : ¬ Sensitive lower redactContent k ∧ ¬ HoldsSecret lower redactContent x ∧
        ¬ SecretInEntries lower redactContent xs := by simpa [SecretInEntries] using hno
    obtain ⟨rfl, hxy, hrest⟩ : k = l ∧ (Sensitive lower redactContent k ∨ SameApart lower redactContent x y) ∧
        SameEntries lower redactContent xs ys := by simpa [SameEntries] using h
    rw [eq_of_sameApart x y hx (hxy.resolve_left hk), eq_of_sameEntries xs ys hxs hrest]

end

/-- No value is the only one. -/
theorem exists_other (v : LogValue α) : ∃ w : LogValue α, w ≠ v := by
  cases v with
  | str s => exact ⟨.dict [], by simp⟩
  | object a => exact ⟨.str "", by simp⟩
  | sequence k items => exact ⟨.str "", by simp⟩
  | dict entries => exact ⟨.str "", by simp⟩

mutual

/-- With a sensitive key there is something to differ in. -/
theorem exists_sameApart : ∀ v : LogValue α, HoldsSecret lower redactContent v →
    ∃ w, SameApart lower redactContent v w ∧ w ≠ v
  | .str _, h | .object _, h => by simp [HoldsSecret] at h
  | .sequence k xs, h => by
    obtain ⟨ys, hsame, hne⟩ := exists_sameItems xs (by simpa [HoldsSecret] using h)
    exact ⟨.sequence k ys, by simp [SameApart, hsame], by simpa using hne⟩
  | .dict xs, h => by
    obtain ⟨ys, hsame, hne⟩ := exists_sameEntries xs (by simpa [HoldsSecret] using h)
    exact ⟨.dict ys, by simp [SameApart, hsame], by simpa using hne⟩

theorem exists_sameItems : ∀ xs : List (LogValue α), SecretInItems lower redactContent xs →
    ∃ ys, SameItems lower redactContent xs ys ∧ ys ≠ xs
  | [], h => by simp [SecretInItems] at h
  | x :: xs, h => by
    rcases (show HoldsSecret lower redactContent x ∨ SecretInItems lower redactContent xs by
      simpa [SecretInItems] using h) with h | h
    · obtain ⟨y, hsame, hne⟩ := exists_sameApart x h
      exact ⟨y :: xs, by simp [SameItems, hsame, sameItems_refl xs], by simp [hne]⟩
    · obtain ⟨ys, hsame, hne⟩ := exists_sameItems xs h
      exact ⟨x :: ys, by simp [SameItems, hsame, sameApart_refl x], by simp [hne]⟩

theorem exists_sameEntries : ∀ xs : LogMapping α, SecretInEntries lower redactContent xs →
    ∃ ys, SameEntries lower redactContent xs ys ∧ ys ≠ xs
  | [], h => by simp [SecretInEntries] at h
  | (k, x) :: xs, h => by
    rcases (show Sensitive lower redactContent k ∨ HoldsSecret lower redactContent x ∨
      SecretInEntries lower redactContent xs by simpa [SecretInEntries] using h) with h | h | h
    · obtain ⟨y, hne⟩ := exists_other x
      exact ⟨(k, y) :: xs, by simp [SameEntries, h, sameEntries_refl xs], by simp [hne]⟩
    · obtain ⟨y, hsame, hne⟩ := exists_sameApart x h
      exact ⟨(k, y) :: xs, by simp [SameEntries, hsame, sameEntries_refl xs], by simp [hne]⟩
    · obtain ⟨ys, hsame, hne⟩ := exists_sameEntries xs h
      exact ⟨(k, x) :: ys, by simp [SameEntries, hsame, sameApart_refl x], by simp [hne]⟩

end

/-! ## Two runs -/

mutual

/-- Without a leak, events that differ in secrets alone are logged alike. -/
theorem redactMapping_same : ∀ d d' : LogMapping α, ¬ Leaks lower redactContent d →
    SameEntries lower redactContent d d' → redactMapping lower redactContent d = redactMapping lower redactContent d'
  | [], [], _, _ => rfl
  | [], _ :: _, _, h | _ :: _, [], _, h => by simp [SameEntries] at h
  | (k, x) :: xs, (l, y) :: ys, hno, h => by
    obtain ⟨hx, hxs⟩ : (¬ Sensitive lower redactContent k → ¬ LeaksValue lower redactContent x) ∧
        ¬ Leaks lower redactContent xs := by simpa [Leaks] using hno
    obtain ⟨rfl, hxy, hrest⟩ : k = l ∧ (Sensitive lower redactContent k ∨ SameApart lower redactContent x y) ∧
        SameEntries lower redactContent xs ys := by simpa [SameEntries] using h
    rw [redactMapping, redactMapping, redactMapping_same xs ys hxs hrest]
    by_cases hk : Sensitive lower redactContent k
    · rw [if_pos hk, if_pos hk]
    · rw [if_neg hk, if_neg hk, redactValue_same x y (hx hk) (hxy.resolve_left hk)]

theorem redactValue_same : ∀ v w : LogValue α, ¬ LeaksValue lower redactContent v → SameApart lower redactContent v w →
    redactValue lower redactContent v = redactValue lower redactContent w
  | .dict d, .dict d', hno, h => by
    rw [redactValue, redactValue, redactMapping_same d d' (by simpa [LeaksValue] using hno) (by simpa [SameApart] using h)]
  | .str s, w, _, h | .object a, w, _, h => by
    rw [eq_of_sameApart _ w (by simp [HoldsSecret]) h]
  | .sequence k items, w, hno, h => by
    rw [eq_of_sameApart _ w (by simpa [HoldsSecret, LeaksValue] using hno) h]
  | .dict _, .str _, _, h | .dict _, .object _, _, h | .dict _, .sequence _ _, _, h => by simp [SameApart] at h

end

mutual

/-- A leak shows: some event that differs in secrets alone is logged differently. -/
theorem exists_told_apart : ∀ d : LogMapping α, Leaks lower redactContent d →
    ∃ d', SameEntries lower redactContent d d' ∧ redactMapping lower redactContent d' ≠ redactMapping lower redactContent d
  | [], h => by simp [Leaks] at h
  | (k, x) :: xs, h => by
    rcases (show (¬ Sensitive lower redactContent k ∧ LeaksValue lower redactContent x) ∨ Leaks lower redactContent xs by
      simpa [Leaks] using h) with ⟨hk, h⟩ | h
    · obtain ⟨y, hsame, hne⟩ := exists_value_told_apart x h
      exact ⟨(k, y) :: xs, by simp [SameEntries, hsame, sameEntries_refl xs], by simp [redactMapping, hk, hne]⟩
    · obtain ⟨ys, hsame, hne⟩ := exists_told_apart xs h
      exact ⟨(k, x) :: ys, by simp [SameEntries, hsame, sameApart_refl x], by simp [redactMapping, hne]⟩

theorem exists_value_told_apart : ∀ v : LogValue α, LeaksValue lower redactContent v →
    ∃ w, SameApart lower redactContent v w ∧ redactValue lower redactContent w ≠ redactValue lower redactContent v
  | .str _, h | .object _, h => by simp [LeaksValue] at h
  | .sequence k items, h => by
    obtain ⟨items', hsame, hne⟩ := exists_sameItems items (by simpa [LeaksValue] using h)
    exact ⟨.sequence k items', by simp [SameApart, hsame], by simpa [redactValue] using hne⟩
  | .dict d, h => by
    obtain ⟨d', hsame, hne⟩ := exists_told_apart d (by simpa [LeaksValue] using h)
    exact ⟨.dict d', by simp [SameApart, hsame], by simpa [redactValue] using hne⟩

end

/-! ## What is kept -/

mutual

theorem redactMapping_plain : ∀ d : LogMapping α, ¬ SecretInEntries lower redactContent d →
    redactMapping lower redactContent d = d
  | [], _ => rfl
  | (k, x) :: xs, hno => by
    obtain ⟨hk, hx, hxs⟩ : ¬ Sensitive lower redactContent k ∧ ¬ HoldsSecret lower redactContent x ∧
        ¬ SecretInEntries lower redactContent xs := by simpa [SecretInEntries] using hno
    rw [redactMapping, if_neg hk, redactValue_plain x hx, redactMapping_plain xs hxs]

/-- A value that holds no sensitive key is logged unchanged. -/
theorem redactValue_plain : ∀ v : LogValue α, ¬ HoldsSecret lower redactContent v → redactValue lower redactContent v = v
  | .str _, _ | .object _, _ | .sequence _ _, _ => rfl
  | .dict d, hno => by rw [redactValue, redactMapping_plain d (by simpa [HoldsSecret] using hno)]

end

theorem keys_redactMapping (d : LogMapping α) : (redactMapping lower redactContent d).map Prod.fst = d.map Prod.fst := by
  induction d with
  | nil => rfl
  | cons e d ih => rw [redactMapping, List.map_cons, List.map_cons, ih]

theorem getElem_redactMapping (d : LogMapping α) (i : Nat) : (redactMapping lower redactContent d)[i]? =
    d[i]?.map fun e => (e.1, if Sensitive lower redactContent e.1 then .str mask else redactValue lower redactContent e.2) := by
  induction d generalizing i with
  | nil => rfl
  | cons e d ih => cases i <;> simp [redactMapping, ih]

end Secrets

/-! ## The promise -/

section Promise
variable {α : Type} (lower : String → String) (redactContent : Bool)

/-- A mapping of the event that is logged, itself redacted: the event, or one nested in such a one. -/
inductive Logged (d : LogMapping α) : LogMapping α → Prop where
  | event : Logged d d
  | nested {e : LogMapping α} {key : String} {inner : LogMapping α} :
      Logged d e → (key, .dict inner) ∈ e → ¬ Sensitive lower redactContent key → Logged d inner

/-- Redaction tells nothing of the values under sensitive keys and keeps the rest. -/
structure Redacts (d : LogMapping α) : Prop where
  /-- (1) events that differ in such values alone are logged alike -/
  noninterfering : ∀ d', SameEntries lower redactContent d d' →
    redactMapping lower redactContent d = redactMapping lower redactContent d'
  /-- (2) at any depth, keys keep their positions -/
  positions : ∀ e, Logged lower redactContent d e → (redactMapping lower redactContent e).map Prod.fst = e.map Prod.fst
  /-- (3) and values that hold no sensitive key are kept, under keys that are not sensitive -/
  kept : ∀ e, Logged lower redactContent d e → ∀ (i : Nat) key value, e[i]? = some (key, value) →
    ¬ Sensitive lower redactContent key → ¬ HoldsSecret lower redactContent value →
      (redactMapping lower redactContent e)[i]? = some (key, value)
  /-- a nested mapping is logged at the position it has, redacted -/
  within : ∀ e, Logged lower redactContent d e → ∀ (i : Nat) key inner, e[i]? = some (key, .dict inner) →
    ¬ Sensitive lower redactContent key →
      (redactMapping lower redactContent e)[i]? = some (key, .dict (redactMapping lower redactContent inner))

/-- Redaction keeps its promise exactly on events without a sensitive key in a list or a tuple. -/
theorem redacts_iff (d : LogMapping α) : Redacts lower redactContent d ↔ ¬ Leaks lower redactContent d := by
  constructor
  · intro h hleaks
    obtain ⟨d', hsame, hne⟩ := exists_told_apart d hleaks
    exact hne (h.noninterfering d' hsame).symm
  · intro hno
    exact {
      noninterfering := fun d' hsame => redactMapping_same d d' hno hsame
      positions := fun e _ => keys_redactMapping e
      kept := fun e _ i key value hi hkey hvalue => by
        rw [getElem_redactMapping, hi, Option.map_some, if_neg hkey, redactValue_plain value hvalue]
      within := fun e _ i key inner hi hkey => by
        rw [getElem_redactMapping, hi, Option.map_some, if_neg hkey, redactValue] }

end Promise

/-! ## Login attempts -/

/-- An event that lists the attempts to log in. -/
def loginAttempts (password : String) : LogMapping Unit :=
  [("job_id", .str "j-1"), ("attempts", .sequence .list [.dict [("password", .str password)]])]

/-- The passwords are under sensitive keys, and logged. -/
theorem loginAttempts_disclosed :
    SameEntries String.toLower true (loginAttempts "hunter2") (loginAttempts "letmein") ∧
      redactMapping String.toLower true (loginAttempts "hunter2") = loginAttempts "hunter2" ∧
      redactMapping String.toLower true (loginAttempts "letmein") = loginAttempts "letmein" ∧
      ¬ Redacts String.toLower true (loginAttempts "hunter2") := by
  have hplain : ∀ key ∈ ["job_id", "attempts"], ¬ Sensitive String.toLower true key := by decide +kernel
  have hsecret : Sensitive String.toLower true "password" := by decide +kernel
  have hlogged : ∀ password, redactMapping String.toLower true (loginAttempts password) = loginAttempts password := by
    intro password
    simp [loginAttempts, redactMapping, redactValue, hplain]
  have hsame : SameEntries String.toLower true (loginAttempts "hunter2") (loginAttempts "letmein") := by
    simp [loginAttempts, SameEntries, SameApart, SameItems, hsecret]
  refine ⟨hsame, hlogged _, hlogged _, fun h => ?_⟩
  have := h.noninterfering _ hsame
  rw [hlogged, hlogged] at this
  simp [loginAttempts] at this

end Reconciliation.Infrastructure

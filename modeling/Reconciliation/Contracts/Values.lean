/-
  Reconciliation.Contracts.Values — the property values of canonical nodes, and the three
  things Python does with them: compare, print, collapse white space.

  Comparison is Python's: numbers compare by magnitude across `bool`, `int` and `float`,
  and a container compares its elements by identity first, so that a not-a-number equals
  itself inside a list or a dict and nowhere else (`pyEq`, `pyIs`). Every value is the
  same as itself in that sense (`pySame_refl`).

  What the interpreter alone decides (which characters above ASCII print, how a float
  prints) is the class `PyRuntime`. Its limits (recursion depth, memory, digits of a
  printed int) are not modelled.
-/
import Reconciliation.Base.Dict

namespace Reconciliation.Contracts

open Reconciliation.Base

/-! ## Floats -/

/-- A float: a finite one by its exact value, and the four kinds that have none. A
    not-a-number carries the object it is. -/
inductive PyFloat where
  | finite (q : ℚ)
  | negZero
  | inf (negative : Bool)
  | nan (object : Nat)
  deriving DecidableEq

class PyRuntime where
  printable : Char → Bool
  floatRepr : PyFloat → String

/-- What a number compares by. -/
inductive Magnitude where
  | real (q : ℚ)
  | inf (negative : Bool)
  deriving DecidableEq

def PyFloat.magnitude : PyFloat → Option Magnitude
  | .finite q => some (.real q)
  | .negZero => some (.real 0)
  | .inf negative => some (.inf negative)
  | .nan _ => none

/-! ## Printing strings -/

def hexDigits (width n : Nat) : String :=
  let digits := Nat.toDigits 16 n
  String.ofList (List.replicate (width - digits.length) '0' ++ digits)

/-- One character of a string's `repr`, inside the given quote. -/
def pyReprChar [PyRuntime] (quote c : Char) : String :=
  if c = quote ∨ c = '\\' then String.ofList ['\\', c]
  else if c = '\t' then "\\t"
  else if c = '\n' then "\\n"
  else if c = '\r' then "\\r"
  else if 32 ≤ c.toNat ∧ c.toNat < 127 then String.ofList [c]
  else if 127 < c.toNat ∧ PyRuntime.printable c then String.ofList [c]
  else if c.toNat < 256 then "\\x" ++ hexDigits 2 c.toNat
  else if c.toNat < 65536 then "\\u" ++ hexDigits 4 c.toNat
  else "\\U" ++ hexDigits 8 c.toNat

/-- Double quotes only around a string that has single quotes and no double ones. -/
def pyReprStr [PyRuntime] (s : String) : String :=
  let cs := s.toList
  let quote := if '\'' ∈ cs ∧ '"' ∉ cs then '"' else '\''
  String.ofList [quote] ++ String.join (cs.map (pyReprChar quote)) ++ String.ofList [quote]

/-! ## Canonical values -/

/-- `str | int | float | bool | list | dict | None`, to any depth. -/
inductive CanonicalValue where
  | none
  | bool (b : Bool)
  | int (z : Int)
  | float (f : PyFloat)
  | str (s : String)
  | list (items : List CanonicalValue)
  | dict (entries : List (String × CanonicalValue))

namespace CanonicalValue

def magnitude : CanonicalValue → Option Magnitude
  | .bool b => some (.real (if b then 1 else 0))
  | .int z => some (.real z)
  | .float f => f.magnitude
  | _ => Option.none

/-- `a is b`, as far as it shows: only for a not-a-number does it say more than `==`. -/
def pyIs : CanonicalValue → CanonicalValue → Bool
  | .float (.nan a), .float (.nan b) => a = b
  | _, _ => false

mutual

/-- `a == b`. -/
def pyEq : CanonicalValue → CanonicalValue → Bool
  | .none, .none => true
  | .str s, .str t => s = t
  | .list xs, .list ys => pyEqList xs ys
  | .dict xs, .dict ys => decide (xs.length = ys.length) && pyEqEntries xs ys
  | a, b =>
    match a.magnitude, b.magnitude with
    | some x, some y => x = y
    | _, _ => false

/-- Element by element, each by identity or by `==`. -/
def pyEqList : List CanonicalValue → List CanonicalValue → Bool
  | [], [] => true
  | x :: xs, y :: ys => (pyIs x y || pyEq x y) && pyEqList xs ys
  | _, _ => false

/-- Every key of the first is in the second, with the same value. -/
def pyEqEntries : List (String × CanonicalValue) → List (String × CanonicalValue) → Bool
  | [], _ => true
  | (k, x) :: xs, ys => (ys.any fun e => decide (e.1 = k) && (pyIs x e.2 || pyEq x e.2)) && pyEqEntries xs ys

end

/-- The comparison a container makes between two elements. -/
def pySame (a b : CanonicalValue) : Bool := pyIs a b || pyEq a b

mutual

theorem pySame_refl : ∀ a : CanonicalValue, pySame a a = true
  | .none => by simp [pySame, pyEq]
  | .bool b => by simp [pySame, pyEq, magnitude]
  | .int z => by simp [pySame, pyEq, magnitude]
  | .float f => by cases f <;> simp [pySame, pyIs, pyEq, magnitude, PyFloat.magnitude]
  | .str s => by simp [pySame, pyEq]
  | .list xs => by simp [pySame, pyEq, pyEqList_refl xs]
  | .dict xs => by simp [pySame, pyEq, pyEqEntries_refl xs xs fun e he => he]

theorem pyEqList_refl : ∀ xs : List CanonicalValue, pyEqList xs xs = true
  | [] => rfl
  | x :: xs => by
    have hx := pySame_refl x
    rw [pySame] at hx
    simp [pyEqList, hx, pyEqList_refl xs]

/-- A dict's entries are found again among themselves. -/
theorem pyEqEntries_refl : ∀ xs ys : List (String × CanonicalValue), (∀ e ∈ xs, e ∈ ys) → pyEqEntries xs ys = true
  | [], _, _ => rfl
  | (k, x) :: xs, ys, h => by
    have hx := pySame_refl x
    rw [pySame] at hx
    have hany : (ys.any fun e => decide (e.1 = k) && (pyIs x e.2 || pyEq x e.2)) = true :=
      List.any_eq_true.mpr ⟨(k, x), h _ (by simp), by simp [hx]⟩
    rw [pyEqEntries, hany, pyEqEntries_refl xs ys fun e he => h e (by simp [he])]
    rfl

end

/-! ## Printing values -/

mutual

/-- `f"{value!r}"`. -/
def repr [PyRuntime] : CanonicalValue → String
  | .none => "None"
  | .bool true => "True"
  | .bool false => "False"
  | .int z => toString z
  | .float f => PyRuntime.floatRepr f
  | .str s => pyReprStr s
  | .list items => "[" ++ String.intercalate ", " (reprItems items) ++ "]"
  | .dict entries => "\x7b" ++ String.intercalate ", " (reprEntries entries) ++ "\x7d"

def reprItems [PyRuntime] : List CanonicalValue → List String
  | [] => []
  | x :: xs => repr x :: reprItems xs

def reprEntries [PyRuntime] : List (String × CanonicalValue) → List String
  | [] => []
  | (k, x) :: xs => (pyReprStr k ++ ": " ++ repr x) :: reprEntries xs

end

/-- `str(value)`. -/
def pyStr [PyRuntime] : CanonicalValue → String
  | .str s => s
  | value => value.repr

/-- `bool(value)`. -/
def truthy : CanonicalValue → Bool
  | .none => false
  | .bool b => b
  | .int z => z ≠ 0
  | .float (.finite q) => q ≠ 0
  | .float .negZero => false
  | .float _ => true
  | .str s => s ≠ ""
  | .list items => !items.isEmpty
  | .dict entries => !entries.isEmpty

end CanonicalValue

/-! ## Property maps -/

abbrev Properties := Dict String CanonicalValue

/-- `a == b` on two property maps. -/
def Properties.pyEq (a b : Properties) : Bool :=
  decide (a.size = b.size) &&
    a.entries.all fun e =>
      match b.get? e.1 with
      | some v => e.2.pySame v
      | none => false

theorem Properties.pyEq_refl (a : Properties) : a.pyEq a = true := by
  rw [pyEq, Bool.and_eq_true, List.all_eq_true]
  refine ⟨by simp, fun e he => ?_⟩
  rw [a.get?_eq_some.mpr he]
  exact e.2.pySame_refl

/-! ## White space -/

/-- `str.isspace` on one character, which is also `\s`. -/
def isSpace (c : Char) : Bool :=
  let n := c.toNat
  (9 ≤ n && n ≤ 13) || (28 ≤ n && n ≤ 32) || n = 133 || n = 160 || n = 5760 || (8192 ≤ n && n ≤ 8202) || n = 8232 ||
    n = 8233 || n = 8239 || n = 8287 || n = 12288

/-- Every run of white space becomes one blank. -/
def collapseRuns : Bool → List Char → List Char
  | _, [] => []
  | inRun, c :: cs =>
    if isSpace c then (if inRun then collapseRuns true cs else ' ' :: collapseRuns true cs)
    else c :: collapseRuns false cs

def strip (cs : List Char) : List Char := (cs.dropWhile isSpace).reverse.dropWhile isSpace |>.reverse

def collapseWhitespace (s : String) : String := String.ofList (strip (collapseRuns false s.toList))

end Reconciliation.Contracts

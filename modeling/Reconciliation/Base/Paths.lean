/-
  Reconciliation.Base.Paths — paths of a POSIX file system, as text and as components.

  A path has a root and components; parsing drops empty components and single dots.
  A printed path parses back to itself (`parse_print`). Appending a text that names one
  component leads one level down (`join_name`), so it stays below the path it was appended
  to unless it names the directory above.
-/
import Mathlib

namespace Reconciliation.Base.Paths

/-- What stands before the first component: nothing, one slash, or exactly two. -/
inductive Root where
  | relative
  | slash
  | doubleSlash
  deriving DecidableEq

def Root.print : Root → List Char
  | .relative => []
  | .slash => ['/']
  | .doubleSlash => ['/', '/']

def splitRoot : List Char → Root × List Char
  | '/' :: '/' :: '/' :: cs => (.slash, '/' :: '/' :: cs)
  | '/' :: '/' :: cs => (.doubleSlash, cs)
  | '/' :: cs => (.slash, cs)
  | cs => (.relative, cs)

/-- A component that parsing keeps. -/
def Component (c : List Char) : Prop := c ≠ [] ∧ c ≠ ['.'] ∧ '/' ∉ c

instance (c : List Char) : Decidable (Component c) := inferInstanceAs (Decidable (_ ∧ _))

structure PosixPath where
  root : Root
  parts : List (List Char)
  components : ∀ c ∈ parts, Component c
  deriving DecidableEq

namespace PosixPath

def parse (s : String) : PosixPath where
  root := (splitRoot s.toList).1
  parts := ((splitRoot s.toList).2.splitOn '/').filter Component
  components := fun _ hc => of_decide_eq_true (List.mem_filter.mp hc).2

/-- `str(path)`. -/
def print (p : PosixPath) : String :=
  if p.root = .relative ∧ p.parts = [] then "." else String.ofList (p.root.print ++ ['/'].intercalate p.parts)

/-- `p / q`: an absolute path replaces the one it is appended to. -/
def join (p q : PosixPath) : PosixPath :=
  if q.root = .relative then
    ⟨p.root, p.parts ++ q.parts, fun c hc => (List.mem_append.mp hc).elim (p.components c) (q.components c)⟩
  else q

/-- The path leads somewhere below another, and nowhere above it on the way. -/
def Below (base p : PosixPath) : Prop :=
  p.root = base.root ∧ ∃ rest, p.parts = base.parts ++ rest ∧ rest ≠ [] ∧ ['.', '.'] ∉ rest

variable {p q : PosixPath}

theorem ext (hroot : p.root = q.root) (hparts : p.parts = q.parts) : p = q := by
  cases p
  cases q
  simp_all

/-! ## Printed paths -/

/-- What follows the root does not begin with a slash. -/
theorem splitRoot_print (root : Root) {cs : List Char} (h : cs.head? ≠ some '/') :
    splitRoot (root.print ++ cs) = (root, cs) := by
  cases cs with
  | nil => cases root <;> rfl
  | cons c cs =>
    have hc : c ≠ '/' := fun hc => h (by simp [hc])
    cases root <;> simp [Root.print, splitRoot, hc]

theorem head_intercalate {parts : List (List Char)} (h : ∀ c ∈ parts, Component c) :
    (['/'].intercalate parts).head? ≠ some '/' := by
  cases parts with
  | nil => simp [List.intercalate]
  | cons c rest =>
    obtain ⟨hne, -, hslash⟩ := h c (by simp)
    cases c with
    | nil => exact absurd rfl hne
    | cons a c =>
      have ha : a ≠ '/' := fun ha => hslash (by simp [ha])
      cases rest <;> simpa [List.intercalate] using ha

theorem filter_split {parts : List (List Char)} (h : ∀ c ∈ parts, Component c) :
    ((['/'].intercalate parts).splitOn '/').filter Component = parts := by
  cases parts with
  | nil => rfl
  | cons c rest =>
    rw [List.splitOn_intercalate _ (fun l hl => (h l hl).2.2) (by simp), List.filter_eq_self]
    exact fun l hl => decide_eq_true (h l hl)

/-- A printed path parses back to itself. -/
theorem parse_print (p : PosixPath) : parse p.print = p := by
  unfold print
  by_cases hempty : p.root = .relative ∧ p.parts = []
  · rw [if_pos hempty]
    exact ext hempty.1.symm hempty.2.symm
  · rw [if_neg hempty]
    have hsplit := splitRoot_print p.root (head_intercalate p.components)
    apply ext
    · show (splitRoot (String.ofList _).toList).1 = p.root
      rw [String.toList_ofList, hsplit]
    · show ((splitRoot (String.ofList _).toList).2.splitOn '/').filter Component = p.parts
      rw [String.toList_ofList, hsplit]
      exact filter_split p.components

/-! ## One level down -/

/-- Appending the name of a component leads one level down. -/
theorem join_name (p : PosixPath) {name : String} (h : Component name.toList) :
    (p.join (parse name)).root = p.root ∧ (p.join (parse name)).parts = p.parts ++ [name.toList] := by
  have hhead : name.toList.head? ≠ some '/' := fun hhead => h.2.2 (List.mem_of_mem_head? (by simp [hhead]))
  have hsplit : splitRoot name.toList = (.relative, name.toList) := splitRoot_print .relative hhead
  have hroot : (parse name).root = .relative := by
    show (splitRoot name.toList).1 = _
    rw [hsplit]
  have hparts : (parse name).parts = [name.toList] := by
    show ((splitRoot name.toList).2.splitOn '/').filter Component = _
    rw [hsplit]
    have hone : ∀ c ∈ [name.toList], Component c := by simpa using h
    simpa [List.intercalate] using filter_split hone
  unfold join
  rw [if_pos hroot]
  exact ⟨rfl, congrArg (p.parts ++ ·) hparts⟩

end PosixPath

end Reconciliation.Base.Paths

/-
  Reconciliation.Alignment.Lcs — sequences aligned by a longest common subsequence.

  A table is filled from the last row and column to the first with the length of a longest
  common subsequence of what remains of both sides (`cell_lcsTable`), and the script is read
  off it from the front. Every equal pair of heads is taken, and an equal choice drops from
  the left. The script accounts for both sides, and no script aligns more
  (`alignSequences_optimal`).
-/
import Reconciliation.Base.Subsequences

namespace Reconciliation.Alignment

open Reconciliation.Base

/-- Alignment operation for one position. -/
inductive Op where
  | align
  | leftOnly
  | rightOnly
  deriving DecidableEq

/-- `(op, left_item, right_item)`. -/
abbrev ScriptEntry (α : Type) := Op × Option α × Option α

/-! ## The table -/

/-- `dp`, row by row. -/
abbrev Table := List (List Nat)

/-- `dp[i][j]`. -/
def Table.cell (dp : Table) (i j : Nat) : Nat := (dp.getD i []).getD j 0

/-- `dp[i][j] = v`. -/
def Table.setCell (dp : Table) (i j v : Nat) : Table := dp.modify i fun row => row.set j v

section Model
variable {α : Type} [DecidableEq α]

def fillCell (left right : List α) (i : Fin left.length) (dp : Table) (j : Fin right.length) : Table :=
  if left[i] = right[j] then dp.setCell i j (dp.cell (i + 1) (j + 1) + 1)
  else dp.setCell i j (max (dp.cell (i + 1) j) (dp.cell i (j + 1)))

def fillRow (left right : List α) (dp : Table) (i : Fin left.length) : Table :=
  (List.finRange right.length).reverse.foldl (fillCell left right i) dp

def lcsTable (left right : List α) : Table :=
  (List.finRange left.length).reverse.foldl (fillRow left right)
    (List.replicate (left.length + 1) (List.replicate (right.length + 1) 0))

/-! ## The script -/

/-- The entries from the positions `i` and `j` on. -/
def walk (left right : List α) (dp : Table) (i j : Nat) : List (ScriptEntry α) :=
  if h : i < left.length ∧ j < right.length then
    if left[i] = right[j] then (.align, some left[i], some right[j]) :: walk left right dp (i + 1) (j + 1)
    else if dp.cell i (j + 1) ≤ dp.cell (i + 1) j then (.leftOnly, some left[i], none) :: walk left right dp (i + 1) j
    else (.rightOnly, none, some right[j]) :: walk left right dp i (j + 1)
  else
    ((left.drop i).map fun a => (.leftOnly, some a, none)) ++ (right.drop j).map fun b => (.rightOnly, none, some b)
  termination_by (left.length - i) + (right.length - j)

def alignSequences (left right : List α) : List (ScriptEntry α) := walk left right (lcsTable left right) 0 0

example : alignSequences ['a', 'b', 'c'] ['a', 'x', 'c'] =
    [(.align, some 'a', some 'a'), (.leftOnly, some 'b', none), (.rightOnly, none, some 'x'),
      (.align, some 'c', some 'c')] := by decide +kernel

end Model

/-! ## The filled table -/

/-- `n + 1` rows of `m + 1` cells. -/
structure Shaped (dp : Table) (n m : Nat) : Prop where
  rows : dp.length = n + 1
  columns : ∀ i (hi : i < dp.length), dp[i].length = m + 1

theorem shaped_zeros (n m : Nat) : Shaped (List.replicate (n + 1) (List.replicate (m + 1) 0)) n m where
  rows := by simp
  columns := by simp

theorem Shaped.setCell {dp : Table} {n m : Nat} (h : Shaped dp n m) (i j v : Nat) : Shaped (dp.setCell i j v) n m where
  rows := by simp [Table.setCell, h.rows]
  columns := by
    intro k hk
    have hk' : k < dp.length := by simpa [Table.setCell] using hk
    have := h.columns k hk'
    simp only [Table.setCell, List.getElem_modify]
    split <;> simp [this]

theorem Shaped.cell_setCell {dp : Table} {n m : Nat} (h : Shaped dp n m) {i j : Nat} (hi : i ≤ n) (hj : j ≤ m)
    (v i' j' : Nat) : (dp.setCell i j v).cell i' j' = if i' = i ∧ j' = j then v else dp.cell i' j' := by
  have hrow : i < dp.length := by have := h.rows; omega
  have hcolumn : j < dp[i].length := by have := h.columns i hrow; omega
  simp only [Table.cell, Table.setCell, List.getD_eq_getElem?_getD, List.getElem?_modify]
  by_cases hii : i' = i
  · subst hii
    by_cases hjj : j' = j
    · subst hjj
      simp [hrow, hcolumn]
    · simp [hrow, hjj, Ne.symm hjj]
  · simp [hii, Ne.symm hii]

section Filled
variable {α : Type} [DecidableEq α] {left right : List α} {dp : Table}

/-- The cells that are done hold the length for what remains of both sides. -/
structure Filled (left right : List α) (dp : Table) (done : Nat → Nat → Prop) : Prop where
  shaped : Shaped dp left.length right.length
  cell : ∀ i j, i ≤ left.length → j ≤ right.length → done i j → dp.cell i j = lcsLength (left.drop i) (right.drop j)

theorem Filled.mono {done done' : Nat → Nat → Prop} (h : Filled left right dp done)
    (hdone : ∀ i j, i ≤ left.length → j ≤ right.length → done' i j → done i j) : Filled left right dp done' :=
  ⟨h.shaped, fun i j hi hj hd => h.cell i j hi hj (hdone i j hi hj hd)⟩

theorem filled_zeros (left right : List α) :
    Filled left right (List.replicate (left.length + 1) (List.replicate (right.length + 1) 0))
      fun i j => left.length ≤ i ∨ right.length ≤ j := by
  refine ⟨shaped_zeros _ _, ?_⟩
  intro i j hi hj hdone
  have hzero : lcsLength (left.drop i) (right.drop j) = 0 := by
    rcases hdone with h | h
    · rw [List.drop_eq_nil_of_le h, lcsLength_nil_left]
    · rw [List.drop_eq_nil_of_le h, lcsLength_nil_right]
  rw [hzero]
  simp [Table.cell, List.getD_eq_getElem?_getD, Nat.lt_succ_of_le hi, Nat.lt_succ_of_le hj]

/-- What a cell is filled with is the length, from the three cells after it. -/
theorem lcsLength_drop {i j : Nat} (hi : i < left.length) (hj : j < right.length) :
    lcsLength (left.drop i) (right.drop j) =
      if left[i] = right[j] then lcsLength (left.drop (i + 1)) (right.drop (j + 1)) + 1
      else max (lcsLength (left.drop (i + 1)) (right.drop j)) (lcsLength (left.drop i) (right.drop (j + 1))) := by
  rw [List.drop_eq_getElem_cons hi, List.drop_eq_getElem_cons hj]
  by_cases hsame : left[i] = right[j]
  · rw [if_pos hsame, hsame, lcsLength_same]
  · rw [if_neg hsame, lcsLength_apart hsame]

theorem filled_fillCell {i : Fin left.length} {j : Fin right.length}
    (h : Filled left right dp fun i' j' => i + 1 ≤ i' ∨ (i' = i ∧ j + 1 ≤ j') ∨ right.length ≤ j') :
    Filled left right (fillCell left right i dp j) fun i' j' => i + 1 ≤ i' ∨ (i' = i ∧ j ≤ j') ∨ right.length ≤ j' := by
  have hi : (i : Nat) < left.length := i.isLt
  have hj : (j : Nat) < right.length := j.isLt
  have hvalue : fillCell left right i dp j = dp.setCell i j (lcsLength (left.drop i) (right.drop j)) := by
    unfold fillCell
    rw [lcsLength_drop hi hj]
    simp only [Fin.getElem_fin]
    by_cases hsame : left[(i : Nat)] = right[(j : Nat)]
    · rw [if_pos hsame, if_pos hsame, h.cell _ _ (by omega) (by omega) (by omega)]
    · rw [if_neg hsame, if_neg hsame, h.cell _ _ (by omega) (by omega) (by omega),
        h.cell _ _ (by omega) (by omega) (by omega)]
  rw [hvalue]
  refine ⟨h.shaped.setCell _ _ _, ?_⟩
  intro i' j' hi' hj' hdone
  rw [h.shaped.cell_setCell (by omega) (by omega)]
  by_cases hcell : i' = i ∧ j' = j
  · rw [if_pos hcell, hcell.1, hcell.2]
  · rw [if_neg hcell]
    exact h.cell i' j' hi' hj' (by omega)

theorem filled_fillRow {i : Fin left.length} (h : Filled left right dp fun i' j' => i + 1 ≤ i' ∨ right.length ≤ j') :
    Filled left right (fillRow left right dp i) fun i' j' => i ≤ i' ∨ right.length ≤ j' := by
  have hrow : Filled left right (fillRow left right dp i)
      fun i' j' => i + 1 ≤ i' ∨ (i' = i ∧ 0 ≤ j') ∨ right.length ≤ j' :=
    countdown (P := fun j dp => Filled left right dp fun i' j' => i + 1 ≤ i' ∨ (i' = i ∧ j ≤ j') ∨ right.length ≤ j')
      (fun j dp hdp => filled_fillCell hdp) (h.mono (by omega))
  exact hrow.mono (by omega)

/-- Every cell of the table holds the length for what remains of both sides. -/
theorem cell_lcsTable {i j : Nat} (hi : i ≤ left.length) (hj : j ≤ right.length) :
    (lcsTable left right).cell i j = lcsLength (left.drop i) (right.drop j) := by
  have htable : Filled left right (lcsTable left right) fun i' j' => 0 ≤ i' ∨ right.length ≤ j' :=
    countdown (P := fun i dp => Filled left right dp fun i' j' => i ≤ i' ∨ right.length ≤ j')
      (fun i dp hdp => filled_fillRow hdp) (filled_zeros left right)
  exact htable.cell i j hi hj (by omega)

end Filled

/-! ## The script accounts for both sides -/

/-- The items of one side that the entries with the given operations show. -/
def leftItems {α : Type} (script : List (ScriptEntry α)) : List (Option α) :=
  (script.filter fun e => e.1 = .align ∨ e.1 = .leftOnly).map fun e => e.2.1

def rightItems {α : Type} (script : List (ScriptEntry α)) : List (Option α) :=
  (script.filter fun e => e.1 = .align ∨ e.1 = .rightOnly).map fun e => e.2.2

def alignedCount {α : Type} (script : List (ScriptEntry α)) : Nat := script.countP fun e => e.1 = .align

/-- A script that turns the left side into the right one. -/
structure IsEditScript {α : Type} (left right : List α) (script : List (ScriptEntry α)) : Prop where
  left_items : leftItems script = left.map some
  right_items : rightItems script = right.map some
  equal : ∀ e ∈ script, e.1 = .align → e.2.1 = e.2.2
  /-- the side that is dropped has no item -/
  dropped_right : ∀ e ∈ script, e.1 = .leftOnly → e.2.2 = none
  dropped_left : ∀ e ∈ script, e.1 = .rightOnly → e.2.1 = none

section Script
variable {α : Type} {left right : List α} {script : List (ScriptEntry α)}

theorem IsEditScript.align (h : IsEditScript left right script) (a : α) :
    IsEditScript (a :: left) (a :: right) ((.align, some a, some a) :: script) where
  left_items := by have := h.left_items; simp_all [leftItems]
  right_items := by have := h.right_items; simp_all [rightItems]
  equal := by simpa using h.equal
  dropped_right := by simpa using h.dropped_right
  dropped_left := by simpa using h.dropped_left

theorem IsEditScript.leftOnly (h : IsEditScript left right script) (a : α) :
    IsEditScript (a :: left) right ((.leftOnly, some a, none) :: script) where
  left_items := by have := h.left_items; simp_all [leftItems]
  right_items := by have := h.right_items; simp_all [rightItems]
  equal := by simpa using h.equal
  dropped_right := by simpa using h.dropped_right
  dropped_left := by simpa using h.dropped_left

theorem IsEditScript.rightOnly (h : IsEditScript left right script) (b : α) :
    IsEditScript left (b :: right) ((.rightOnly, none, some b) :: script) where
  left_items := by have := h.left_items; simp_all [leftItems]
  right_items := by have := h.right_items; simp_all [rightItems]
  equal := by simpa using h.equal
  dropped_right := by simpa using h.dropped_right
  dropped_left := by simpa using h.dropped_left

/-- Two sides with nothing in common are listed one after the other. -/
theorem isEditScript_remainders (left right : List α) :
    IsEditScript left right ((left.map fun a => (.leftOnly, some a, none)) ++ right.map fun b => (.rightOnly, none, some b)) := by
  induction left with
  | cons a left ih => exact ih.leftOnly a
  | nil =>
    induction right with
    | nil => exact ⟨rfl, rfl, by simp, by simp, by simp⟩
    | cons b right ih => exact ih.rightOnly b

variable [DecidableEq α]

/-- From any two positions on, the script accounts for what remains and aligns as much as can be. -/
theorem walk_optimal {dp : Table} (i j : Nat) (hi : i ≤ left.length) (hj : j ≤ right.length)
    (hdp : ∀ i j, i ≤ left.length → j ≤ right.length → dp.cell i j = lcsLength (left.drop i) (right.drop j)) :
    IsEditScript (left.drop i) (right.drop j) (walk left right dp i j) ∧
      alignedCount (walk left right dp i j) = lcsLength (left.drop i) (right.drop j) := by
  induction i, j using walk.induct left right dp with
  | case1 i j h hsame ih =>
    -- the heads are equal: some longest common subsequence begins with them
    obtain ⟨hscript, hcount⟩ := ih (by omega) (by omega)
    rw [lcsLength_drop h.1 h.2, if_pos hsame, walk, dif_pos h, if_pos hsame, ← hcount]
    refine ⟨?_, by simp [alignedCount]⟩
    rw [List.drop_eq_getElem_cons h.1, List.drop_eq_getElem_cons h.2, ← hsame]
    exact hscript.align left[i]
  | case2 i j h hsame hle ih =>
    obtain ⟨hscript, hcount⟩ := ih (by omega) (by omega)
    rw [lcsLength_drop h.1 h.2, if_neg hsame, walk, dif_pos h, if_neg hsame, if_pos hle]
    rw [hdp _ _ (by omega) (by omega), hdp _ _ (by omega) (by omega)] at hle
    refine ⟨?_, ?_⟩
    · rw [List.drop_eq_getElem_cons h.1]
      exact hscript.leftOnly left[i]
    · rw [max_eq_left hle, ← hcount]
      simp [alignedCount]
  | case3 i j h hsame hlt ih =>
    obtain ⟨hscript, hcount⟩ := ih (by omega) (by omega)
    rw [lcsLength_drop h.1 h.2, if_neg hsame, walk, dif_pos h, if_neg hsame, if_neg hlt]
    rw [hdp _ _ (by omega) (by omega), hdp _ _ (by omega) (by omega)] at hlt
    refine ⟨?_, ?_⟩
    · rw [List.drop_eq_getElem_cons h.2]
      exact hscript.rightOnly right[j]
    · rw [max_eq_right (by omega), ← hcount]
      simp [alignedCount]
  | case4 i j h =>
    rw [walk, dif_neg h]
    refine ⟨isEditScript_remainders _ _, ?_⟩
    have hnone : lcsLength (left.drop i) (right.drop j) = 0 := by
      by_cases hleft : i < left.length
      · rw [List.drop_eq_nil_of_le (show right.length ≤ j by omega), lcsLength_nil_right]
      · rw [List.drop_eq_nil_of_le (show left.length ≤ i by omega), lcsLength_nil_left]
    rw [hnone]
    simp only [alignedCount, List.countP_append, List.countP_map]
    simp [Function.comp_def]

/-- The script accounts for both sides, and aligns as many items as any common subsequence has. -/
theorem alignSequences_optimal (left right : List α) :
    IsEditScript left right (alignSequences left right) ∧
      IsGreatest {k | ∃ common : List α, common.Sublist left ∧ common.Sublist right ∧ common.length = k}
        (alignedCount (alignSequences left right)) := by
  obtain ⟨hscript, hcount⟩ := walk_optimal 0 0 (Nat.zero_le left.length) (Nat.zero_le right.length)
    fun _ _ hi hj => cell_lcsTable hi hj
  refine ⟨hscript, ?_⟩
  show IsGreatest _ (alignedCount (walk left right (lcsTable left right) 0 0))
  rw [hcount]
  exact isGreatest_lcsLength left right

end Script

end Reconciliation.Alignment

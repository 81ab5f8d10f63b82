/-
  Reconciliation.Base.Subsequences — the length of a longest common subsequence.

  `lcsLength` takes equal heads and otherwise drops one of the two. No common subsequence
  is longer (`length_le_lcsLength`): the first element of one can always be exchanged for a
  common head. One is as long (`exists_common`), so it is the greatest length
  (`isGreatest_lcsLength`). A loop that counts down keeps what each of its steps carries from
  one index to the one before (`countdown`).
-/
import Mathlib

namespace Reconciliation.Base

/-- A loop over the indices below `n`, the last one first. -/
theorem countdown {σ : Type*} {n : Nat} {f : σ → Fin n → σ} {P : Nat → σ → Prop}
    (hstep : ∀ (i : Fin n) (s : σ), P (i + 1) s → P i (f s i)) {s : σ} (hstart : P n s) :
    P 0 ((List.finRange n).reverse.foldl f s) := by
  rw [List.foldl_reverse]
  induction n generalizing P with
  | zero => simpa using hstart
  | succ n ih =>
    rw [List.finRange_succ, List.foldr_cons, List.foldr_map]
    apply hstep 0
    have := ih (f := fun s i => f s i.succ) (P := fun i s => P (i + 1) s) (fun i s hs => hstep i.succ s (by simpa using hs)) hstart
    simpa using this

section Common
variable {α : Type*} [DecidableEq α]

def lcsLength : List α → List α → Nat
  | [], _ => 0
  | _ :: _, [] => 0
  | a :: l, b :: r => if a = b then lcsLength l r + 1 else max (lcsLength l (b :: r)) (lcsLength (a :: l) r)
  termination_by l r => l.length + r.length

@[simp] theorem lcsLength_nil_left (r : List α) : lcsLength [] r = 0 := by simp [lcsLength]

@[simp] theorem lcsLength_nil_right (l : List α) : lcsLength l [] = 0 := by cases l <;> simp [lcsLength]

theorem lcsLength_same (a : α) (l r : List α) : lcsLength (a :: l) (a :: r) = lcsLength l r + 1 := by simp [lcsLength]

theorem lcsLength_apart {a b : α} (hab : a ≠ b) (l r : List α) :
    lcsLength (a :: l) (b :: r) = max (lcsLength l (b :: r)) (lcsLength (a :: l) r) := by
  rw [lcsLength, if_neg hab]

/-- No common subsequence is longer. -/
theorem length_le_lcsLength {l r common : List α} (hl : common.Sublist l) (hr : common.Sublist r) :
    common.length ≤ lcsLength l r := by
  induction l, r using lcsLength.induct generalizing common with
  | case1 r => simp [List.sublist_nil.mp hl]
  | case2 a l => simp [List.sublist_nil.mp hr]
  | case3 l a r ih =>
    -- the common head may take the place of the first element
    have htail := ih hl.tail hr.tail
    rw [lcsLength_same]
    rw [List.length_tail] at htail
    omega
  | case4 a l b r hab ihl ihr =>
    rw [lcsLength_apart hab]
    by_cases hhead : common.Sublist l
    · have := ihl hhead hr
      omega
    · have hright : common.Sublist r := by
        cases hl with
        | cons _ h => exact absurd h hhead
        | cons_cons _ h =>
          cases hr with
          | cons _ h' => exact h'
          | cons_cons _ h' => exact absurd rfl hab
      have := ihr hl hright
      omega

/-- Some common subsequence is as long. -/
theorem exists_common (l r : List α) :
    ∃ common : List α, common.Sublist l ∧ common.Sublist r ∧ common.length = lcsLength l r := by
  induction l, r using lcsLength.induct with
  | case1 r => exact ⟨[], by simp, by simp, by simp⟩
  | case2 a l => exact ⟨[], by simp, by simp, by simp⟩
  | case3 l a r ih =>
    obtain ⟨common, hl, hr, hlen⟩ := ih
    exact ⟨a :: common, hl.cons_cons a, hr.cons_cons a, by rw [lcsLength_same, List.length_cons, hlen]⟩
  | case4 a l b r hab ihl ihr =>
    rw [lcsLength_apart hab]
    by_cases hle : lcsLength l (b :: r) ≤ lcsLength (a :: l) r
    · obtain ⟨common, hl, hr, hlen⟩ := ihr
      exact ⟨common, hl, hr.cons b, by omega⟩
    · obtain ⟨common, hl, hr, hlen⟩ := ihl
      exact ⟨common, hl.cons a, hr, by omega⟩

theorem isGreatest_lcsLength (l r : List α) :
    IsGreatest {k | ∃ common : List α, common.Sublist l ∧ common.Sublist r ∧ common.length = k} (lcsLength l r) := by
  refine ⟨exists_common l r, ?_⟩
  intro k hk
  obtain ⟨common, hl, hr, rfl⟩ := hk
  exact length_le_lcsLength hl hr

end Common

end Reconciliation.Base

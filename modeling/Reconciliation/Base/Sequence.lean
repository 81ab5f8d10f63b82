/-
  Reconciliation.Base.Sequence — the order of the elements of lists without repetition.

  `a` comes before `b` in a list when `[a, b]` is a sublist. A list is the part of another
  that it has elements of, in the same order, exactly when no two elements come in opposite
  orders (`eq_filter_iff`); so the elements of a sublist tell it (`sublist_unique`). Names that
  end in a running number are told apart (`numbered_nodup`), and read one after the other give
  back the list they hold (`mapM_numbered`).
-/
import Mathlib

namespace Reconciliation.Base

variable {α : Type}

/-- Of two elements of a list, one comes before the other. -/
theorem before_or_after {l : List α} {a b : α} (ha : a ∈ l) (hb : b ∈ l) (hne : a ≠ b) :
    [a, b].Sublist l ∨ [b, a].Sublist l := by
  induction l with
  | nil => cases ha
  | cons c l ih =>
    rcases List.mem_cons.mp ha with rfl | ha'
    · rcases List.mem_cons.mp hb with rfl | hb'
      · exact absurd rfl hne
      · exact Or.inl ((List.singleton_sublist.mpr hb').cons_cons a)
    · rcases List.mem_cons.mp hb with rfl | hb'
      · exact Or.inr ((List.singleton_sublist.mpr ha').cons_cons b)
      · exact (ih ha' hb').imp (List.Sublist.cons c) (List.Sublist.cons c)

/-- Without repetition, two elements come in one order only. -/
theorem not_before_and_after {l : List α} (hl : l.Nodup) {a b : α} (hab : [a, b].Sublist l) : ¬ [b, a].Sublist l := by
  induction l with
  | nil => simp at hab
  | cons c l ih =>
    obtain ⟨hc, hl⟩ := List.nodup_cons.mp hl
    intro hba
    have hmem : ∀ {x y : α}, [x, y].Sublist (c :: l) → [x, y].Sublist l ∨ (x = c ∧ y ∈ l) := by
      intro x y h
      rcases List.sublist_cons_iff.mp h with h | ⟨r, hr, h⟩
      · exact Or.inl h
      · cases hr
        exact Or.inr ⟨rfl, List.singleton_sublist.mp h⟩
    rcases hmem hab with h | ⟨rfl, hb⟩
    · rcases hmem hba with h' | ⟨rfl, ha⟩
      · exact ih hl h h'
      · exact hc (h.subset (by simp))
    · rcases hmem hba with h' | ⟨rfl, ha⟩
      · exact hc (h'.subset (by simp))
      · exact hc ha

/-- A list is a filtered list when no two of its elements come in the opposite order there. -/
theorem eq_filter_iff [DecidableEq α] {l m : List α} (hl : l.Nodup) (hm : m.Nodup) (hsub : m ⊆ l) :
    m = l.filter (· ∈ m) ↔ ∀ a b, [a, b].Sublist m → ¬ [b, a].Sublist l := by
  constructor
  · intro h a b hab
    refine not_before_and_after hl ?_
    rw [h] at hab
    exact hab.trans List.filter_sublist
  · intro h
    have hperm : m.Perm (l.filter (· ∈ m)) := by
      refine (List.perm_ext_iff_of_nodup hm (hl.filter _)).mpr fun a => ?_
      rw [List.mem_filter, decide_eq_true_eq]
      exact ⟨fun ha => ⟨hsub ha, ha⟩, fun ha => ha.2⟩
    have hmany : m.Pairwise fun a b => [a, b].Sublist l := by
      refine List.pairwise_iff_forall_sublist.mpr fun {a b} hab => ?_
      have hne : a ≠ b := by
        have := hm.sublist hab
        simpa using this
      rcases before_or_after (hsub (hab.subset (by simp))) (hsub (hab.subset (by simp))) hne with h' | h'
      · exact h'
      · exact absurd h' (h a b hab)
    have hfilter : (l.filter (· ∈ m)).Pairwise fun a b => [a, b].Sublist l :=
      List.pairwise_iff_forall_sublist.mpr fun {a b} hab => hab.trans List.filter_sublist
    refine List.Perm.eq_of_pairwise ?_ hmany hfilter hperm
    intro a b _ _ hab hba
    exact absurd hba (not_before_and_after hl hab)

/-- A sublist is the list filtered by its elements. -/
theorem eq_filter_of_sublist [DecidableEq α] {l m : List α} (hl : l.Nodup) (h : m.Sublist l) : m = l.filter (· ∈ m) :=
  (eq_filter_iff hl (hl.sublist h) h.subset).mpr fun _ _ hab => not_before_and_after hl (hab.trans h)

/-- Two sublists with the same elements are the same. -/
theorem sublist_unique {l m m' : List α} (hl : l.Nodup) (h : m.Sublist l) (h' : m'.Sublist l)
    (hmem : ∀ a, a ∈ m ↔ a ∈ m') : m = m' := by
  classical
  rw [eq_filter_of_sublist hl h, eq_filter_of_sublist hl h']
  simp only [hmem]

/-- Two filters that never both pass make up the filter that either passes. -/
theorem filter_append_perm_of_disjoint {p q : α → Bool} (h : ∀ a, p a = true → q a = false) (l : List α) :
    (l.filter p ++ l.filter q).Perm (l.filter fun a => p a || q a) := by
  have hp : (l.filter fun a => p a || q a).filter p = l.filter p := by
    rw [List.filter_filter]
    exact List.filter_congr fun a _ => by cases p a <;> simp
  have hq : (l.filter fun a => p a || q a).filter (fun a => !p a) = l.filter q := by
    rw [List.filter_filter]
    refine List.filter_congr fun a _ => ?_
    cases hpa : p a with
    | true => simp [h a hpa]
    | false => simp
  have hsplit := List.filter_append_perm p (l.filter fun a => p a || q a)
  rwa [hp, hq] at hsplit

/-! ## Numbered names -/

theorem toString_injective : Function.Injective fun n : Nat => toString n := by
  intro m n h
  have hdigits : Nat.toDigits 10 m = Nat.toDigits 10 n := by
    rw [← Nat.toList_repr, ← Nat.toList_repr]
    exact congrArg String.toList h
  rw [← @Nat.ofDigitChars_ten_toDigits m, hdigits, Nat.ofDigitChars_ten_toDigits]

/-- Names that end in a running number are told apart. -/
theorem numbered_nodup (stem : String) (count : Nat) :
    ((List.range count).map fun i => stem ++ toString (i + 1)).Nodup := by
  refine List.nodup_range.map fun i j h => ?_
  exact Nat.succ_injective (toString_injective ((String.append_right_inj stem).mp h))

/-- Reading numbered places one after the other finds the list whose elements they hold. -/
theorem mapM_numbered {β : Type} {read : β → Option α} {place : Nat → β} {l : List α}
    (h : ∀ i (hi : i < l.length), read (place i) = some l[i]) : ((List.range l.length).map place).mapM read = some l := by
  induction l generalizing place with
  | nil => rfl
  | cons a l ih =>
    have hhead : read (place 0) = some a := h 0 (Nat.zero_lt_succ _)
    have htail := @ih (place ∘ Nat.succ) fun i hi => h (i + 1) (Nat.succ_lt_succ hi)
    rw [List.length_cons, List.range_succ_eq_map, List.map_cons, List.map_map, List.mapM_cons, hhead, htail]
    rfl

end Reconciliation.Base

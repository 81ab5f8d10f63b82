/-
  Reconciliation.Classification.Verdicts — what is to be reported about a comparison of two
  trees: which nodes moved, which are absent on the other side, and where absence is
  withheld because something there is unresolved.

  Proved:
  - unless whole regions are withheld, a node below a root or a matched parent is aligned,
    moved, absent or open (`accounted`);
  - when a matched node is reported absent (`absent_matched_iff`), when only for a move below
    the threshold (`absent_iff_low`), and when one without a match is (`absent_unmatched_iff`);
  - when the absent nodes are those without a match (`absent_iff_unmatched`).
-/
import Reconciliation.Base.Comparison
import Reconciliation.Contracts.Profiles

namespace Reconciliation.Classification

open Reconciliation.Base Reconciliation.Contracts

section Verdicts
variable {α β : Type} (D : Comparison α β) (certainty : α → β → ℚ) (profile : OperationProfile)

/-- A match that crosses, sure enough to be a move. -/
def Moved (a : α) (b : β) : Prop := D.Crosses a b ∧ profile.moveConfidenceThreshold ≤ certainty a b

/-- Whole regions are withheld, and the region of `p` and `q` is unresolved. -/
def RegionWithheld (p : α) (q : β) : Prop :=
  profile.unresolvedPresencePolicy = .suppressUnresolvedRegions ∧ D.Unresolved p q

/-- The absence of `a` below `p` and `q` is not to be reported. -/
def Withheld (p : α) (q : β) (a : α) : Prop :=
  RegionWithheld D profile p q ∨ (profile.unresolvedPresencePolicy ≠ .emitAll ∧ D.Open a)

/-- `a` is alone below `p` and `q`, not withheld there, and did not move. -/
def AbsentIn (p : α) (q : β) (a : α) : Prop :=
  D.Alone p q a ∧ ¬ Withheld D profile p q a ∧ ∀ b, ¬ Moved D certainty profile a b

/-- `a` is alone in some region, not withheld there, and did not move. -/
def Absent (a : α) : Prop :=
  ∃ p q, D.Alone p q a ∧ ¬ Withheld D profile p q a ∧ ∀ b, ¬ Moved D certainty profile a b

/-- In every region not withheld, the match of a child has a parent, which is the region's if the
    two parents are paired. -/
def SingleRegion : Prop :=
  ∀ p q a b, D.Paired p q → ¬ RegionWithheld D profile p q → D.source.parent a = some p → D.Matched a b →
    ∃ q', D.target.parent b = some q' ∧ (D.Paired p q' → q' = q)

/-- `a` is below paired parents whose region is not withheld. -/
def Reportable (a : α) : Prop :=
  ∃ p q, D.source.parent a = some p ∧ D.Paired p q ∧ ¬ RegionWithheld D profile p q

/-- The match of `a` is no child in some reported region of `a`, and is no move: `a` is absent there. -/
def Detached (a : α) (b : β) : Prop :=
  D.Matched a b ∧ ¬ Moved D certainty profile a b ∧ ∃ p q, D.source.parent a = some p ∧ D.Paired p q ∧
    ¬ RegionWithheld D profile p q ∧ D.target.parent b ≠ some q

end Verdicts

section Facts
variable {α β : Type} {D : Comparison α β} {certainty : α → β → ℚ} {profile : OperationProfile}

theorem moved_swap {a : α} {b : β} :
    Moved D.swap (fun b a => certainty a b) profile b a ↔ Moved D certainty profile a b :=
  and_congr_left fun _ => Comparison.crosses_swap

theorem regionWithheld_swap {p : α} {q : β} : RegionWithheld D.swap profile q p ↔ RegionWithheld D profile p q :=
  and_congr_right fun _ => Comparison.unresolved_swap

variable (certainty) in
/-- Below a root or a matched parent, every node is aligned, moved, absent or open. -/
theorem accounted (hpolicy : profile.unresolvedPresencePolicy ≠ .suppressUnresolvedRegions) {a p : α}
    (hp : D.source.parent a = some p) :
    (∃ b, D.Aligned a b) ∨ (∃ b, Moved D certainty profile a b) ∨ Absent D certainty profile a ∨ D.Open a ∨
      (p ≠ D.source.root ∧ ∀ q, ¬ D.Matched p q) := by
  by_cases hparent : ∃ q, D.Paired p q
  · obtain ⟨q, hpq⟩ := hparent
    rcases Comparison.aligned_or_alone hpq hp with halign | halone
    · exact Or.inl halign
    · by_cases hmoved : ∃ b, Moved D certainty profile a b
      · exact Or.inr (Or.inl hmoved)
      · by_cases hopen : D.Open a
        · exact Or.inr (Or.inr (Or.inr (Or.inl hopen)))
        · refine Or.inr (Or.inr (Or.inl ⟨p, q, halone, ?_, not_exists.mp hmoved⟩))
          intro hw
          rcases hw with ⟨hp, -⟩ | ⟨-, ho⟩
          · exact hpolicy hp
          · exact hopen ho
  · have hno := not_exists.mp hparent
    exact Or.inr (Or.inr (Or.inr (Or.inr ⟨fun hroot => hno _ (Or.inl ⟨hroot, rfl⟩), fun q hm => hno q (Or.inr hm)⟩)))

/-- Where nothing is open, a node that is alone and did not move is absent. -/
theorem absent_of_alone (hsource : ∀ a, ¬ D.Open a) (htarget : ∀ b, ¬ D.swap.Open b) {p a : α} {q : β}
    (halone : D.Alone p q a) (hmoved : ∀ b, ¬ Moved D certainty profile a b) : Absent D certainty profile a := by
  refine ⟨p, q, halone, fun hw => ?_, hmoved⟩
  rcases hw with ⟨-, hu⟩ | ⟨-, ho⟩
  · rcases hu with ⟨a', -, ho⟩ | ⟨b', -, ho⟩
    · exact hsource a' ho
    · exact htarget b' ho
  · exact hsource a ho

/-- A node without a match is absent when it is in a reported region and not open. -/
theorem absent_unmatched_iff (hpolicy : profile.unresolvedPresencePolicy ≠ .emitAll) {a : α} (hno : ∀ b, ¬ D.Matched a b) :
    Absent D certainty profile a ↔ Reportable D profile a ∧ ¬ D.Open a := by
  constructor
  · intro h
    obtain ⟨p, q, halone, hw, -⟩ := h
    exact ⟨⟨p, q, halone.2.1, halone.1, fun hr => hw (Or.inl hr)⟩, fun ho => hw (Or.inr ⟨hpolicy, ho⟩)⟩
  · intro h
    obtain ⟨⟨p, q, hp, hpq, hr⟩, ho⟩ := h
    refine ⟨p, q, ⟨hpq, hp, fun b _ => hno b⟩, fun hw => ?_, fun b hm => hno b hm.1.1⟩
    rcases hw with hw | hw
    · exact hr hw
    · exact ho hw.2

/-- Where nothing is open, every crossing match moved, and parents are paired one to one, the absent
    nodes are those below a paired parent that have no match. -/
theorem absent_iff_unmatched (hopen : ∀ a b, ¬ D.Unsettled a b) (hmoved : ∀ a b, D.Crosses a b → Moved D certainty profile a b)
    (hpaired : ∀ {p q q'}, D.Paired p q → D.Paired p q' → q = q')
    (hparent : ∀ a b p, D.source.parent a = some p → D.Matched a b → ∃ q, D.target.parent b = some q) {a : α} :
    Absent D certainty profile a ↔
      (∃ p q, D.source.parent a = some p ∧ D.Paired p q) ∧ ∀ b, ¬ D.Matched a b := by
  constructor
  · intro h
    obtain ⟨p, q, ⟨hpq, hp, halone⟩, -, hno⟩ := h
    refine ⟨⟨p, q, hp, hpq⟩, fun b hm => ?_⟩
    obtain ⟨q', hq'⟩ := hparent a b p hp hm
    rcases Comparison.aligned_or_crosses hm hp hq' with ⟨-, p', q'', hp', hq'', hpair⟩ | hcross
    · obtain rfl := Option.some.inj (hp.symm.trans hp')
      exact halone b (hpaired hpair hpq ▸ hq'') hm
    · exact hno b (hmoved a b hcross)
  · intro h
    obtain ⟨⟨p, q, hp, hpq⟩, hno⟩ := h
    refine absent_of_alone (fun a ho => ?_) (fun b ho => ?_) ⟨hpq, hp, fun b _ => hno b⟩ fun b hm => hno b hm.1.1
    · obtain ⟨b, ho⟩ := ho
      exact hopen a b ho
    · obtain ⟨a, ho⟩ := ho
      exact hopen a b ho

variable (certainty) in
/-- A matched node is reported absent only for a move below the threshold, exactly when its match
    lies in a single region. -/
theorem absent_iff_low :
    (∀ a b, D.Matched a b → Absent D certainty profile a →
        D.Crosses a b ∧ certainty a b < profile.moveConfidenceThreshold) ↔ SingleRegion D profile := by
  constructor
  · intro h p q a b hpq hregion hp hm
    by_cases hq : D.target.parent b = some q
    · exact ⟨q, hq, fun _ => rfl⟩
    · -- the node is alone in the region: it crosses, whether it is reported or moved
      have hcross : D.Crosses a b := by
        by_cases hmoved : Moved D certainty profile a b
        · exact hmoved.1
        · refine (h a b hm ⟨p, q, ⟨hpq, hp, ?_⟩, ?_, ?_⟩).1
          · intro b' hq' hm'
            exact hq (D.target_unique hm hm' ▸ hq')
          · intro hw
            rcases hw with hw | ⟨-, ho⟩
            · exact hregion hw
            · exact ho.not_matched hm
          · intro b' hmoved'
            exact hmoved (D.target_unique hm hmoved'.1.1 ▸ hmoved')
      obtain ⟨-, p', q', hp', hq', hpq'⟩ := hcross
      obtain rfl := Option.some.inj (hp.symm.trans hp')
      exact ⟨q', hq', fun hpair => absurd hpair hpq'⟩
  · intro h a b hm habsent
    obtain ⟨p, q, ⟨hpq, hp, halone⟩, hw, hmoved⟩ := habsent
    obtain ⟨q', hq', hsame⟩ := h p q a b hpq (fun hr => hw (Or.inl hr)) hp hm
    have hcross : D.Crosses a b := ⟨hm, p, q', hp, hq', fun hpair => halone b (hsame hpair ▸ hq') hm⟩
    exact ⟨hcross, not_le.mp fun hle => hmoved b ⟨hcross, hle⟩⟩

/-- A matched node is absent when it is detached from its match. -/
theorem absent_matched_iff {a : α} {b : β} (hm : D.Matched a b) :
    Absent D certainty profile a ↔ Detached D certainty profile a b := by
  constructor
  · intro habsent
    obtain ⟨p, q, ⟨hpq, hp, halone⟩, hw, hmoved⟩ := habsent
    exact ⟨hm, hmoved b, p, q, hp, hpq, fun hr => hw (Or.inl hr), fun hq => halone b hq hm⟩
  · intro hdetached
    obtain ⟨-, hmoved, p, q, hp, hpq, hr, hne⟩ := hdetached
    refine ⟨p, q, ⟨hpq, hp, fun b' hq' hm' => hne (D.target_unique hm hm' ▸ hq')⟩, fun hw => ?_, fun b' hmoved' => ?_⟩
    · rcases hw with hw | ⟨-, ho⟩
      · exact hr hw
      · exact ho.not_matched hm
    · exact hmoved (D.target_unique hm hmoved'.1.1 ▸ hmoved')

/-- A match that crosses with less certainty than a move takes is absent wherever absence is reported. -/
theorem absent_crossing_iff {a : α} {b : β} (hc : D.Crosses a b) (hlow : certainty a b < profile.moveConfidenceThreshold) :
    Absent D certainty profile a ↔ Reportable D profile a := by
  obtain ⟨hm, p', q', hp', hq', hpq'⟩ := hc
  rw [absent_matched_iff hm]
  constructor
  · intro hdetached
    obtain ⟨-, -, p, q, hp, hpq, hr, -⟩ := hdetached
    exact ⟨p, q, hp, hpq, hr⟩
  · intro hrep
    obtain ⟨p, q, hp, hpq, hr⟩ := hrep
    refine ⟨hm, fun hmoved => absurd hmoved.2 (not_le.mpr hlow), p, q, hp, hpq, hr, fun hq => hpq' ?_⟩
    obtain rfl := Option.some.inj (hp.symm.trans hp')
    obtain rfl := Option.some.inj (hq.symm.trans hq')
    exact hpq

/-- The same of the other node of the match. -/
theorem absent_crossing_swap_iff {a : α} {b : β} (hc : D.Crosses a b)
    (hlow : certainty a b < profile.moveConfidenceThreshold) :
    Absent D.swap (fun b a => certainty a b) profile b ↔ Reportable D.swap profile b :=
  absent_crossing_iff (Comparison.crosses_swap.mpr hc) hlow

end Facts

end Reconciliation.Classification

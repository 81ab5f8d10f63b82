/-
  Reconciliation.Base.Invariance — what settling and comparing do not depend on.

  A source's pick is the first of its best targets, so the pick of a source with two equally
  good ones is a matter of order. Such a source wavers, though, and the targets near it are
  the same whichever of them it picks. Hence
  - what settles says nothing of order (`settles_iff_best`), and a table whose sources and
    targets are renamed settles the renamed pairs (`Renamed.settles_iff`);
  - which targets have an edge says nothing of order either (`target_open_iff`);
  - which sources have one does, but only for a source whose one best target is among
    several best targets of another source, a `Shaken` one (`source_open_iff`).
  Of the scores only their comparisons count (`SameComparisons.settles_iff`).
-/
import Mathlib.Logic.Relation
import Reconciliation.Base.ClearChoice
import Reconciliation.Base.Comparison

namespace Reconciliation.Base

/-! ## Renamed relations -/

section Relations
variable {α α' β β' : Type} {R : α → β → Prop} {f : α → α'} {g : β → β'}

/-- An element is unrelated under its new name when it was, as long as no related one has the same name. -/
theorem unrelated_left_iff {a : α} (hinj : ∀ a₁ b, R a₁ b → f a₁ = f a → a₁ = a) :
    (∀ b', ¬ Relation.Map R f g (f a) b') ↔ ∀ b, ¬ R a b := by
  constructor
  · intro h b hab
    exact h (g b) ⟨a, b, hab, rfl, rfl⟩
  · intro h b' hmap
    obtain ⟨a₁, b, hab, hf, -⟩ := hmap
    exact h b (hinj a₁ b hab hf ▸ hab)

theorem unrelated_right_iff {b : β} (hinj : ∀ a b₁, R a b₁ → g b₁ = g b → b₁ = b) :
    (∀ a', ¬ Relation.Map R f g a' (g b)) ↔ ∀ a, ¬ R a b := by
  constructor
  · intro h a hab
    exact h (f a) ⟨a, b, hab, rfl, rfl⟩
  · intro h a' hmap
    obtain ⟨a, b₁, hab, -, hg⟩ := hmap
    exact h a (hinj a b₁ hab hg ▸ hab)

end Relations

namespace ClearChoice.Table

/-! ## Best targets -/

section BestTargets
variable {α β γ : Type} [AddCommGroup γ] [LinearOrder γ]

/-- `b` is one of the best admissible targets of `a`, and good enough. -/
def Best (T : Table α β γ) (a : α) (b : β) (v : γ) : Prop :=
  T.Admits a b v ∧ T.threshold ≤ v ∧ ∀ b' v', T.Admits a b' v' → v' ≤ v

variable {T : Table α β γ}

theorem Best.score_unique {a : α} {b b' : β} {v v' : γ} (h : T.Best a b v) (h' : T.Best a b' v') : v = v' :=
  le_antisymm (h'.2.2 b v h.1) (h.2.2 b' v' h'.1)

variable [LinearOrder β]

theorem Pick.best {a : α} {b : β} {v : γ} (h : T.Pick a b v) : T.Best a b v :=
  ⟨h.1, h.2.1, fun b' v' hv' => (h.2.2 b' v' hv').1⟩

variable [IsOrderedAddMonoid γ]

/-- The pick of a source is as good as any of its best targets. -/
theorem Best.exists_pick {a : α} {b : β} {v : γ} (h : T.Best a b v) : ∃ b₀, T.Pick a b₀ v := by
  obtain ⟨b₀, w, hp, -⟩ := h.1.exists_pick h.2.1
  obtain rfl := h.score_unique hp.best
  exact ⟨b₀, hp⟩

theorem near_iff_best {a : α} {b : β} :
    T.Near a b ↔ ∃ b₀ v w, T.Best a b₀ v ∧ T.Admits a b w ∧ v - w ≤ T.margin := by
  constructor
  · intro h
    obtain ⟨b₀, v, w, hp, hw, hm⟩ := h
    exact ⟨b₀, v, w, hp.best, hw, hm⟩
  · intro h
    obtain ⟨b₀, v, w, hb, hw, hm⟩ := h
    obtain ⟨b₁, hp⟩ := hb.exists_pick
    exact ⟨b₁, v, w, hp, hw, hm⟩

omit [IsOrderedAddMonoid γ] in
theorem Near.admits {a : α} {b : β} (h : T.Near a b) : ∃ w, T.Admits a b w := by
  obtain ⟨_, _, w, -, hw, -⟩ := h
  exact ⟨w, hw⟩

theorem Best.near {a : α} {b : β} {v : γ} (h : T.Best a b v) : T.Near a b :=
  near_iff_best.mpr ⟨b, v, v, h, h.1, by rw [sub_self]; exact T.margin_nonneg⟩

/-- The best target of a source that does not waver is its pick. -/
theorem Best.pick_of_not_wavers {a : α} {b : β} {v : γ} (h : T.Best a b v) (hw : ¬ T.Wavers a) : T.Pick a b v := by
  obtain ⟨b₀, hp⟩ := h.exists_pick
  by_cases hb : b = b₀
  · exact hb ▸ hp
  · exact absurd (hp.wavers h.1 hb (by rw [sub_self]; exact T.margin_nonneg)).1 hw

/-- A pair settles when no source that wavers is near the target, and the pair beats every
    other source whose best target it is by more than the margin. -/
theorem settles_iff_best {a : α} {b : β} : T.Settles a b ↔ ∃ v, T.Best a b v ∧
    (∀ a', ¬ (T.Wavers a' ∧ T.Near a' b)) ∧ ∀ a' v', T.Best a' b v' → a' ≠ a → T.margin < v - v' := by
  constructor
  · intro h
    obtain ⟨v, hp, hno, -⟩ := id h
    have hcalm : ∀ a', ¬ (T.Wavers a' ∧ T.Near a' b) := fun a' hw => hno a' (Or.inl hw)
    refine ⟨v, hp.best, hcalm, fun a' v' hb hne => ?_⟩
    have hp' : T.Pick a' b v' := hb.pick_of_not_wavers fun hw => hcalm a' ⟨hw, hb.near⟩
    exact h.beats_picker hp.1 hp' hne
  · intro h
    obtain ⟨v, hb, hcalm, hbeats⟩ := h
    have hp : T.Pick a b v := hb.pick_of_not_wavers fun hw => hcalm a ⟨hw, hb.near⟩
    have hclose : ∀ c, T.Close c b → c = a := by
      intro c hc
      obtain ⟨w, hpc, hall⟩ := hc
      by_contra hne
      exact absurd (hbeats c w hpc.best hne) (hall a v hp).not_gt
    refine ⟨v, hp, ?_, fun a' v' hp' => ?_⟩
    · intro a' he
      rcases he with hw | ⟨⟨c, c', hne, hc, hc'⟩, -⟩
      · exact hcalm a' hw
      · exact hne ((hclose c hc).trans (hclose c' hc').symm)
    · by_cases ha : a' = a
      · subst ha
        exact (hp'.1.score_unique hp.1).le
      · exact (sub_pos.mp (T.margin_nonneg.trans_lt (hbeats a' v' hp'.best ha))).le

end BestTargets

/-! ## What settling compares -/

section Compared
variable {α β γ : Type} [AddCommGroup γ] [LinearOrder γ]

/-- The scores of two tables come out the same in every comparison: with the threshold, and within a
    row or a column with each other and with the margin. -/
structure SameComparisons (T T' : Table α β γ) : Prop where
  admitted : ∀ a ∈ T.sources, ∀ b ∈ T.targets, T.score a b = none ↔ T'.score a b = none
  good : ∀ a ∈ T.sources, ∀ b ∈ T.targets, ∀ v ∈ T.score a b, ∀ v' ∈ T'.score a b, T.threshold ≤ v ↔ T'.threshold ≤ v'
  row : ∀ a ∈ T.sources, ∀ b ∈ T.targets, ∀ c ∈ T.targets, ∀ v ∈ T.score a b, ∀ v' ∈ T'.score a b,
    ∀ w ∈ T.score a c, ∀ w' ∈ T'.score a c, (w ≤ v ↔ w' ≤ v') ∧ (v - w ≤ T.margin ↔ v' - w' ≤ T'.margin)
  column : ∀ b ∈ T.targets, ∀ a ∈ T.sources, ∀ c ∈ T.sources, ∀ v ∈ T.score a b, ∀ v' ∈ T'.score a b,
    ∀ w ∈ T.score c b, ∀ w' ∈ T'.score c b, v - w ≤ T.margin ↔ v' - w' ≤ T'.margin

variable {T T' : Table α β γ}

instance : Decidable (SameComparisons T T') :=
  decidable_of_iff (_ ∧ _ ∧ _ ∧ _) ⟨fun h => ⟨h.1, h.2.1, h.2.2.1, h.2.2.2⟩, fun h => ⟨h.admitted, h.good, h.row, h.column⟩⟩

namespace SameComparisons
variable (h : SameComparisons T T') (hsources : ∀ a, a ∈ T.sources ↔ a ∈ T'.sources)
  (htargets : ∀ b, b ∈ T.targets ↔ b ∈ T'.targets)

include h hsources htargets

theorem symm : SameComparisons T' T where
  admitted := fun a ha b hb => (h.admitted a ((hsources a).mpr ha) b ((htargets b).mpr hb)).symm
  good := fun a ha b hb v hv v' hv' => (h.good a ((hsources a).mpr ha) b ((htargets b).mpr hb) v' hv' v hv).symm
  row := by
    intro a ha b hb c hc v hv v' hv' w hw w' hw'
    obtain ⟨hle, hm⟩ := h.row a ((hsources a).mpr ha) b ((htargets b).mpr hb) c ((htargets c).mpr hc) v' hv' v hv w' hw' w hw
    exact ⟨hle.symm, hm.symm⟩
  column := by
    intro b hb a ha c hc v hv v' hv' w hw w' hw'
    exact (h.column b ((htargets b).mpr hb) a ((hsources a).mpr ha) c ((hsources c).mpr hc) v' hv' v hv w' hw' w hw).symm

theorem exists_admits {a : α} {b : β} {v : γ} (hv : T.Admits a b v) : ∃ v', T'.Admits a b v' := by
  cases hs : T'.score a b with
  | none =>
    have hnone := (h.admitted a hv.1 b hv.2.1).mpr hs
    rw [hv.2.2] at hnone
    cases hnone
  | some v' => exact ⟨v', (hsources a).mp hv.1, (htargets b).mp hv.2.1, hs⟩

theorem best {a : α} {b : β} {v v' : γ} (hb : T.Best a b v) (hv' : T'.Admits a b v') : T'.Best a b v' := by
  obtain ⟨hv, hthr, hbest⟩ := hb
  refine ⟨hv', (h.good a hv.1 b hv.2.1 v hv.2.2 v' hv'.2.2).mp hthr, fun c w' hw' => ?_⟩
  obtain ⟨w, hw⟩ := (h.symm hsources htargets).exists_admits (fun a => (hsources a).symm) (fun b => (htargets b).symm) hw'
  exact (h.row a hv.1 b hv.2.1 c hw.2.1 v hv.2.2 v' hv'.2.2 w hw.2.2 w' hw'.2.2).1.mp (hbest c w hw)

variable [LinearOrder β] [IsOrderedAddMonoid γ]

theorem near {a : α} {b : β} (hn : T.Near a b) : T'.Near a b := by
  obtain ⟨b₀, v, w, hb, hw, hm⟩ := near_iff_best.mp hn
  obtain ⟨v', hv'⟩ := h.exists_admits hsources htargets hb.1
  obtain ⟨w', hw'⟩ := h.exists_admits hsources htargets hw
  refine near_iff_best.mpr ⟨b₀, v', w', h.best hsources htargets hb hv', hw', ?_⟩
  exact (h.row a hw.1 b₀ hb.1.2.1 b hw.2.1 v hb.1.2.2 v' hv'.2.2 w hw.2.2 w' hw'.2.2).2.mp hm

theorem wavers {a : α} (hw : T.Wavers a) : T'.Wavers a := by
  obtain ⟨b, b', hne, h₁, h₂⟩ := hw
  exact ⟨b, b', hne, h.near hsources htargets h₁, h.near hsources htargets h₂⟩

theorem settles {a : α} {b : β} (hs : T.Settles a b) : T'.Settles a b := by
  have hback := h.symm hsources htargets
  have hsources' : ∀ a, a ∈ T'.sources ↔ a ∈ T.sources := fun a => (hsources a).symm
  have htargets' : ∀ b, b ∈ T'.targets ↔ b ∈ T.targets := fun b => (htargets b).symm
  obtain ⟨v, hb, hcalm, hbeats⟩ := settles_iff_best.mp hs
  obtain ⟨v', hv'⟩ := h.exists_admits hsources htargets hb.1
  refine settles_iff_best.mpr ⟨v', h.best hsources htargets hb hv', fun c hc => ?_, fun c w' hc hne => ?_⟩
  · exact hcalm c ⟨hback.wavers hsources' htargets' hc.1, hback.near hsources' htargets' hc.2⟩
  · obtain ⟨w, hw⟩ := hback.exists_admits hsources' htargets' hc.1
    have hbest := hbeats c w (hback.best hsources' htargets' hc hw) hne
    have hiff := h.column b hb.1.2.1 a hb.1.1 c hw.1 v hb.1.2.2 v' hv'.2.2 w hw.2.2 w' hc.1.2.2
    exact not_le.mp fun hle => hbest.not_ge (hiff.mpr hle)

/-- Tables whose scores compare the same settle the same pairs. -/
theorem settles_iff {a : α} {b : β} : T.Settles a b ↔ T'.Settles a b :=
  ⟨h.settles hsources htargets, (h.symm hsources htargets).settles (fun a => (hsources a).symm) fun b => (htargets b).symm⟩

end SameComparisons

end Compared

/-! ## Edges without an order -/

section Openness
variable {α β γ : Type} [AddCommGroup γ] [LinearOrder γ]

/-- `b` is a best target of `a`, within the margin of every source it is a best target of. -/
def CloseBest (T : Table α β γ) (a : α) (b : β) : Prop :=
  ∃ v, T.Best a b v ∧ ∀ a' v', T.Best a' b v' → v' - v ≤ T.margin

/-- The one best target of `a` is one of several best targets of another source. -/
def Shaken [LinearOrder β] (T : Table α β γ) (a : α) : Prop :=
  ¬ T.Wavers a ∧ ∃ b v, T.Best a b v ∧ ∃ a' b' v', b' ≠ b ∧ T.Best a' b v' ∧ T.Best a' b' v'

variable [LinearOrder β] [IsOrderedAddMonoid γ] {T : Table α β γ}

omit [IsOrderedAddMonoid γ] in
/-- Where best targets are picks, closeness is a matter of best targets. -/
theorem close_iff_best {b : β} (hpick : ∀ a v, T.Best a b v → T.Pick a b v) {a : α} :
    T.Close a b ↔ T.CloseBest a b := by
  constructor
  · intro h
    obtain ⟨v, hp, hall⟩ := h
    exact ⟨v, hp.best, fun a' v' hb => hall a' v' (hpick a' v' hb)⟩
  · intro h
    obtain ⟨v, hb, hall⟩ := h
    exact ⟨v, hpick a v hb, fun a' v' hp => hall a' v' hp.best⟩

/-- An edge reaches a target when a source that wavers is near it, or two sources are close to it. -/
theorem target_open_iff {b : β} : (∃ a, T.Edge a b) ↔ (∃ a, T.Wavers a ∧ T.Near a b) ∨
    ∃ a a', a ≠ a' ∧ T.CloseBest a b ∧ T.CloseBest a' b := by
  by_cases hwaver : ∃ a, T.Wavers a ∧ T.Near a b
  · obtain ⟨a, hw⟩ := hwaver
    exact iff_of_true ⟨a, Or.inl hw⟩ (Or.inl ⟨a, hw⟩)
  · have hclose : ∀ a, T.Close a b ↔ T.CloseBest a b := fun a => close_iff_best fun c v hb =>
      hb.pick_of_not_wavers fun hw => hwaver ⟨c, hw, hb.near⟩
    rw [or_iff_right hwaver]
    constructor
    · intro h
      obtain ⟨a, hw | ⟨⟨a₁, a₂, hne, h₁, h₂⟩, -⟩⟩ := h
      · exact absurd ⟨a, hw⟩ hwaver
      · exact ⟨a₁, a₂, hne, (hclose a₁).mp h₁, (hclose a₂).mp h₂⟩
    · intro h
      obtain ⟨a₁, a₂, hne, h₁, h₂⟩ := h
      have h₁' := (hclose a₁).mpr h₁
      exact ⟨a₁, Or.inr ⟨⟨a₁, a₂, hne, h₁', (hclose a₂).mpr h₂⟩, h₁'⟩⟩

/-- A source that is not shaken has an edge when it wavers, or another source is as close to its best target. -/
theorem source_open_iff {a : α} (hs : ¬ T.Shaken a) : (∃ b, T.Edge a b) ↔ T.Wavers a ∨
    ∃ b a', a' ≠ a ∧ T.CloseBest a b ∧ T.CloseBest a' b := by
  by_cases hw : T.Wavers a
  · obtain ⟨b, v, hp⟩ := hw.exists_pick
    exact iff_of_true ⟨b, hw.edge_of_pick hp⟩ (Or.inl hw)
  · -- every source with that best target has no other, so it picks it
    have hpick : ∀ b v, T.Best a b v → ∀ c w, T.Best c b w → T.Pick c b w := by
      intro b v hb c w hc
      obtain ⟨b', hp⟩ := hc.exists_pick
      by_cases hb' : b' = b
      · exact hb' ▸ hp
      · exact absurd ⟨hw, b, v, hb, c, b', w, hb', hc, hp.best⟩ hs
    rw [or_iff_right hw]
    constructor
    · intro h
      obtain ⟨b, hwb | ⟨⟨a₁, a₂, hne, h₁, h₂⟩, hc⟩⟩ := h
      · exact absurd hwb.1 hw
      · obtain ⟨v, hp, -⟩ := id hc
        have hclose : ∀ c, T.Close c b ↔ T.CloseBest c b := fun c => close_iff_best (hpick b v hp.best)
        by_cases ha : a₁ = a
        · exact ⟨b, a₂, fun he => hne (ha.trans he.symm), (hclose a).mp hc, (hclose a₂).mp h₂⟩
        · exact ⟨b, a₁, ha, (hclose a).mp hc, (hclose a₁).mp h₁⟩
    · intro h
      obtain ⟨b, a', hne, ha, ha'⟩ := h
      obtain ⟨v, hb, -⟩ := id ha
      have hclose : ∀ c, T.Close c b ↔ T.CloseBest c b := fun c => close_iff_best (hpick b v hb)
      have hc := (hclose a).mpr ha
      exact ⟨b, Or.inr ⟨⟨a', a, hne, (hclose a').mpr ha', hc⟩, hc⟩⟩

/-- Against itself, no element is shaken: a best target of two elements makes both waver. -/
theorem Diagonal.not_shaken {T : Table β β γ} {top : γ} (h : T.Diagonal top) {a : β} : ¬ T.Shaken a := by
  intro hs
  obtain ⟨hw, b, v, hb, a', b', v', hne, hb', hb''⟩ := hs
  have hself : ∀ {c d w}, T.Best c d w → d ≠ c → T.Wavers c ∧ T.Wavers d := by
    intro c d w hbest hdc
    have htop : w = top := le_antisymm (h.bounded c d w hbest.1.2.2) (hbest.2.2 c top (h.admits_self hbest.1.1))
    have hm : top - w ≤ T.margin := by rw [htop, sub_self]; exact T.margin_nonneg
    exact ⟨(h.wavers_of_admits hbest.1 hdc hm).1, (h.wavers_of_admits (h.admits_symm hbest.1) hdc.symm hm).1⟩
  have hba : b = a := by_contra fun hba => hw (hself hb hba).1
  subst hba
  by_cases ha' : a' = b
  · subst ha'
    exact hw (hself hb'' hne).1
  · exact hw (hself hb' fun hab => ha' hab.symm).2

end Openness

/-! ## Renamed tables -/

section Renaming
variable {α β α' β' γ : Type} [AddCommGroup γ] [LinearOrder γ]

/-- `T'` is `T` with its sources renamed by `f` and its targets by `g`. -/
structure Renamed (f : α → α') (g : β → β') (T : Table α β γ) (T' : Table α' β' γ) : Prop where
  sources_inj : Set.InjOn f {a | a ∈ T.sources}
  targets_inj : Set.InjOn g {b | b ∈ T.targets}
  admits_iff : ∀ a' b' v, T'.Admits a' b' v ↔ Relation.Map (fun a b => T.Admits a b v) f g a' b'
  threshold_eq : T'.threshold = T.threshold
  margin_eq : T'.margin = T.margin

namespace Renamed
variable {f : α → α'} {g : β → β'} {T : Table α β γ} {T' : Table α' β' γ} (h : Renamed f g T T')

include h

theorem admits {a : α} {b : β} {v : γ} (hv : T.Admits a b v) : T'.Admits (f a) (g b) v :=
  (h.admits_iff _ _ _).mpr ⟨a, b, hv, rfl, rfl⟩

/-- What a renamed source admits is a renamed target it admitted. -/
theorem of_admits {a : α} (ha : a ∈ T.sources) {b' : β'} {v : γ} (hv : T'.Admits (f a) b' v) :
    ∃ b, T.Admits a b v ∧ g b = b' := by
  obtain ⟨a₁, b, hab, hf, rfl⟩ := (h.admits_iff _ _ _).mp hv
  obtain rfl := h.sources_inj hab.1 ha hf
  exact ⟨b, hab, rfl⟩

theorem best_iff {a' : α'} {b' : β'} {v : γ} :
    T'.Best a' b' v ↔ Relation.Map (fun a b => T.Best a b v) f g a' b' := by
  constructor
  · intro hb
    obtain ⟨hadmits, hthr, hbest⟩ := hb
    obtain ⟨a, b, hv, rfl, rfl⟩ := (h.admits_iff _ _ _).mp hadmits
    exact ⟨a, b, ⟨hv, h.threshold_eq ▸ hthr, fun b₁ w hw => hbest (g b₁) w (h.admits hw)⟩, rfl, rfl⟩
  · intro hb
    obtain ⟨a, b, ⟨hv, hthr, hbest⟩, rfl, rfl⟩ := hb
    refine ⟨h.admits hv, h.threshold_eq ▸ hthr, fun b₁' w hw => ?_⟩
    obtain ⟨b₁, hw, -⟩ := h.of_admits hv.1 hw
    exact hbest b₁ w hw

theorem of_best {a : α} (ha : a ∈ T.sources) {b' : β'} {v : γ} (hb : T'.Best (f a) b' v) :
    ∃ b, T.Best a b v ∧ g b = b' := by
  obtain ⟨a₁, b, hab, hf, rfl⟩ := h.best_iff.mp hb
  obtain rfl := h.sources_inj hab.1.1 ha hf
  exact ⟨b, hab, rfl⟩

theorem of_best_target {b : β} (hb : b ∈ T.targets) {a' : α'} {v : γ} (hbest : T'.Best a' (g b) v) :
    ∃ a, T.Best a b v ∧ f a = a' := by
  obtain ⟨a, b₁, hab, rfl, hg⟩ := h.best_iff.mp hbest
  obtain rfl := h.targets_inj hab.1.2.1 hb hg
  exact ⟨a, hab, rfl⟩

theorem closeBest_iff {a' : α'} {b' : β'} : T'.CloseBest a' b' ↔ Relation.Map T.CloseBest f g a' b' := by
  constructor
  · intro hc
    obtain ⟨v, hb', hall⟩ := hc
    obtain ⟨a, b, hb, rfl, rfl⟩ := h.best_iff.mp hb'
    exact ⟨a, b, ⟨v, hb, fun a₁ w hb₁ => h.margin_eq ▸ hall (f a₁) w (h.best_iff.mpr ⟨a₁, b, hb₁, rfl, rfl⟩)⟩, rfl, rfl⟩
  · intro hc
    obtain ⟨a, b, ⟨v, hb, hall⟩, rfl, rfl⟩ := hc
    refine ⟨v, h.best_iff.mpr ⟨a, b, hb, rfl, rfl⟩, fun a₁' w hb₁' => ?_⟩
    obtain ⟨a₁, hb₁, -⟩ := h.of_best_target hb.1.2.1 hb₁'
    exact h.margin_eq.symm ▸ hall a₁ w hb₁

theorem of_closeBest_target {b : β} (hb : b ∈ T.targets) {a' : α'} (hc : T'.CloseBest a' (g b)) :
    ∃ a, T.CloseBest a b ∧ f a = a' := by
  obtain ⟨a, b₁, hab, rfl, hg⟩ := h.closeBest_iff.mp hc
  obtain ⟨_, hbest, -⟩ := id hab
  obtain rfl := h.targets_inj hbest.1.2.1 hb hg
  exact ⟨a, hab, rfl⟩

variable [LinearOrder β] [LinearOrder β'] [IsOrderedAddMonoid γ]

theorem near_iff {a' : α'} {b' : β'} : T'.Near a' b' ↔ Relation.Map T.Near f g a' b' := by
  rw [near_iff_best]
  constructor
  · intro hn
    obtain ⟨b₀', v, w, hb', hw', hm⟩ := hn
    obtain ⟨a, b₀, hb, rfl, -⟩ := h.best_iff.mp hb'
    obtain ⟨b, hw, rfl⟩ := h.of_admits hb.1.1 hw'
    exact ⟨a, b, near_iff_best.mpr ⟨b₀, v, w, hb, hw, h.margin_eq ▸ hm⟩, rfl, rfl⟩
  · intro hn
    obtain ⟨a, b, hn, rfl, rfl⟩ := hn
    obtain ⟨b₀, v, w, hb, hw, hm⟩ := near_iff_best.mp hn
    exact ⟨g b₀, v, w, h.best_iff.mpr ⟨a, b₀, hb, rfl, rfl⟩, h.admits hw, h.margin_eq ▸ hm⟩

/-- Near a renamed source are the renamed targets near it. -/
theorem of_near {a : α} (ha : a ∈ T.sources) {b' : β'} (hn : T'.Near (f a) b') : ∃ b, T.Near a b ∧ g b = b' := by
  obtain ⟨a₁, b, hab, hf, rfl⟩ := h.near_iff.mp hn
  obtain ⟨w, hw⟩ := hab.admits
  obtain rfl := h.sources_inj hw.1 ha hf
  exact ⟨b, hab, rfl⟩

theorem wavers_iff {a' : α'} : T'.Wavers a' ↔ ∃ a, T.Wavers a ∧ f a = a' := by
  constructor
  · intro hw
    obtain ⟨b₁', b₂', hne, h₁, h₂⟩ := hw
    obtain ⟨a, b₁, hn₁, rfl, rfl⟩ := h.near_iff.mp h₁
    obtain ⟨w, hw⟩ := hn₁.admits
    obtain ⟨b₂, hn₂, rfl⟩ := h.of_near hw.1 h₂
    exact ⟨a, ⟨b₁, b₂, fun he => hne (congrArg g he), hn₁, hn₂⟩, rfl⟩
  · intro hw
    obtain ⟨a, ⟨b₁, b₂, hne, h₁, h₂⟩, rfl⟩ := hw
    obtain ⟨_, hw₁⟩ := h₁.admits
    obtain ⟨_, hw₂⟩ := h₂.admits
    refine ⟨g b₁, g b₂, fun he => hne (h.targets_inj hw₁.2.1 hw₂.2.1 he), ?_, ?_⟩
    · exact h.near_iff.mpr ⟨a, b₁, h₁, rfl, rfl⟩
    · exact h.near_iff.mpr ⟨a, b₂, h₂, rfl, rfl⟩

/-- A source that wavers is near a renamed target when one was near the target. -/
theorem wavering_near_iff {b : β} (hb : b ∈ T.targets) :
    (∃ a', T'.Wavers a' ∧ T'.Near a' (g b)) ↔ ∃ a, T.Wavers a ∧ T.Near a b := by
  constructor
  · intro hw
    obtain ⟨a', hw', hn'⟩ := hw
    obtain ⟨a, b₁, hn, rfl, hg⟩ := h.near_iff.mp hn'
    obtain ⟨w, hab⟩ := hn.admits
    obtain rfl := h.targets_inj hab.2.1 hb hg
    obtain ⟨a₁, hw, hf⟩ := h.wavers_iff.mp hw'
    obtain ⟨_, _, hp⟩ := hw.exists_pick
    obtain rfl := h.sources_inj hp.1.1 hab.1 hf
    exact ⟨a₁, hw, hn⟩
  · intro hw
    obtain ⟨a, hw, hn⟩ := hw
    exact ⟨f a, h.wavers_iff.mpr ⟨a, hw, rfl⟩, h.near_iff.mpr ⟨a, b, hn, rfl, rfl⟩⟩

/-- What settles in the renamed table are the renamed pairs that settled. -/
theorem settles_iff {a' : α'} {b' : β'} : T'.Settles a' b' ↔ Relation.Map T.Settles f g a' b' := by
  rw [settles_iff_best]
  constructor
  · intro hs
    obtain ⟨v, hb', hcalm, hbeats⟩ := hs
    obtain ⟨a, b, hb, rfl, rfl⟩ := h.best_iff.mp hb'
    refine ⟨a, b, settles_iff_best.mpr ⟨v, hb, ?_, fun a₁ w hb₁ hne => ?_⟩, rfl, rfl⟩
    · exact not_exists.mp fun hw => not_exists.mpr hcalm ((h.wavering_near_iff hb.1.2.1).mpr hw)
    · have hne' : f a₁ ≠ f a := fun hf => hne (h.sources_inj hb₁.1.1 hb.1.1 hf)
      exact h.margin_eq ▸ hbeats (f a₁) w (h.best_iff.mpr ⟨a₁, b, hb₁, rfl, rfl⟩) hne'
  · intro hs
    obtain ⟨a, b, hs, rfl, rfl⟩ := hs
    obtain ⟨v, hb, hcalm, hbeats⟩ := settles_iff_best.mp hs
    refine ⟨v, h.best_iff.mpr ⟨a, b, hb, rfl, rfl⟩, ?_, fun a₁' w hb₁' hne => ?_⟩
    · exact not_exists.mp fun hw => not_exists.mpr hcalm ((h.wavering_near_iff hb.1.2.1).mp hw)
    · obtain ⟨a₁, b₁, hb₁, rfl, hg⟩ := h.best_iff.mp hb₁'
      obtain rfl := h.targets_inj hb₁.1.2.1 hb.1.2.1 hg
      exact h.margin_eq.symm ▸ hbeats a₁ w hb₁ fun he => hne (congrArg f he)

/-- An edge reaches a renamed target when one reached the target. -/
theorem target_open_iff {b : β} (hb : b ∈ T.targets) : (∃ a', T'.Edge a' (g b)) ↔ ∃ a, T.Edge a b := by
  rw [Table.target_open_iff, Table.target_open_iff, h.wavering_near_iff hb]
  refine or_congr_right ⟨fun hc => ?_, fun hc => ?_⟩
  · obtain ⟨a₁', a₂', hne, h₁, h₂⟩ := hc
    obtain ⟨a₁, hc₁, rfl⟩ := h.of_closeBest_target hb h₁
    obtain ⟨a₂, hc₂, rfl⟩ := h.of_closeBest_target hb h₂
    exact ⟨a₁, a₂, fun he => hne (congrArg f he), hc₁, hc₂⟩
  · obtain ⟨a₁, a₂, hne, h₁, h₂⟩ := hc
    obtain ⟨_, hb₁, -⟩ := id h₁
    obtain ⟨_, hb₂, -⟩ := id h₂
    refine ⟨f a₁, f a₂, fun he => hne (h.sources_inj hb₁.1.1 hb₂.1.1 he), ?_, ?_⟩
    · exact h.closeBest_iff.mpr ⟨a₁, b, h₁, rfl, rfl⟩
    · exact h.closeBest_iff.mpr ⟨a₂, b, h₂, rfl, rfl⟩

theorem not_shaken {a : α} (ha : a ∈ T.sources) (hs : ¬ T.Shaken a) : ¬ T'.Shaken (f a) := by
  intro hs'
  obtain ⟨hw, b', v, hb', a₁', b₁', w, hne, h₁', h₂'⟩ := hs'
  refine hs ⟨fun hwaver => hw (h.wavers_iff.mpr ⟨a, hwaver, rfl⟩), ?_⟩
  obtain ⟨b, hb, rfl⟩ := h.of_best ha hb'
  obtain ⟨a₁, h₁, rfl⟩ := h.of_best_target hb.1.2.1 h₁'
  obtain ⟨b₁, h₂, rfl⟩ := h.of_best h₁.1.1 h₂'
  exact ⟨b, v, hb, a₁, b₁, w, fun he => hne (congrArg g he), h₁, h₂⟩

/-- A renamed source has an edge when the source had one, unless it is shaken. -/
theorem source_open_iff {a : α} (ha : a ∈ T.sources) (hs : ¬ T.Shaken a) : (∃ b', T'.Edge (f a) b') ↔ ∃ b, T.Edge a b := by
  rw [Table.source_open_iff hs, Table.source_open_iff (h.not_shaken ha hs)]
  refine or_congr ⟨fun hw => ?_, fun hw => h.wavers_iff.mpr ⟨a, hw, rfl⟩⟩ ⟨fun hc => ?_, fun hc => ?_⟩
  · obtain ⟨a₁, hw₁, hf⟩ := h.wavers_iff.mp hw
    obtain ⟨_, _, hp⟩ := hw₁.exists_pick
    exact h.sources_inj hp.1.1 ha hf ▸ hw₁
  · obtain ⟨b', a₁', hne, hc', h₁'⟩ := hc
    obtain ⟨a₀, b, hc, hf, rfl⟩ := h.closeBest_iff.mp hc'
    obtain ⟨_, hb, -⟩ := id hc
    obtain rfl := h.sources_inj hb.1.1 ha hf
    obtain ⟨a₁, h₁, rfl⟩ := h.of_closeBest_target hb.1.2.1 h₁'
    exact ⟨b, a₁, fun he => hne (congrArg f he), hc, h₁⟩
  · obtain ⟨b, a₁, hne, hc, h₁⟩ := hc
    obtain ⟨_, hb₁, -⟩ := id h₁
    refine ⟨g b, f a₁, fun he => hne (h.sources_inj hb₁.1.1 ha he), ?_, ?_⟩
    · exact h.closeBest_iff.mpr ⟨a, b, hc, rfl, rfl⟩
    · exact h.closeBest_iff.mpr ⟨a₁, b, h₁, rfl, rfl⟩

end Renamed

end Renaming

end ClearChoice.Table

/-! ## Renamed comparisons -/

variable {α β α' β' : Type}

/-- `H'` is `H` with its nodes renamed by `f`. -/
structure Hierarchy.Renamed (f : α → α') (H : Hierarchy α) (H' : Hierarchy α') : Prop where
  injective : Set.InjOn f {a | H.Node a}
  onto : ∀ a', H'.Node a' → ∃ a, H.Node a ∧ f a = a'
  root_eq : H'.root = f H.root
  parent_eq : ∀ a, H.Node a → H'.parent (f a) = (H.parent a).map f

/-- `D'` is `D` with its nodes renamed by `f` and `g`; the pairs left open may differ. -/
structure Comparison.Renamed (f : α → α') (g : β → β') (D : Comparison α β) (D' : Comparison α' β') : Prop where
  source : D.source.Renamed f D'.source
  target : D.target.Renamed g D'.target
  matched_nodes : ∀ a b, D.Matched a b → D.source.Node a ∧ D.target.Node b
  matched_iff : ∀ a' b', D'.Matched a' b' ↔ Relation.Map D.Matched f g a' b'

theorem Hierarchy.Renamed.parent {f : α → α'} {H : Hierarchy α} {H' : Hierarchy α'} (h : H.Renamed f H') {a p : α}
    (hp : H.parent a = some p) : H'.parent (f a) = some (f p) := by
  rw [h.parent_eq a (node_of_parent hp), hp]
  rfl

/-- The children of a renamed node are its renamed children. -/
theorem Hierarchy.Renamed.of_parent {f : α → α'} {H : Hierarchy α} {H' : Hierarchy α'} (h : H.Renamed f H') {a' : α'}
    {p' : α'} (hp : H'.parent a' = some p') : ∃ a p, H.parent a = some p ∧ f a = a' ∧ f p = p' := by
  obtain ⟨a, ha, rfl⟩ := h.onto a' (node_of_parent hp)
  rw [h.parent_eq a ha] at hp
  obtain ⟨p, hp, hf⟩ := Option.map_eq_some_iff.mp hp
  exact ⟨a, p, hp, rfl, hf⟩

namespace Comparison.Renamed
variable {f : α → α'} {g : β → β'} {D : Comparison α β} {D' : Comparison α' β'} (h : Renamed f g D D')

include h

theorem swap : Renamed g f D.swap D'.swap where
  source := h.target
  target := h.source
  matched_nodes := fun b a hm => (h.matched_nodes a b hm).symm
  matched_iff := by
    intro b' a'
    refine (h.matched_iff a' b').trans ⟨fun hm => ?_, fun hm => ?_⟩
    · obtain ⟨a, b, hm, hf, hg⟩ := hm
      exact ⟨b, a, hm, hg, hf⟩
    · obtain ⟨b, a, hm, hg, hf⟩ := hm
      exact ⟨a, b, hm, hf, hg⟩

theorem matched {a : α} {b : β} (ha : D.source.Node a) (hb : D.target.Node b) : D'.Matched (f a) (g b) ↔ D.Matched a b := by
  rw [h.matched_iff]
  constructor
  · intro hm
    obtain ⟨a₁, b₁, hm, hf, hg⟩ := hm
    obtain ⟨ha₁, hb₁⟩ := h.matched_nodes a₁ b₁ hm
    exact h.source.injective ha₁ ha hf ▸ h.target.injective hb₁ hb hg ▸ hm
  · exact fun hm => ⟨a, b, hm, rfl, rfl⟩

/-- What a renamed node is paired with is a renamed node it was paired with. -/
theorem of_paired {p : α} (hp : D.source.Node p) {q' : β'} (hpq : D'.Paired (f p) q') : ∃ q, D.Paired p q ∧ g q = q' := by
  rcases hpq with ⟨hroot, rfl⟩ | hm
  · rw [h.source.root_eq] at hroot
    exact ⟨D.target.root, Or.inl ⟨h.source.injective hp Hierarchy.node_root hroot, rfl⟩, h.target.root_eq.symm⟩
  · obtain ⟨p₁, q, hpq, hf, rfl⟩ := (h.matched_iff _ _).mp hm
    obtain rfl := h.source.injective (h.matched_nodes p₁ q hpq).1 hp hf
    exact ⟨q, Or.inr hpq, rfl⟩

theorem paired {p : α} {q : β} (hpq : D.Paired p q) : D'.Paired (f p) (g q) := by
  rcases hpq with ⟨rfl, rfl⟩ | hm
  · exact Or.inl ⟨h.source.root_eq.symm, h.target.root_eq.symm⟩
  · exact Or.inr ((h.matched_iff _ _).mpr ⟨p, q, hm, rfl, rfl⟩)

theorem nodes_of_paired {p : α} {q : β} (hpq : D.Paired p q) : D.source.Node p ∧ D.target.Node q := by
  rcases hpq with ⟨rfl, rfl⟩ | hm
  · exact ⟨Hierarchy.node_root, Hierarchy.node_root⟩
  · exact h.matched_nodes p q hm

theorem paired_iff {p : α} {q : β} (hp : D.source.Node p) (hq : D.target.Node q) : D'.Paired (f p) (g q) ↔ D.Paired p q := by
  refine ⟨fun hpq => ?_, h.paired⟩
  obtain ⟨q₁, hpq₁, hg⟩ := h.of_paired hp hpq
  exact h.target.injective (h.nodes_of_paired hpq₁).2 hq hg ▸ hpq₁

theorem crosses_iff {a : α} {b : β} (hm : D.Matched a b) : D'.Crosses (f a) (g b) ↔ D.Crosses a b := by
  obtain ⟨ha, hb⟩ := h.matched_nodes a b hm
  constructor
  · intro hc
    obtain ⟨-, p', q', hp', hq', hno⟩ := hc
    obtain ⟨p, hp, rfl⟩ := Option.map_eq_some_iff.mp ((h.source.parent_eq a ha).symm.trans hp')
    obtain ⟨q, hq, rfl⟩ := Option.map_eq_some_iff.mp ((h.target.parent_eq b hb).symm.trans hq')
    exact ⟨hm, p, q, hp, hq, fun hpq => hno (h.paired hpq)⟩
  · intro hc
    obtain ⟨-, p, q, hp, hq, hno⟩ := hc
    refine ⟨(h.matched ha hb).mpr hm, f p, g q, h.source.parent hp, h.target.parent hq, fun hpq => hno ?_⟩
    exact (h.paired_iff (D.source.parent_node _ _ hp) (D.target.parent_node _ _ hq)).mp hpq

theorem alone_iff {p a : α} {q : β} (hp : D.source.parent a = some p) (hpq : D.Paired p q) :
    D'.Alone (f p) (g q) (f a) ↔ D.Alone p q a := by
  have ha := Hierarchy.node_of_parent hp
  constructor
  · intro halone
    obtain ⟨-, -, hno⟩ := halone
    refine ⟨hpq, hp, fun b hq hm => hno (g b) (h.target.parent hq) ?_⟩
    exact (h.matched ha (Hierarchy.node_of_parent hq)).mpr hm
  · intro halone
    obtain ⟨-, -, hno⟩ := halone
    refine ⟨h.paired hpq, h.source.parent hp, fun b' hq' hm' => ?_⟩
    obtain ⟨b, q₁, hq, rfl, hg⟩ := h.target.of_parent hq'
    obtain rfl := h.target.injective (D.target.parent_node _ _ hq) (h.nodes_of_paired hpq).2 hg
    exact hno b hq ((h.matched ha (Hierarchy.node_of_parent hq)).mp hm')

end Comparison.Renamed

end Reconciliation.Base

/-
  Reconciliation.Base.ClearChoice — pairing two finite sets by score, without choosing
  between near ties.

  A `Table` scores pairs of a source and a target; a pair without a score is not
  admissible. A source's pick is its best admissible target, if that reaches the
  threshold (ties go to the smaller target). Two kinds of near tie are kept open
  instead of being decided:
  - a source wavers when two targets are within the margin of its best score;
  - a target is contested when two sources that pick it are within the margin of the
    best of them.
  Either makes the pairs concerned edges. A pair settles when it is a pick, no edge
  reaches its target, and no other source picks the target with a higher score.

  Proved:
  - settled pairs are one to one, and no edge shares an endpoint with one
    (`Settles.target_unique`, `Settles.source_unique`, `Edge.not_settles_source`,
    `Edge.not_settles_target`);
  - an edge is never alone (`Edge.exists_other`);
  - what a settled pair beats (`Settles.beats_row`, `Settles.beats_column`), and when a
    dominant pair settles (`Dominates.settles_iff`);
  - when a target settles (`target_settled_iff`), what a pick that does not settle has lost
    to (`Pick.lost`), and when nothing good enough is left over for a source or a target
    that does not settle (`losesFairly_iff`, `ignoredFairly_iff`);
  - how picks and wavering read off the sorted rows (`pick_iff_head`, `wavers_iff_second`);
  - a table against itself settles or wavers on the diagonal (`Diagonal.settles_self`,
    `Diagonal.edge_self`, `Diagonal.eq_of_settles`).
-/
import Reconciliation.Base.Dict

namespace Reconciliation.Base.ClearChoice

structure Table (α β γ : Type) [AddCommGroup γ] [LinearOrder γ] where
  sources : List α
  targets : List β
  score : α → β → Option γ
  threshold : γ
  margin : γ
  sources_nodup : sources.Nodup
  targets_nodup : targets.Nodup
  margin_nonneg : 0 ≤ margin

namespace Table

section Relations
variable {α β γ : Type} [LinearOrder β] [AddCommGroup γ] [LinearOrder γ] (T : Table α β γ)

def Admits (a : α) (b : β) (v : γ) : Prop := a ∈ T.sources ∧ b ∈ T.targets ∧ T.score a b = some v

instance [DecidableEq α] (a : α) (b : β) (v : γ) : Decidable (T.Admits a b v) := inferInstanceAs (Decidable (_ ∧ _ ∧ _))

/-- `b` is the best admissible target of `a`, and good enough. -/
def Pick (a : α) (b : β) (v : γ) : Prop :=
  T.Admits a b v ∧ T.threshold ≤ v ∧ ∀ b' v', T.Admits a b' v' → v' ≤ v ∧ (v' = v → b ≤ b')

/-- `b` is within the margin of the score of `a`'s pick. -/
def Near (a : α) (b : β) : Prop := ∃ b₀ v w, T.Pick a b₀ v ∧ T.Admits a b w ∧ v - w ≤ T.margin

def Wavers (a : α) : Prop := ∃ b b', b ≠ b' ∧ T.Near a b ∧ T.Near a b'

/-- `a` picks `b`, within the margin of every other source that picks it. -/
def Close (a : α) (b : β) : Prop := ∃ v, T.Pick a b v ∧ ∀ a' v', T.Pick a' b v' → v' - v ≤ T.margin

def Contested (b : β) : Prop := ∃ a a', a ≠ a' ∧ T.Close a b ∧ T.Close a' b

def Edge (a : α) (b : β) : Prop := (T.Wavers a ∧ T.Near a b) ∨ (T.Contested b ∧ T.Close a b)

def Settles (a : α) (b : β) : Prop :=
  ∃ v, T.Pick a b v ∧ (∀ a', ¬ T.Edge a' b) ∧ ∀ a' v', T.Pick a' b v' → v' ≤ v

end Relations

/-! ## Picks and near ties -/

section Picks
variable {α β γ : Type} [LinearOrder β] [AddCommGroup γ] [LinearOrder γ] {T : Table α β γ}

omit [LinearOrder β] in
theorem Admits.score_unique {a : α} {b : β} {v w : γ} (h : T.Admits a b v) (h' : T.Admits a b w) : v = w := by
  have := h.2.2.symm.trans h'.2.2
  simpa using this

theorem Pick.unique {a : α} {b b' : β} {v v' : γ} (h : T.Pick a b v) (h' : T.Pick a b' v') : b = b' ∧ v = v' := by
  obtain ⟨hle, htie⟩ := h.2.2 b' v' h'.1
  obtain ⟨hle', htie'⟩ := h'.2.2 b v h.1
  have hv : v = v' := le_antisymm hle' hle
  exact ⟨le_antisymm (htie hv.symm) (htie' hv), hv⟩

theorem Pick.near {a : α} {b : β} {v : γ} (h : T.Pick a b v) : T.Near a b :=
  ⟨b, v, v, h, h.1, by rw [sub_self]; exact T.margin_nonneg⟩

/-- A second target within the margin of the pick makes the source waver. -/
theorem Pick.wavers {a : α} {b b' : β} {v w : γ} (h : T.Pick a b v) (hw : T.Admits a b' w) (hne : b' ≠ b)
    (hm : v - w ≤ T.margin) : T.Wavers a ∧ T.Near a b' :=
  ⟨⟨b', b, hne, ⟨b, v, w, h, hw, hm⟩, h.near⟩, b, v, w, h, hw, hm⟩

theorem Wavers.edge_of_pick {a : α} {b : β} {v : γ} (hw : T.Wavers a) (h : T.Pick a b v) : T.Edge a b :=
  Or.inl ⟨hw, h.near⟩

theorem Wavers.exists_pick {a : α} (hw : T.Wavers a) : ∃ b v, T.Pick a b v := by
  obtain ⟨_, _, _, ⟨b, v, _, hp, _⟩, _⟩ := hw
  exact ⟨b, v, hp⟩

/-- A source that does not waver and has an edge has it at its pick. -/
theorem Edge.pick_of_not_wavers {a : α} {b : β} (h : T.Edge a b) (hw : ¬ T.Wavers a) : ∃ v, T.Pick a b v := by
  rcases h with ⟨h, -⟩ | ⟨-, v, h, -⟩
  · exact absurd h hw
  · exact ⟨v, h⟩

/-- A source with an edge has one at its pick. -/
theorem Edge.at_pick {a : α} {b b' : β} {v : γ} (h : T.Edge a b) (hp : T.Pick a b' v) : T.Edge a b' := by
  by_cases hw : T.Wavers a
  · exact hw.edge_of_pick hp
  · obtain ⟨w, hpw⟩ := h.pick_of_not_wavers hw
    exact (hpw.unique hp).1 ▸ h

theorem Edge.pick {a : α} {b : β} (h : T.Edge a b) : ∃ b' v, T.Pick a b' v := by
  rcases h with ⟨-, b₀, v, -, h, -, -⟩ | ⟨-, v, h, -⟩
  · exact ⟨b₀, v, h⟩
  · exact ⟨b, v, h⟩

theorem Edge.admits {a : α} {b : β} (h : T.Edge a b) : ∃ v, T.Admits a b v := by
  rcases h with ⟨-, -, -, w, -, h, -⟩ | ⟨-, v, h, -⟩
  · exact ⟨w, h⟩
  · exact ⟨v, h.1⟩

/-- Among the sources that pick a target there is a best one. -/
theorem Pick.exists_best {a : α} {b : β} {v : γ} (h : T.Pick a b v) :
    ∃ a₀ v₀, T.Pick a₀ b v₀ ∧ ∀ a' v', T.Pick a' b v' → v' ≤ v₀ := by
  have hfin : {a | ∃ v, T.Pick a b v}.Finite :=
    (List.finite_toSet T.sources).subset fun a' ⟨_, h'⟩ => h'.1.1
  obtain ⟨a₀, ⟨v₀, h₀⟩, hmax⟩ := Set.exists_max_image _ (fun a => (T.score a b).getD 0) hfin ⟨a, v, h⟩
  refine ⟨a₀, v₀, h₀, fun a' v' h' => ?_⟩
  have := hmax a' ⟨v', h'⟩
  simpa [h'.1.2.2, h₀.1.2.2] using this

/-- Edges come in company: another edge shares the source or the target. -/
theorem Edge.exists_other {a : α} {b : β} (h : T.Edge a b) :
    ∃ a' b', T.Edge a' b' ∧ (a', b') ≠ (a, b) ∧ (a' = a ∨ b' = b) := by
  rcases h with ⟨hw, -⟩ | ⟨hc, hclose⟩
  · obtain ⟨b₁, b₂, hne, h₁, h₂⟩ := id hw
    by_cases hb : b₁ = b
    · exact ⟨a, b₂, Or.inl ⟨hw, h₂⟩, by simp [← hb, hne.symm], Or.inl rfl⟩
    · exact ⟨a, b₁, Or.inl ⟨hw, h₁⟩, by simp [hb], Or.inl rfl⟩
  · obtain ⟨a₁, a₂, hne, h₁, h₂⟩ := id hc
    by_cases ha : a₁ = a
    · exact ⟨a₂, b, Or.inr ⟨hc, h₂⟩, by simp [← ha, hne.symm], Or.inr rfl⟩
    · exact ⟨a₁, b, Or.inr ⟨hc, h₁⟩, by simp [ha], Or.inr rfl⟩

end Picks

/-! ## Settled pairs -/

section Settled
variable {α β γ : Type} [LinearOrder β] [AddCommGroup γ] [LinearOrder γ] {T : Table α β γ}

theorem Edge.not_settles_target {a a' : α} {b : β} (h : T.Edge a b) : ¬ T.Settles a' b := by
  intro hx
  obtain ⟨-, -, hno, -⟩ := hx
  exact hno a h

theorem Edge.not_settles_source {a : α} {b b' : β} (h : T.Edge a b) : ¬ T.Settles a b' := by
  intro hx
  obtain ⟨v, hp, hno, -⟩ := hx
  exact hno a (h.at_pick hp)

theorem Settles.pick {a : α} {b : β} (h : T.Settles a b) : ∃ v, T.Pick a b v := by
  obtain ⟨v, hp, -⟩ := h
  exact ⟨v, hp⟩

theorem Settles.target_unique {a : α} {b b' : β} (h : T.Settles a b) (h' : T.Settles a b') : b = b' := by
  obtain ⟨_, hp⟩ := h.pick
  obtain ⟨_, hp'⟩ := h'.pick
  exact (hp.unique hp').1

/-- A source that wavers has an edge at its pick, so one that settles does not waver. -/
theorem Settles.not_wavers {a : α} {b : β} (h : T.Settles a b) : ¬ T.Wavers a := by
  obtain ⟨v, hp, hno, -⟩ := h
  exact fun hw => hno a (hw.edge_of_pick hp)

/-- A settled source beats every other admissible target by more than the margin. -/
theorem Settles.beats_row {a : α} {b b' : β} {v w : γ} (h : T.Settles a b) (hv : T.Admits a b v)
    (hw : T.Admits a b' w) (hne : b' ≠ b) : T.margin < v - w := by
  obtain ⟨u, hp⟩ := h.pick
  obtain rfl := hv.score_unique hp.1
  by_contra hlt
  exact h.not_wavers (hp.wavers hw hne (not_lt.mp hlt)).1

variable [IsOrderedAddMonoid γ]

/-- Two pickers within the margin of each other and of everybody else contest the target. -/
theorem Pick.edge_of_close {a a' : α} {b : β} {v v' : γ} (h : T.Pick a b v) (h' : T.Pick a' b v') (hne : a ≠ a')
    (hbest : ∀ c w, T.Pick c b w → w ≤ v) (hm : v - v' ≤ T.margin) : T.Edge a' b := by
  have hclose : T.Close a b :=
    ⟨v, h, fun c w hc => (sub_nonpos.mpr (hbest c w hc)).trans T.margin_nonneg⟩
  have hclose' : T.Close a' b :=
    ⟨v', h', fun c w hc => (sub_le_sub_right (hbest c w hc) v').trans hm⟩
  exact Or.inr ⟨⟨a, a', hne, hclose, hclose'⟩, hclose'⟩

/-- A settled pair beats every other source that picks its target by more than the margin. -/
theorem Settles.beats_picker {a a' : α} {b : β} {v v' : γ} (h : T.Settles a b) (hv : T.Admits a b v)
    (h' : T.Pick a' b v') (hne : a' ≠ a) : T.margin < v - v' := by
  obtain ⟨u, hp, hno, hbest⟩ := h
  obtain rfl := hv.score_unique hp.1
  by_contra hlt
  exact hno a' (hp.edge_of_close h' hne.symm hbest (not_lt.mp hlt))

/-- Two sources that settle with one target are the same: otherwise each beats the other. -/
theorem Settles.source_unique {a a' : α} {b : β} (h : T.Settles a b) (h' : T.Settles a' b) : a = a' := by
  by_contra hne
  obtain ⟨v, hp⟩ := h.pick
  obtain ⟨v', hp'⟩ := h'.pick
  have h1 := h.beats_picker hp.1 hp' (Ne.symm hne)
  have h2 := h'.beats_picker hp'.1 hp hne
  have h3 : v' < v := sub_pos.mp (T.margin_nonneg.trans_lt h1)
  have h4 : v < v' := sub_pos.mp (T.margin_nonneg.trans_lt h2)
  exact lt_asymm h3 h4

omit [IsOrderedAddMonoid γ] in
/-- A target no edge reaches settles as soon as somebody picks it, with its best picker. -/
theorem target_settled_iff {b : β} (hno : ∀ a, ¬ T.Edge a b) : (∃ a, T.Settles a b) ↔ ∃ a v, T.Pick a b v := by
  constructor
  · intro hx
    obtain ⟨a, h⟩ := hx
    exact ⟨a, h.pick⟩
  · intro hx
    obtain ⟨a, v, h⟩ := hx
    obtain ⟨a₀, v₀, h₀, hbest⟩ := h.exists_best
    exact ⟨a₀, v₀, h₀, hno, hbest⟩

omit [IsOrderedAddMonoid γ] in
/-- A source without an edge that does not settle has lost its pick: to an edge there, or to a better picker. -/
theorem Pick.lost {a : α} {b : β} {v : γ} (h : T.Pick a b v) (hns : ¬ T.Settles a b) :
    (∃ a', T.Edge a' b) ∨ ∃ a' v', T.Pick a' b v' ∧ v < v' := by
  by_contra hcon
  rw [not_or] at hcon
  refine hns ⟨v, h, fun a' he => hcon.1 ⟨a', he⟩, fun a' v' h' => not_lt.mp fun hlt => hcon.2 ⟨a', v', h', hlt⟩⟩

end Settled

/-! ## Dominant pairs -/

section Dominance
variable {α β γ : Type} [LinearOrder β] [AddCommGroup γ] [LinearOrder γ] [IsOrderedAddMonoid γ] {T : Table α β γ}

/-- `a` and `b` beat everything else in their row and column by more than the margin. -/
def Dominates (T : Table α β γ) (a : α) (b : β) (v : γ) : Prop :=
  T.Admits a b v ∧ T.threshold ≤ v ∧ (∀ b' w, T.Admits a b' w → b' ≠ b → T.margin < v - w) ∧
    ∀ a' w, T.Admits a' b w → a' ≠ a → T.margin < v - w

omit [LinearOrder β] [IsOrderedAddMonoid γ] in
/-- Domination looks at one row and one column. -/
theorem dominates_iff {a : α} {b : β} {v : γ} : T.Dominates a b v ↔ T.Admits a b v ∧ T.threshold ≤ v ∧
    (∀ b' ∈ T.targets, ∀ w ∈ T.score a b', b' ≠ b → T.margin < v - w) ∧
    ∀ a' ∈ T.sources, ∀ w ∈ T.score a' b, a' ≠ a → T.margin < v - w := by
  refine and_congr_right fun h => and_congr_right fun _ => and_congr ?_ ?_
  · exact ⟨fun hr b' hb' w hw => hr b' w ⟨h.1, hb', hw⟩, fun hr b' w hw => hr b' hw.2.1 w hw.2.2⟩
  · exact ⟨fun hc a' ha' w hw => hc a' w ⟨ha', h.2.1, hw⟩, fun hc a' w hw => hc a' hw.1 w hw.2.2⟩

instance [DecidableEq α] (a : α) (b : β) (v : γ) : Decidable (T.Dominates a b v) := decidable_of_iff' _ dominates_iff

omit [LinearOrder β] in
theorem Dominates.lt_of_row {a : α} {b b' : β} {v w : γ} (h : T.Dominates a b v) (hw : T.Admits a b' w)
    (hne : b' ≠ b) : w < v := sub_pos.mp (T.margin_nonneg.trans_lt (h.2.2.1 b' w hw hne))

theorem Dominates.pick {a : α} {b : β} {v : γ} (h : T.Dominates a b v) : T.Pick a b v := by
  refine ⟨h.1, h.2.1, fun b' w hw => ?_⟩
  by_cases hb : b' = b
  · subst hb
    exact ⟨(hw.score_unique h.1).le, fun _ => le_refl _⟩
  · exact ⟨(h.lt_of_row hw hb).le, fun he => absurd (h.lt_of_row hw hb) he.not_lt⟩

theorem Dominates.not_wavers {a : α} {b : β} {v : γ} (h : T.Dominates a b v) : ¬ T.Wavers a := by
  have hnear : ∀ b', T.Near a b' → b' = b := by
    intro b' hx
    obtain ⟨b₀, u, w, hp, hw, hm⟩ := hx
    obtain ⟨rfl, rfl⟩ := hp.unique h.pick
    by_contra hb
    exact absurd (h.2.2.1 b' w hw hb) hm.not_gt
  intro hx
  obtain ⟨b₁, b₂, hne, h₁, h₂⟩ := hx
  exact hne ((hnear b₁ h₁).trans (hnear b₂ h₂).symm)

/-- No other picker is close to a dominant pair, so its target is not contested. -/
theorem Dominates.not_contested {a : α} {b : β} {v : γ} (h : T.Dominates a b v) : ¬ T.Contested b := by
  have hclose : ∀ c, T.Close c b → c = a := by
    intro c hx
    obtain ⟨w, hp, hall⟩ := hx
    by_contra hc
    exact absurd (h.2.2.2 c w hp.1 hc) (hall a v h.pick).not_gt
  intro hx
  obtain ⟨a₁, a₂, hne, h₁, h₂⟩ := hx
  exact hne ((hclose a₁ h₁).trans (hclose a₂ h₂).symm)

/-- A dominant pair settles unless another source, wavering, keeps its target open. -/
theorem Dominates.settles_iff {a : α} {b : β} {v : γ} (h : T.Dominates a b v) :
    T.Settles a b ↔ ∀ a', ¬ (T.Wavers a' ∧ T.Near a' b) := by
  constructor
  · rintro ⟨-, -, hno, -⟩ a' hw
    exact hno a' (Or.inl hw)
  · intro hno
    refine ⟨v, h.pick, ?_, fun a' w hp => ?_⟩
    · rintro a' (hw | ⟨hc, -⟩)
      · exact hno a' hw
      · exact h.not_contested hc
    · by_cases ha : a' = a
      · subst ha
        exact (hp.1.score_unique h.1).le
      · exact (sub_pos.mp (T.margin_nonneg.trans_lt (h.2.2.2 a' w hp.1 ha))).le

end Dominance

/-! ## Rows -/

section Rows
variable {α β γ : Type} [LinearOrder β] [AddCommGroup γ] [LinearOrder γ] [IsOrderedAddMonoid γ] {T : Table α β γ}

/-- The admissible targets of a source with their scores, best first. -/
def row (T : Table α β γ) (a : α) : List (γ × β) :=
  sortedBy (fun p => toLex (-p.1, p.2)) (T.targets.filterMap fun b => (T.score a b).map fun v => (v, b))

omit [IsOrderedAddMonoid γ] in
theorem mem_row {a : α} {v : γ} {b : β} : (v, b) ∈ T.row a ↔ b ∈ T.targets ∧ T.score a b = some v := by
  simp [row]

omit [IsOrderedAddMonoid γ] in
theorem mem_row_iff_admits {a : α} (ha : a ∈ T.sources) {v : γ} {b : β} : (v, b) ∈ T.row a ↔ T.Admits a b v := by
  rw [mem_row, Admits, and_iff_right ha]

omit [IsOrderedAddMonoid γ] in
theorem row_nodup (T : Table α β γ) (a : α) : (T.row a).Nodup := by
  rw [row, nodup_sortedBy]
  refine T.targets_nodup.filterMap fun b b' p hb hb' => ?_
  simp only [Option.mem_def, Option.map_eq_some_iff] at hb hb'
  obtain ⟨v, -, rfl⟩ := hb
  obtain ⟨w, -, hw⟩ := hb'
  exact (Prod.mk.inj hw).2.symm

/-- Everything in a row scores at most its head, and ties come in target order. -/
theorem row_head_best {a : α} {v w : γ} {b b' : β} {rest : List (γ × β)} (h : T.row a = (v, b) :: rest)
    (hw : (w, b') ∈ T.row a) : w ≤ v ∧ (w = v → b ≤ b') := by
  have hle : toLex (-v, b) ≤ toLex (-w, b') := head_sortedBy_le _ h _ ((mem_sortedBy _).mp hw)
  rw [Prod.Lex.toLex_le_toLex] at hle
  rcases hle with hlt | ⟨he, hb⟩
  · have : w < v := neg_lt_neg_iff.mp hlt
    exact ⟨this.le, fun he => absurd this he.not_lt⟩
  · exact ⟨(neg_injective he).ge, fun _ => hb⟩

/-- The pick of a source is the head of its row, when that reaches the threshold. -/
theorem pick_iff_head {a : α} (ha : a ∈ T.sources) {b : β} {v : γ} :
    T.Pick a b v ↔ (T.row a).head? = some (v, b) ∧ T.threshold ≤ v := by
  constructor
  · intro h
    refine ⟨?_, h.2.1⟩
    have hmem : (v, b) ∈ T.row a := (mem_row_iff_admits ha).mpr h.1
    cases hrow : T.row a with
    | nil => rw [hrow] at hmem; cases hmem
    | cons p rest =>
      obtain ⟨w, b'⟩ := p
      have hw : T.Admits a b' w := (mem_row_iff_admits ha).mp (by rw [hrow]; simp)
      obtain ⟨h1, h2⟩ := row_head_best hrow hmem
      obtain ⟨h3, h4⟩ := h.2.2 b' w hw
      have hvw : w = v := le_antisymm h3 h1
      rw [List.head?_cons, hvw, le_antisymm (h4 hvw) (h2 hvw.symm)]
  · intro hx
    obtain ⟨hhead, hthr⟩ := hx
    obtain ⟨rest, hrow⟩ := List.head?_eq_some_iff.mp hhead
    refine ⟨(mem_row_iff_admits ha).mp (by rw [hrow]; simp), hthr, fun b' w hw => ?_⟩
    exact row_head_best hrow ((mem_row_iff_admits ha).mpr hw)

omit [IsOrderedAddMonoid γ] in
theorem Pick.near_iff {a : α} {b₀ b : β} {v : γ} (h : T.Pick a b₀ v) :
    T.Near a b ↔ ∃ w, (w, b) ∈ T.row a ∧ v - w ≤ T.margin := by
  constructor
  · intro hn
    obtain ⟨b₁, v₁, w, hp, hw, hm⟩ := hn
    obtain ⟨rfl, rfl⟩ := h.unique hp
    exact ⟨w, (mem_row_iff_admits h.1.1).mpr hw, hm⟩
  · intro hn
    obtain ⟨w, hw, hm⟩ := hn
    exact ⟨b₀, v, w, h, (mem_row_iff_admits h.1.1).mp hw, hm⟩

theorem Admits.exists_pick {a : α} {b : β} {v : γ} (h : T.Admits a b v) (hthr : T.threshold ≤ v) :
    ∃ b' w, T.Pick a b' w ∧ v ≤ w := by
  have hmem : (v, b) ∈ T.row a := (mem_row_iff_admits h.1).mpr h
  cases hrow : T.row a with
  | nil => rw [hrow] at hmem; cases hmem
  | cons p rest =>
    obtain ⟨w, b'⟩ := p
    have hle : v ≤ w := (row_head_best hrow hmem).1
    exact ⟨b', w, (pick_iff_head h.1).mpr ⟨by rw [hrow]; rfl, hthr.trans hle⟩, hle⟩

/-- A source wavers when the second entry of its row is within the margin of its pick. -/
theorem wavers_iff_second {a : α} (ha : a ∈ T.sources) {v w : γ} {b b' : β} {rest : List (γ × β)}
    (hrow : T.row a = (v, b) :: (w, b') :: rest) (hthr : T.threshold ≤ v) : T.Wavers a ↔ v - w ≤ T.margin := by
  have hp : T.Pick a b v := (pick_iff_head ha).mpr ⟨by rw [hrow]; rfl, hthr⟩
  have hw : T.Admits a b' w := (mem_row_iff_admits ha).mp (by rw [hrow]; simp)
  have hnodup := T.row_nodup a
  rw [hrow] at hnodup
  have hne : b' ≠ b := by
    rintro rfl
    obtain rfl := hw.score_unique hp.1
    simp at hnodup
  constructor
  · -- anything near, apart from the head, stands at or after the second entry
    have hlow : ∀ c u, T.Admits a c u → c ≠ b → u ≤ w := by
      intro c u hc hcb
      have hmem := (mem_row_iff_admits ha).mpr hc
      rw [hrow, List.mem_cons, Prod.mk.injEq] at hmem
      have hsorted := pairwise_sortedBy (fun p : γ × β => toLex (-p.1, p.2))
        (T.targets.filterMap fun b => (T.score a b).map fun v => (v, b))
      rw [show sortedBy _ _ = T.row a from rfl, hrow] at hsorted
      have htail := (List.pairwise_cons.mp hsorted).2
      rcases hmem with ⟨-, rfl⟩ | hmem
      · exact absurd rfl hcb
      · rcases List.mem_cons.mp hmem with he | hmem
        · exact (Prod.mk.inj he).1.le
        · have hle : toLex (-w, b') ≤ toLex (-u, c) := List.rel_of_pairwise_cons htail hmem
          rw [Prod.Lex.toLex_le_toLex] at hle
          rcases hle with hlt | ⟨he, -⟩
          · exact (neg_lt_neg_iff.mp hlt).le
          · exact (neg_injective he).ge
    have hkey : ∀ c, T.Near a c → c ≠ b → v - w ≤ T.margin := by
      rintro c ⟨b₀, v₀, u, hp₀, hc, hm⟩ hcb
      obtain ⟨rfl, rfl⟩ := hp₀.unique hp
      exact (sub_le_sub_left (hlow c u hc hcb) v₀).trans hm
    intro hx
    obtain ⟨b₁, b₂, hne', h₁, h₂⟩ := hx
    by_cases hb : b₁ = b
    · exact hkey b₂ h₂ (hb ▸ hne'.symm)
    · exact hkey b₁ h₁ hb
  · exact fun hm => (hp.wavers hw hne hm).1

omit [IsOrderedAddMonoid γ] in
/-- A source with a single admissible target does not waver. -/
theorem not_wavers_of_single {a : α} {p : γ × β} (hrow : T.row a = [p]) : ¬ T.Wavers a := by
  have hnear : ∀ c, T.Near a c → c = p.2 := by
    intro c hx
    obtain ⟨-, -, u, -, hc, -⟩ := hx
    have hmem := (mem_row_iff_admits hc.1).mpr hc
    rw [hrow, List.mem_singleton] at hmem
    rw [← hmem]
  intro hx
  obtain ⟨b₁, b₂, hne, h₁, h₂⟩ := hx
  exact hne ((hnear b₁ h₁).trans (hnear b₂ h₂).symm)

/-- A settled pair beats every admissible source of its target, except those with a much better target. -/
theorem Settles.beats_column {a a' : α} {b : β} {v v' : γ} (h : T.Settles a b) (hv : T.Admits a b v)
    (hv' : T.Admits a' b v') (hthr : T.threshold ≤ v') (hne : a' ≠ a) :
    T.margin < v - v' ∨ ∃ b' w, T.Admits a' b' w ∧ T.margin < w - v' := by
  obtain ⟨c, w, hp, -⟩ := hv'.exists_pick hthr
  by_cases hc : b = c
  · subst hc
    obtain rfl := hv'.score_unique hp.1
    exact Or.inl (h.beats_picker hv hp hne)
  · refine Or.inr ⟨c, w, hp.1, ?_⟩
    by_contra hlt
    -- otherwise `a'` wavers, and the target would carry one of its edges
    obtain ⟨hw, hn⟩ := hp.wavers hv' hc (not_lt.mp hlt)
    obtain ⟨-, -, hno, -⟩ := h
    exact hno a' (Or.inl ⟨hw, hn⟩)

end Rows

/-! ## What is left over -/

section Leftovers
variable {α β γ : Type} [LinearOrder β] [AddCommGroup γ] [LinearOrder γ] [IsOrderedAddMonoid γ] {T : Table α β γ}

/-- Whoever picks what `a` picks with a higher score leaves nothing over for `a`: no edge reaches the
    pick, and each good enough target of `a` is picked by somebody and reached by no edge. -/
def LosesFairly (T : Table α β γ) (a : α) : Prop :=
  ∀ b v, T.Pick a b v → (∀ a', ¬ T.Edge a' b) ∧ ((∃ a' v', T.Pick a' b v' ∧ v < v') →
    ∀ b' w, T.Admits a b' w → T.threshold ≤ w → (∀ a', ¬ T.Edge a' b') ∧ ∃ a' w', T.Pick a' b' w')

/-- If nobody picks `b`, each source it is good enough for is the best picker of a target no edge reaches. -/
def IgnoredFairly (T : Table α β γ) (b : β) : Prop :=
  (∀ a v, ¬ T.Pick a b v) → ∀ a v, T.Admits a b v → T.threshold ≤ v →
    ∃ b' w, T.Pick a b' w ∧ (∀ a', ¬ T.Edge a' b') ∧ ∀ a' w', T.Pick a' b' w' → w' ≤ w

omit [IsOrderedAddMonoid γ] in
theorem settled_target_iff {b : β} : (∃ a, T.Settles a b) ↔ (∀ a, ¬ T.Edge a b) ∧ ∃ a v, T.Pick a b v := by
  constructor
  · intro h
    obtain ⟨a, hs⟩ := id h
    have hno : ∀ a', ¬ T.Edge a' b := fun a' he => he.not_settles_target hs
    exact ⟨hno, (target_settled_iff hno).mp h⟩
  · exact fun h => (target_settled_iff h.1).mpr h.2

/-- A source that does not settle finds each good enough target settled, exactly when it loses fairly. -/
theorem losesFairly_iff {a : α} : T.LosesFairly a ↔
    ((∀ b, ¬ T.Settles a b) → ∀ b v, T.Admits a b v → T.threshold ≤ v → ∃ a', T.Settles a' b) := by
  constructor
  · intro h hns b v hv hthr
    obtain ⟨b₀, w, hp, -⟩ := hv.exists_pick hthr
    obtain ⟨hno, hfair⟩ := h b₀ w hp
    rcases hp.lost (hns b₀) with ⟨a', he⟩ | hbetter
    · exact absurd he (hno a')
    · exact settled_target_iff.mpr (hfair hbetter b v hv hthr)
  · intro h b v hp
    by_cases hs : ∃ b', T.Settles a b'
    · obtain ⟨b', u, hp', hno, hbest⟩ := hs
      obtain ⟨rfl, rfl⟩ := hp.unique hp'
      refine ⟨hno, fun hbetter => ?_⟩
      obtain ⟨a', v', hp', hlt⟩ := hbetter
      exact absurd (hbest a' v' hp') hlt.not_ge
    · have hsettled := h (not_exists.mp hs)
      refine ⟨(settled_target_iff.mp (hsettled b v hp.1 hp.2.1)).1, fun _ b' w hw hthr => ?_⟩
      exact settled_target_iff.mp (hsettled b' w hw hthr)

omit [IsOrderedAddMonoid γ] in
/-- A target no edge reaches that does not settle finds each source it is good enough for settled,
    exactly when it is ignored fairly. -/
theorem ignoredFairly_iff {b : β} (hno : ∀ a, ¬ T.Edge a b) : T.IgnoredFairly b ↔
    ((∀ a, ¬ T.Settles a b) → ∀ a v, T.Admits a b v → T.threshold ≤ v → ∃ b', T.Settles a b') := by
  have hiff : (∀ a, ¬ T.Settles a b) ↔ ∀ a v, ¬ T.Pick a b v := by
    rw [← not_exists, target_settled_iff hno]
    simp only [not_exists]
  rw [hiff]
  rfl

end Leftovers

/-! ## A table against itself -/

section Diagonal
variable {α γ : Type} [LinearOrder α] [AddCommGroup γ] [LinearOrder γ] [IsOrderedAddMonoid γ] {T : Table α α γ}

/-- A table between a set and itself: symmetric, and every element is its own best counterpart. -/
structure Diagonal (T : Table α α γ) (top : γ) : Prop where
  same : ∀ a, a ∈ T.sources ↔ a ∈ T.targets
  symm : ∀ a b, T.score a b = T.score b a
  self : ∀ a ∈ T.sources, T.score a a = some top
  bounded : ∀ a b v, T.score a b = some v → v ≤ top
  threshold_le : T.threshold ≤ top

variable {top : γ}

omit [LinearOrder α] [IsOrderedAddMonoid γ] in
theorem Diagonal.admits_self (h : T.Diagonal top) {a : α} (ha : a ∈ T.sources) : T.Admits a a top :=
  ⟨ha, (h.same a).mp ha, h.self a ha⟩

omit [LinearOrder α] [IsOrderedAddMonoid γ] in
theorem Diagonal.admits_symm (h : T.Diagonal top) {a b : α} {v : γ} (hv : T.Admits a b v) : T.Admits b a v :=
  ⟨(h.same b).mpr hv.2.1, (h.same a).mp hv.1, by rw [h.symm]; exact hv.2.2⟩

omit [IsOrderedAddMonoid γ] in
theorem Diagonal.pick_score (h : T.Diagonal top) {a b : α} {v : γ} (hp : T.Pick a b v) : v = top :=
  le_antisymm (h.bounded a b v hp.1.2.2) (hp.2.2 a top (h.admits_self hp.1.1)).1

theorem Diagonal.exists_pick (h : T.Diagonal top) {a : α} (ha : a ∈ T.sources) : ∃ b, T.Pick a b top := by
  obtain ⟨b, w, hp, -⟩ := (h.admits_self ha).exists_pick h.threshold_le
  obtain rfl := h.pick_score hp
  exact ⟨b, hp⟩

/-- An element near to another one wavers: it is just as near to itself. -/
theorem Diagonal.wavers_of_admits (h : T.Diagonal top) {a b : α} {w : γ} (hw : T.Admits a b w) (hne : b ≠ a)
    (hm : top - w ≤ T.margin) : T.Wavers a ∧ T.Near a a := by
  obtain ⟨c, hp⟩ := h.exists_pick hw.1
  have hself : T.Near a a := ⟨c, top, top, hp, h.admits_self hw.1, by rw [sub_self]; exact T.margin_nonneg⟩
  exact ⟨⟨b, a, hne, ⟨c, top, w, hp, hw, hm⟩, hself⟩, hself⟩

/-- An element wavers exactly when it is within the margin of another one. -/
theorem Diagonal.wavers_iff (h : T.Diagonal top) {a : α} :
    T.Wavers a ↔ ∃ b, b ≠ a ∧ ∃ w, T.Admits a b w ∧ top - w ≤ T.margin := by
  constructor
  · intro hw
    have hnear : ∀ b, T.Near a b → ∃ w, T.Admits a b w ∧ top - w ≤ T.margin := by
      intro b hb
      obtain ⟨b₀, v, w, hp, hab, hm⟩ := hb
      obtain rfl := h.pick_score hp
      exact ⟨w, hab, hm⟩
    obtain ⟨b, b', hne, hb, hb'⟩ := hw
    by_cases ha : b = a
    · exact ⟨b', fun hb' => hne (ha.trans hb'.symm), hnear b' hb'⟩
    · exact ⟨b, ha, hnear b hb⟩
  · intro hx
    obtain ⟨b, hne, w, hw, hm⟩ := hx
    exact (h.wavers_of_admits hw hne hm).1

/-- An edge at a target makes that element waver on its own side. -/
theorem Diagonal.wavers_of_edge (h : T.Diagonal top) {a b : α} (he : T.Edge a b) : T.Wavers b := by
  have hpicked : ∀ c, c ≠ b → (∃ v, T.Pick c b v) → T.Wavers b := by
    intro c hc hx
    obtain ⟨v, hp⟩ := hx
    obtain rfl := h.pick_score hp
    exact (h.wavers_of_admits (h.admits_symm hp.1) hc (by rw [sub_self]; exact T.margin_nonneg)).1
  rcases he with ⟨hw, b₀, v, w, hp, hab, hm⟩ | ⟨⟨a₁, a₂, hne, ⟨v₁, h₁, -⟩, ⟨v₂, h₂, -⟩⟩, -⟩
  · by_cases hb : a = b
    · exact hb ▸ hw
    · obtain rfl := h.pick_score hp
      exact (h.wavers_of_admits (h.admits_symm hab) hb hm).1
  · by_cases hb : a₁ = b
    · exact hpicked a₂ (hb ▸ hne.symm) ⟨v₂, h₂⟩
    · exact hpicked a₁ hb ⟨v₁, h₁⟩

/-- Against itself, an element that does not waver settles with itself. -/
theorem Diagonal.settles_self (h : T.Diagonal top) {a : α} (ha : a ∈ T.sources) (hw : ¬ T.Wavers a) :
    T.Settles a a := by
  obtain ⟨b, hp⟩ := h.exists_pick ha
  have hb : b = a := by
    by_contra hne
    exact hw (h.wavers_of_admits hp.1 hne (by rw [sub_self]; exact T.margin_nonneg)).1
  subst hb
  refine ⟨top, hp, fun a' he => hw (h.wavers_of_edge he), fun a' v' hp' => (h.pick_score hp').le⟩

/-- Against itself, an element that wavers is an edge with itself. -/
theorem Diagonal.edge_self (h : T.Diagonal top) {a : α} (hw : T.Wavers a) : T.Edge a a := by
  have ha : a ∈ T.sources := by
    obtain ⟨_, _, _, ⟨_, _, _, _, hin, _⟩, _⟩ := hw
    exact hin.1
  obtain ⟨c, hp⟩ := h.exists_pick ha
  exact Or.inl ⟨hw, c, top, top, hp, h.admits_self ha, by rw [sub_self]; exact T.margin_nonneg⟩

/-- Against itself, nothing settles with anything but itself. -/
theorem Diagonal.eq_of_settles (h : T.Diagonal top) {a b : α} (hs : T.Settles a b) : a = b := by
  obtain ⟨v, hp⟩ := hs.pick
  exact (h.settles_self hp.1.1 hs.not_wavers).target_unique hs

omit [IsOrderedAddMonoid γ] in
/-- Against itself, an edge is within the margin of the top. -/
theorem Diagonal.edge_score (h : T.Diagonal top) {a b : α} {w : γ} (he : T.Edge a b) (hw : T.Admits a b w) :
    top - w ≤ T.margin := by
  rcases he with ⟨-, b₀, v, w', hp, hab, hm⟩ | ⟨-, v, hp, -⟩
  · obtain rfl := h.pick_score hp
    obtain rfl := hw.score_unique hab
    exact hm
  · obtain rfl := h.pick_score hp
    rw [hw.score_unique hp.1, sub_self]
    exact T.margin_nonneg

end Diagonal

end Table
end Reconciliation.Base.ClearChoice

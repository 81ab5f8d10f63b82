/-
  Reconciliation.Matching.ScoreTable — the matcher's lists as a table of scores.

  The free nodes and their admissible scores form a `ClearChoice.Table` whose rows are the
  scored rows of the matcher (`admits_iff`). The edges the matcher collects are exactly the
  edges of the table (`mem_sortedEdges`), and the pairs its greedy loop takes exactly the
  settled pairs (`mem_settledPairs`). Pairs that share an id are one to one
  (`sharedIdPairs_unique`).
-/
import Reconciliation.Base.ClearChoice
import Reconciliation.Matching.Matcher

namespace Reconciliation.Matching

open Reconciliation.Base Reconciliation.Base.ClearChoice Reconciliation.Contracts Reconciliation.Evidence

/-! ## Pairs that share an id -/

section SharedIds

/-- One step of the index adds the node under its id, or nothing. -/
theorem get?_indexById {duplicates : List String} {index : Dict String NodeEvidence} {x : NodeEvidence} {i : String} :
    (indexById duplicates index x).get? i =
      if x.persistentId = some i ∧ i ∉ duplicates then some x else index.get? i := by
  unfold indexById
  cases hx : x.persistentId with
  | none => simp
  | some j =>
    simp only [Option.some.injEq]
    by_cases hj : j ∈ duplicates
    · have : ¬ (j = i ∧ i ∉ duplicates) := fun h => h.2 (h.1 ▸ hj)
      rw [if_pos hj, if_neg this]
    · rw [if_neg hj, Dict.get?_insert]
      by_cases hij : i = j
      · subst hij
        simp [hj]
      · rw [if_neg hij, if_neg fun h => hij h.1.symm]

/-- What the index of unique ids holds is a node with that id, and the id is no duplicate. -/
theorem uniqueIdIndex_sound {evidence : KeyedEvidence} {duplicates : List String} {i : String} {ev : NodeEvidence}
    (h : (uniqueIdIndex evidence duplicates).get? i = some ev) :
    evidence.val.get? ev.nodeRef = some ev ∧ ev.persistentId = some i ∧ i ∉ duplicates := by
  have key : ∀ (l : List NodeEvidence) (index : Dict String NodeEvidence),
      (l.foldl (indexById duplicates) index).get? i = some ev →
      index.get? i = some ev ∨ (ev ∈ l ∧ ev.persistentId = some i ∧ i ∉ duplicates) := by
    intro l
    induction l with
    | nil => exact fun index h => Or.inl h
    | cons x l ih =>
      intro index h
      rcases ih _ h with h | ⟨hm, hi⟩
      · rw [get?_indexById] at h
        split at h
        · rename_i hx
          cases h
          exact Or.inr ⟨List.mem_cons_self, hx⟩
        · exact Or.inl h
      · exact Or.inr ⟨List.mem_cons_of_mem x hm, hi⟩
  rcases key _ _ h with h | ⟨hm, hi⟩
  · simp [Dict.empty, Dict.get?] at h
  · obtain ⟨⟨ref, ev'⟩, he, rfl⟩ := List.mem_map.mp hm
    have he' := (Dict.mem_sorted _).mp he
    have hkey : ev'.nodeRef = ref := evidence.property _ he'
    exact ⟨evidence.val.get?_eq_some.mpr (hkey ▸ he'), hi⟩

/-- A node whose id no other node has is in the index under its id. -/
theorem uniqueIdIndex_complete {evidence : KeyedEvidence} {duplicates : List String} {i : String} {ev : NodeEvidence}
    (hev : evidence.val.get? ev.nodeRef = some ev) (hid : ev.persistentId = some i) (hdup : i ∉ duplicates)
    (hunique : ∀ ref ev', evidence.val.get? ref = some ev' → ev'.persistentId = some i → ev' = ev) :
    (uniqueIdIndex evidence duplicates).get? i = some ev := by
  have key : ∀ (l : List NodeEvidence) (index : Dict String NodeEvidence),
      (∀ ev' ∈ l, ev'.persistentId = some i → ev' = ev) → (ev ∈ l ∨ index.get? i = some ev) →
      (l.foldl (indexById duplicates) index).get? i = some ev := by
    intro l
    induction l with
    | nil => exact fun index _ h => h.resolve_left List.not_mem_nil
    | cons x l ih =>
      intro index hl h
      refine ih _ (fun ev' hm => hl ev' (List.mem_cons_of_mem x hm)) ?_
      rw [get?_indexById]
      split
      · rename_i hx
        exact Or.inr (congrArg some (hl x List.mem_cons_self hx.1))
      · rename_i hx
        rcases h with h | h
        · rcases List.mem_cons.mp h with rfl | h
          · exact absurd ⟨hid, hdup⟩ hx
          · exact Or.inl h
        · exact Or.inr h
  refine key _ _ ?_ (Or.inl ?_)
  · intro ev' hm
    obtain ⟨⟨ref, e⟩, he, rfl⟩ := List.mem_map.mp hm
    exact hunique ref e (evidence.val.get?_eq_some.mpr ((Dict.mem_sorted _).mp he))
  · exact List.mem_map.mpr ⟨_, (Dict.mem_sorted _).mpr (evidence.val.get?_eq_some.mp hev), rfl⟩

variable {evidence : EvidenceIndex} {p q : NodeEvidence × NodeEvidence}

theorem mem_sharedIdPairs : p ∈ sharedIdPairs evidence ↔
    ∃ i, (uniqueIdIndex evidence.source evidence.duplicateSourceIds).get? i = some p.1 ∧
      (uniqueIdIndex evidence.target evidence.duplicateTargetIds).get? i = some p.2 := by
  unfold sharedIdPairs
  simp only [List.mem_filterMap, mem_sortedBy, List.mem_filter, decide_eq_true_eq, Dict.mem_keys]
  constructor
  · intro h
    obtain ⟨i, ⟨⟨s, hs⟩, ⟨t, ht⟩⟩, hp⟩ := h
    rw [hs, ht] at hp
    cases hp
    exact ⟨i, hs, ht⟩
  · intro h
    obtain ⟨i, hs, ht⟩ := h
    exact ⟨i, ⟨⟨_, hs⟩, ⟨_, ht⟩⟩, by rw [hs, ht]⟩

/-- The two nodes of a pair are in the evidence and have the id the pair stands under. -/
theorem sharedIdPairs_sound (h : p ∈ sharedIdPairs evidence) :
    evidence.source.val.get? p.1.nodeRef = some p.1 ∧ evidence.target.val.get? p.2.nodeRef = some p.2 ∧
      ∃ i, p.1.persistentId = some i ∧ p.2.persistentId = some i ∧ i ∉ evidence.duplicateSourceIds ∧
        i ∉ evidence.duplicateTargetIds := by
  obtain ⟨i, hs, ht⟩ := mem_sharedIdPairs.mp h
  obtain ⟨hs1, hs2, hs3⟩ := uniqueIdIndex_sound hs
  obtain ⟨ht1, ht2, ht3⟩ := uniqueIdIndex_sound ht
  exact ⟨hs1, ht1, i, hs2, ht2, hs3, ht3⟩

/-- A pair is determined by its source node, and by its target node. -/
theorem sharedIdPairs_unique (hp : p ∈ sharedIdPairs evidence) (hq : q ∈ sharedIdPairs evidence)
    (h : p.1.nodeRef = q.1.nodeRef ∨ p.2.nodeRef = q.2.nodeRef) : p = q := by
  obtain ⟨i, hs, ht⟩ := mem_sharedIdPairs.mp hp
  obtain ⟨j, hs', ht'⟩ := mem_sharedIdPairs.mp hq
  have hij : i = j := by
    obtain ⟨a1, a2, -⟩ := uniqueIdIndex_sound hs
    obtain ⟨b1, b2, -⟩ := uniqueIdIndex_sound hs'
    obtain ⟨c1, c2, -⟩ := uniqueIdIndex_sound ht
    obtain ⟨d1, d2, -⟩ := uniqueIdIndex_sound ht'
    rcases h with h | h
    · rw [h, b1] at a1
      rw [← Option.some.inj a1, b2] at a2
      exact (Option.some.inj a2).symm
    · rw [h, d1] at c1
      rw [← Option.some.inj c1, d2] at c2
      exact (Option.some.inj c2).symm
  subst hij
  rw [hs] at hs'
  rw [ht] at ht'
  exact Prod.ext (Option.some.inj hs') (Option.some.inj ht')

theorem sharedIdPairs_nodup (evidence : EvidenceIndex) : (sharedIdPairs evidence).Nodup := by
  unfold sharedIdPairs
  refine List.Nodup.filterMap ?_ ((nodup_sortedBy id).mpr ((Dict.nodup _).filter _))
  intro i j p hi hj
  simp only [Option.mem_def] at hi hj
  split at hi
  · rename_i s t hs ht
    split at hj
    · rename_i s' t' hs' ht'
      cases hi
      cases hj
      have hi' := (uniqueIdIndex_sound hs).2.1
      rw [(uniqueIdIndex_sound hs').2.1] at hi'
      exact (Option.some.inj hi').symm
    · cases hj
  · cases hi

end SharedIds

/-! ## The score table -/

section ScoreTable
variable (evidence : EvidenceIndex) (profile : MatchingProfile)

/-- The pairs the authoritative phase confirms. -/
def authoritativePairs : List (NodeEvidence × NodeEvidence) :=
  if .persistentId ∈ profile.authoritativeIdFeatures then
    (sharedIdPairs evidence).filter fun p => Compatible p.1 p.2 profile
  else []

def Authoritative (s t : NodeRef) : Prop :=
  ∃ p ∈ authoritativePairs evidence profile, p.1.nodeRef = s ∧ p.2.nodeRef = t

instance (s t : NodeRef) : Decidable (Authoritative evidence profile s t) :=
  inferInstanceAs (Decidable (∃ p ∈ authoritativePairs evidence profile, p.1.nodeRef = s ∧ p.2.nodeRef = t))

def freeSources : List NodeRef :=
  freeRefs evidence.source ((authoritativePairs evidence profile).map fun p => p.1.nodeRef)

def freeTargets : List NodeRef :=
  freeRefs evidence.target ((authoritativePairs evidence profile).map fun p => p.2.nodeRef)

theorem freeRefs_nodup (evidence : KeyedEvidence) (matched : List NodeRef) : (freeRefs evidence matched).Nodup :=
  (nodup_sortedBy id).mpr (evidence.val.nodup.filter _)

/-- The free nodes with their admissible scores. -/
def table : Table NodeRef NodeRef ℚ where
  sources := freeSources evidence profile
  targets := freeTargets evidence profile
  score := admissibleScore evidence profile
  threshold := profile.matchThreshold
  margin := profile.ambiguityMargin
  sources_nodup := freeRefs_nodup _ _
  targets_nodup := freeRefs_nodup _ _
  margin_nonneg := profile.ambiguityMargin_range.1

variable {evidence profile} {s t : NodeRef}

theorem mem_freeRefs {evidence : KeyedEvidence} {matched : List NodeRef} {ref : NodeRef} :
    ref ∈ freeRefs evidence matched ↔ ref ∈ evidence.val.keys ∧ ref ∉ matched := by
  simp [freeRefs]

theorem mem_freeSources :
    s ∈ freeSources evidence profile ↔ s ∈ evidence.source.val.keys ∧ ∀ t, ¬ Authoritative evidence profile s t := by
  rw [freeSources, mem_freeRefs]
  refine and_congr_right fun _ => ?_
  simp only [List.mem_map, not_exists, not_and, Authoritative]
  exact ⟨fun h t p hp hs _ => h p hp hs, fun h p hp hs => h _ p hp hs rfl⟩

theorem mem_freeTargets :
    t ∈ freeTargets evidence profile ↔ t ∈ evidence.target.val.keys ∧ ∀ s, ¬ Authoritative evidence profile s t := by
  rw [freeTargets, mem_freeRefs]
  refine and_congr_right fun _ => ?_
  simp only [List.mem_map, not_exists, not_and, Authoritative]
  exact ⟨fun h s p hp _ ht => h p hp ht, fun h p hp ht => h _ p hp rfl ht⟩

theorem mem_authoritativePairs {p : NodeEvidence × NodeEvidence} :
    p ∈ authoritativePairs evidence profile ↔
      .persistentId ∈ profile.authoritativeIdFeatures ∧ p ∈ sharedIdPairs evidence ∧ Compatible p.1 p.2 profile := by
  unfold authoritativePairs
  by_cases h : .persistentId ∈ profile.authoritativeIdFeatures
  · simp [h]
  · simp [h]

theorem Authoritative.target_unique {t' : NodeRef} (h : Authoritative evidence profile s t)
    (h' : Authoritative evidence profile s t') : t = t' := by
  obtain ⟨p, hp, rfl, rfl⟩ := h
  obtain ⟨q, hq, hs, rfl⟩ := h'
  rw [sharedIdPairs_unique (mem_authoritativePairs.mp hp).2.1 (mem_authoritativePairs.mp hq).2.1 (Or.inl hs.symm)]

theorem Authoritative.source_unique {s' : NodeRef} (h : Authoritative evidence profile s t)
    (h' : Authoritative evidence profile s' t) : s = s' := by
  obtain ⟨p, hp, rfl, rfl⟩ := h
  obtain ⟨q, hq, rfl, ht⟩ := h'
  rw [sharedIdPairs_unique (mem_authoritativePairs.mp hp).2.1 (mem_authoritativePairs.mp hq).2.1 (Or.inr ht.symm)]

/-- A pair has an admissible score when no hard constraint stands against it, and the score
    reaches the probable threshold. -/
theorem admissibleScore_eq_some {v : ℚ} : admissibleScore evidence profile s t = some v ↔
    ∃ source target, evidence.source.val.get? s = some source ∧ evidence.target.val.get? t = some target ∧
      Compatible source target profile ∧ (scorePair source target profile).value = v ∧ profile.probableThreshold ≤ v := by
  unfold admissibleScore
  constructor
  · intro h
    split at h
    · rename_i source target hsource htarget
      split at h
      · cases h
      · rename_i hc
        simp only at h
        split at h
        · rename_i hv
          cases h
          exact ⟨source, target, hsource, htarget, not_not.mp hc, rfl, hv⟩
        · cases h
    · cases h
  · intro h
    obtain ⟨source, target, hsource, htarget, hc, rfl, hv⟩ := h
    have hc' : ¬ (evaluateConstraints source target profile).1 ≠ [] := not_not.mpr hc
    simp only [hsource, htarget]
    rw [if_neg hc', if_pos hv]

/-- A pair is admissible at a score when both nodes are free and it is their admissible score. -/
theorem admits_iff {v : ℚ} : (table evidence profile).Admits s t v ↔
    s ∈ freeSources evidence profile ∧ t ∈ freeTargets evidence profile ∧
      ∃ source target, evidence.source.val.get? s = some source ∧ evidence.target.val.get? t = some target ∧
        Compatible source target profile ∧ (scorePair source target profile).value = v ∧
        profile.probableThreshold ≤ v :=
  and_congr_right fun _ => and_congr_right fun _ => admissibleScore_eq_some

end ScoreTable

/-! ## Edges -/

theorem two_le_length_iff {α : Type} [DecidableEq α] {l : List α} (h : l.Nodup) :
    2 ≤ l.length ↔ ∃ a ∈ l, ∃ b ∈ l, a ≠ b := by
  rw [← List.toFinset_card_of_nodup h]
  show 1 < l.toFinset.card ↔ _
  simpa using Finset.one_lt_card (s := l.toFinset)

/-- What ranks first has no lower score. -/
theorem score_le_of_rank_le {κ : Type} [LinearOrder κ] {v w : ℚ} {a b : κ} (h : toLex (-v, a) ≤ toLex (-w, b)) : w ≤ v := by
  rw [Prod.Lex.toLex_le_toLex] at h
  rcases h with hlt | ⟨he, -⟩
  · exact (neg_lt_neg_iff.mp hlt).le
  · exact (neg_injective he).ge

section Edges
variable {evidence : EvidenceIndex} {profile : MatchingProfile} {T : Table NodeRef NodeRef ℚ}
  (hthr : T.threshold = profile.matchThreshold) (hmar : T.margin = profile.ambiguityMargin)

include hthr hmar

/-- The source-side edges are those of a wavering source to the targets near it. -/
theorem mem_sourceSideEdges {s : NodeRef} (hs : s ∈ T.sources) {e : NodeRef × NodeRef} :
    e ∈ sourceSideEdges profile s (T.row s) ↔ e.1 = s ∧ T.Wavers s ∧ T.Near s e.2 := by
  have hpick : ∀ {b v}, T.Pick s b v ↔ (T.row s).head? = some (v, b) ∧ profile.matchThreshold ≤ v := by
    intro b v
    rw [Table.pick_iff_head hs, hthr]
  unfold sourceSideEdges
  split
  · rename_i top b second b' rest hrow
    by_cases htop : profile.matchThreshold ≤ top
    · have hp : T.Pick s b top := hpick.mpr ⟨by rw [hrow]; rfl, htop⟩
      have hw := Table.wavers_iff_second hs hrow (hthr ▸ htop)
      rw [hw, hp.near_iff, hrow, hmar]
      by_cases hm : top - second ≤ profile.ambiguityMargin
      · rw [if_pos ⟨htop, hm⟩]
        simp only [List.mem_map, List.mem_filter, decide_eq_true_eq, Prod.exists]
        constructor
        · intro h
          obtain ⟨w, c, ⟨hc, hwm⟩, rfl⟩ := h
          exact ⟨rfl, hm, w, hc, hwm⟩
        · intro h
          obtain ⟨rfl, -, w, hc, hwm⟩ := h
          exact ⟨w, e.2, ⟨hc, hwm⟩, rfl⟩
      · rw [if_neg fun h => hm h.2]
        simp [hm]
    · rw [if_neg fun h => htop h.1]
      refine ⟨fun h => absurd h List.not_mem_nil, fun h => ?_⟩
      obtain ⟨c, v, hp⟩ := h.2.1.exists_pick
      obtain ⟨hh, hv⟩ := hpick.mp hp
      rw [hrow] at hh
      cases hh
      exact absurd hv htop
  · rename_i hrow
    refine ⟨fun h => absurd h List.not_mem_nil, fun h => ?_⟩
    obtain ⟨c, v, hp⟩ := h.2.1.exists_pick
    obtain ⟨rest, hr⟩ := List.head?_eq_some_iff.mp (hpick.mp hp).1
    cases rest with
    | nil => exact absurd h.2.1 (Table.not_wavers_of_single hr)
    | cons q rest => exact absurd hr (hrow _ _ _ _ _)

omit hmar in
theorem topPick_row {s : NodeRef} (hs : s ∈ T.sources) {x : NodeRef × ℚ × NodeRef} :
    topPick profile (s, T.row s) = some x ↔ x.2.2 = s ∧ T.Pick s x.1 x.2.1 := by
  rw [Table.pick_iff_head hs, hthr]
  unfold topPick
  simp only
  cases T.row s with
  | nil => simp
  | cons p rest =>
    obtain ⟨value, t⟩ := p
    obtain ⟨t', v, s'⟩ := x
    simp only [List.head?_cons, Option.some.injEq, Prod.mk.injEq]
    constructor
    · intro h
      split at h
      · rename_i hv
        cases h
        exact ⟨rfl, ⟨rfl, rfl⟩, hv⟩
      · cases h
    · intro h
      obtain ⟨rfl, ⟨rfl, rfl⟩, hv⟩ := h
      rw [if_pos hv]

omit hmar in
theorem mem_topPicks {x : NodeRef × ℚ × NodeRef} :
    x ∈ (T.sources.map fun s => (s, T.row s)).filterMap (topPick profile) ↔ T.Pick x.2.2 x.1 x.2.1 := by
  simp only [List.mem_filterMap, List.mem_map, exists_exists_and_eq_and]
  constructor
  · intro h
    obtain ⟨s, hs, hx⟩ := h
    obtain ⟨rfl, hp⟩ := (topPick_row hthr hs).mp hx
    exact hp
  · intro hp
    exact ⟨x.2.2, hp.1.1, (topPick_row hthr hp.1.1).mpr ⟨rfl, hp⟩⟩

omit hmar in
theorem topPicks_nodup : ((T.sources.map fun s => (s, T.row s)).filterMap (topPick profile)).Nodup := by
  rw [List.filterMap_map]
  exact List.Nodup.of_map (fun x => x.2.2)
    (T.sources_nodup.sublist (map_filterMap_sublist fun s hs x hx => ((topPick_row hthr hs).mp hx).1))

omit hmar in
/-- The contenders grouped under a target are the sources that pick it. -/
theorem mem_bestByTarget {t : NodeRef} {contenders : List (ℚ × NodeRef)}
    (h : (t, contenders) ∈ (bestByTarget profile (T.sources.map fun s => (s, T.row s))).entries) :
    contenders.Nodup ∧ ∀ v s, (v, s) ∈ contenders ↔ T.Pick s t v := by
  obtain ⟨rfl, -⟩ := (Dict.mem_group _).mp h
  refine ⟨List.Nodup.map_on ?_ ((topPicks_nodup hthr).filter _), fun v s => ?_⟩
  · intro x hx y hy hxy
    have hx1 := (List.mem_filter.mp hx).2
    have hy1 := (List.mem_filter.mp hy).2
    simp only [decide_eq_true_eq] at hx1 hy1
    exact Prod.ext (hx1.trans hy1.symm) hxy
  · simp only [List.mem_map, List.mem_filter, mem_topPicks hthr, decide_eq_true_eq]
    constructor
    · intro hx
      obtain ⟨x, ⟨hp, rfl⟩, he⟩ := hx
      rw [he] at hp
      exact hp
    · intro hp
      exact ⟨(t, v, s), ⟨hp, rfl⟩, rfl⟩

omit hmar in
theorem exists_bestByTarget {s t : NodeRef} {v : ℚ} (hp : T.Pick s t v) :
    ∃ contenders, (t, contenders) ∈ (bestByTarget profile (T.sources.map fun s => (s, T.row s))).entries := by
  have hx : (t, v, s) ∈ (T.sources.map fun s => (s, T.row s)).filterMap (topPick profile) := (mem_topPicks hthr).mpr hp
  exact Dict.entry_of_mem_keys _ ((Dict.mem_keys_group _ _).mpr (List.mem_map.mpr ⟨_, hx, rfl⟩))

section Contenders
variable {t : NodeRef} {contenders : List (ℚ × NodeRef)} {top : ℚ} (hmem : ∀ v s, (v, s) ∈ contenders ↔ T.Pick s t v)
  (hbest : ∀ p ∈ contenders, p.1 ≤ top)

omit hthr in
include hmem hbest in
/-- The sources close to a target are the contenders within the margin of the best. -/
theorem close_iff_contender {s : NodeRef} (htop : (top, s) ∈ contenders) {c : NodeRef} :
    T.Close c t ↔ ∃ w, (w, c) ∈ contenders ∧ top - w ≤ profile.ambiguityMargin := by
  constructor
  · intro h
    obtain ⟨w, hc, hall⟩ := h
    exact ⟨w, (hmem w c).mpr hc, hmar ▸ hall s top ((hmem top s).mp htop)⟩
  · intro h
    obtain ⟨w, hc, hm⟩ := h
    refine ⟨w, (hmem w c).mp hc, fun a v ha => hmar ▸ le_trans ?_ hm⟩
    exact sub_le_sub_right (hbest (v, a) ((hmem v a).mpr ha)) w

omit hthr in
include hmem hbest in
/-- A target is contested when two contenders are within the margin of the best. -/
theorem contested_iff_contenders (hnodup : contenders.Nodup) {s : NodeRef} (htop : (top, s) ∈ contenders) :
    T.Contested t ↔ 2 ≤ (contenders.filter fun p => top - p.1 ≤ profile.ambiguityMargin).length := by
  have hclose := fun c => close_iff_contender hmar hmem hbest htop (c := c)
  rw [two_le_length_iff (hnodup.filter _)]
  simp only [List.mem_filter, decide_eq_true_eq]
  constructor
  · intro h
    obtain ⟨a, b, hne, ha, hb⟩ := h
    obtain ⟨v, ha, hva⟩ := (hclose a).mp ha
    obtain ⟨w, hb, hwb⟩ := (hclose b).mp hb
    exact ⟨(v, a), ⟨ha, hva⟩, (w, b), ⟨hb, hwb⟩, fun h => hne (Prod.mk.inj h).2⟩
  · intro h
    obtain ⟨⟨v, a⟩, ⟨ha, hva⟩, ⟨w, b⟩, ⟨hb, hwb⟩, hne⟩ := h
    refine ⟨a, b, fun hab => hne ?_, (hclose a).mpr ⟨v, ha, hva⟩, (hclose b).mpr ⟨w, hb, hwb⟩⟩
    subst hab
    have hvw := ((hmem v a).mp ha).1.score_unique ((hmem w a).mp hb).1
    rw [hvw]

omit hthr hmar in
include hmem in
theorem two_le_of_contested (hnodup : contenders.Nodup) (h : T.Contested t) : 2 ≤ contenders.length := by
  obtain ⟨a, b, hne, ⟨v, ha, -⟩, ⟨w, hb, -⟩⟩ := h
  exact (two_le_length_iff hnodup).mpr
    ⟨(v, a), (hmem v a).mpr ha, (w, b), (hmem w b).mpr hb, fun h => hne (Prod.mk.inj h).2⟩

end Contenders

omit hthr hmar in
/-- The first of the pairs ranked by descending score has the best score. -/
theorem ranked_best {κ : Type} [LinearOrder κ] {l : List (ℚ × κ)} {top : ℚ} {a : κ} {rest : List (ℚ × κ)}
    (hranked : sortedBy (fun p : ℚ × κ => toLex (-p.1, p.2)) l = (top, a) :: rest) : ∀ p ∈ l, p.1 ≤ top := by
  intro p hp
  have hle : toLex (-top, a) ≤ toLex (-p.1, p.2) := head_sortedBy_le _ hranked p hp
  exact score_le_of_rank_le hle

omit hthr in
/-- The target-side edges are those of a contested target from the sources close to it. -/
theorem mem_targetSideEdges {t : NodeRef} {contenders : List (ℚ × NodeRef)} (hnodup : contenders.Nodup)
    (hmem : ∀ v s, (v, s) ∈ contenders ↔ T.Pick s t v) {e : NodeRef × NodeRef} :
    e ∈ targetSideEdges profile t contenders ↔ e.2 = t ∧ T.Contested t ∧ T.Close e.1 t := by
  unfold targetSideEdges
  split
  · rename_i hlen
    refine ⟨fun h => absurd h List.not_mem_nil, fun h => ?_⟩
    have := two_le_of_contested hmem hnodup h.2.1
    omega
  rename_i hlen
  split
  · rename_i hnil
    rw [sortedBy_eq_nil] at hnil
    rw [hnil] at hlen
    simp at hlen
  rename_i top s rest hranked
  have hperm : ((top, s) :: rest).Perm contenders := hranked ▸ sortedBy_perm _ _
  have hrmem : ∀ v a, (v, a) ∈ (top, s) :: rest ↔ T.Pick a t v := fun v a => hperm.mem_iff.trans (hmem v a)
  have hbest : ∀ p ∈ (top, s) :: rest, p.1 ≤ top := fun p hp => ranked_best hranked p (hperm.mem_iff.mp hp)
  have hcontested := contested_iff_contenders hmar hrmem hbest (hperm.nodup_iff.mpr hnodup) List.mem_cons_self
  have hclose := fun c => close_iff_contender hmar hrmem hbest List.mem_cons_self (c := c)
  simp only
  split
  · rename_i htwo
    simp only [List.mem_map, List.mem_filter, decide_eq_true_eq, hcontested, htwo, true_and]
    constructor
    · intro h
      obtain ⟨⟨w, c⟩, ⟨hc, hm⟩, rfl⟩ := h
      exact ⟨rfl, (hclose c).mpr ⟨w, hc, hm⟩⟩
    · intro h
      obtain ⟨rfl, hc⟩ := h
      obtain ⟨w, hc, hm⟩ := (hclose e.1).mp hc
      exact ⟨(w, e.1), ⟨hc, hm⟩, rfl⟩
  · rename_i htwo
    exact ⟨fun h => absurd h List.not_mem_nil, fun h => absurd (hcontested.mp h.2.1) htwo⟩

/-- The matcher's edges are the edges of the table. -/
theorem mem_ambiguousEdges {e : NodeRef × NodeRef} :
    e ∈ ambiguousEdges (T.sources.map fun s => (s, T.row s)) profile ↔ T.Edge e.1 e.2 := by
  unfold ambiguousEdges
  rw [List.mem_dedup, List.mem_append]
  simp only [List.mem_flatMap, List.mem_map, exists_exists_and_eq_and]
  constructor
  · intro h
    rcases h with ⟨s, hs, he⟩ | ⟨⟨t, contenders⟩, hent, he⟩
    · obtain ⟨rfl, hw, hn⟩ := (mem_sourceSideEdges hthr hmar hs).mp he
      exact Or.inl ⟨hw, hn⟩
    · obtain ⟨hnodup, hmem⟩ := mem_bestByTarget hthr hent
      obtain ⟨rfl, hc, hclose⟩ := (mem_targetSideEdges hmar hnodup hmem).mp he
      exact Or.inr ⟨hc, hclose⟩
  · intro h
    rcases h with ⟨hw, hn⟩ | ⟨hc, hclose⟩
    · obtain ⟨b, v, hp⟩ := hw.exists_pick
      exact Or.inl ⟨e.1, hp.1.1, (mem_sourceSideEdges hthr hmar hp.1.1).mpr ⟨rfl, hw, hn⟩⟩
    · obtain ⟨v, hp, -⟩ := id hclose
      obtain ⟨contenders, hent⟩ := exists_bestByTarget hthr hp
      obtain ⟨hnodup, hmem⟩ := mem_bestByTarget hthr hent
      exact Or.inr ⟨(e.2, contenders), hent, (mem_targetSideEdges hmar hnodup hmem).mpr ⟨rfl, hc, hclose⟩⟩

end Edges

/-! ## Greedy confirmation -/

section Greedy

/-- The pair is the first in the list that has its target. -/
def First (l : List (ℚ × NodeRef × NodeRef)) (s t : NodeRef) : Prop :=
  ∃ pre v post, l = pre ++ (v, s, t) :: post ∧ ∀ c ∈ pre, c.2.2 ≠ t

theorem first_cons {c : ℚ × NodeRef × NodeRef} {l : List (ℚ × NodeRef × NodeRef)} {s t : NodeRef} :
    First (c :: l) s t ↔ c.2 = (s, t) ∨ (c.2.2 ≠ t ∧ First l s t) := by
  constructor
  · intro h
    obtain ⟨pre, v, post, he, hpre⟩ := h
    cases pre with
    | nil =>
      cases he
      exact Or.inl rfl
    | cons c' pre =>
      rw [List.cons_append, List.cons.injEq] at he
      obtain ⟨rfl, rfl⟩ := he
      exact Or.inr ⟨hpre c List.mem_cons_self, pre, v, post, rfl, fun c' hc' => hpre c' (List.mem_cons_of_mem _ hc')⟩
  · intro h
    rcases h with he | ⟨hne, pre, v, post, rfl, hpre⟩
    · exact ⟨[], c.1, l, by rw [← he]; rfl, by simp⟩
    · refine ⟨c :: pre, v, post, rfl, fun c' hc' => ?_⟩
      rcases List.mem_cons.mp hc' with rfl | hc'
      · exact hne
      · exact hpre c' hc'

/-- The loop takes a pair unless an earlier one has its target, when every source stands once
    and nothing listed is matched already. -/
theorem mem_confirmLoop {matchedTargets : List NodeRef} {l : List (ℚ × NodeRef × NodeRef)}
    {matchedSources takenTargets : List NodeRef} {s t : NodeRef} (hnodup : (l.map fun c => c.2.1).Nodup)
    (hsources : ∀ c ∈ l, c.2.1 ∉ matchedSources) (htargets : ∀ c ∈ l, c.2.2 ∉ matchedTargets) :
    (s, t) ∈ confirmLoop matchedTargets matchedSources takenTargets l ↔ t ∉ takenTargets ∧ First l s t := by
  induction l generalizing matchedSources takenTargets with
  | nil => simp [confirmLoop, First]
  | cons c l ih =>
    obtain ⟨w, s₀, t₀⟩ := c
    rw [List.map_cons, List.nodup_cons] at hnodup
    have hs₀ : s₀ ∉ matchedSources := hsources _ List.mem_cons_self
    have ht₀ : t₀ ∉ matchedTargets := htargets _ List.mem_cons_self
    have htail : ∀ c ∈ l, c.2.1 ∉ s₀ :: matchedSources := by
      intro c hc hin
      rcases List.mem_cons.mp hin with he | hin
      · exact hnodup.1 (List.mem_map.mpr ⟨c, hc, he⟩)
      · exact hsources c (List.mem_cons_of_mem _ hc) hin
    have htt : ∀ c ∈ l, c.2.2 ∉ matchedTargets := fun c hc => htargets c (List.mem_cons_of_mem _ hc)
    unfold confirmLoop
    rw [first_cons]
    by_cases htaken : t₀ ∈ takenTargets
    · -- the pair is passed over, and it is not one with a free target
      rw [if_pos (Or.inr (Or.inl htaken)), ih hnodup.2 (fun c hc => hsources c (List.mem_cons_of_mem _ hc)) htt]
      refine and_congr_right fun ht => ?_
      have hne : t₀ ≠ t := fun he => ht (he ▸ htaken)
      simp [hne]
    · -- the pair is taken, and so is its target from here on
      rw [if_neg (by simp [hs₀, htaken, ht₀]), List.mem_cons, ih hnodup.2 htail htt, List.mem_cons, not_or]
      constructor
      · intro h
        rcases h with he | ⟨⟨hne, ht⟩, hfirst⟩
        · cases he
          exact ⟨htaken, Or.inl rfl⟩
        · exact ⟨ht, Or.inr ⟨Ne.symm hne, hfirst⟩⟩
      · intro h
        obtain ⟨ht, he | ⟨hne, hfirst⟩⟩ := h
        · exact Or.inl he.symm
        · exact Or.inr ⟨⟨Ne.symm hne, ht⟩, hfirst⟩

variable {profile : MatchingProfile} {T : Table NodeRef NodeRef ℚ} (hthr : T.threshold = profile.matchThreshold)
  {edges : List (NodeRef × NodeRef)} (hedges : ∀ e, e ∈ edges ↔ T.Edge e.1 e.2)

include hthr hedges

theorem confirmablePick_row {s : NodeRef} (hs : s ∈ T.sources) {c : ℚ × NodeRef × NodeRef} :
    confirmablePick profile edges (s, T.row s) = some c ↔
      c.2.1 = s ∧ T.Pick s c.2.2 c.1 ∧ ∀ a, ¬ T.Edge a c.2.2 := by
  have hsrc : s ∈ edges.map Prod.fst ↔ ∃ b, T.Edge s b := by
    simp only [List.mem_map, hedges, Prod.exists, exists_and_right, exists_eq_right]
  have htgt : ∀ b, b ∈ edges.map Prod.snd ↔ ∃ a, T.Edge a b := by
    intro b
    simp only [List.mem_map, hedges, Prod.exists, exists_eq_right]
  unfold confirmablePick
  constructor
  · intro h
    split at h
    · cases h
    split at h
    · cases h
    · rename_i t v s' hpick
      split at h
      · rename_i hno
        cases h
        obtain ⟨rfl, hp⟩ := (topPick_row hthr hs).mp hpick
        exact ⟨rfl, hp, fun a he => hno ((htgt t).mpr ⟨a, he⟩)⟩
      · cases h
  · intro h
    obtain ⟨rfl, hp, hno⟩ := h
    have hpick : topPick profile (c.2.1, T.row c.2.1) = some (c.2.2, c.1, c.2.1) := (topPick_row hthr hs).mpr ⟨rfl, hp⟩
    have hs' : c.2.1 ∉ edges.map Prod.fst := fun hin => by
      obtain ⟨b, he⟩ := hsrc.mp hin
      exact hno _ (he.at_pick hp)
    have ht' : c.2.2 ∉ edges.map Prod.snd := fun hin => by
      obtain ⟨a, he⟩ := (htgt _).mp hin
      exact hno a he
    simp only [if_neg hs', hpick, if_pos ht']

/-- What is confirmable are the picks whose target no edge reaches. -/
theorem mem_confirmable {v : ℚ} {s t : NodeRef} :
    (v, s, t) ∈ confirmable profile (T.sources.map fun s => (s, T.row s)) edges ↔
      T.Pick s t v ∧ ∀ a, ¬ T.Edge a t := by
  unfold confirmable
  simp only [mem_sortedBy, List.mem_filterMap, List.mem_map, exists_exists_and_eq_and]
  constructor
  · intro h
    obtain ⟨a, ha, hx⟩ := h
    obtain ⟨rfl, hp⟩ := (confirmablePick_row hthr hedges ha).mp hx
    exact hp
  · intro hp
    exact ⟨s, hp.1.1.1, (confirmablePick_row hthr hedges hp.1.1.1).mpr ⟨rfl, hp⟩⟩

theorem confirmable_nodup :
    ((confirmable profile (T.sources.map fun s => (s, T.row s)) edges).map fun c => c.2.1).Nodup := by
  unfold confirmable
  rw [((sortedBy_perm _ _).map _).nodup_iff, List.filterMap_map]
  exact T.sources_nodup.sublist
    (map_filterMap_sublist fun s hs c hc => ((confirmablePick_row hthr hedges hs).mp hc).1)

/-- Greedy confirmation takes exactly the settled pairs. -/
theorem mem_confirmLoop_settles {matchedSources matchedTargets : List NodeRef}
    (hsources : ∀ s ∈ T.sources, s ∉ matchedSources) (htargets : ∀ t ∈ T.targets, t ∉ matchedTargets) {s t : NodeRef} :
    (s, t) ∈ confirmLoop matchedTargets matchedSources []
        (confirmable profile (T.sources.map fun s => (s, T.row s)) edges) ↔ T.Settles s t := by
  have hmem := fun v s t => mem_confirmable (v := v) (s := s) (t := t) hthr hedges
  have hnodup := confirmable_nodup hthr hedges
  have hsorted := pairwise_sortedBy (fun c : ℚ × NodeRef × NodeRef => toLex (-c.1, toLex c.2))
  have hin : ∀ c ∈ confirmable profile (T.sources.map fun s => (s, T.row s)) edges,
      c.2.1 ∈ T.sources ∧ c.2.2 ∈ T.targets := by
    intro c hc
    obtain ⟨v, s, t⟩ := c
    have hp := ((hmem v s t).mp hc).1
    exact ⟨hp.1.1, hp.1.2.1⟩
  rw [mem_confirmLoop hnodup (fun c hc => hsources _ (hin c hc).1) fun c hc => htargets _ (hin c hc).2]
  have hpair : (confirmable profile (T.sources.map fun s => (s, T.row s)) edges).Pairwise
      fun a b => toLex (-a.1, toLex a.2) ≤ toLex (-b.1, toLex b.2) := hsorted _
  constructor
  · intro h
    obtain ⟨-, pre, v, post, hl, hpre⟩ := h
    obtain ⟨hp, hno⟩ := (hmem v s t).mp (by rw [hl]; simp)
    refine ⟨v, hp, hno, fun a' v' hp' => ?_⟩
    have hc : (v', a', t) ∈ pre ++ (v, s, t) :: post := hl ▸ (hmem v' a' t).mpr ⟨hp', hno⟩
    rcases List.mem_append.mp hc with hc | hc
    · exact absurd rfl (hpre _ hc)
    rcases List.mem_cons.mp hc with he | hc
    · exact (Prod.mk.inj he).1.le
    rw [hl] at hpair
    have hle : toLex (-v, toLex (s, t)) ≤ toLex (-v', toLex (a', t)) :=
      List.rel_of_pairwise_cons (List.pairwise_append.mp hpair).2.1 hc
    exact score_le_of_rank_le hle
  · intro h
    obtain ⟨v, hp, hno, hbest⟩ := id h
    obtain ⟨pre, post, hl⟩ := List.append_of_mem ((hmem v s t).mpr ⟨hp, hno⟩)
    refine ⟨List.not_mem_nil, pre, v, post, hl, fun c hc he => ?_⟩
    obtain ⟨w, a, t'⟩ := c
    obtain rfl : t' = t := he
    have hpa := ((hmem w a t').mp (by rw [hl]; simp [hc])).1
    rw [hl] at hpair hnodup
    have hle : toLex (-w, toLex (a, t')) ≤ toLex (-v, toLex (s, t')) :=
      (List.pairwise_append.mp hpair).2.2 _ hc _ List.mem_cons_self
    -- an earlier picker is as good, so it settles too, and is the same source twice
    obtain rfl : w = v := le_antisymm (hbest a w hpa) (score_le_of_rank_le hle)
    obtain rfl : s = a := h.source_unique ⟨w, hpa, hno, hbest⟩
    rw [List.map_append, List.map_cons] at hnodup
    exact (List.nodup_append.mp hnodup).2.2 s (List.mem_map.mpr ⟨_, hc, rfl⟩) s List.mem_cons_self rfl

end Greedy

/-! ## The lists behind a graph -/

section Lists
variable (evidence : EvidenceIndex) (profile : MatchingProfile)

def scoredRows : List (NodeRef × List (ℚ × NodeRef)) :=
  (freeSources evidence profile).map fun s => (s, scoredRow evidence profile (freeTargets evidence profile) s)

/-- The ambiguous edges in the order they are emitted. -/
def sortedEdges : List (NodeRef × NodeRef) := sortedBy toLex (ambiguousEdges (scoredRows evidence profile) profile)

/-- The pairs greedy confirmation takes, in order. -/
def settledPairs : List (NodeRef × NodeRef) :=
  confirmLoop ((authoritativePairs evidence profile).map fun p => p.2.nodeRef)
    ((authoritativePairs evidence profile).map fun p => p.1.nodeRef) []
    (confirmable profile (scoredRows evidence profile) (ambiguousEdges (scoredRows evidence profile) profile))

/-- The pairs the authoritative phase emits, confirmed or rejected. -/
def emittedIdPairs : List (NodeEvidence × NodeEvidence) :=
  if .persistentId ∈ profile.authoritativeIdFeatures then sharedIdPairs evidence else []

variable {evidence profile} {s t : NodeRef}

theorem mem_emittedIdPairs {p : NodeEvidence × NodeEvidence} : p ∈ emittedIdPairs evidence profile ↔
    .persistentId ∈ profile.authoritativeIdFeatures ∧ p ∈ sharedIdPairs evidence := by
  unfold emittedIdPairs
  by_cases h : .persistentId ∈ profile.authoritativeIdFeatures
  · simp [h]
  · simp [h]

/-- Of the emitted pairs, the compatible ones are authoritative. -/
theorem authoritative_iff_emitted {p : NodeEvidence × NodeEvidence} :
    p ∈ authoritativePairs evidence profile ↔ p ∈ emittedIdPairs evidence profile ∧ Compatible p.1 p.2 profile := by
  rw [mem_authoritativePairs, mem_emittedIdPairs, and_assoc]

theorem mem_edges {e : NodeRef × NodeRef} :
    e ∈ ambiguousEdges (scoredRows evidence profile) profile ↔ (table evidence profile).Edge e.1 e.2 :=
  mem_ambiguousEdges (T := table evidence profile) rfl rfl

theorem mem_sortedEdges : (s, t) ∈ sortedEdges evidence profile ↔ (table evidence profile).Edge s t :=
  (mem_sortedBy _).trans mem_edges

theorem sortedEdges_nodup (evidence : EvidenceIndex) (profile : MatchingProfile) :
    (sortedEdges evidence profile).Nodup := (nodup_sortedBy _).mpr (List.nodup_dedup _)

theorem mem_settledPairs : (s, t) ∈ settledPairs evidence profile ↔ (table evidence profile).Settles s t := by
  refine mem_confirmLoop_settles (T := table evidence profile) rfl (fun _ => mem_edges) ?_ ?_
  · exact fun s hs => (mem_freeRefs.mp hs).2
  · exact fun t ht => (mem_freeRefs.mp ht).2

theorem confirmLoop_sublist {matchedTargets : List NodeRef} {l : List (ℚ × NodeRef × NodeRef)}
    {matchedSources takenTargets : List NodeRef} :
    ((confirmLoop matchedTargets matchedSources takenTargets l).map Prod.fst).Sublist (l.map fun c => c.2.1) := by
  induction l generalizing matchedSources takenTargets with
  | nil => exact List.Sublist.refl _
  | cons c l ih =>
    unfold confirmLoop
    split
    · exact ih.trans (List.sublist_cons_self _ _)
    · exact ih.cons_cons _

theorem settledPairs_sources_nodup (evidence : EvidenceIndex) (profile : MatchingProfile) :
    ((settledPairs evidence profile).map Prod.fst).Nodup :=
  (confirmable_nodup (T := table evidence profile) rfl fun _ => mem_edges).sublist confirmLoop_sublist

theorem settledPairs_targets_nodup (evidence : EvidenceIndex) (profile : MatchingProfile) :
    ((settledPairs evidence profile).map Prod.snd).Nodup := by
  refine List.Nodup.map_on ?_ (settledPairs_sources_nodup evidence profile).of_map
  intro x hx y hy hxy
  have hx' := mem_settledPairs.mp hx
  have hy' := mem_settledPairs.mp hy
  rw [← hxy] at hy'
  exact Prod.ext (hx'.source_unique hy') hxy

theorem authoritativePairs_nodup (evidence : EvidenceIndex) (profile : MatchingProfile) :
    ((authoritativePairs evidence profile).map fun p => p.1.nodeRef).Nodup ∧
      ((authoritativePairs evidence profile).map fun p => p.2.nodeRef).Nodup := by
  have hnodup : (authoritativePairs evidence profile).Nodup := by
    unfold authoritativePairs
    split
    · exact (sharedIdPairs_nodup evidence).filter _
    · exact List.nodup_nil
  refine ⟨hnodup.map_on fun p hp q hq h => ?_, hnodup.map_on fun p hp q hq h => ?_⟩
  · exact sharedIdPairs_unique (mem_authoritativePairs.mp hp).2.1 (mem_authoritativePairs.mp hq).2.1 (Or.inl h)
  · exact sharedIdPairs_unique (mem_authoritativePairs.mp hp).2.1 (mem_authoritativePairs.mp hq).2.1 (Or.inr h)

theorem Settles.free (h : (table evidence profile).Settles s t) :
    s ∈ freeSources evidence profile ∧ t ∈ freeTargets evidence profile := by
  obtain ⟨v, hp⟩ := h.pick
  exact ⟨hp.1.1, hp.1.2.1⟩

theorem Edge.free (h : (table evidence profile).Edge s t) :
    s ∈ freeSources evidence profile ∧ t ∈ freeTargets evidence profile := by
  obtain ⟨v, hv⟩ := h.admits
  exact ⟨hv.1, hv.2.1⟩

end Lists

end Reconciliation.Matching

/-
  Reconciliation.Matching.Guarantees — what a match graph promises.

  - Every graph is sound (`match_sound`): confirmed pairs are one to one and apart from the
    ambiguous ones, no asserted pair violates a hard constraint, every confirmed pair has a
    ground, every ambiguous one names its alternatives, and no pair is listed twice.
  - A pair confirmed by similarity is clear in its row, and in its column up to the sources
    that have a clearly better target (`similarity_clear`). Without that exception it is not:
    a source whose better target was taken by another one ends with nothing, and the pair it
    scores as well in is confirmed all the same (`second_choice_overlooked`).
  - A dominant pair is confirmed unless another source hesitates over its target
    (`dominant_confirmed_iff`); such a source does keep it from being confirmed
    (`dominant_withheld`).
-/
import Reconciliation.Base.Sequence
import Reconciliation.Builders
import Reconciliation.Matching.Correspondence

namespace Reconciliation.Matching

open Reconciliation.Base Reconciliation.Base.ClearChoice Reconciliation.Contracts Reconciliation.Evidence
  Reconciliation.Builders

/-! ## Sound graphs -/

/-- `ref` is the one node that has the persistent id `i`. -/
def HoldsAlone (evidence : KeyedEvidence) (i : String) (ref : NodeRef) : Prop :=
  ∀ r, (∃ e, evidence.val.get? r = some e ∧ e.persistentId = some i) ↔ r = ref

/-- The pair shares an authoritative persistent id that no other node of either tree has. -/
def SharesId (evidence : EvidenceIndex) (profile : MatchingProfile) (s t : NodeRef) : Prop :=
  .persistentId ∈ profile.authoritativeIdFeatures ∧
    ∃ i, HoldsAlone evidence.source i s ∧ HoldsAlone evidence.target i t

/-- The pairs a matching lists: those that share an id, those it leaves open, and those it settles. -/
def Proposed (evidence : EvidenceIndex) (profile : MatchingProfile) (s t : NodeRef) : Prop :=
  SharesId evidence profile s t ∨ (table evidence profile).Edge s t ∨ (table evidence profile).Settles s t

/-- The pair of a candidate. -/
def endpoints (c : MatchCandidate) : NodeRef × NodeRef := (c.val.sourceNodeRef, c.val.targetNodeRef)

/-- What holds of every match graph. -/
structure SoundGraph (evidence : EvidenceIndex) (profile : MatchingProfile) (g : MatchGraph) : Prop where
  sources_once : (g.confirmed.map (·.val.sourceNodeRef)).Nodup
  targets_once : (g.confirmed.map (·.val.targetNodeRef)).Nodup
  apart : ∀ c ∈ g.confirmed, ∀ d ∈ g.ambiguous,
    c.val.sourceNodeRef ≠ d.val.sourceNodeRef ∧ c.val.targetNodeRef ≠ d.val.targetNodeRef
  compatible : ∀ c ∈ g.candidates, c.val.state = .confirmed ∨ c.val.state = .ambiguous → ∃ source target,
    evidence.source.val.get? c.val.sourceNodeRef = some source ∧
      evidence.target.val.get? c.val.targetNodeRef = some target ∧ Compatible source target profile
  grounded : ∀ c ∈ g.confirmed, SharesId evidence profile c.val.sourceNodeRef c.val.targetNodeRef ∨
    profile.matchThreshold ≤ c.val.score.value
  alternatives : ∀ c ∈ g.ambiguous, c.val.alternativeMatchIds ≠ [] ∧ ∀ i ∈ c.val.alternativeMatchIds,
    ∃ d ∈ g.ambiguous, d ≠ c ∧ d.val.matchId = i ∧
      (d.val.sourceNodeRef = c.val.sourceNodeRef ∨ d.val.targetNodeRef = c.val.targetNodeRef)
  pairs_once : (g.candidates.map endpoints).Nodup

/-- An id that is no duplicate has one holder at most. -/
theorem holdsAlone_of_not_duplicate {evidence : KeyedEvidence} {i : String} {ref : NodeRef} {e : NodeEvidence}
    (he : evidence.val.get? ref = some e) (hi : e.persistentId = some i) (hdup : i ∉ duplicateIds evidence) :
    HoldsAlone evidence i ref := by
  intro r
  constructor
  · intro h
    obtain ⟨e', he', hi'⟩ := h
    by_contra hne
    have hmem : ∀ {r e}, evidence.val.get? r = some e → e ∈ evidence.val.values := fun h =>
      List.mem_map.mpr ⟨_, evidence.val.get?_eq_some.mp h, rfl⟩
    have hdiff : e ≠ e' := by
      rintro rfl
      exact hne ((nodeRef_of_get he').symm.trans (nodeRef_of_get he))
    -- two holders make the id count twice among the ids of the tree
    have hcount : 2 ≤ (evidence.val.values.filterMap NodeEvidence.persistentId).count i := by
      rcases before_or_after (hmem he) (hmem he') hdiff with hsub | hsub
      · have := (hsub.filterMap NodeEvidence.persistentId).count_le i
        simpa [hi, hi'] using this
      · have := (hsub.filterMap NodeEvidence.persistentId).count_le i
        simpa [hi, hi'] using this
    exact hdup (mem_duplicateIds.mpr hcount)
  · rintro rfl
    exact ⟨e, he, hi⟩

/-- An id with one holder is no duplicate. -/
theorem HoldsAlone.not_duplicate {evidence : KeyedEvidence} {i : String} {ref : NodeRef}
    (h : HoldsAlone evidence i ref) : i ∉ duplicateIds evidence := by
  intro hdup
  have hcount : 1 < (evidence.val.values.filter fun e => decide (e.persistentId = some i)).length := by
    have := mem_duplicateIds.mp hdup
    rw [List.count, List.countP_filterMap] at this
    rw [← List.countP_eq_length_filter]
    refine this.trans_le (List.countP_mono_left fun e _ he => ?_)
    cases hi : e.persistentId with
    | none => simp [hi] at he
    | some j =>
      simp only [hi, Option.map_some, Option.getD_some, beq_iff_eq] at he
      simp [he]
  have hvalues : evidence.val.values.Nodup := by
    refine List.Nodup.of_map NodeEvidence.nodeRef ?_
    have hkeys : evidence.val.values.map NodeEvidence.nodeRef = evidence.val.keys := by
      unfold Dict.values Dict.keys
      rw [List.map_map]
      exact List.map_congr_left fun e he => evidence.property e he
    rw [hkeys]
    exact evidence.val.nodup
  have hholder : ∀ e ∈ evidence.val.values.filter (fun e => decide (e.persistentId = some i)),
      evidence.val.get? ref = some e := by
    intro e he
    obtain ⟨hmem, hi⟩ := List.mem_filter.mp he
    obtain ⟨⟨r, e'⟩, hentry, rfl⟩ := List.mem_map.mp hmem
    have hget := evidence.val.get?_eq_some.mpr hentry
    exact (h r).mp ⟨e', hget, of_decide_eq_true hi⟩ ▸ hget
  obtain ⟨e, he, e', he', hne⟩ := (two_le_length_iff (hvalues.filter _)).mp hcount
  exact hne (Option.some.inj ((hholder e he).symm.trans (hholder e' he')))

section Sound
variable [PyRuntime] {source target : CanonicalTree} {evidence : EvidenceIndex} {profile : MatchingProfile} {g : MatchGraph}

/-- The pairs the first phase emits are those that share an id no other node has. -/
theorem emitted_iff (he : extract source target = .ok evidence) {s t : NodeRef} :
    (∃ p ∈ emittedIdPairs evidence profile, p.1.nodeRef = s ∧ p.2.nodeRef = t) ↔ SharesId evidence profile s t := by
  obtain ⟨-, -, hds, hdt⟩ := extract_ok.mp he
  constructor
  · intro h
    obtain ⟨p, hp, rfl, rfl⟩ := h
    obtain ⟨hid, hp⟩ := mem_emittedIdPairs.mp hp
    obtain ⟨hs, ht, i, his, hit, hns, hnt⟩ := sharedIdPairs_sound hp
    exact ⟨hid, i, holdsAlone_of_not_duplicate hs his (hds ▸ hns), holdsAlone_of_not_duplicate ht hit (hdt ▸ hnt)⟩
  · intro h
    obtain ⟨hid, i, hs, ht⟩ := h
    have hindexed : ∀ {ev : KeyedEvidence} {duplicates : List String} {ref : NodeRef},
        duplicates = duplicateIds ev → HoldsAlone ev i ref →
        ∃ e, (uniqueIdIndex ev duplicates).get? i = some e ∧ e.nodeRef = ref := by
      intro ev duplicates ref hdup halone
      obtain ⟨e, hget, hi⟩ := (halone ref).mpr rfl
      refine ⟨e, ?_, nodeRef_of_get hget⟩
      refine uniqueIdIndex_complete (nodeRef_of_get hget ▸ hget) hi (hdup ▸ halone.not_duplicate) fun r e' he' hi' => ?_
      obtain rfl := (halone r).mp ⟨e', he', hi'⟩
      exact Option.some.inj (he'.symm.trans hget)
    obtain ⟨a, ha, hra⟩ := hindexed hds hs
    obtain ⟨b, hb, hrb⟩ := hindexed hdt ht
    exact ⟨(a, b), mem_emittedIdPairs.mpr ⟨hid, mem_sharedIdPairs.mpr ⟨i, ha, hb⟩⟩, hra, hrb⟩

/-- An authoritative pair shares an id that no other node has. -/
theorem Authoritative.sharesId (he : extract source target = .ok evidence) {s t : NodeRef}
    (h : Authoritative evidence profile s t) : SharesId evidence profile s t := by
  obtain ⟨p, hp, hs, ht⟩ := h
  exact (emitted_iff he).mp ⟨p, (authoritative_iff_emitted.mp hp).1, hs, ht⟩

/-- The authoritative pairs are those that share an id, unless a hard constraint stands against them. -/
theorem authoritative_iff (he : extract source target = .ok evidence) {s t : NodeRef} :
    Authoritative evidence profile s t ↔ SharesId evidence profile s t ∧ ∃ a b, evidence.source.val.get? s = some a ∧
      evidence.target.val.get? t = some b ∧ Compatible a b profile := by
  constructor
  · intro h
    exact ⟨h.sharesId he, Corresponding.compatible (Or.inl h)⟩
  · intro h
    obtain ⟨hshares, a, b, ha, hb, hcomp⟩ := h
    obtain ⟨p, hp, rfl, rfl⟩ := (emitted_iff he).mpr hshares
    obtain ⟨hs, ht, -⟩ := sharedIdPairs_sound (mem_emittedIdPairs.mp hp).2
    obtain rfl := Option.some.inj (ha.symm.trans hs)
    obtain rfl := Option.some.inj (hb.symm.trans ht)
    exact ⟨p, authoritative_iff_emitted.mpr ⟨hp, hcomp⟩, rfl, rfl⟩

omit [PyRuntime] in
theorem AuthoritativeRun.endpoints {ids : List MatchCandidate} (h : AuthoritativeRun evidence profile ids) :
    ids.map endpoints = (emittedIdPairs evidence profile).map fun p => (p.1.nodeRef, p.2.nodeRef) := by
  unfold AuthoritativeRun at h
  generalize emittedIdPairs evidence profile = l at h
  induction h with
  | nil => rfl
  | @cons p c _ _ hc _ ih =>
    obtain ⟨h1, h2⟩ := authoritativeFields_refs profile p
    rw [List.map_cons, List.map_cons, ih, Matching.endpoints, hc, h1, h2]

omit [PyRuntime] in
/-- The candidates of a list of pairs have these endpoints. -/
theorem built_endpoints {fields : NodeEvidence → NodeEvidence → MatchCandidateFields}
    (hfields : ∀ source target, (fields source target).sourceNodeRef = source.nodeRef ∧
      (fields source target).targetNodeRef = target.nodeRef) {l : List (NodeRef × NodeRef)} {out : List MatchCandidate}
    (h : l.mapM (candidateFor evidence fields) = .ok out) : out.map endpoints = l := by
  have hmap := Outcome.mapM_map id endpoints (fun e _ c hc => by
    obtain ⟨source, target, hsource, htarget, he⟩ := candidateFor_ok.mp hc
    rw [endpoints, he, (hfields source target).1, (hfields source target).2, nodeRef_of_get hsource,
      nodeRef_of_get htarget]
    rfl) h
  rwa [List.map_id] at hmap

omit [PyRuntime] in
/-- The pairs of a graph: those that share an id, the edges, and the settled ones. -/
theorem endpoints_perm (hg : match_ evidence profile = .ok g) : (g.candidates.map endpoints).Perm
    ((emittedIdPairs evidence profile).map (fun p => (p.1.nodeRef, p.2.nodeRef)) ++
      (sortedEdges evidence profile ++ settledPairs evidence profile)) := by
  obtain ⟨ids, ambiguous, similar, hids, ha, hs, hcandidates⟩ := match_run.mp hg
  rw [hcandidates, ← hids.endpoints, ← built_endpoints (fun _ _ => ⟨rfl, rfl⟩) ha,
    ← built_endpoints (fun _ _ => ⟨rfl, rfl⟩) hs, ← List.map_append, ← List.map_append]
  exact (sortedBy_perm _ _).map _

omit [PyRuntime] in
theorem endpoints_nodup (hg : match_ evidence profile = .ok g) : (g.candidates.map endpoints).Nodup := by
  have hnodup : (emittedIdPairs evidence profile).Nodup := by
    unfold emittedIdPairs
    split
    · exact sharedIdPairs_nodup evidence
    · exact List.nodup_nil
  -- a pair with an id is authoritative, so not free, or incompatible, so not admissible
  have hapart : ∀ p ∈ emittedIdPairs evidence profile, ∀ v, ¬ (table evidence profile).Admits p.1.nodeRef p.2.nodeRef v := by
    intro p hp v hv
    obtain ⟨hs, -, source, target, hsource, htarget, hcomp, -⟩ := admits_iff.mp hv
    obtain ⟨hsp, htp, -⟩ := sharedIdPairs_sound (mem_emittedIdPairs.mp hp).2
    obtain rfl := Option.some.inj (hsource.symm.trans hsp)
    obtain rfl := Option.some.inj (htarget.symm.trans htp)
    exact (mem_freeSources.mp hs).2 _ ⟨p, authoritative_iff_emitted.mpr ⟨hp, hcomp⟩, rfl, rfl⟩
  rw [(endpoints_perm hg).nodup_iff, List.nodup_append, List.nodup_append]
  refine ⟨?_, ⟨sortedEdges_nodup _ _, (settledPairs_sources_nodup _ _).of_map, ?_⟩, ?_⟩
  · exact hnodup.map_on fun p hp q hq h => sharedIdPairs_unique (mem_emittedIdPairs.mp hp).2 (mem_emittedIdPairs.mp hq).2
      (Or.inl (Prod.mk.inj h).1)
  · rintro ⟨s, t⟩ hedge x hsettled rfl
    exact (mem_sortedEdges.mp hedge).not_settles_target (mem_settledPairs.mp hsettled)
  · intro a ha b hb hab
    obtain ⟨p, hp, rfl⟩ := List.mem_map.mp ha
    subst hab
    rcases List.mem_append.mp hb with hb | hb
    · obtain ⟨v, hv⟩ := (mem_sortedEdges.mp hb).admits
      exact hapart p hp v hv
    · obtain ⟨v, hv⟩ := (mem_settledPairs.mp hb).pick
      exact hapart p hp v hv.1

/-- The candidates of a graph are the proposed pairs. -/
theorem proposed_iff (he : extract source target = .ok evidence) (hg : match_ evidence profile = .ok g) {s t : NodeRef} :
    (s, t) ∈ g.candidates.map endpoints ↔ Proposed evidence profile s t := by
  rw [(endpoints_perm hg).mem_iff, List.mem_append, List.mem_append, mem_sortedEdges, mem_settledPairs, Proposed,
    ← emitted_iff he]
  simp only [List.mem_map, Prod.mk.injEq]

omit [PyRuntime] in
/-- The alternatives of an ambiguous candidate are the other ambiguous ones at its endpoints. -/
theorem alternatives_of_ambiguous (hg : match_ evidence profile = .ok g) {c : MatchCandidate} (hc : c ∈ g.ambiguous) :
    c.val.alternativeMatchIds ≠ [] ∧ ∀ i ∈ c.val.alternativeMatchIds, ∃ d ∈ g.ambiguous, d ≠ c ∧ d.val.matchId = i ∧
      (d.val.sourceNodeRef = c.val.sourceNodeRef ∨ d.val.targetNodeRef = c.val.targetNodeRef) := by
  obtain ⟨hc, hstate⟩ := MatchGraph.mem_ambiguous.mp hc
  refine ⟨(MatchCandidate.check_ok.mp c.accepted).2.2.2.1 hstate, fun i hi => ?_⟩
  rcases (mem_candidates hg).mp hc with ⟨p, -, he⟩ | ⟨source, target, -, -, -, he⟩ | ⟨source, target, -, -, -, he⟩
  · rw [he] at hstate
    unfold authoritativeFields at hstate
    simp only at hstate
    split at hstate <;> cases hstate
  · rw [he] at hi ⊢
    obtain ⟨⟨a, b⟩, hab, rfl⟩ := List.mem_map.mp hi
    obtain ⟨hedge, hother⟩ := List.mem_filter.mp hab
    simp only [ne_eq, decide_eq_true_eq] at hother
    obtain ⟨d, hd, hdstate, rfl, rfl⟩ := (ambiguous_iff hg).mpr (mem_sortedEdges.mp hedge)
    refine ⟨d, MatchGraph.mem_ambiguous.mpr ⟨hd, hdstate⟩, fun hdc => ?_, ?_, hother.2⟩
    · refine hother.1 ?_
      rw [hdc, he]
      rfl
    · rcases (mem_candidates hg).mp hd with ⟨p, -, hde⟩ | ⟨s, t, -, -, -, hde⟩ | ⟨s, t, -, -, -, hde⟩
      · rw [hde]
        unfold authoritativeFields
        simp only
        split <;> rfl
      · rw [hde]
        rfl
      · rw [hde]
        rfl
  · rw [he] at hstate
    cases hstate

/-- Every graph the matcher returns is sound. -/
theorem match_sound (he : extract source target = .ok evidence) (hg : match_ evidence profile = .ok g) :
    SoundGraph evidence profile g where
  sources_once := (MatchGraph.oneToOne_ok.mp g.accepted).1
  targets_once := (MatchGraph.oneToOne_ok.mp g.accepted).2.1
  apart := by
    intro c hc d hd
    obtain ⟨hc, hcs⟩ := MatchGraph.mem_confirmed.mp hc
    obtain ⟨hd, hds⟩ := MatchGraph.mem_ambiguous.mp hd
    have hmatched := (confirmed_iff hg).mp ⟨c, hc, hcs, rfl, rfl⟩
    obtain ⟨hs, ht⟩ := not_corresponding_of_edge ((ambiguous_iff hg).mp ⟨d, hd, hds, rfl, rfl⟩)
    exact ⟨fun h => hs _ (h ▸ hmatched), fun h => ht _ (h ▸ hmatched)⟩
  compatible := by
    intro c hc hstate
    rcases hstate with hstate | hstate
    · exact Corresponding.compatible ((confirmed_iff hg).mp ⟨c, hc, hstate, rfl, rfl⟩)
    · obtain ⟨v, hv⟩ := ((ambiguous_iff hg).mp ⟨c, hc, hstate, rfl, rfl⟩).admits
      obtain ⟨-, -, source, target, hs, ht, hcomp, -⟩ := admits_iff.mp hv
      exact ⟨source, target, hs, ht, hcomp⟩
  grounded := by
    intro c hc
    obtain ⟨hc, hstate⟩ := MatchGraph.mem_confirmed.mp hc
    rcases (mem_candidates hg).mp hc with ⟨p, hp, hce⟩ | ⟨s, t, -, -, -, hce⟩ | ⟨s, t, hset, hs, ht, hce⟩
    · rw [hce] at hstate ⊢
      have hcomp := (authoritativeFields_state profile p).mp hstate
      obtain ⟨h1, h2⟩ := authoritativeFields_refs profile p
      exact Or.inl (Authoritative.sharesId he ⟨p, authoritative_iff_emitted.mpr ⟨hp, hcomp⟩, h1.symm, h2.symm⟩)
    · rw [hce] at hstate
      cases hstate
    · obtain ⟨v, hp⟩ := hset.pick
      obtain ⟨-, -, s', t', hs', ht', -, hv, -⟩ := admits_iff.mp hp.1
      obtain rfl := Option.some.inj (hs.symm.trans hs')
      obtain rfl := Option.some.inj (ht.symm.trans ht')
      refine Or.inr ?_
      rw [hce]
      show profile.matchThreshold ≤ (scorePair s t profile).value
      rw [hv]
      exact hp.2.1
  alternatives := fun _ hc => alternatives_of_ambiguous hg hc
  pairs_once := endpoints_nodup hg

end Sound

/-- A map of four topics: one with an id, one with a title of its own, and two that look the same. -/
def topicMap : CanonicalTree := buildTree "map" [⟨"map", "map", none, [], []⟩,
  ⟨"install", "topic", some "map", [("id", .str "t1")], []⟩, ⟨"usage", "topic", some "map", [], [("title", .str "Usage")]⟩,
  ⟨"note1", "note", some "map", [], []⟩, ⟨"note2", "note", some "map", [], []⟩]

theorem topicMap_sound : ∃ evidence g, @extract asciiRuntime topicMap topicMap = .ok evidence ∧
    match_ evidence defaultMatchingProfile = .ok g ∧ SoundGraph evidence defaultMatchingProfile g := by
  have hrun : Outcome.Returns (do
      let evidence ← @extract asciiRuntime topicMap topicMap
      match_ evidence defaultMatchingProfile) fun g => g.confirmed.length = 3 ∧ g.ambiguous.length = 4 := by
    decide +kernel
  obtain ⟨g, hrun, -⟩ := hrun
  obtain ⟨evidence, he, hg⟩ := Outcome.bind_ok.mp hrun
  exact ⟨evidence, g, he, hg, @match_sound asciiRuntime _ _ _ _ _ he hg⟩

/-! ## Clear pairs -/

/-- The pair beats its row by more than the margin, and its column except for the sources with a
    clearly better target. -/
structure Clear (evidence : EvidenceIndex) (profile : MatchingProfile) (s t : NodeRef) (v : ℚ) : Prop where
  admits : (table evidence profile).Admits s t v
  row : ∀ t' w, (table evidence profile).Admits s t' w → t' ≠ t → profile.ambiguityMargin < v - w
  column : ∀ s' w, (table evidence profile).Admits s' t w → profile.matchThreshold ≤ w → s' ≠ s →
    profile.ambiguityMargin < v - w ∨
      ∃ t' u, (table evidence profile).Admits s' t' u ∧ profile.ambiguityMargin < u - w

section Similarity
variable {evidence : EvidenceIndex} {profile : MatchingProfile} {g : MatchGraph} {s t : NodeRef}

/-- A pair confirmed by similarity is clear. -/
theorem similarity_clear (hg : match_ evidence profile = .ok g) (hc : g.Confirmed s t)
    (hid : ¬ Authoritative evidence profile s t) : ∃ v, Clear evidence profile s t v := by
  have hsettles := ((confirmed_iff hg).mp hc).resolve_left hid
  obtain ⟨v, hp⟩ := hsettles.pick
  refine ⟨v, hp.1, fun t' w hw hne => ?_, fun s' w hw hthr hne => ?_⟩
  · exact hsettles.beats_row hp.1 hw hne
  · exact hsettles.beats_column hp.1 hw hthr hne

/-- A topic without an id: its title, and the types of its children. -/
def topic (nodeRef : NodeRef) (title : Option String) (children : String) : NodeEvidence :=
  ⟨nodeRef, "topic", none, title, "type=topic", children⟩

/-- `s2` likes `t1` best, which `s1` takes, and `t2` as well as `s3` does, which gets it. -/
def overlooked : EvidenceIndex where
  source := keyedEvidence [topic "s1" (some "Setup") "p,p", topic "s2" (some "Setup") "p", topic "s3" (some "Usage") "p"]
  target := keyedEvidence [topic "t1" (some "Setup") "p,p", topic "t2" (some "Index") "p"]
  duplicateSourceIds := []
  duplicateTargetIds := []

theorem overlooked_clear : ∃ v, Clear overlooked defaultMatchingProfile "s3" "t2" v := by
  have hrun : Outcome.Returns (match_ overlooked defaultMatchingProfile) fun g => g.Confirmed "s3" "t2" := by
    decide +kernel
  obtain ⟨g, hg, hc⟩ := hrun
  exact similarity_clear hg hc (by decide +kernel)

/-- A source that ends with nothing scores as well with a confirmed target as the source it is confirmed with. -/
theorem second_choice_overlooked : Outcome.Returns (match_ overlooked defaultMatchingProfile) fun g =>
    g.Confirmed "s3" "t2" ∧ ¬ Authoritative overlooked defaultMatchingProfile "s3" "t2" ∧
      (table overlooked defaultMatchingProfile).Admits "s3" "t2" (666667 / 1000000) ∧
      (table overlooked defaultMatchingProfile).Admits "s2" "t2" (666667 / 1000000) ∧
      defaultMatchingProfile.matchThreshold ≤ 666667 / 1000000 ∧ g.confirmedTargetFor "s2" = none ∧
      ¬ defaultMatchingProfile.ambiguityMargin < (666667 / 1000000 : ℚ) - 666667 / 1000000 := by
  decide +kernel

/-! ## Dominant pairs -/

/-- A dominant pair is confirmed unless a source that hesitates has its target in reach. -/
theorem dominant_confirmed_iff {v : ℚ} (hg : match_ evidence profile = .ok g)
    (hd : (table evidence profile).Dominates s t v) : g.Confirmed s t ↔
      ∀ s', ¬ ((table evidence profile).Wavers s' ∧ (table evidence profile).Near s' t) := by
  have hfree := (mem_freeSources.mp hd.1.1).2 t
  rw [confirmed_iff hg, ← hd.settles_iff]
  exact or_iff_right hfree

/-- `s1` and `t1` are the same; `s2`, without a title, cannot tell `t1` from `t2`. -/
def hesitant : EvidenceIndex where
  source := keyedEvidence [topic "s1" (some "Setup") "p", topic "s2" none "p"]
  target := keyedEvidence [topic "t1" (some "Setup") "p", topic "t2" (some "Index") "p"]
  duplicateSourceIds := []
  duplicateTargetIds := []

theorem hesitant_confirmed_iff : ∃ g, match_ hesitant defaultMatchingProfile = .ok g ∧
    (g.Confirmed "s1" "t1" ↔ ∀ s', ¬ ((table hesitant defaultMatchingProfile).Wavers s' ∧
      (table hesitant defaultMatchingProfile).Near s' "t1")) := by
  have hrun : Outcome.Returns (match_ hesitant defaultMatchingProfile) fun g => g.candidates.length = 2 := by
    decide +kernel
  obtain ⟨g, hg, -⟩ := hrun
  exact ⟨g, hg, dominant_confirmed_iff (v := 1) hg (by decide +kernel)⟩

/-- A dominant pair is withheld for the sake of another source. -/
theorem dominant_withheld : Outcome.Returns (match_ hesitant defaultMatchingProfile) fun g =>
    (table hesitant defaultMatchingProfile).Dominates "s1" "t1" 1 ∧ ¬ g.Confirmed "s1" "t1" := by
  decide +kernel

end Similarity

end Reconciliation.Matching

/-
  Reconciliation.Matching.MatcherProofs — what the match graph holds.

  A candidate of the graph is a pair that shares an id, an edge of the score table, or a
  settled pair of it (`mem_candidates`). So the confirmed pairs are the authoritative and
  the settled ones (`confirmed_iff`), the ambiguous pairs the edges (`ambiguous_iff`), and
  the matcher returns a graph exactly when every pair it asserts has evidence
  (`match_total_iff`).
-/
import Reconciliation.Matching.ScoreTable

namespace Reconciliation.Matching

open Reconciliation.Base Reconciliation.Base.ClearChoice Reconciliation.Contracts Reconciliation.Evidence

/-! ## The graph -/

section Graph
variable {evidence : EvidenceIndex} {profile : MatchingProfile} {g : MatchGraph} {s t : NodeRef}

theorem lookup_ok {evidence : KeyedEvidence} {ref : NodeRef} {e : NodeEvidence} :
    lookup evidence ref = .ok e ↔ evidence.val.get? ref = some e := by
  unfold lookup
  cases evidence.val.get? ref <;> simp

theorem nodeRef_of_get {evidence : KeyedEvidence} {ref : NodeRef} {e : NodeEvidence}
    (h : evidence.val.get? ref = some e) : e.nodeRef = ref :=
  evidence.property _ (evidence.val.get?_eq_some.mp h)

theorem candidateFor_ok {fields : NodeEvidence → NodeEvidence → MatchCandidateFields} {e : NodeRef × NodeRef}
    {c : MatchCandidate} :
    candidateFor evidence fields e = .ok c ↔ ∃ source target, evidence.source.val.get? e.1 = some source ∧
      evidence.target.val.get? e.2 = some target ∧ c.val = fields source target := by
  unfold candidateFor
  simp only [Outcome.bind_ok, lookup_ok, Checked.build_ok]
  constructor
  · intro h
    obtain ⟨source, hs, target, ht, hc⟩ := h
    exact ⟨source, target, hs, ht, hc⟩
  · intro h
    obtain ⟨source, target, hs, ht, hc⟩ := h
    exact ⟨source, hs, target, ht, hc⟩

theorem authoritativeFields_state (profile : MatchingProfile) (p : NodeEvidence × NodeEvidence) :
    (authoritativeFields profile p.1 p.2).state = .confirmed ↔ Compatible p.1 p.2 profile := by
  unfold authoritativeFields Compatible
  simp only
  split
  · rename_i h
    exact ⟨fun he => by simp [candidateFields] at he, fun he => absurd he h⟩
  · rename_i h
    exact ⟨fun _ => not_not.mp h, fun _ => rfl⟩

theorem authoritativeFields_refs (profile : MatchingProfile) (p : NodeEvidence × NodeEvidence) :
    (authoritativeFields profile p.1 p.2).sourceNodeRef = p.1.nodeRef ∧
      (authoritativeFields profile p.1 p.2).targetNodeRef = p.2.nodeRef := by
  unfold authoritativeFields
  simp only
  split <;> exact ⟨rfl, rfl⟩

/-- The authoritative phase emits one candidate for each pair that shares an id. -/
def AuthoritativeRun (evidence : EvidenceIndex) (profile : MatchingProfile) (cs : List MatchCandidate) : Prop :=
  List.Forall₂ (fun p c => c.val = authoritativeFields profile p.1 p.2) (emittedIdPairs evidence profile) cs

theorem authoritative_run {cs : List MatchCandidate} :
    authoritativePhase evidence profile = .ok cs ↔ AuthoritativeRun evidence profile cs := by
  have hrun : authoritativePhase evidence profile =
      (emittedIdPairs evidence profile).mapM fun p => Checked.build _ (authoritativeFields profile p.1 p.2) := by
    unfold authoritativePhase emittedIdPairs authoritativeMatches
    split <;> rfl
  rw [hrun, Outcome.mapM_ok]
  simp only [Checked.build_ok]
  rfl

/-- The confirmed among them are the authoritative pairs. -/
theorem AuthoritativeRun.confirmed {cs : List MatchCandidate} (h : AuthoritativeRun evidence profile cs) :
    (cs.filter fun c => c.val.state = .confirmed).map (·.val.sourceNodeRef) =
        (authoritativePairs evidence profile).map (fun p => p.1.nodeRef) ∧
      (cs.filter fun c => c.val.state = .confirmed).map (·.val.targetNodeRef) =
        (authoritativePairs evidence profile).map fun p => p.2.nodeRef := by
  have key : ∀ {l : List (NodeEvidence × NodeEvidence)} {cs : List MatchCandidate},
      List.Forall₂ (fun p c => c.val = authoritativeFields profile p.1 p.2) l cs →
      (cs.filter fun c => c.val.state = .confirmed).map (·.val.sourceNodeRef) =
          (l.filter fun p => Compatible p.1 p.2 profile).map (fun p => p.1.nodeRef) ∧
        (cs.filter fun c => c.val.state = .confirmed).map (·.val.targetNodeRef) =
          (l.filter fun p => Compatible p.1 p.2 profile).map fun p => p.2.nodeRef := by
    intro l cs h
    induction h with
    | nil => exact ⟨rfl, rfl⟩
    | @cons p c _ _ hc _ ih =>
      have hstate := authoritativeFields_state profile p
      have hrefs := authoritativeFields_refs profile p
      rw [← hc] at hstate hrefs
      by_cases hp : Compatible p.1 p.2 profile
      · simp [hstate.mpr hp, hp, hrefs, ih]
      · have hns : ¬ c.val.state = .confirmed := fun he => hp (hstate.mp he)
        simp [hns, hp, ih]
  have hpairs : (emittedIdPairs evidence profile).filter (fun p => Compatible p.1 p.2 profile) =
      authoritativePairs evidence profile := by
    unfold emittedIdPairs authoritativePairs
    split <;> rfl
  rw [← hpairs]
  exact key h

/-- A run of the matcher, list by list. -/
theorem match_run : match_ evidence profile = .ok g ↔
    ∃ ids ambiguous similar, AuthoritativeRun evidence profile ids ∧
      (sortedEdges evidence profile).mapM (candidateFor evidence (ambiguousFields profile (sortedEdges evidence profile))) =
        .ok ambiguous ∧
      (settledPairs evidence profile).mapM (candidateFor evidence (similarityFields profile)) = .ok similar ∧
      g.candidates = sortedBy (fun c => toLex (c.val.sourceNodeRef, toLex (c.val.targetNodeRef, c.val.state.value)))
        (ids ++ (ambiguous ++ similar)) := by
  have hsim : ∀ {ids : List MatchCandidate}, AuthoritativeRun evidence profile ids →
      similarityMatches evidence profile ((ids.filter fun c => c.val.state = .confirmed).map (·.val.sourceNodeRef))
        ((ids.filter fun c => c.val.state = .confirmed).map (·.val.targetNodeRef)) = (do
        let ambiguous ← (sortedEdges evidence profile).mapM
          (candidateFor evidence (ambiguousFields profile (sortedEdges evidence profile)))
        let confirmed ← (settledPairs evidence profile).mapM (candidateFor evidence (similarityFields profile))
        return ambiguous ++ confirmed) := by
    intro ids h
    rw [h.confirmed.1, h.confirmed.2]
    rfl
  have hval : ∀ {fields : MatchGraphFields}, g.val = fields ↔ g.candidates = fields.candidates := by
    intro fields
    exact ⟨fun h => congrArg _ h, fun h => by cases fields; exact congrArg MatchGraphFields.mk h⟩
  unfold match_
  simp only [Outcome.bind_ok, authoritative_run, Checked.build_ok, hval]
  constructor
  · intro h
    obtain ⟨ids, hids, similarity, hsimilarity, hg⟩ := h
    rw [hsim hids] at hsimilarity
    simp only [Outcome.bind_ok, Outcome.pure_ok] at hsimilarity
    obtain ⟨ambiguous, ha, similar, hs, rfl⟩ := hsimilarity
    exact ⟨ids, ambiguous, similar, hids, ha, hs, hg⟩
  · intro h
    obtain ⟨ids, ambiguous, similar, hids, ha, hs, hg⟩ := h
    refine ⟨ids, hids, ambiguous ++ similar, ?_, hg⟩
    rw [hsim hids]
    simp [ha, hs]

/-- The candidates come in the order of their source references. -/
theorem candidates_ordered (h : match_ evidence profile = .ok g) :
    g.candidates.Pairwise fun c d => c.val.sourceNodeRef ≤ d.val.sourceNodeRef := by
  obtain ⟨ids, ambiguous, similar, -, -, -, hg⟩ := match_run.mp h
  rw [hg]
  refine (pairwise_sortedBy _ _).imp fun {c d} hle => ?_
  rcases Prod.Lex.toLex_le_toLex.mp hle with hlt | heq
  · exact le_of_lt hlt
  · exact le_of_eq heq.1

/-- The candidates of a graph: pairs that share an id, edges, and settled pairs. -/
theorem mem_candidates (h : match_ evidence profile = .ok g) {c : MatchCandidate} : c ∈ g.candidates ↔
    (∃ p ∈ emittedIdPairs evidence profile, c.val = authoritativeFields profile p.1 p.2) ∨
    (∃ source target, (table evidence profile).Edge source.nodeRef target.nodeRef ∧
      evidence.source.val.get? source.nodeRef = some source ∧ evidence.target.val.get? target.nodeRef = some target ∧
      c.val = ambiguousFields profile (sortedEdges evidence profile) source target) ∨
    ∃ source target, (table evidence profile).Settles source.nodeRef target.nodeRef ∧
      evidence.source.val.get? source.nodeRef = some source ∧ evidence.target.val.get? target.nodeRef = some target ∧
      c.val = similarityFields profile source target := by
  obtain ⟨ids, ambiguous, similar, hids, ha, hs, hg⟩ := match_run.mp h
  rw [hg, mem_sortedBy, List.mem_append, List.mem_append, Outcome.mapM_mem ha, Outcome.mapM_mem hs]
  simp only [candidateFor_ok]
  refine or_congr ?_ (or_congr ?_ ?_)
  · constructor
    · intro hc
      obtain ⟨p, hp, he⟩ := Outcome.left_of_mem_right hids hc
      exact ⟨p, hp, he⟩
    · intro hc
      obtain ⟨p, hp, he⟩ := hc
      obtain ⟨d, hd, he'⟩ := Outcome.right_of_mem_left hids hp
      rw [Checked.ext_val (he.trans he'.symm)]
      exact hd
  · constructor
    · intro hc
      obtain ⟨e, he, source, target, hsource, htarget, hc⟩ := hc
      have hs' := nodeRef_of_get hsource
      have ht' := nodeRef_of_get htarget
      refine ⟨source, target, ?_, hs' ▸ hsource, ht' ▸ htarget, hc⟩
      rw [hs', ht']
      exact mem_sortedEdges.mp he
    · intro hc
      obtain ⟨source, target, he, hsource, htarget, hc⟩ := hc
      exact ⟨(source.nodeRef, target.nodeRef), mem_sortedEdges.mpr he, source, target, hsource, htarget, hc⟩
  · constructor
    · intro hc
      obtain ⟨e, he, source, target, hsource, htarget, hc⟩ := hc
      have hs' := nodeRef_of_get hsource
      have ht' := nodeRef_of_get htarget
      refine ⟨source, target, ?_, hs' ▸ hsource, ht' ▸ htarget, hc⟩
      rw [hs', ht']
      exact mem_settledPairs.mp he
    · intro hc
      obtain ⟨source, target, he, hsource, htarget, hc⟩ := hc
      exact ⟨(source.nodeRef, target.nodeRef), mem_settledPairs.mpr he, source, target, hsource, htarget, hc⟩

/-- The id of a candidate is that of its endpoints. -/
theorem matchId_of_candidate (h : match_ evidence profile = .ok g) {c : MatchCandidate} (hc : c ∈ g.candidates) :
    c.val.matchId = matchId c.val.sourceNodeRef c.val.targetNodeRef := by
  rcases (mem_candidates h).mp hc with ⟨p, -, he⟩ | ⟨source, target, -, -, -, he⟩ | ⟨source, target, -, -, -, he⟩
  · rw [he]
    unfold authoritativeFields
    simp only
    split <;> rfl
  · rw [he]
    rfl
  · rw [he]
    rfl

/-- The confirmed pairs are the authoritative ones and the settled ones. -/
theorem confirmed_iff (h : match_ evidence profile = .ok g) :
    g.Confirmed s t ↔ Authoritative evidence profile s t ∨ (table evidence profile).Settles s t := by
  constructor
  · intro hc
    obtain ⟨c, hc, hstate, rfl, rfl⟩ := hc
    rcases (mem_candidates h).mp hc with ⟨p, hp, he⟩ | ⟨source, target, -, -, -, he⟩ | ⟨source, target, hs, -, -, he⟩
    · rw [he] at hstate ⊢
      have hcomp := (authoritativeFields_state profile p).mp hstate
      obtain ⟨h1, h2⟩ := authoritativeFields_refs profile p
      exact Or.inl ⟨p, authoritative_iff_emitted.mpr ⟨hp, hcomp⟩, h1.symm, h2.symm⟩
    · rw [he] at hstate
      cases hstate
    · rw [he]
      exact Or.inr hs
  · intro hc
    rcases hc with ⟨p, hp, rfl, rfl⟩ | hs
    · obtain ⟨hid, hp, hcomp⟩ := mem_authoritativePairs.mp hp
      obtain ⟨ids, ambiguous, similar, hids, -, -, hg⟩ := match_run.mp h
      have hemit : p ∈ emittedIdPairs evidence profile := by
        unfold emittedIdPairs
        rw [if_pos hid]
        exact hp
      obtain ⟨c, hc, he⟩ := Outcome.right_of_mem_left hids hemit
      obtain ⟨h1, h2⟩ := authoritativeFields_refs profile p
      have hin : c ∈ g.candidates := by
        rw [hg, mem_sortedBy]
        exact List.mem_append_left _ hc
      exact ⟨c, hin, by rw [he]; exact (authoritativeFields_state profile p).mpr hcomp, by rw [he, h1], by rw [he, h2]⟩
    · obtain ⟨ids, ambiguous, similar, -, -, hsim, hg⟩ := match_run.mp h
      obtain ⟨c, hc, hr⟩ := Outcome.right_of_mem_left (Outcome.mapM_ok.mp hsim) (mem_settledPairs.mpr hs)
      obtain ⟨source, target, hsource, htarget, he⟩ := candidateFor_ok.mp hr
      have hin : c ∈ g.candidates := by
        rw [hg, mem_sortedBy]
        exact List.mem_append_right _ (List.mem_append_right _ hc)
      refine ⟨c, hin, by rw [he]; rfl, ?_, ?_⟩
      · rw [he]
        exact nodeRef_of_get hsource
      · rw [he]
        exact nodeRef_of_get htarget

/-- The ambiguous pairs are the edges of the score table. -/
theorem ambiguous_iff (h : match_ evidence profile = .ok g) :
    g.Ambiguous s t ↔ (table evidence profile).Edge s t := by
  constructor
  · intro hc
    obtain ⟨c, hc, hstate, rfl, rfl⟩ := hc
    rcases (mem_candidates h).mp hc with ⟨p, -, he⟩ | ⟨source, target, hedge, -, -, he⟩ | ⟨source, target, -, -, -, he⟩
    · rw [he] at hstate
      unfold authoritativeFields at hstate
      simp only at hstate
      split at hstate <;> cases hstate
    · rw [he]
      exact hedge
    · rw [he] at hstate
      cases hstate
  · intro hedge
    obtain ⟨ids, ambiguous, similar, -, ha, -, hg⟩ := match_run.mp h
    obtain ⟨c, hc, hr⟩ := Outcome.right_of_mem_left (Outcome.mapM_ok.mp ha) (mem_sortedEdges.mpr hedge)
    obtain ⟨source, target, hsource, htarget, he⟩ := candidateFor_ok.mp hr
    have hin : c ∈ g.candidates := by
      rw [hg, mem_sortedBy]
      exact List.mem_append_right _ (List.mem_append_left _ hc)
    refine ⟨c, hin, by rw [he]; rfl, ?_, ?_⟩
    · rw [he]
      exact nodeRef_of_get hsource
    · rw [he]
      exact nodeRef_of_get htarget

/-! ## When a graph is returned -/

theorem matchId_ne (s t : NodeRef) : matchId s t ≠ "" := by
  intro h
  have := congrArg String.length h
  simp [matchId] at this

theorem candidateFields_check {source target : NodeEvidence} {state : MatchState} {score : FeatureScore}
    {confidence : Confidence} {hard soft : List ConstraintViolation} {alternatives : List String} :
    (candidateFields source target state score confidence profile hard soft alternatives).check = .ok () ↔
      (state = .confirmed ∨ state = .ambiguous → score.contributions ≠ []) ∧
      (state = .ambiguous → alternatives ≠ []) ∧ (state = .confirmed → ∀ v ∈ hard, v.hard = false) := by
  rw [MatchCandidate.check_ok]
  exact ⟨fun h => h.2.2, fun h => ⟨matchId_ne _ _, profile.version_ne, h⟩⟩

/-- A pair that shares an id is refused only when it is to be confirmed without evidence. -/
theorem authoritativeFields_check (profile : MatchingProfile) (p : NodeEvidence × NodeEvidence) :
    (authoritativeFields profile p.1 p.2).check = .ok () ↔
      (Compatible p.1 p.2 profile → (scorePair p.1 p.2 profile).contributions ≠ []) := by
  unfold authoritativeFields Compatible
  simp only
  split
  · rename_i h
    rw [candidateFields_check]
    exact ⟨fun _ he => absurd he h, fun _ => ⟨by simp, by simp, by simp⟩⟩
  · rename_i h
    rw [candidateFields_check]
    exact ⟨fun hc _ => hc.1 (Or.inl rfl), fun hc => ⟨fun _ => hc (not_not.mp h), by simp, by simp⟩⟩

/-- An edge lists at least one alternative. -/
theorem alternativeIds_ne (h : (table evidence profile).Edge s t) :
    alternativeIds (sortedEdges evidence profile) s t ≠ [] := by
  obtain ⟨a, b, hedge, hne, hshare⟩ := h.exists_other
  refine List.ne_nil_of_mem (a := matchId a b) ?_
  refine List.mem_map.mpr ⟨(a, b), List.mem_filter.mpr ⟨mem_sortedEdges.mpr hedge, ?_⟩, rfl⟩
  simp only [ne_eq, decide_eq_true_eq]
  exact ⟨hne, hshare⟩

/-- No source and no target is confirmed twice. -/
theorem graph_check {ids ambiguous similar : List MatchCandidate} (hids : AuthoritativeRun evidence profile ids)
    (ha : (sortedEdges evidence profile).mapM
      (candidateFor evidence (ambiguousFields profile (sortedEdges evidence profile))) = .ok ambiguous)
    (hs : (settledPairs evidence profile).mapM (candidateFor evidence (similarityFields profile)) = .ok similar) :
    MatchGraphFields.check ⟨sortedBy (fun c => toLex (c.val.sourceNodeRef, toLex (c.val.targetNodeRef, c.val.state.value)))
        (ids ++ (ambiguous ++ similar))⟩ = .ok () := by
  have hamb : ambiguous.filter (fun c => c.val.state = .confirmed) = [] := by
    rw [List.filter_eq_nil_iff]
    intro c hc
    obtain ⟨e, -, hr⟩ := (Outcome.mapM_mem ha).mp hc
    obtain ⟨source, target, -, -, he⟩ := candidateFor_ok.mp hr
    simp [he, ambiguousFields, candidateFields]
  have hsim : similar.filter (fun c => c.val.state = .confirmed) = similar := by
    rw [List.filter_eq_self]
    intro c hc
    obtain ⟨e, -, hr⟩ := (Outcome.mapM_mem hs).mp hc
    obtain ⟨source, target, -, -, he⟩ := candidateFor_ok.mp hr
    simp [he, similarityFields, candidateFields]
  have hsources : similar.map (·.val.sourceNodeRef) = (settledPairs evidence profile).map Prod.fst := by
    refine Outcome.mapM_map _ _ (fun e _ c hc => ?_) hs
    obtain ⟨source, target, hsource, -, he⟩ := candidateFor_ok.mp hc
    rw [he]
    exact nodeRef_of_get hsource
  have htargets : similar.map (·.val.targetNodeRef) = (settledPairs evidence profile).map Prod.snd := by
    refine Outcome.mapM_map _ _ (fun e _ c hc => ?_) hs
    obtain ⟨source, target, -, htarget, he⟩ := candidateFor_ok.mp hc
    rw [he]
    exact nodeRef_of_get htarget
  unfold MatchGraphFields.check
  rw [MatchGraph.oneToOne_ok, (((sortedBy_perm _ _).filter _).map _).nodup_iff,
    (((sortedBy_perm _ _).filter _).map _).nodup_iff]
  simp only [List.filter_append, hamb, hsim, List.nil_append, List.map_append, hids.confirmed.1, hids.confirmed.2,
    hsources, htargets, List.nodup_append]
  refine ⟨⟨(authoritativePairs_nodup _ _).1, settledPairs_sources_nodup _ _, ?_⟩,
    ⟨(authoritativePairs_nodup _ _).2, settledPairs_targets_nodup _ _, ?_⟩, by simp⟩
  · intro a ha b hb hab
    obtain ⟨⟨s, t⟩, he, rfl⟩ := List.mem_map.mp hb
    subst hab
    exact (mem_freeRefs.mp (Settles.free (mem_settledPairs.mp he)).1).2 ha
  · intro a ha b hb hab
    obtain ⟨⟨s, t⟩, he, rfl⟩ := List.mem_map.mp hb
    subst hab
    exact (mem_freeRefs.mp (Settles.free (mem_settledPairs.mp he)).2).2 ha

/-- Every pair the graph asserts has evidence: the pairs confirmed by id, the edges, and the
    settled pairs. -/
structure Supported (evidence : EvidenceIndex) (profile : MatchingProfile) : Prop where
  ids : ∀ p ∈ authoritativePairs evidence profile, (scorePair p.1 p.2 profile).contributions ≠ []
  similar : ∀ s t source target, evidence.source.val.get? s = some source → evidence.target.val.get? t = some target →
    (table evidence profile).Edge s t ∨ (table evidence profile).Settles s t →
    (scorePair source target profile).contributions ≠ []

/-- Where 0 is not admissible, similar pairs have evidence; ids that are not authoritative need none. -/
theorem supported_of_probable (hpositive : 0 < profile.probableThreshold)
    (hno : .persistentId ∉ profile.authoritativeIdFeatures) : Supported evidence profile where
  ids := fun p hp => absurd (mem_authoritativePairs.mp hp).1 hno
  similar := by
    intro s t source target hsource htarget h
    obtain ⟨v, hv⟩ : ∃ v, (table evidence profile).Admits s t v := by
      rcases h with h | h
      · exact h.admits
      · obtain ⟨v, hp⟩ := h.pick
        exact ⟨v, hp.1⟩
    obtain ⟨-, -, a, b, ha, hb, -, rfl, hprobable⟩ := admits_iff.mp hv
    obtain rfl := Option.some.inj (hsource.symm.trans ha)
    obtain rfl := Option.some.inj (htarget.symm.trans hb)
    exact contributions_ne_of_value (hpositive.trans_le hprobable).ne'

/-- The matcher returns a graph exactly when every pair it asserts has evidence. -/
theorem match_total_iff : (∃ g, match_ evidence profile = .ok g) ↔ Supported evidence profile := by
  constructor
  · intro h
    obtain ⟨g, h⟩ := h
    refine ⟨fun p hp => ?_, fun s t source target hsource htarget hst => ?_⟩
    · obtain ⟨ids, -, -, hids, -, -, -⟩ := match_run.mp h
      obtain ⟨hemit, hcomp⟩ := authoritative_iff_emitted.mp hp
      obtain ⟨c, -, he⟩ := Outcome.right_of_mem_left hids hemit
      exact (authoritativeFields_check profile p).mp (he ▸ c.accepted) hcomp
    · obtain ⟨-, ambiguous, similar, -, ha, hs, -⟩ := match_run.mp h
      rcases hst with hst | hst
      · obtain ⟨c, -, hr⟩ := Outcome.right_of_mem_left (Outcome.mapM_ok.mp ha) (mem_sortedEdges.mpr hst)
        obtain ⟨source', target', hsource', htarget', he⟩ := candidateFor_ok.mp hr
        obtain rfl := Option.some.inj (hsource.symm.trans hsource')
        obtain rfl := Option.some.inj (htarget.symm.trans htarget')
        exact (candidateFields_check.mp (he ▸ c.accepted)).1 (Or.inr rfl)
      · obtain ⟨c, -, hr⟩ := Outcome.right_of_mem_left (Outcome.mapM_ok.mp hs) (mem_settledPairs.mpr hst)
        obtain ⟨source', target', hsource', htarget', he⟩ := candidateFor_ok.mp hr
        obtain rfl := Option.some.inj (hsource.symm.trans hsource')
        obtain rfl := Option.some.inj (htarget.symm.trans htarget')
        exact (candidateFields_check.mp (he ▸ c.accepted)).1 (Or.inl rfl)
  · intro h
    obtain ⟨ids, hids⟩ := Outcome.mapM_total (l := emittedIdPairs evidence profile)
      (f := fun p => Checked.build MatchCandidateFields.check (authoritativeFields profile p.1 p.2)) fun p hp => by
        refine Checked.build_total ((authoritativeFields_check profile p).mpr fun hcomp => h.ids p ?_)
        exact authoritative_iff_emitted.mpr ⟨hp, hcomp⟩
    have hids : AuthoritativeRun evidence profile ids := by
      have := Outcome.mapM_ok.mp hids
      simp only [Checked.build_ok] at this
      exact this
    have hpair : ∀ {e : NodeRef × NodeRef}, e.1 ∈ freeSources evidence profile ∧ e.2 ∈ freeTargets evidence profile →
        ∃ source target, evidence.source.val.get? e.1 = some source ∧ evidence.target.val.get? e.2 = some target := by
      intro e he
      obtain ⟨source, hsource⟩ := (Dict.mem_keys _).mp (mem_freeSources.mp he.1).1
      obtain ⟨target, htarget⟩ := (Dict.mem_keys _).mp (mem_freeTargets.mp he.2).1
      exact ⟨source, target, hsource, htarget⟩
    obtain ⟨ambiguous, ha⟩ := Outcome.mapM_total (l := sortedEdges evidence profile)
      (f := candidateFor evidence (ambiguousFields profile (sortedEdges evidence profile))) fun e he => by
        have hedge := mem_sortedEdges.mp he
        obtain ⟨source, target, hsource, htarget⟩ := hpair (Edge.free hedge)
        have hcheck : (ambiguousFields profile (sortedEdges evidence profile) source target).check = .ok () := by
          refine candidateFields_check.mpr ⟨fun _ => h.similar _ _ _ _ hsource htarget (Or.inl hedge), fun _ => ?_, by simp⟩
          rw [nodeRef_of_get hsource, nodeRef_of_get htarget]
          exact alternativeIds_ne hedge
        obtain ⟨c, hc⟩ := Checked.build_total hcheck
        exact ⟨c, candidateFor_ok.mpr ⟨source, target, hsource, htarget, Checked.build_ok.mp hc⟩⟩
    obtain ⟨similar, hs⟩ := Outcome.mapM_total (l := settledPairs evidence profile)
      (f := candidateFor evidence (similarityFields profile)) fun e he => by
        have hst := mem_settledPairs.mp he
        obtain ⟨source, target, hsource, htarget⟩ := hpair (Settles.free hst)
        have hcheck : (similarityFields profile source target).check = .ok () :=
          candidateFields_check.mpr ⟨fun _ => h.similar _ _ _ _ hsource htarget (Or.inr hst), by simp, by simp⟩
        obtain ⟨c, hc⟩ := Checked.build_total hcheck
        exact ⟨c, candidateFor_ok.mpr ⟨source, target, hsource, htarget, Checked.build_ok.mp hc⟩⟩
    obtain ⟨g, hg⟩ := Checked.build_total (graph_check hids ha hs)
    exact ⟨g, match_run.mpr ⟨ids, ambiguous, similar, hids, ha, hs, congrArg _ (Checked.build_ok.mp hg)⟩⟩

end Graph

end Reconciliation.Matching

/-
  Reconciliation.Matching.Correspondence — the comparison of two trees that a matching
  decides, as a matter of the evidence alone.

  A pair corresponds when it is authoritative or settles in the score table, and is
  unsettled when it is an edge of the table. Correspondence is one to one and leaves the
  nodes of edges out, so it is a `Comparison`.
-/
import Reconciliation.Matching.MatcherProofs

namespace Reconciliation.Matching

open Reconciliation.Base Reconciliation.Base.ClearChoice Reconciliation.Contracts Reconciliation.Evidence
  Reconciliation.Validation

section
variable {evidence : EvidenceIndex} {profile : MatchingProfile} {s t : NodeRef}

/-- The pair is authoritative, or settles in the score table. -/
def Corresponding (evidence : EvidenceIndex) (profile : MatchingProfile) (s t : NodeRef) : Prop :=
  Authoritative evidence profile s t ∨ (table evidence profile).Settles s t

theorem not_authoritative_of_settles (h : (table evidence profile).Settles s t) :
    (∀ t', ¬ Authoritative evidence profile s t') ∧ ∀ s', ¬ Authoritative evidence profile s' t :=
  ⟨(mem_freeSources.mp (Settles.free h).1).2, (mem_freeTargets.mp (Settles.free h).2).2⟩

theorem Corresponding.target_unique {t' : NodeRef} (h : Corresponding evidence profile s t)
    (h' : Corresponding evidence profile s t') : t = t' := by
  rcases h with h | h
  · rcases h' with h' | h'
    · exact h.target_unique h'
    · exact absurd h ((not_authoritative_of_settles h').1 t)
  · rcases h' with h' | h'
    · exact absurd h' ((not_authoritative_of_settles h).1 t')
    · exact h.target_unique h'

theorem Corresponding.source_unique {s' : NodeRef} (h : Corresponding evidence profile s t)
    (h' : Corresponding evidence profile s' t) : s = s' := by
  rcases h with h | h
  · rcases h' with h' | h'
    · exact h.source_unique h'
    · exact absurd h ((not_authoritative_of_settles h').2 s)
  · rcases h' with h' | h'
    · exact absurd h' ((not_authoritative_of_settles h).2 s')
    · exact h.source_unique h'

/-- A node of an edge has no correspondence. -/
theorem not_corresponding_of_edge (h : (table evidence profile).Edge s t) :
    (∀ t', ¬ Corresponding evidence profile s t') ∧ ∀ s', ¬ Corresponding evidence profile s' t := by
  obtain ⟨hs, ht⟩ := Edge.free h
  constructor
  · intro t' hc
    rcases hc with ha | hset
    · exact (mem_freeSources.mp hs).2 t' ha
    · exact h.not_settles_source hset
  · intro s' hc
    rcases hc with ha | hset
    · exact (mem_freeTargets.mp ht).2 s' ha
    · exact h.not_settles_target hset

/-- A free node that settles with nothing has no correspondence. -/
theorem unmatched_source (hfree : s ∈ freeSources evidence profile)
    (hno : ∀ t, ¬ (table evidence profile).Settles s t) (t : NodeRef) : ¬ Corresponding evidence profile s t :=
  fun h => h.elim ((mem_freeSources.mp hfree).2 t) (hno t)

theorem unmatched_target (hfree : t ∈ freeTargets evidence profile)
    (hno : ∀ s, ¬ (table evidence profile).Settles s t) (s : NodeRef) : ¬ Corresponding evidence profile s t :=
  fun h => h.elim ((mem_freeTargets.mp hfree).2 s) (hno s)

end

/-- Two trees with the correspondences of their evidence. -/
def comparison (evidence : EvidenceIndex) (profile : MatchingProfile) {source target : CanonicalTree}
    (hs : Rooted source) (ht : Rooted target) : Comparison NodeRef NodeRef where
  source := hs.hierarchy
  target := ht.hierarchy
  Matched := Corresponding evidence profile
  Unsettled := (table evidence profile).Edge
  target_unique := Corresponding.target_unique
  source_unique := Corresponding.source_unique
  source_settled h := (not_corresponding_of_edge h).1 _
  target_settled h := (not_corresponding_of_edge h).2 _

/-- How sure a correspondence is: an authoritative one fully, a settled one by its score. -/
def certainty (evidence : EvidenceIndex) (profile : MatchingProfile) (s t : NodeRef) : ℚ :=
  if (s, t) ∈ (authoritativePairs evidence profile).map fun p => (p.1.nodeRef, p.2.nodeRef) then 1
  else (admissibleScore evidence profile s t).getD 0

section
variable {evidence : EvidenceIndex} {profile : MatchingProfile} {g : MatchGraph} {s t : NodeRef}

theorem certainty_of_authoritative (h : Authoritative evidence profile s t) : certainty evidence profile s t = 1 := by
  obtain ⟨p, hp, rfl, rfl⟩ := h
  exact if_pos (List.mem_map.mpr ⟨p, hp, rfl⟩)

theorem certainty_of_settles {v : ℚ} (h : (table evidence profile).Settles s t)
    (hv : (table evidence profile).Admits s t v) : certainty evidence profile s t = v := by
  have hno : (s, t) ∉ (authoritativePairs evidence profile).map fun p => (p.1.nodeRef, p.2.nodeRef) := by
    intro hin
    obtain ⟨p, hp, he⟩ := List.mem_map.mp hin
    cases he
    exact (not_authoritative_of_settles h).1 _ ⟨p, hp, rfl, rfl⟩
  have hscore : admissibleScore evidence profile s t = some v := hv.2.2
  rw [certainty, if_neg hno, hscore]
  rfl

/-- A confirmed candidate is as confident as its pair is certain. -/
theorem confidence_of_confirmed (h : match_ evidence profile = .ok g) {c : MatchCandidate} (hc : c ∈ g.candidates)
    (hstate : c.val.state = .confirmed) :
    c.val.confidence.value = certainty evidence profile c.val.sourceNodeRef c.val.targetNodeRef := by
  rcases (mem_candidates h).mp hc with ⟨p, hp, he⟩ | ⟨source, target, -, -, -, he⟩ | ⟨source, target, hset, hs, ht, he⟩
  · rw [he] at hstate ⊢
    have hcomp := (authoritativeFields_state profile p).mp hstate
    obtain ⟨h1, h2⟩ := authoritativeFields_refs profile p
    have hid := authoritative_iff_emitted.mpr ⟨hp, hcomp⟩
    rw [h1, h2, certainty_of_authoritative ⟨p, hid, rfl, rfl⟩]
    unfold authoritativeFields
    simp only
    split
    · rename_i hne
      exact absurd hcomp hne
    · rfl
  · rw [he] at hstate
    cases hstate
  · rw [he]
    obtain ⟨v, hp⟩ := hset.pick
    obtain ⟨-, -, source', target', hs', ht', -, hv, -⟩ := admits_iff.mp hp.1
    obtain rfl := Option.some.inj (hs.symm.trans hs')
    obtain rfl := Option.some.inj (ht.symm.trans ht')
    show (scorePair source target profile).value = certainty evidence profile source.nodeRef target.nodeRef
    rw [certainty_of_settles hset hp.1, hv]

/-- Corresponding nodes are nodes with evidence, and no hard constraint forbids the pair. -/
theorem Corresponding.compatible (h : Corresponding evidence profile s t) : ∃ source target,
    evidence.source.val.get? s = some source ∧ evidence.target.val.get? t = some target ∧
      Compatible source target profile := by
  rcases h with ⟨p, hp, rfl, rfl⟩ | hset
  · obtain ⟨-, hp, hcomp⟩ := mem_authoritativePairs.mp hp
    obtain ⟨hs, ht, -⟩ := sharedIdPairs_sound hp
    exact ⟨p.1, p.2, hs, ht, hcomp⟩
  · obtain ⟨v, hp⟩ := hset.pick
    obtain ⟨-, -, source, target, hs, ht, hcomp, -⟩ := admits_iff.mp hp.1
    exact ⟨source, target, hs, ht, hcomp⟩

end

end Reconciliation.Matching

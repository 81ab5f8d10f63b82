/-
  Reconciliation.Matching.Renaming — confirmation does not depend on the names of nodes.

  Renamed trees have the same evidence under the renamed references
  (`renamedEvidence_of_trees`), so ids are unique under the same nodes, and the score table
  is the same up to the names. What it settles does not depend on the order of the targets,
  and the confirmed pairs are the renamed ones (`confirmed_renamed`).
-/
import Reconciliation.Base.Invariance
import Reconciliation.Contracts.Renaming
import Reconciliation.Matching.Guarantees

namespace Reconciliation.Matching

open Reconciliation.Base Reconciliation.Base.ClearChoice Reconciliation.Contracts Reconciliation.Evidence
  Reconciliation.Builders

/-! ## Evidence under other names -/

/-- The same evidence, its references renamed one to one. -/
structure RenamedEvidence (f : NodeRef → NodeRef) (evidence evidence' : KeyedEvidence) : Prop where
  injective : Set.InjOn f {ref | ref ∈ evidence.val.keys}
  onto : ∀ ref' ∈ evidence'.val.keys, ∃ ref ∈ evidence.val.keys, f ref = ref'
  node : ∀ ref e, evidence.val.get? ref = some e → evidence'.val.get? (f ref) = some { e with nodeRef := f ref }

section Extracted
variable [PyRuntime] {f : NodeRef → NodeRef} {Fixed : String → Prop} {tree tree' : CanonicalTree}

omit [PyRuntime] in
theorem childSignature_rearranged {node node' : CanonicalNode} (hn : RearrangedNode f Fixed tree tree' node node') {s : String}
    (hs : childSignature tree node = .ok s) : childSignature tree' node' = .ok s := by
  unfold childSignature at hs ⊢
  simp only [Outcome.bind_ok, Outcome.pure_ok, Outcome.mapM_ok] at hs ⊢
  obtain ⟨types, htypes, rfl⟩ := hs
  refine ⟨types, ?_, rfl⟩
  have hkept := hn.child_types
  generalize node.childRefs = refs at htypes hkept
  generalize node'.childRefs = refs' at hkept ⊢
  induction hkept generalizing types with
  | nil =>
    cases htypes
    exact .nil
  | @cons c c' rest rest' hc _ ih =>
    cases htypes with
    | cons htype hrest =>
      obtain ⟨child, hchild, rfl⟩ := Outcome.map_ok.mp htype
      obtain ⟨child', hchild', htype'⟩ := hc child (CanonicalTree.node_ok.mp hchild)
      exact .cons (Outcome.map_ok.mpr ⟨child', CanonicalTree.node_ok.mpr hchild', htype'⟩) (ih _ hrest)

theorem nodeEvidence_rearranged {ref : NodeRef} {node node' : CanonicalNode}
    (hn : RearrangedNode f Fixed tree tree' node node') {e : NodeEvidence} (he : nodeEvidence tree ref node = .ok e) :
    nodeEvidence tree' (f ref) node' = .ok { e with nodeRef := f ref } := by
  have hpresent : ∀ keys, firstPresent node' keys = firstPresent node keys := by
    intro keys
    induction keys with
    | nil => rfl
    | cons key rest ih => rw [firstPresent, firstPresent, presentValue, presentValue, hn.identity_eq, hn.content_eq, ih]
  have hsignature : signature node' = signature node := by
    unfold signature
    rw [hn.type_eq, hn.identity_eq, hn.content_eq]
  unfold nodeEvidence at he ⊢
  simp only [Outcome.bind_ok, Outcome.pure_ok] at he ⊢
  obtain ⟨children, hchildren, rfl⟩ := he
  exact ⟨children, childSignature_rearranged hn hchildren, by rw [hpresent, hpresent, hsignature, hn.type_eq]⟩

/-- The order of children bears on no evidence while it keeps the list of their types. -/
theorem renamedEvidence_of_rearranged (h : RearrangedTree f Fixed tree tree') {evidence evidence' : KeyedEvidence}
    (he : extractTree tree = .ok evidence) (he' : extractTree tree' = .ok evidence') : RenamedEvidence f evidence evidence' where
  injective := by
    intro a ha b hb hab
    exact h.injective ((mem_keys_extractTree he).mp ha) ((mem_keys_extractTree he).mp hb) hab
  onto := by
    intro ref' href'
    obtain ⟨ref, href, hf⟩ := h.onto ref' ((mem_keys_extractTree he').mp href')
    exact ⟨ref, (mem_keys_extractTree he).mpr href, hf⟩
  node := by
    intro ref e hget
    obtain ⟨node, hn, hnode⟩ := (get_extractTree he).mp hget
    obtain ⟨node', hn', hr⟩ := h.node ref node hn
    exact (get_extractTree he').mpr ⟨node', hn', nodeEvidence_rearranged hr hnode⟩

theorem renamedEvidence_of_trees (h : RenamedTree f tree tree') {evidence evidence' : KeyedEvidence}
    (he : extractTree tree = .ok evidence) (he' : extractTree tree' = .ok evidence') : RenamedEvidence f evidence evidence' :=
  renamedEvidence_of_rearranged (h.rearranged fun _ => True) he he'

end Extracted

/-! ## Ids and scores under other names -/

section Ids
variable {f : NodeRef → NodeRef} {evidence evidence' : KeyedEvidence} (h : RenamedEvidence f evidence evidence')

include h

/-- The evidence of a renamed node is that of the node it was. -/
theorem RenamedEvidence.of_get {ref' : NodeRef} {e' : NodeEvidence} (hget : evidence'.val.get? ref' = some e') :
    ∃ ref e, evidence.val.get? ref = some e ∧ f ref = ref' ∧ e' = { e with nodeRef := f ref } := by
  obtain ⟨ref, href, rfl⟩ := h.onto ref' (evidence'.val.mem_keys.mpr ⟨e', hget⟩)
  obtain ⟨e, he⟩ := evidence.val.mem_keys.mp href
  exact ⟨ref, e, he, rfl, Option.some.inj (hget.symm.trans (h.node ref e he))⟩

theorem RenamedEvidence.holdsAlone_iff {i : String} {ref' : NodeRef} :
    HoldsAlone evidence' i ref' ↔ ∃ ref, HoldsAlone evidence i ref ∧ f ref = ref' := by
  constructor
  · intro halone
    obtain ⟨e', he', hi⟩ := (halone ref').mpr rfl
    obtain ⟨ref, e, he, rfl, rfl⟩ := h.of_get he'
    refine ⟨ref, fun r => ⟨fun hr => ?_, fun hr => ⟨e, hr ▸ he, hi⟩⟩, rfl⟩
    obtain ⟨d, hd, hdi⟩ := hr
    have hf : f r = f ref := (halone (f r)).mp ⟨_, h.node r d hd, hdi⟩
    exact h.injective (evidence.val.mem_keys.mpr ⟨d, hd⟩) (evidence.val.mem_keys.mpr ⟨e, he⟩) hf
  · intro halone
    obtain ⟨ref, halone, rfl⟩ := halone
    obtain ⟨e, he, hi⟩ := (halone ref).mpr rfl
    refine fun r' => ⟨fun hr => ?_, fun hr => ⟨{ e with nodeRef := f ref }, hr ▸ h.node ref e he, hi⟩⟩
    obtain ⟨d', hd', hdi⟩ := hr
    obtain ⟨r, d, hd, rfl, rfl⟩ := h.of_get hd'
    exact congrArg f ((halone r).mp ⟨d, hd, hdi⟩)

end Ids

section Runs
variable [PyRuntime] {f g : NodeRef → NodeRef} {source source' target target' : CanonicalTree}
  {evidence evidence' : EvidenceIndex} {profile : MatchingProfile}

theorem authoritative_renamed (hs : RenamedEvidence f evidence.source evidence'.source)
    (ht : RenamedEvidence g evidence.target evidence'.target) (he : extract source target = .ok evidence)
    (he' : extract source' target' = .ok evidence') {s' t' : NodeRef} :
    Authoritative evidence' profile s' t' ↔ Relation.Map (Authoritative evidence profile) f g s' t' := by
  rw [authoritative_iff he']
  constructor
  · intro h
    obtain ⟨⟨hid, i, hs', ht'⟩, a', b', ha', hb', hcomp⟩ := h
    obtain ⟨s, hs₁, rfl⟩ := hs.holdsAlone_iff.mp hs'
    obtain ⟨t, ht₁, rfl⟩ := ht.holdsAlone_iff.mp ht'
    obtain ⟨a, ha, -⟩ := (hs₁ s).mpr rfl
    obtain ⟨b, hb, -⟩ := (ht₁ t).mpr rfl
    obtain rfl := Option.some.inj (ha'.symm.trans (hs.node s a ha))
    obtain rfl := Option.some.inj (hb'.symm.trans (ht.node t b hb))
    exact ⟨s, t, (authoritative_iff he).mpr ⟨⟨hid, i, hs₁, ht₁⟩, a, b, ha, hb, hcomp⟩, rfl, rfl⟩
  · intro h
    obtain ⟨s, t, h, rfl, rfl⟩ := h
    obtain ⟨⟨hid, i, hs₁, ht₁⟩, a, b, ha, hb, hcomp⟩ := (authoritative_iff he).mp h
    refine ⟨⟨hid, i, hs.holdsAlone_iff.mpr ⟨s, hs₁, rfl⟩, ht.holdsAlone_iff.mpr ⟨t, ht₁, rfl⟩⟩, ?_⟩
    exact ⟨_, _, hs.node s a ha, ht.node t b hb, hcomp⟩

/-- A source is free under its new name when it was free. -/
theorem freeSources_renamed (hs : RenamedEvidence f evidence.source evidence'.source)
    (ht : RenamedEvidence g evidence.target evidence'.target) (he : extract source target = .ok evidence)
    (he' : extract source' target' = .ok evidence') {s : NodeRef} (hmem : s ∈ evidence.source.val.keys) :
    f s ∈ freeSources evidence' profile ↔ s ∈ freeSources evidence profile := by
  obtain ⟨a, ha⟩ := evidence.source.val.mem_keys.mp hmem
  rw [mem_freeSources, mem_freeSources, and_iff_right hmem,
    and_iff_right (evidence'.source.val.mem_keys.mpr ⟨_, hs.node s a ha⟩)]
  simp only [authoritative_renamed hs ht he he']
  refine unrelated_left_iff fun s₁ t hauth hf => ?_
  obtain ⟨a₁, -, ha₁, -, -⟩ := Corresponding.compatible (Or.inl hauth)
  exact hs.injective (evidence.source.val.mem_keys.mpr ⟨a₁, ha₁⟩) hmem hf

theorem freeTargets_renamed (hs : RenamedEvidence f evidence.source evidence'.source)
    (ht : RenamedEvidence g evidence.target evidence'.target) (he : extract source target = .ok evidence)
    (he' : extract source' target' = .ok evidence') {t : NodeRef} (hmem : t ∈ evidence.target.val.keys) :
    g t ∈ freeTargets evidence' profile ↔ t ∈ freeTargets evidence profile := by
  obtain ⟨b, hb⟩ := evidence.target.val.mem_keys.mp hmem
  rw [mem_freeTargets, mem_freeTargets, and_iff_right hmem,
    and_iff_right (evidence'.target.val.mem_keys.mpr ⟨_, ht.node t b hb⟩)]
  simp only [authoritative_renamed hs ht he he']
  refine unrelated_right_iff fun s t₁ hauth hg => ?_
  obtain ⟨-, b₁, -, hb₁, -⟩ := Corresponding.compatible (Or.inl hauth)
  exact ht.injective (evidence.target.val.mem_keys.mpr ⟨b₁, hb₁⟩) hmem hg

/-- The score tables of renamed trees are the same up to the names. -/
theorem table_renamed (hs : RenamedEvidence f evidence.source evidence'.source)
    (ht : RenamedEvidence g evidence.target evidence'.target) (he : extract source target = .ok evidence)
    (he' : extract source' target' = .ok evidence') :
    Table.Renamed f g (table evidence profile) (table evidence' profile) where
  sources_inj := fun _ ha _ hb hab => hs.injective (mem_freeSources.mp ha).1 (mem_freeSources.mp hb).1 hab
  targets_inj := fun _ ha _ hb hab => ht.injective (mem_freeTargets.mp ha).1 (mem_freeTargets.mp hb).1 hab
  admits_iff := by
    intro s' t' v
    rw [admits_iff]
    constructor
    · intro h
      obtain ⟨hfs, hft, a', b', ha', hb', hcomp, hv, hprobable⟩ := h
      obtain ⟨s, a, ha, rfl, rfl⟩ := hs.of_get ha'
      obtain ⟨t, b, hb, rfl, rfl⟩ := ht.of_get hb'
      have hfree := (freeSources_renamed hs ht he he' (evidence.source.val.mem_keys.mpr ⟨a, ha⟩)).mp hfs
      have hfree' := (freeTargets_renamed hs ht he he' (evidence.target.val.mem_keys.mpr ⟨b, hb⟩)).mp hft
      exact ⟨s, t, admits_iff.mpr ⟨hfree, hfree', a, b, ha, hb, hcomp, hv, hprobable⟩, rfl, rfl⟩
    · intro h
      obtain ⟨s, t, hv, rfl, rfl⟩ := h
      obtain ⟨hfs, hft, a, b, ha, hb, hcomp, hv, hprobable⟩ := admits_iff.mp hv
      refine ⟨(freeSources_renamed hs ht he he' (mem_freeSources.mp hfs).1).mpr hfs,
        (freeTargets_renamed hs ht he he' (mem_freeTargets.mp hft).1).mpr hft, ?_⟩
      exact ⟨_, _, hs.node s a ha, ht.node t b hb, hcomp, hv, hprobable⟩
  threshold_eq := rfl
  margin_eq := rfl

theorem corresponding_renamed (hs : RenamedEvidence f evidence.source evidence'.source)
    (ht : RenamedEvidence g evidence.target evidence'.target) (he : extract source target = .ok evidence)
    (he' : extract source' target' = .ok evidence') {s' t' : NodeRef} :
    Corresponding evidence' profile s' t' ↔ Relation.Map (Corresponding evidence profile) f g s' t' := by
  unfold Corresponding
  rw [authoritative_renamed hs ht he he', (table_renamed hs ht he he').settles_iff]
  constructor
  · intro h
    rcases h with ⟨s, t, h, hs, ht⟩ | ⟨s, t, h, hs, ht⟩
    · exact ⟨s, t, Or.inl h, hs, ht⟩
    · exact ⟨s, t, Or.inr h, hs, ht⟩
  · intro h
    obtain ⟨s, t, h | h, hs, ht⟩ := h
    · exact Or.inl ⟨s, t, h, hs, ht⟩
    · exact Or.inr ⟨s, t, h, hs, ht⟩

/-- The pairs confirmed between renamed trees are the renamed ones of those confirmed before. -/
theorem confirmed_renamed {graph graph' : MatchGraph} (hs : RenamedTree f source source') (ht : RenamedTree g target target')
    (he : extract source target = .ok evidence) (he' : extract source' target' = .ok evidence')
    (hg : match_ evidence profile = .ok graph) (hg' : match_ evidence' profile = .ok graph') (s' t' : NodeRef) :
    graph'.Confirmed s' t' ↔ Relation.Map graph.Confirmed f g s' t' := by
  obtain ⟨hes, het, -, -⟩ := extract_ok.mp he
  obtain ⟨hes', het', -, -⟩ := extract_ok.mp he'
  have hconfirmed : graph.Confirmed = Corresponding evidence profile := by
    funext s t
    exact propext (confirmed_iff hg)
  rw [confirmed_iff hg', hconfirmed]
  exact corresponding_renamed (renamedEvidence_of_trees hs hes hes') (renamedEvidence_of_trees ht het het') he he'

end Runs

/-- The topic map with the names of two of its topics exchanged. -/
def renamedTopicMap : CanonicalTree := buildTree "map" [⟨"map", "map", none, [], []⟩,
  ⟨"install", "topic", some "map", [("id", .str "t1")], []⟩, ⟨"note1", "topic", some "map", [], [("title", .str "Usage")]⟩,
  ⟨"usage", "note", some "map", [], []⟩, ⟨"note2", "note", some "map", [], []⟩]

theorem topicMap_renamed : RenamedTree (Equiv.swap "usage" "note1") topicMap renamedTopicMap where
  injective := (Equiv.injective _).injOn
  onto := by decide
  root_eq := by decide
  node := by
    intro ref node hget
    have hmem := topicMap.nodes.get?_eq_some.mp hget
    rcases hmem with _ | ⟨_, _ | ⟨_, _ | ⟨_, _ | ⟨_, _ | ⟨_, ⟨⟩⟩⟩⟩⟩⟩
    all_goals exact ⟨_, rfl, by constructor <;> rfl⟩

theorem topicMap_confirmed_renamed : ∃ evidence evidence' graph graph',
    @extract asciiRuntime topicMap topicMap = .ok evidence ∧ @extract asciiRuntime renamedTopicMap topicMap = .ok evidence' ∧
      match_ evidence defaultMatchingProfile = .ok graph ∧ match_ evidence' defaultMatchingProfile = .ok graph' ∧
      ∀ s' t', graph'.Confirmed s' t' ↔ Relation.Map graph.Confirmed (Equiv.swap "usage" "note1") id s' t' := by
  have hrun : Outcome.Returns (do
      let evidence ← @extract asciiRuntime topicMap topicMap
      match_ evidence defaultMatchingProfile) fun graph => graph.Confirmed "usage" "usage" := by
    decide +kernel
  have hrun' : Outcome.Returns (do
      let evidence ← @extract asciiRuntime renamedTopicMap topicMap
      match_ evidence defaultMatchingProfile) fun graph => graph.Confirmed "note1" "usage" := by
    decide +kernel
  obtain ⟨graph, hrun, -⟩ := hrun
  obtain ⟨graph', hrun', -⟩ := hrun'
  obtain ⟨evidence, he, hg⟩ := Outcome.bind_ok.mp hrun
  obtain ⟨evidence', he', hg'⟩ := Outcome.bind_ok.mp hrun'
  exact ⟨evidence, evidence', graph, graph', he, he', hg, hg',
    @confirmed_renamed asciiRuntime _ _ _ _ _ _ _ _ _ _ _ topicMap_renamed (renamedTree_refl topicMap) he he' hg hg'⟩

end Reconciliation.Matching

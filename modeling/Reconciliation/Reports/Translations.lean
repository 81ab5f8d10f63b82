/-
  Reconciliation.Reports.Translations — the report of a document and its translation.

  Twins are trees of one form whose nodes bear the same ids, each its own. Where an id decides a
  match, every node below the root is confirmed with its twin and no pair is left open, whatever
  the contents are, so a run returns, and reports for every node below the root exactly one
  operation: a match, or an update where the contents differ (`twins_report`).

  A map and its translation are adapted into twins, as titles and texts take no part in an
  identity (`translation_report`).
-/
import Reconciliation.Adapters.DitaMaps
import Reconciliation.Matching.Separated
import Reconciliation.Reports.IdentifiedDiff
import Reconciliation.Reports.MapOrder
import Reconciliation.Reports.SelfComparison

namespace Reconciliation.Reports

open Reconciliation.Base Reconciliation.Contracts Reconciliation.Evidence Reconciliation.Alignment
  Reconciliation.Matching Reconciliation.Classification Reconciliation.Engine Reconciliation.Validation
  Reconciliation.Normalization Reconciliation.Builders Reconciliation.Adapters

/-! ## Twins -/

/-- Trees of one form, in which a reference has one id; below the root every node has one, and its own. -/
structure Twins (source target : CanonicalTree) : Prop where
  alike : Alike SameLinks source target
  ids : ∀ ref, idOf source ref = idOf target ref
  named : ∀ ref ∈ source.nodes.keys, ref ≠ source.rootNodeRef → idOf source ref ≠ none
  unique : ∀ r r' i, idOf source r = some i → idOf source r' = some i → r = r'

/-- The one operation of a node and its twin. -/
def OperationOn (op : StructuralOperation) (ref : NodeRef) : Prop :=
  op.val.sourceNodeRefs = [ref] ∧ op.val.targetNodeRefs = [ref]

/-- Every node below the root is confirmed with its twin and is a match, or an update where the contents
    differ. Nothing is ambiguous, and nothing else is confirmed, the roots aside, or reported. -/
structure TwinReport (command : ReconcileTreesCommand) (result : ReconciliationResult) : Prop where
  complete : result.complete = true
  nodes : ∀ ref, ref ∈ command.targetTree.nodes.keys ↔ ref ∈ command.sourceTree.nodes.keys
  matched : ∀ ref ∈ command.sourceTree.nodes.keys, ref ≠ command.sourceTree.rootNodeRef →
    result.matchGraph.Confirmed ref ref
  twin : ∀ s t, result.matchGraph.Confirmed s t → s = t
  clear : result.matchGraph.ambiguous = []
  once : ∀ ref ∈ command.sourceTree.nodes.keys, ref ≠ command.sourceTree.rootNodeRef →
    ∃! op, op ∈ result.operations.operations ∧ OperationOn op ref
  only : ∀ op ∈ result.operations.operations, ∃ ref ∈ command.sourceTree.nodes.keys,
    ref ≠ command.sourceTree.rootNodeRef ∧ OperationOn op ref ∧
      op.val.type = if contentChanged (normalizedSource command) (normalizedTarget command) ref ref then .update else .match_

/-! ## Twins are matched -/

section Matching
variable [PyRuntime] {source target : CanonicalTree} {evidence : EvidenceIndex} {profile : MatchingProfile}
  (htwins : Twins source target) (hp : DecidedById profile) (he : extract source target = .ok evidence) {s t : NodeRef}

include htwins

omit [PyRuntime] in
theorem Twins.unique_target (r r' : NodeRef) (i : String) (h : idOf target r = some i) (h' : idOf target r' = some i) :
    r = r' := by
  rw [← htwins.ids] at h h'
  exact htwins.unique r r' i h h'

include hp he

/-- A node below the root is matched with its twin by the id they bear. -/
theorem authoritative_twin (hs : s ∈ source.nodes.keys) (hne : s ≠ source.rootNodeRef) :
    Authoritative evidence profile s s := by
  obtain ⟨hes, het, -, -⟩ := extract_ok.mp he
  obtain ⟨i, hi⟩ := Option.ne_none_iff_exists'.mp (htwins.named s hs hne)
  have hi' : idOf target s = some i := htwins.ids s ▸ hi
  obtain ⟨a, ha, -⟩ := (evidence_id_iff hes).mpr hi
  obtain ⟨b, hb, -⟩ := (evidence_id_iff het).mpr hi'
  refine (authoritative_iff he).mpr ⟨⟨hp.authoritative, i, (holdsAlone_iff hes htwins.unique).mpr hi,
    (holdsAlone_iff het htwins.unique_target).mpr hi'⟩, a, b, ha, hb, compatible_iff.mpr fun _ => ?_⟩
  obtain ⟨m, hm, hma⟩ := (get_extractTree hes).mp ha
  obtain ⟨n, hn, hnb⟩ := (get_extractTree het).mp hb
  have hrel := htwins.alike.get s
  rw [hm, hn] at hrel
  exact ((nodeEvidence_fields hma).2.1.trans (Option.rel_some_some.mp hrel).type_eq).trans (nodeEvidence_fields hnb).2.1.symm

omit hp in
theorem eq_of_authoritative_twins (h : Authoritative evidence profile s t) : s = t := by
  obtain ⟨hes, het, -, -⟩ := extract_ok.mp he
  obtain ⟨-, i, hs, ht⟩ := ((authoritative_iff he).mp h).1
  have hs := (holdsAlone_iff hes htwins.unique).mp hs
  have ht := (holdsAlone_iff het htwins.unique_target).mp ht
  rw [← htwins.ids] at ht
  exact htwins.unique s t i hs ht

/-- Nothing but the root is left to be matched by its score. -/
theorem free_source_root (h : s ∈ freeSources evidence profile) : s = source.rootNodeRef := by
  obtain ⟨hes, -, -, -⟩ := extract_ok.mp he
  obtain ⟨hknown, hno⟩ := mem_freeSources.mp h
  by_contra hne
  exact hno s (authoritative_twin htwins hp he ((mem_keys_extractTree hes).mp hknown) hne)

theorem free_target_root (h : t ∈ freeTargets evidence profile) : t = source.rootNodeRef := by
  obtain ⟨-, het, -, -⟩ := extract_ok.mp he
  obtain ⟨hknown, hno⟩ := mem_freeTargets.mp h
  by_contra hne
  exact hno t (authoritative_twin htwins hp he ((htwins.alike.mem_keys t).mpr ((mem_keys_extractTree het).mp hknown)) hne)

theorem not_edge_twins : ¬ (table evidence profile).Edge s t := by
  have hroots : ∀ {a b}, (table evidence profile).Edge a b → a = source.rootNodeRef ∧ b = source.rootNodeRef := by
    intro a b h
    obtain ⟨v, hadmits⟩ := h.admits
    exact ⟨free_source_root htwins hp he hadmits.1, free_target_root htwins hp he hadmits.2.1⟩
  intro h
  obtain ⟨a, b, hother, hne, -⟩ := h.exists_other
  obtain ⟨rfl, rfl⟩ := hroots h
  obtain ⟨ha, hb⟩ := hroots hother
  exact hne (Prod.ext ha hb)

theorem eq_of_corresponding_twins (h : Corresponding evidence profile s t) : s = t := by
  rcases h with h | h
  · exact eq_of_authoritative_twins htwins he h
  · obtain ⟨v, hpick⟩ := h.pick
    exact (free_source_root htwins hp he hpick.1.1).trans (free_target_root htwins hp he hpick.1.2.1).symm

end Matching

/-! ## A comparison of twins -/

/-- Both sides have one form, and below the root every node is matched with its twin. -/
structure TwinsCompared (D : Comparison NodeRef NodeRef) : Prop where
  root_eq : D.source.root = D.target.root
  parent_eq : ∀ s, D.source.parent s = D.target.parent s
  matched_eq : ∀ s t, D.Matched s t → s = t
  matched_below : ∀ s p, D.source.parent s = some p → D.Matched s s

namespace TwinsCompared
variable {D : Comparison NodeRef NodeRef} (hd : TwinsCompared D) {p q s t : NodeRef}

include hd

theorem swap : TwinsCompared D.swap where
  root_eq := hd.root_eq.symm
  parent_eq s := (hd.parent_eq s).symm
  matched_eq s t h := (hd.matched_eq t s h).symm
  matched_below s p h := hd.matched_below s p ((hd.parent_eq s).trans h)

theorem paired_eq (h : D.Paired p q) : p = q := by
  rcases h with ⟨rfl, rfl⟩ | hm
  · exact hd.root_eq
  · exact hd.matched_eq p q hm

theorem paired_self (h : D.source.Node p) : D.Paired p p := by
  rcases h with rfl | ⟨q, hq⟩
  · exact Or.inl ⟨rfl, hd.root_eq⟩
  · exact Or.inr (hd.matched_below p q hq)

theorem aligned_below (hp : D.source.parent s = some p) : D.Aligned s s :=
  ⟨hd.matched_below s p hp, p, p, hp, (hd.parent_eq s) ▸ hp, hd.paired_self (D.source.parent_node s p hp)⟩

theorem not_alone : ¬ D.Alone p q s := by
  rintro ⟨hpq, hp, halone⟩
  obtain rfl := hd.paired_eq hpq
  exact halone s ((hd.parent_eq s) ▸ hp) (hd.matched_below s p hp)

theorem not_crosses : ¬ D.Crosses s t := by
  rintro ⟨hm, p, q, hp, hq, hno⟩
  obtain rfl := hd.matched_eq s t hm
  rw [hd.parent_eq s, hq] at hp
  obtain rfl := Option.some.inj hp
  exact hno (hd.paired_self (D.source.parent_node s q ((hd.parent_eq s).trans hq)))

theorem not_absent {certainty : NodeRef → NodeRef → ℚ} {profile : OperationProfile} : ¬ Absent D certainty profile s := by
  rintro ⟨p, q, halone, -⟩
  exact hd.not_alone halone

/-- A region of twins has an id of its own, which has its length. -/
theorem distinctRegionIds : DistinctRegionIds D := by
  intro p q p' q' hpq hpq' hid
  obtain rfl := hd.paired_eq hpq
  obtain rfl := hd.paired_eq hpq'
  have hlength : p.length = p'.length := by
    have := congrArg String.length hid
    simp only [regionIdFor, String.length_append] at this
    omega
  have hchars : ("region:" ++ p ++ "->").toList ++ p.toList = ("region:" ++ p' ++ "->").toList ++ p'.toList := by
    rw [← String.toList_append, ← String.toList_append]
    exact congrArg String.toList hid
  obtain rfl := String.toList_inj.mp (List.append_inj' hchars (by rwa [String.length_toList, String.length_toList])).2
  exact ⟨rfl, rfl⟩

end TwinsCompared

/-! ## The report -/

section Runs
variable [PyRuntime] {command : ReconcileTreesCommand} {evidence : EvidenceIndex} {result : ReconciliationResult}
  (h : Admitted command) (htwins : Twins (normalizedSource command) (normalizedTarget command))
  (hp : DecidedById command.matchingProfile)

include h htwins hp

theorem twinsCompared (he : extract (normalizedSource command) (normalizedTarget command) = .ok evidence) :
    TwinsCompared (h.comparison evidence) where
  root_eq := htwins.alike.root
  parent_eq s := congrFun htwins.alike.parentOf_eq s
  matched_eq s t hm := eq_of_corresponding_twins htwins hp he hm
  matched_below s p hparent := by
    have hknown : s ∈ (normalizedSource command).nodes.keys := parentOf_mem hparent
    have hne : s ≠ (normalizedSource command).rootNodeRef := Hierarchy.ne_root_of_parent hparent
    exact Or.inl (authoritative_twin htwins hp he hknown hne)

/-- All that is reported of twins is the match or the update of a node below the root. -/
theorem reported_twins (hs : Stages command evidence result) {x : StructuralOperationFields}
    (hx : Reported (context command result) command.alignmentProfile (h.comparison evidence)
      (certainty evidence command.matchingProfile) x) :
    ∃ s p, (h.comparison evidence).source.parent s = some p ∧ x = matchOf (context command result) s s := by
  have hd := twinsCompared h htwins hp hs.extracted
  cases hx with
  | @aligned s t ha hen =>
    obtain rfl := hd.matched_eq s t ha.1
    obtain ⟨-, p, -, hparent, -⟩ := ha
    exact ⟨s, p, hparent, rfl⟩
  | deleted ha hu hen => exact absurd ha hd.not_absent
  | inserted ha hu hen => exact absurd ha hd.swap.not_absent
  | moved hm hen => exact absurd hm.1 hd.not_crosses
  | @reordered p q hpq hshuffled hen =>
    obtain rfl := hd.paired_eq hpq
    have hchanged : orderChanged result.matchGraph ((normalizedSource command).childrenOf p)
        ((normalizedTarget command).childrenOf p) = true := hshuffled.2
    rw [← htwins.alike.childrenOf_eq, orderChanged_self (Rooted.children_nodup _) fun s t hc =>
      hd.matched_eq s t ((confirmed_iff hs.matched).mp hc)] at hchanged
    cases hchanged

omit [PyRuntime] htwins hp in
theorem parent_iff (evidence : EvidenceIndex) {s : NodeRef} :
    (∃ p, (h.comparison evidence).source.parent s = some p) ↔
      s ∈ command.sourceTree.nodes.keys ∧ s ≠ command.sourceTree.rootNodeRef := by
  rw [← h.source_node evidence]
  constructor
  · intro hx
    obtain ⟨p, hparent⟩ := hx
    exact ⟨Hierarchy.node_of_parent hparent, Hierarchy.ne_root_of_parent hparent⟩
  · intro hx
    exact hx.1.parent_of_ne_root hx.2

omit h in
theorem no_ambiguity (hs : Stages command evidence result) : result.matchGraph.ambiguous = [] := by
  refine List.eq_nil_iff_forall_not_mem.mpr fun c hc => ?_
  obtain ⟨hin, hstate⟩ := MatchGraph.mem_ambiguous.mp hc
  exact not_edge_twins htwins hp hs.extracted ((ambiguous_iff hs.matched).mp ⟨c, hin, hstate, rfl, rfl⟩)

/-- Every node below the root has one operation. -/
theorem once_twins (hs : Stages command evidence result) (hmatch : .match_ ∈ command.operationProfile.enabledOperations)
    (hupdate : .update ∈ command.operationProfile.enabledOperations) {s p : NodeRef}
    (hparent : (h.comparison evidence).source.parent s = some p) :
    ∃! op, op ∈ result.operations.operations ∧ OperationOn op s := by
  have hd := twinsCompared h htwins hp hs.extracted
  have henabled : (matchOf (context command result) s s).type ∈ (context command result).profile.enabledOperations := by
    rw [matchOf_type]
    split
    · exact hupdate
    · exact hmatch
  obtain ⟨op, hop, hval⟩ := hs.exists_op h (.aligned (hd.aligned_below hparent) henabled)
  refine ⟨op, ⟨hop, by rw [hval]; rfl, by rw [hval]; rfl⟩, fun op' hop' => ?_⟩
  obtain ⟨s', -, -, hval'⟩ := reported_twins h htwins hp hs ((hs.reported h op').mp hop'.1)
  have hrefs : op'.val.sourceNodeRefs = [s] := hop'.2.1
  obtain rfl : s' = s := by
    rw [hval'] at hrefs
    exact List.singleton_injective hrefs
  exact Checked.ext_val (hval'.trans hval.symm)

/-- A run over twins returns, confirms every node below the root with its twin, and reports for it a match
    or an update, and nothing else. -/
theorem twins_report (hmatch : .match_ ∈ command.operationProfile.enabledOperations)
    (hupdate : .update ∈ command.operationProfile.enabledOperations) :
    Outcome.Returns (reconcile command) (TwinReport command) := by
  obtain ⟨evidence, he⟩ := h.exists_evidence
  have hd := twinsCompared h htwins hp he
  have hsupported := hp.supported fun _ _ => not_edge_twins htwins hp he
  obtain ⟨result, hrun⟩ := (runStages_total_iff h he).mpr ⟨hsupported, hd.distinctRegionIds⟩
  obtain ⟨evidence', hs⟩ := runStages_stages hrun
  obtain rfl : evidence = evidence' := Except.ok.inj (he.symm.trans hs.extracted)
  have hparent : ∀ s ∈ command.sourceTree.nodes.keys, s ≠ command.sourceTree.rootNodeRef →
      ∃ p, (h.comparison evidence).source.parent s = some p := fun s hknown hne =>
    (parent_iff h evidence).mpr ⟨hknown, hne⟩
  refine ⟨result, by rw [reconcile_admitted h, hrun], runStages_complete hrun, fun ref => ?_, fun s hknown hne => ?_,
    fun s t hm => ?_, no_ambiguity htwins hp hs, fun s hknown hne => ?_, fun op hop => ?_⟩
  · exact mem_keys_normalize.symm.trans ((htwins.alike.mem_keys ref).symm.trans mem_keys_normalize)
  · obtain ⟨p, hp⟩ := hparent s hknown hne
    exact (confirmed_iff hs.matched).mpr (hd.matched_below s p hp)
  · exact hd.matched_eq s t ((confirmed_iff hs.matched).mp hm)
  · obtain ⟨p, hp'⟩ := hparent s hknown hne
    exact once_twins h htwins hp hs hmatch hupdate hp'
  · obtain ⟨s, p, hp', hval⟩ := reported_twins h htwins hp hs ((hs.reported h op).mp hop)
    obtain ⟨hknown, hne⟩ := (parent_iff h evidence).mp ⟨p, hp'⟩
    exact ⟨s, hknown, hne, ⟨by rw [hval]; rfl, by rw [hval]; rfl⟩, by rw [hval, matchOf_type]; rfl⟩

end Runs

/-! ## Translated maps -/

/-- Below the root every node has an id of its own. -/
structure OwnIds (tree : CanonicalTree) : Prop where
  named : ∀ ref ∈ tree.nodes.keys, ref ≠ tree.rootNodeRef → idOf tree ref ≠ none
  unique : ∀ r r' i, idOf tree r = some i → idOf tree r' = some i → r = r'

/-- A node that holds titles and texts alone has the same id after normalization. -/
theorem firstPresent_normalized {node : CanonicalNode}
    (htitles : ∀ key, key ∉ ["navtitle", "text"] → node.contentProperties.get? key = none) (profile : NormalizationProfile)
    (ref : NodeRef) : firstPresent (normalizeNode profile ref node) defaultIdKeys = firstPresent node defaultIdKeys := by
  have hvalue : ∀ key ∈ defaultIdKeys, presentValue (normalizeNode profile ref node) key = presentValue node key := by
    intro key hkey
    have hnone : node.contentProperties.get? key = none := by
      refine htitles key ?_
      revert hkey
      simp only [defaultIdKeys, List.mem_cons, List.not_mem_nil, or_false]
      rintro (rfl | rfl | rfl | rfl) <;> decide
    have hnone' : (normalizeNode profile ref node).contentProperties.get? key = none := by
      show (normalizeContent profile ref node.contentProperties).get? key = none
      unfold normalizeContent
      rw [Dict.get?_filterMapVal, Dict.get?_sorted, hnone]
      rfl
    unfold presentValue
    rw [hnone, hnone']
    rfl
  have hkeys : ∀ keys : List String, (∀ key ∈ keys, key ∈ defaultIdKeys) →
      firstPresent (normalizeNode profile ref node) keys = firstPresent node keys := by
    intro keys hsub
    induction keys with
    | nil => rfl
    | cons key rest ih =>
      rw [firstPresent, firstPresent, hvalue key (hsub key List.mem_cons_self),
        ih fun key hkey => hsub key (List.mem_cons_of_mem _ hkey)]
  exact hkeys defaultIdKeys fun key hkey => hkey

theorem firstPresent_retitled {node node' : CanonicalNode} (h : Retitled node node') :
    firstPresent node defaultIdKeys = firstPresent node' defaultIdKeys := by
  have hvalue : ∀ key, key ∉ ["navtitle", "text"] → presentValue node key = presentValue node' key := by
    intro key hkey
    obtain ⟨hnone, hnone'⟩ := h.titles key hkey
    unfold presentValue
    rw [h.identity_eq, hnone, hnone']
  simp only [defaultIdKeys, firstPresent]
  rw [hvalue "id" (by decide), hvalue "xml:id" (by decide), hvalue "guid" (by decide), hvalue "key" (by decide)]

/-- Retitled trees are twins to every run, when the ids of the one are its nodes' own. -/
theorem twins_of_retitled {tree tree' : CanonicalTree} (h : Alike Retitled tree tree') (hids : OwnIds tree)
    (profile profile' : NormalizationProfile) : Twins (normalizeTree tree profile) (normalizeTree tree' profile') := by
  have hid : ∀ ref, idOf (normalizeTree tree profile) ref = idOf tree ref ∧
      idOf (normalizeTree tree' profile') ref = idOf tree ref := by
    intro ref
    have hrel := h.get ref
    unfold idOf
    rw [get_normalize, get_normalize]
    cases ha : tree.nodes.get? ref with
    | none =>
      rw [ha] at hrel
      cases hb : tree'.nodes.get? ref with
      | none => exact ⟨rfl, rfl⟩
      | some b => rw [hb] at hrel; cases hrel
    | some a =>
      rw [ha] at hrel
      cases hb : tree'.nodes.get? ref with
      | none => rw [hb] at hrel; cases hrel
      | some b =>
        rw [hb] at hrel
        have hab := Option.rel_some_some.mp hrel
        constructor
        · exact firstPresent_normalized (fun key hkey => (hab.titles key hkey).1) profile ref
        · exact (firstPresent_normalized (fun key hkey => (hab.titles key hkey).2) profile' ref).trans
            (firstPresent_retitled hab).symm
  refine ⟨⟨h.root, _, List.Perm.refl _, ?_⟩, fun ref => (hid ref).1.trans (hid ref).2.symm, ?_, ?_⟩
  · refine List.forall₂_map_left_iff.mpr (List.forall₂_map_right_iff.mpr (h.sorted.imp fun e e' he => ⟨he.1, ?_⟩))
    exact ⟨he.2.type_eq, he.2.parent_eq, he.2.children_eq⟩
  · intro ref href hne
    rw [(hid ref).1]
    exact hids.named ref (mem_keys_normalize.mp href) hne
  · intro r r' i hr hr'
    rw [(hid r).1] at hr
    rw [(hid r').1] at hr'
    exact hids.unique r r' i hr hr'

/-- A map compared with its translation: where the ids of the map are its nodes' own and decide, every
    topic is confirmed with its translation and reported once, as kept or as retitled; nothing is
    ambiguous, and nothing is reported as added, lost, moved or in another order. -/
theorem translation_report [PyRuntime] {command : ReconcileTreesCommand} {root root' : Element}
    {documentUri documentUri' : Option String} (hroot : SameSignals root.data root'.data)
    (hbelow : Translated root.children root'.children)
    (hsource : DitaMapAdapter.adapt root documentUri = .ok command.sourceTree)
    (htarget : DitaMapAdapter.adapt root' documentUri' = .ok command.targetTree) (h : Admitted command)
    (hids : OwnIds command.sourceTree) (hp : DecidedById command.matchingProfile)
    (hmatch : .match_ ∈ command.operationProfile.enabledOperations)
    (hupdate : .update ∈ command.operationProfile.enabledOperations) :
    Outcome.Returns (reconcile command) (TwinReport command) := by
  obtain ⟨tree, tree', htree, htree', -, -, halike⟩ := dita_translated hroot hbelow documentUri documentUri'
  obtain rfl := Except.ok.inj (htree.symm.trans hsource)
  obtain rfl := Except.ok.inj (htree'.symm.trans htarget)
  exact twins_report h (twins_of_retitled halike hids _ _) hp hmatch hupdate

/-! ## The bundled profile -/

/-- What `dita-map-v1` normalizes; its matching, operation and suppression profiles are the default ones. -/
def ditaMapNormalization : NormalizationProfile where
  version := "v1"
  collapseWhitespace := true
  nonsemanticMetadataKeys := ["class", "ditaarch:DITAArchVersion", "domains"]
  preservePropertyKeys := ["keys", "href"]
  version_ne := v1_ne
  no_conflict := by decide

def ditaMapAlignment : AlignmentProfile where
  version := "v1"
  strategy := .lcs
  defaultOrderSemantics := .ordered
  orderSemanticsByType := ⟨[("reltable", .unordered)], by decide⟩
  version_ne := v1_ne

def ditaMapCommand (source target : CanonicalTree) : ReconcileTreesCommand :=
  { defaultCommand source target with normalizationProfile := ditaMapNormalization, alignmentProfile := ditaMapAlignment }

theorem map_ne : localName "map" ≠ "" := by decide

theorem topicref_ne : localName "topicref" ≠ "" := by decide

theorem topicmeta_ne : localName "topicmeta" ≠ "" := by decide

theorem navtitle_ne : localName "navtitle" ≠ "" := by decide

def topicref (attrib : List (String × String)) (xpath : String) : ElementData :=
  ⟨⟨"topicref", topicref_ne⟩, Dict.ofPairs attrib, none, xpath⟩

/-- A map of two topics, one with metadata. -/
def englishMap : Element where
  data := ⟨⟨"map", map_ne⟩, Dict.ofPairs [("title", "Handbook")], none, "/map"⟩
  children := [
    .element (topicref [("href", "./intro.dita"), ("navtitle", "Introduction")] "/map/topicref[1]") [],
    .element (topicref [("keys", "setup"), ("href", "setup.dita")] "/map/topicref[2]") [
      .element ⟨⟨"topicmeta", topicmeta_ne⟩, Dict.empty, none, "/map/topicref[2]/topicmeta"⟩
        [.element ⟨⟨"navtitle", navtitle_ne⟩, Dict.empty, some "Setting up", "/map/topicref[2]/topicmeta/navtitle"⟩ []],
      .element (topicref [("href", "setup.dita#first")] "/map/topicref[2]/topicref") []]]

/-- The same map in German, its titles held by attributes, with a comment. -/
def germanMap : Element where
  data := ⟨⟨"map", map_ne⟩, Dict.ofPairs [("title", "Handbuch")], none, "/map"⟩
  children := [
    .other .comment "TODO",
    .element (topicref [("navtitle", "Einleitung"), ("href", "./intro.dita")] "/map/topicref[1]") [],
    .element (topicref [("navtitle", "Einrichtung"), ("keys", "setup"), ("href", "setup.dita")] "/map/topicref[2]")
      [.element (topicref [("href", "setup.dita#first")] "/map/topicref[2]/topicref") []]]

theorem sameSignals_of_all {a b : ElementData} (hname : localName a.tag.val = localName b.tag.val)
    (h : (signalNames.all fun name => decide (a.attrib.get? name = b.attrib.get? name)) = true) : SameSignals a b :=
  ⟨hname, fun name hin => of_decide_eq_true (List.all_eq_true.mp h name hin)⟩

theorem german_translates : Translated englishMap.children germanMap.children := by
  refine .right rfl (.topic (by decide) (sameSignals_of_all rfl (by decide)) .nil
    (.topic (by decide) (sameSignals_of_all rfl (by decide)) ?_ .nil))
  exact .left (by decide) (.topic (by decide) (sameSignals_of_all rfl (by decide)) .nil .nil)

theorem germanMap_report : Outcome.Returns
    (@reconcile asciiRuntime (ditaMapCommand (DitaMapAdapter.mapping.tree englishMap none)
      (DitaMapAdapter.mapping.tree germanMap none)))
    (TwinReport (ditaMapCommand (DitaMapAdapter.mapping.tree englishMap none)
      (DitaMapAdapter.mapping.tree germanMap none))) := by
  refine @translation_report asciiRuntime _ englishMap germanMap none none (sameSignals_of_all rfl (by decide)) german_translates
    (DitaMapAdapter.mapping.adapt_eq _ _) (DitaMapAdapter.mapping.adapt_eq _ _)
    ⟨by decide +kernel, by decide +kernel, by decide +kernel, by decide +kernel⟩ ?_
    ⟨by decide, by norm_num [weightFor, ditaMapCommand, defaultCommand, defaultMatchingProfile], ?_⟩ (by decide) (by decide)
  · exact ⟨by decide +kernel, ids_unique_iff.mpr (by decide +kernel)⟩
  · norm_num [ditaMapCommand, defaultCommand, defaultMatchingProfile]

end Reconciliation.Reports

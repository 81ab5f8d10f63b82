/-
  Reconciliation.Reports.Renaming — how far reported absence depends on the names of nodes.

  Renamed trees have the renamed correspondences and the renamed open targets. Which sources
  are open is a matter of names for a shaken source, whose one best target is among several
  best targets of another source: by the name it picks another target, the other source
  contests that target or does not. Apart from that the verdicts are the renamed ones
  (`presence_renamed`); with a shaken source they need not be (`tiedBook_renamed`).
-/
import Reconciliation.Matching.Renaming
import Reconciliation.Reports.MapOrder
import Reconciliation.Reports.Occurrences

namespace Reconciliation.Reports

open Reconciliation.Base Reconciliation.Base.ClearChoice Reconciliation.Contracts Reconciliation.Normalization
  Reconciliation.Validation Reconciliation.Evidence Reconciliation.Matching Reconciliation.Classification
  Reconciliation.Engine Reconciliation.Builders

/-! ## Renamed trees -/

section Trees
variable {f : NodeRef → NodeRef} {tree tree' : CanonicalTree}

/-- What stays of a property does not depend on the node it belongs to. -/
theorem normalizeContent_ref (profile : NormalizationProfile) (ref ref' : NodeRef) (content : Properties) :
    normalizeContent profile ref content = normalizeContent profile ref' content := by
  have hproperty : ∀ key value, (normalizeProperty profile ref key value).1 = (normalizeProperty profile ref' key value).1 := by
    intro key value
    unfold normalizeProperty
    split
    · rfl
    · split <;> rfl
  unfold normalizeContent
  simp only [hproperty]

theorem rearrangedTree_normalize {Fixed : String → Prop} (h : RearrangedTree f Fixed tree tree')
    (profile : NormalizationProfile) :
    RearrangedTree f Fixed (normalizeTree tree profile) (normalizeTree tree' profile) where
  injective := fun _ ha _ hb hab => h.injective (mem_keys_normalize.mp ha) (mem_keys_normalize.mp hb) hab
  onto := by
    intro ref' href'
    obtain ⟨ref, href, hf⟩ := h.onto ref' (mem_keys_normalize.mp href')
    exact ⟨ref, mem_keys_normalize.mpr href, hf⟩
  root_eq := h.root_eq
  node := by
    intro ref normalized hget
    rw [get_normalize] at hget
    obtain ⟨node, hn, rfl⟩ := Option.map_eq_some_iff.mp hget
    obtain ⟨node', hn', hr⟩ := h.node ref node hn
    refine ⟨normalizeNode profile (f ref) node', by rw [get_normalize, hn']; rfl, ?_⟩
    refine ⟨hr.type_eq, hr.parent_eq, hr.identity_eq, ?_, hr.children_fixed, hr.child_types.imp fun c c' hc => ?_⟩
    · show normalizeContent profile (f ref) node'.contentProperties = normalizeContent profile ref node.contentProperties
      rw [hr.content_eq, normalizeContent_ref profile (f ref) ref]
    · intro child hchild
      rw [get_normalize] at hchild
      obtain ⟨plain, hplain, rfl⟩ := Option.map_eq_some_iff.mp hchild
      obtain ⟨plain', hplain', htype⟩ := hc plain hplain
      exact ⟨normalizeNode profile c' plain', by rw [get_normalize, hplain']; rfl, htype⟩

theorem hierarchy_renamed {Fixed : String → Prop} (h : RearrangedTree f Fixed tree tree') (hr : Rooted tree)
    (hr' : Rooted tree') : hr.hierarchy.Renamed f hr'.hierarchy where
  injective := fun _ ha _ hb hab => h.injective (hr.node_iff.mp ha) (hr.node_iff.mp hb) hab
  onto := by
    intro ref' href'
    obtain ⟨ref, href, hf⟩ := h.onto ref' (hr'.node_iff.mp href')
    exact ⟨ref, hr.node_iff.mpr href, hf⟩
  root_eq := h.root_eq
  parent_eq := fun _ ha => h.parentOf_eq (hr.node_iff.mp ha)

end Trees

/-! ## Absence in renamed comparisons -/

section Verdicts
variable {α β α' β' : Type} {f : α → α'} {g : β → β'} {D : Comparison α β} {D' : Comparison α' β'}
  {certainty : α → β → ℚ} {certainty' : α' → β' → ℚ} {profile : OperationProfile}

theorem moved_renamed (h : Comparison.Renamed f g D D')
    (hcertain : ∀ a b, D.Matched a b → certainty' (f a) (g b) = certainty a b) {a : α} (ha : D.source.Node a) :
    (∃ b', Moved D' certainty' profile (f a) b') ↔ ∃ b, Moved D certainty profile a b := by
  constructor
  · intro hm
    obtain ⟨b', hcross, hsure⟩ := hm
    obtain ⟨a₁, b, hm, hf, rfl⟩ := (h.matched_iff _ _).mp hcross.1
    obtain rfl := h.source.injective (h.matched_nodes a₁ b hm).1 ha hf
    exact ⟨b, (h.crosses_iff hm).mp hcross, hcertain a₁ b hm ▸ hsure⟩
  · intro hm
    obtain ⟨b, hcross, hsure⟩ := hm
    exact ⟨g b, (h.crosses_iff hcross.1).mpr hcross, (hcertain a b hcross.1).symm ▸ hsure⟩

/-- A renamed node is absent when the node was, if absence is withheld in the same places. -/
theorem absent_renamed (h : Comparison.Renamed f g D D')
    (hcertain : ∀ a b, D.Matched a b → certainty' (f a) (g b) = certainty a b) {a : α} (ha : D.source.Node a)
    (hwithheld : ∀ p q, D.source.parent a = some p → D.Paired p q →
      (Withheld D' profile (f p) (g q) (f a) ↔ Withheld D profile p q a)) :
    Absent D' certainty' profile (f a) ↔ Absent D certainty profile a := by
  have hmoved : (∀ b', ¬ Moved D' certainty' profile (f a) b') ↔ ∀ b, ¬ Moved D certainty profile a b := by
    rw [← not_exists, ← not_exists, moved_renamed h hcertain ha]
  constructor
  · intro habsent
    obtain ⟨p', q', halone, hw, hno⟩ := habsent
    obtain ⟨p, hp, rfl⟩ := Option.map_eq_some_iff.mp ((h.source.parent_eq a ha).symm.trans halone.2.1)
    obtain ⟨q, hpq, rfl⟩ := h.of_paired (D.source.parent_node _ _ hp) halone.1
    exact ⟨p, q, (h.alone_iff hp hpq).mp halone, fun hw' => hw ((hwithheld p q hp hpq).mpr hw'), hmoved.mp hno⟩
  · intro habsent
    obtain ⟨p, q, halone, hw, hno⟩ := habsent
    refine ⟨f p, g q, (h.alone_iff halone.2.1 halone.1).mpr halone, fun hw' => hw ?_, hmoved.mpr hno⟩
    exact (hwithheld p q halone.2.1 halone.1).mp hw'

/-- Below renamed parents something is open when something was below the parents. -/
theorem unresolved_renamed (h : Comparison.Renamed f g D D') {p : α} {q : β} (hpq : D.Paired p q)
    (hsource : ∀ a, D.source.parent a = some p → (D'.Open (f a) ↔ D.Open a))
    (htarget : ∀ b, D.target.parent b = some q → (D'.swap.Open (g b) ↔ D.swap.Open b)) :
    D'.Unresolved (f p) (g q) ↔ D.Unresolved p q := by
  obtain ⟨hp, hq⟩ := h.nodes_of_paired hpq
  refine or_congr ⟨fun hu => ?_, fun hu => ?_⟩ ⟨fun hu => ?_, fun hu => ?_⟩
  · obtain ⟨a', ha', ho⟩ := hu
    obtain ⟨a, p₁, hpa, rfl, hf⟩ := h.source.of_parent ha'
    obtain rfl := h.source.injective (D.source.parent_node _ _ hpa) hp hf
    exact ⟨a, hpa, (hsource a hpa).mp ho⟩
  · obtain ⟨a, hpa, ho⟩ := hu
    exact ⟨f a, h.source.parent hpa, (hsource a hpa).mpr ho⟩
  · obtain ⟨b', hb', ho⟩ := hu
    obtain ⟨b, q₁, hqb, rfl, hg⟩ := h.target.of_parent hb'
    obtain rfl := h.target.injective (D.target.parent_node _ _ hqb) hq hg
    exact ⟨b, hqb, (htarget b hqb).mp ho⟩
  · obtain ⟨b, hqb, ho⟩ := hu
    exact ⟨g b, h.target.parent hqb, (htarget b hqb).mpr ho⟩

/-- Where the open nodes are the renamed ones, so are the places where absence is withheld. -/
theorem withheld_renamed (h : Comparison.Renamed f g D D')
    (hsource : ∀ a, D.source.Node a → (D'.Open (f a) ↔ D.Open a))
    (htarget : ∀ b, D.target.Node b → (D'.swap.Open (g b) ↔ D.swap.Open b)) {p a : α} {q : β}
    (hp : D.source.parent a = some p) (hpq : D.Paired p q) :
    Withheld D' profile (f p) (g q) (f a) ↔ Withheld D profile p q a := by
  refine or_congr (and_congr_right fun _ => ?_) (and_congr_right fun _ => hsource a (Hierarchy.node_of_parent hp))
  exact unresolved_renamed h hpq (fun a ha => hsource a (Hierarchy.node_of_parent ha)) fun b hb =>
    htarget b (Hierarchy.node_of_parent hb)

end Verdicts

/-! ## Renamed evidence -/

section Evidence
variable [PyRuntime] {f g : NodeRef → NodeRef} {source source' target target' : CanonicalTree}
  {evidence evidence' : EvidenceIndex} {profile : MatchingProfile}
  (hs : RenamedEvidence f evidence.source evidence'.source) (ht : RenamedEvidence g evidence.target evidence'.target)
  (he : extract source target = .ok evidence) (he' : extract source' target' = .ok evidence')

include hs ht he he'

theorem certainty_renamed {s t : NodeRef} (hm : Corresponding evidence profile s t) :
    certainty evidence' profile (f s) (g t) = certainty evidence profile s t := by
  rcases hm with hauth | hsettles
  · rw [certainty_of_authoritative hauth]
    exact certainty_of_authoritative ((authoritative_renamed hs ht he he').mpr ⟨s, t, hauth, rfl, rfl⟩)
  · have htable : Table.Renamed f g (table evidence profile) (table evidence' profile) := table_renamed hs ht he he'
    obtain ⟨v, hp⟩ := hsettles.pick
    rw [certainty_of_settles hsettles hp.1]
    exact certainty_of_settles (htable.settles_iff.mpr ⟨s, t, hsettles, rfl, rfl⟩) (htable.admits hp.1)

/-- A renamed source is open when the source was, unless it is shaken. -/
theorem source_open_renamed {s : NodeRef} (hmem : s ∈ evidence.source.val.keys)
    (hsteady : ¬ (table evidence profile).Shaken s) :
    (∃ t', (table evidence' profile).Edge (f s) t') ↔ ∃ t, (table evidence profile).Edge s t := by
  have hfree : f s ∈ freeSources evidence' profile ↔ s ∈ freeSources evidence profile := freeSources_renamed hs ht he he' hmem
  by_cases hin : s ∈ freeSources evidence profile
  · exact (table_renamed hs ht he he').source_open_iff hin hsteady
  · refine iff_of_false (fun h => ?_) fun h => ?_
    · obtain ⟨t', hedge⟩ := h
      exact hin (hfree.mp (Edge.free hedge).1)
    · obtain ⟨t, hedge⟩ := h
      exact hin (Edge.free hedge).1

theorem target_open_renamed {t : NodeRef} (hmem : t ∈ evidence.target.val.keys) :
    (∃ s', (table evidence' profile).Edge s' (g t)) ↔ ∃ s, (table evidence profile).Edge s t := by
  have hfree : g t ∈ freeTargets evidence' profile ↔ t ∈ freeTargets evidence profile := freeTargets_renamed hs ht he he' hmem
  by_cases hin : t ∈ freeTargets evidence profile
  · exact (table_renamed hs ht he he').target_open_iff hin
  · refine iff_of_false (fun h => ?_) fun h => ?_
    · obtain ⟨s', hedge⟩ := h
      exact hin (hfree.mp (Edge.free hedge).2)
    · obtain ⟨s, hedge⟩ := h
      exact hin (Edge.free hedge).2

end Evidence

/-- Rearranged trees have the renamed evidence, and the comparison of them is the renamed one. -/
theorem comparison_rearranged [PyRuntime] {f g : NodeRef → NodeRef} {Fixed Fixed' : String → Prop}
    {source source' target target' : CanonicalTree} {evidence evidence' : EvidenceIndex} {profile : MatchingProfile}
    (hs : RearrangedTree f Fixed source source') (ht : RearrangedTree g Fixed' target target')
    (hsource : Rooted source) (htarget : Rooted target) (hsource' : Rooted source') (htarget' : Rooted target')
    (he : extract source target = .ok evidence) (he' : extract source' target' = .ok evidence') :
    RenamedEvidence f evidence.source evidence'.source ∧ RenamedEvidence g evidence.target evidence'.target ∧
      Comparison.Renamed f g (Matching.comparison evidence profile hsource htarget)
        (Matching.comparison evidence' profile hsource' htarget') := by
  obtain ⟨hes, het, -, -⟩ := extract_ok.mp he
  obtain ⟨hes', het', -, -⟩ := extract_ok.mp he'
  have hrs := renamedEvidence_of_rearranged hs hes hes'
  have hrt := renamedEvidence_of_rearranged ht het het'
  refine ⟨hrs, hrt, hierarchy_renamed hs hsource hsource', hierarchy_renamed ht htarget htarget', fun a b hm => ?_,
    fun a' b' => corresponding_renamed hrs hrt he he'⟩
  obtain ⟨x, y, hx, hy, -⟩ := hm.compatible
  exact ⟨hsource.node_iff.mpr ((mem_keys_extractTree hes).mp (evidence.source.val.mem_keys.mpr ⟨x, hx⟩)),
    htarget.node_iff.mpr ((mem_keys_extractTree het).mp (evidence.target.val.mem_keys.mpr ⟨y, hy⟩))⟩

/-! ## Runs -/

section Steadiness
variable {command : ReconcileTreesCommand}

/-- Neither the source node nor, when whole regions are withheld, a sibling of it is shaken. -/
def SteadySource (command : ReconcileTreesCommand) (evidence : EvidenceIndex) (s : NodeRef) : Prop :=
  ∀ a, a = s ∨ (command.operationProfile.unresolvedPresencePolicy = .suppressUnresolvedRegions ∧
    command.sourceTree.parentOf a = command.sourceTree.parentOf s) → ¬ (table evidence command.matchingProfile).Shaken a

/-- When whole regions are withheld, no source node in a region of the target node is shaken. -/
def SteadyTarget (h : Admitted command) (evidence : EvidenceIndex) (t : NodeRef) : Prop :=
  command.operationProfile.unresolvedPresencePolicy = .suppressUnresolvedRegions →
    ∀ a p q, command.sourceTree.parentOf a = some p → command.targetTree.parentOf t = some q →
      (h.comparison evidence).Paired p q → ¬ (table evidence command.matchingProfile).Shaken a

end Steadiness

section Runs
variable [PyRuntime] {command : ReconcileTreesCommand} {f g : NodeRef → NodeRef} {source target : CanonicalTree}
  {evidence : EvidenceIndex} {result result' : ReconciliationResult}

/-- The comparison of renamed trees is the renamed one. -/
theorem comparison_renamed (hs : RenamedTree f command.sourceTree source) (ht : RenamedTree g command.targetTree target)
    (h : Admitted command) (h' : Admitted (withTrees command source target))
    (he : extract (normalizedSource command) (normalizedTarget command) = .ok evidence)
    (he' : extract (normalizedSource (withTrees command source target)) (normalizedTarget (withTrees command source target)) =
      .ok evidence') :
    RenamedEvidence f evidence.source evidence'.source ∧ RenamedEvidence g evidence.target evidence'.target ∧
      Comparison.Renamed f g (h.comparison evidence) (h'.comparison evidence') :=
  comparison_rearranged (rearrangedTree_normalize (hs.rearranged fun _ => True) command.normalizationProfile)
    (rearrangedTree_normalize (ht.rearranged fun _ => True) command.normalizationProfile) h.source_rooted h.target_rooted
    h'.source_rooted h'.target_rooted he he'

/-- Verdicts of absence on renamed trees are the renamed ones, as far as no shaken source bears on them. -/
theorem presence_renamed (hs : RenamedTree f command.sourceTree source) (ht : RenamedTree g command.targetTree target)
    (hc : Completes command result) (hc' : Completes (withTrees command source target) result') (h : Admitted command)
    (he : extract (normalizedSource command) (normalizedTarget command) = .ok evidence) :
    (∀ s ∈ command.sourceTree.nodes.keys, SteadySource command evidence s →
      (SourceIn result' [.delete] (f s) ↔ SourceIn result [.delete] s)) ∧
    ∀ t ∈ command.targetTree.nodes.keys, SteadyTarget h evidence t →
      (TargetIn result' [.insert] (g t) ↔ TargetIn result [.insert] t) := by
  obtain ⟨h', evidence', hstages'⟩ := hc'.exists_stages
  have hstages := stages_of_complete hc.1 hc.2 he
  have he' := hstages'.extracted
  obtain ⟨hrs, hrt, hcomparison⟩ := comparison_renamed hs ht h h' he he'
  obtain ⟨hes, het, -, -⟩ := extract_ok.mp he
  have hcertain : ∀ s t, (h.comparison evidence).Matched s t →
      certainty evidence' command.matchingProfile (f s) (g t) = certainty evidence command.matchingProfile s t :=
    fun s t hm => certainty_renamed hrs hrt he he' hm
  have hsource : ∀ a, (h.comparison evidence).source.Node a → ¬ (table evidence command.matchingProfile).Shaken a →
      ((h'.comparison evidence').Open (f a) ↔ (h.comparison evidence).Open a) := fun a ha hsteady =>
    source_open_renamed hrs hrt he he' ((mem_keys_extractTree hes).mpr (h.source_rooted.node_iff.mp ha)) hsteady
  have htarget : ∀ b, (h.comparison evidence).target.Node b →
      ((h'.comparison evidence').swap.Open (g b) ↔ (h.comparison evidence).swap.Open b) := fun b hb =>
    target_open_renamed hrs hrt he he' ((mem_keys_extractTree het).mpr (h.target_rooted.node_iff.mp hb))
  constructor
  · intro s hmem hsteady
    rw [deleted_iff h hstages, deleted_iff h' hstages']
    refine and_congr_right fun _ => absent_renamed hcomparison hcertain ((h.source_node evidence s).mpr hmem) ?_
    intro p q hp hpq
    refine or_congr (and_congr_right fun hpolicy => unresolved_renamed hcomparison hpq (fun a ha => ?_) fun b hb => ?_)
      (and_congr_right fun _ => hsource s (Hierarchy.node_of_parent hp) (hsteady s (Or.inl rfl)))
    · refine hsource a (Hierarchy.node_of_parent ha) (hsteady a (Or.inr ⟨hpolicy, ?_⟩))
      rw [← h.source_parent evidence, ← h.source_parent evidence, ha, hp]
    · exact htarget b (Hierarchy.node_of_parent hb)
  · intro t hmem hsteady
    rw [inserted_iff h hstages, inserted_iff h' hstages']
    refine and_congr_right fun _ => absent_renamed hcomparison.swap (fun b a hm => hcertain a b hm)
      ((h.target_node evidence t).mpr hmem) ?_
    intro q p hq hpq
    refine or_congr ?_ (and_congr_right fun _ => htarget t (Hierarchy.node_of_parent hq))
    rw [regionWithheld_swap, regionWithheld_swap]
    refine and_congr_right fun hpolicy => unresolved_renamed hcomparison (Comparison.paired_swap.mp hpq) (fun a ha => ?_)
      fun b hb => htarget b (Hierarchy.node_of_parent hb)
    exact hsource a (Hierarchy.node_of_parent ha) (hsteady hpolicy a p q ((h.source_parent evidence a).symm.trans ha)
      ((h.target_parent evidence t).symm.trans hq) (Comparison.paired_swap.mp hpq))

end Runs

/-- Titles and the types of the children count alike. -/
def titleProfile : MatchingProfile :=
  { defaultMatchingProfile with
    featureWeights := [⟨.normalizedLabel, 1 / 2, weight_half⟩, ⟨.weightedSimilarity, 1 / 2, weight_half⟩]
    matchThreshold := 1 / 2
    matchThreshold_range := by norm_num
    probable_le_match := by norm_num [defaultMatchingProfile] }

/-- `guide` has the title of one chapter and the children of the other; `notes` has that title only. -/
def tiedBook : ReconcileTreesCommand :=
  { defaultCommand
      (buildTree "book" [⟨"book", "map", none, [], []⟩, ⟨"guide", "topic", some "book", [], [("title", .str "Setup")]⟩,
        ⟨"step", "step", some "guide", [], []⟩, ⟨"notes", "topic", some "book", [], [("title", .str "Setup")]⟩,
        ⟨"note", "note", some "notes", [], []⟩])
      (buildTree "book" [⟨"book", "map", none, [], []⟩, ⟨"a", "topic", some "book", [], [("title", .str "Setup")]⟩,
        ⟨"table", "table", some "a", [], []⟩, ⟨"b", "topic", some "book", [], [("title", .str "Usage")]⟩,
        ⟨"step", "step", some "b", [], []⟩]) with
    matchingProfile := titleProfile }

/-- The target with the names of the two chapters exchanged. -/
def renamedChapters : CanonicalTree :=
  buildTree "book" [⟨"book", "map", none, [], []⟩, ⟨"b", "topic", some "book", [], [("title", .str "Setup")]⟩,
    ⟨"table", "table", some "b", [], []⟩, ⟨"a", "topic", some "book", [], [("title", .str "Usage")]⟩,
    ⟨"step", "step", some "a", [], []⟩]

theorem chapters_renamed : RenamedTree (Equiv.swap "a" "b") tiedBook.targetTree renamedChapters where
  injective := (Equiv.injective _).injOn
  onto := by decide
  root_eq := by decide
  node := by
    intro ref node hget
    have hmem := tiedBook.targetTree.nodes.get?_eq_some.mp hget
    rcases hmem with _ | ⟨_, _ | ⟨_, _ | ⟨_, _ | ⟨_, _ | ⟨_, ⟨⟩⟩⟩⟩⟩⟩
    all_goals exact ⟨_, rfl, by constructor <;> rfl⟩

theorem tiedBook_runs :
    Outcome.Returns (@reconcile asciiRuntime tiedBook) (fun result =>
      result.complete = true ∧ ¬ SourceIn result [.delete] "notes") ∧
    Outcome.Returns (@reconcile asciiRuntime (withTrees tiedBook tiedBook.sourceTree renamedChapters)) fun result =>
      result.complete = true ∧ SourceIn result [.delete] "notes" := by
  decide +kernel

theorem tiedBook_presence : ∃ result result' evidence, ∃ h : Admitted tiedBook, @Completes asciiRuntime tiedBook result ∧
    @Completes asciiRuntime (withTrees tiedBook tiedBook.sourceTree renamedChapters) result' ∧
    (∀ s ∈ tiedBook.sourceTree.nodes.keys, SteadySource tiedBook evidence s →
      (SourceIn result' [.delete] s ↔ SourceIn result [.delete] s)) ∧
    ∀ t ∈ tiedBook.targetTree.nodes.keys, SteadyTarget h evidence t →
      (TargetIn result' [.insert] (Equiv.swap "a" "b" t) ↔ TargetIn result [.insert] t) := by
  obtain ⟨hrun, hrun'⟩ := tiedBook_runs
  obtain ⟨result, evidence, h, hc, -, he⟩ := @exists_completes asciiRuntime _ _ hrun
  obtain ⟨result', -, -, hc', -⟩ := @exists_completes asciiRuntime _ _ hrun'
  exact ⟨result, result', evidence, h, hc, hc',
    @presence_renamed asciiRuntime _ _ _ _ _ _ _ _ (renamedTree_refl _) chapters_renamed hc hc' h he⟩

/-- The names of the chapters decide whether `guide` contests the one that `notes` likes best, and so
    whether `notes` is reported absent. -/
theorem tiedBook_renamed : RenamedTree id tiedBook.sourceTree tiedBook.sourceTree ∧
    RenamedTree (Equiv.swap "a" "b") tiedBook.targetTree renamedChapters ∧
    tiedBook.operationProfile.unresolvedPresencePolicy ≠ .emitAll ∧
    Outcome.Returns (@reconcile asciiRuntime tiedBook) (fun result =>
      result.complete = true ∧ ¬ SourceIn result [.delete] "notes") ∧
    Outcome.Returns (@reconcile asciiRuntime (withTrees tiedBook tiedBook.sourceTree renamedChapters)) fun result =>
      result.complete = true ∧ SourceIn result [.delete] "notes" :=
  ⟨renamedTree_refl _, chapters_renamed, by decide, tiedBook_runs⟩

end Reconciliation.Reports

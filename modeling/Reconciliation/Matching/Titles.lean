/-
  Reconciliation.Matching.Titles — what translated titles do to a matching.

  The profile can ask that translatable text be no signal of identity, and nothing reads
  that field: titles count as labels, and as content in the signature. Ids, types and the
  types of the children are the same in every language, so the confirmed pairs of two
  locales are the same as long as no comparison between scores comes out differently
  (`confirmed_retitled`); the title of a single topic can make the difference
  (`translated_not_confirmed`).
-/
import Reconciliation.Base.Invariance
import Reconciliation.Contracts.Alike
import Reconciliation.Matching.Guarantees

namespace Reconciliation.Matching

open Reconciliation.Base Reconciliation.Base.ClearChoice Reconciliation.Contracts Reconciliation.Evidence
  Reconciliation.Builders

/-! ## Locales of a tree -/

/-- The same node, up to the texts under its title keys. -/
structure TitleVariant (node node' : CanonicalNode) : Prop extends SameLinks node node' where
  identity_eq : node.identityProperties = node'.identityProperties
  content : List.Forall₂ (fun e e' => e.1 = e'.1 ∧
      (e.2 = e'.2 ∨ (e.1 ∈ defaultLabelKeys ∧ ∃ title title', e.2 = .str title ∧ e'.2 = .str title')))
    node.contentProperties.entries node'.contentProperties.entries
  structural_eq : node.structuralProperties = node'.structuralProperties
  extension_eq : node.extensionProperties = node'.extensionProperties

/-- The same tree, up to the titles of its nodes. -/
def Retitled (tree tree' : CanonicalTree) : Prop := Alike TitleVariant tree tree'

/-- The same evidence, up to the label and the signature. -/
structure SameButTitles (e e' : NodeEvidence) : Prop where
  nodeRef_eq : e.nodeRef = e'.nodeRef
  type_eq : e.nodeType = e'.nodeType
  id_eq : e.persistentId = e'.persistentId
  children_eq : e.childSignature = e'.childSignature

section Locales
variable {node node' : CanonicalNode}

theorem TitleVariant.content_eq (h : TitleVariant node node') {key : String} (hkey : key ∉ defaultLabelKeys) :
    node.contentProperties.get? key = node'.contentProperties.get? key := by
  refine Option.ext fun value => ?_
  rw [Dict.get?_eq_some, Dict.get?_eq_some]
  constructor
  · intro hv
    obtain ⟨⟨key', value'⟩, hmem, rfl, heq | ⟨hlabel, -⟩⟩ := Outcome.right_of_mem_left h.content hv
    · obtain rfl : value = value' := heq
      exact hmem
    · exact absurd hlabel hkey
  · intro hv
    obtain ⟨⟨key', value'⟩, hmem, hk, heq | ⟨hlabel, -⟩⟩ := Outcome.left_of_mem_right h.content hv
    · obtain rfl : key' = key := hk
      obtain rfl : value' = value := heq
      exact hmem
    · obtain rfl : key' = key := hk
      exact absurd hlabel hkey

/-- No title key is an id key, so the ids are the same. -/
theorem TitleVariant.firstPresent_eq (h : TitleVariant node node') {keys : List String}
    (hkeys : ∀ key ∈ keys, key ∉ defaultLabelKeys) : firstPresent node keys = firstPresent node' keys := by
  induction keys with
  | nil => rfl
  | cons key rest ih =>
    have hvalue : presentValue node key = presentValue node' key := by
      unfold presentValue
      rw [h.identity_eq, h.content_eq (hkeys key List.mem_cons_self)]
    rw [firstPresent, firstPresent, hvalue, ih fun k hk => hkeys k (List.mem_cons_of_mem key hk)]

end Locales

section Extracted
variable [PyRuntime] {tree tree' : CanonicalTree} {evidence evidence' : KeyedEvidence} (h : Retitled tree tree')
  (he : extractTree tree = .ok evidence) (he' : extractTree tree' = .ok evidence')

include h he he'

theorem keys_retitled (ref : NodeRef) : ref ∈ evidence.val.keys ↔ ref ∈ evidence'.val.keys := by
  rw [mem_keys_extractTree he, mem_keys_extractTree he', Dict.mem_keys, Dict.mem_keys]
  have hget := h.get ref
  revert hget
  generalize tree.nodes.get? ref = a
  generalize tree'.nodes.get? ref = b
  intro hget
  cases hget <;> simp

theorem sameButTitles {ref : NodeRef} {e e' : NodeEvidence} (hget : evidence.val.get? ref = some e)
    (hget' : evidence'.val.get? ref = some e') : SameButTitles e e' := by
  obtain ⟨node, hn, hnode⟩ := (get_extractTree he).mp hget
  obtain ⟨node', hn', hnode'⟩ := (get_extractTree he').mp hget'
  have hvariant := h.get ref
  rw [hn, hn'] at hvariant
  cases hvariant with
  | some hvariant =>
    obtain ⟨href, htype, hid, -⟩ := nodeEvidence_fields hnode
    obtain ⟨href', htype', hid', -⟩ := nodeEvidence_fields hnode'
    have hchildren : childSignature tree node = childSignature tree' node' := by
      unfold childSignature
      rw [hvariant.children_eq, funext fun c => h.map_congr (fun a b hab => hab.type_eq) c]
    refine ⟨href.trans href'.symm, (htype.trans hvariant.type_eq).trans htype'.symm, ?_, ?_⟩
    · rw [hid, hid', hvariant.firstPresent_eq (by decide)]
    · unfold nodeEvidence at hnode hnode'
      simp only [Outcome.bind_ok, Outcome.pure_ok] at hnode hnode'
      obtain ⟨children, hc, rfl⟩ := hnode
      obtain ⟨children', hc', rfl⟩ := hnode'
      exact Except.ok.inj (hc.symm.trans (hchildren.trans hc'))

/-- An id has the same single holder in every locale. -/
theorem holdsAlone_retitled {i : String} {ref : NodeRef} : HoldsAlone evidence i ref ↔ HoldsAlone evidence' i ref := by
  refine forall_congr' fun r => iff_congr ?_ Iff.rfl
  have hkeys := keys_retitled h he he' r
  rw [Dict.mem_keys, Dict.mem_keys] at hkeys
  constructor
  · intro hr
    obtain ⟨e, hget, hi⟩ := hr
    obtain ⟨e', hget'⟩ := hkeys.mp ⟨e, hget⟩
    exact ⟨e', hget', (sameButTitles h he he' hget hget').id_eq ▸ hi⟩
  · intro hr
    obtain ⟨e', hget', hi⟩ := hr
    obtain ⟨e, hget⟩ := hkeys.mpr ⟨e', hget'⟩
    exact ⟨e, hget, (sameButTitles h he he' hget hget').id_eq ▸ hi⟩

end Extracted

/-! ## Matching in two locales -/

section Runs
variable [PyRuntime] {source target target' : CanonicalTree} {evidence evidence' : EvidenceIndex}
  {profile : MatchingProfile} {g g' : MatchGraph}

/-- The same pairs are authoritative in every locale. -/
theorem authoritative_retitled (h : Retitled target target') (he : extract source target = .ok evidence)
    (he' : extract source target' = .ok evidence') {s t : NodeRef} :
    Authoritative evidence profile s t ↔ Authoritative evidence' profile s t := by
  obtain ⟨hes, het, -, -⟩ := extract_ok.mp he
  obtain ⟨hes', het', -, -⟩ := extract_ok.mp he'
  have hsource : evidence.source = evidence'.source := Except.ok.inj (hes.symm.trans hes')
  have hkeys := keys_retitled h het het' t
  rw [Dict.mem_keys, Dict.mem_keys] at hkeys
  rw [authoritative_iff he, authoritative_iff he', SharesId, SharesId, hsource]
  simp only [holdsAlone_retitled h het het']
  refine and_congr_right fun _ => exists_congr fun a => ?_
  constructor
  · intro hab
    obtain ⟨b, ha, hb, hcomp⟩ := hab
    obtain ⟨b', hb'⟩ := hkeys.mp ⟨b, hb⟩
    rw [compatible_iff, (sameButTitles h het het' hb hb').type_eq, ← compatible_iff] at hcomp
    exact ⟨b', ha, hb', hcomp⟩
  · intro hab
    obtain ⟨b', ha, hb', hcomp⟩ := hab
    obtain ⟨b, hb⟩ := hkeys.mpr ⟨b', hb'⟩
    rw [compatible_iff, ← (sameButTitles h het het' hb hb').type_eq, ← compatible_iff] at hcomp
    exact ⟨b, ha, hb, hcomp⟩

/-- Two locales of a target have the same confirmed pairs when no comparison of scores comes out differently. -/
theorem confirmed_retitled (h : Retitled target target') (he : extract source target = .ok evidence)
    (he' : extract source target' = .ok evidence') (hg : match_ evidence profile = .ok g)
    (hg' : match_ evidence' profile = .ok g')
    (hsame : (table evidence profile).SameComparisons (table evidence' profile)) (s t : NodeRef) :
    g.Confirmed s t ↔ g'.Confirmed s t := by
  obtain ⟨hes, het, -, -⟩ := extract_ok.mp he
  obtain ⟨hes', het', -, -⟩ := extract_ok.mp he'
  have hsource : evidence.source = evidence'.source := Except.ok.inj (hes.symm.trans hes')
  have hauth : ∀ s t, Authoritative evidence profile s t ↔ Authoritative evidence' profile s t := fun s t =>
    authoritative_retitled h he he'
  have hsources : ∀ a, a ∈ freeSources evidence profile ↔ a ∈ freeSources evidence' profile := by
    intro a
    rw [mem_freeSources, mem_freeSources, hsource]
    exact and_congr_right fun _ => forall_congr' fun t => not_congr (hauth a t)
  have htargets : ∀ b, b ∈ freeTargets evidence profile ↔ b ∈ freeTargets evidence' profile := by
    intro b
    rw [mem_freeTargets, mem_freeTargets, keys_retitled h het het' b]
    exact and_congr_right fun _ => forall_congr' fun s => not_congr (hauth s b)
  rw [confirmed_iff hg, confirmed_iff hg']
  exact or_congr (hauth s t) (hsame.settles_iff hsources htargets)

end Runs

/-- A map of three topics, with these titles for the first and the last; the first one has an id. -/
def titledMap (first last : String) : CanonicalTree := buildTree "map" [⟨"map", "map", none, [], []⟩,
  ⟨"install", "topic", some "map", [("id", .str "t1")], [("title", .str first)]⟩,
  ⟨"usage", "topic", some "map", [], [("title", .str "Usage")]⟩,
  ⟨"history", "topic", some "map", [], [("title", .str last)]⟩] (by simp [Drafted])

theorem titledMap_retitled : Retitled (titledMap "Installation" "History") (titledMap "Montage" "Historique") where
  root := rfl
  nodes := by
    refine ⟨_, .refl _, .cons ⟨rfl, ⟨⟨rfl, rfl, rfl⟩, rfl, .nil, rfl, rfl⟩⟩ ?_⟩
    refine .cons ⟨rfl, ⟨⟨rfl, rfl, rfl⟩, rfl, .cons ⟨rfl, Or.inr ⟨by decide, _, _, rfl, rfl⟩⟩ .nil, rfl, rfl⟩⟩ ?_
    refine .cons ⟨rfl, ⟨⟨rfl, rfl, rfl⟩, rfl, .cons ⟨rfl, Or.inl rfl⟩ .nil, rfl, rfl⟩⟩ ?_
    exact .cons ⟨rfl, ⟨⟨rfl, rfl, rfl⟩, rfl, .cons ⟨rfl, Or.inr ⟨by decide, _, _, rfl, rfl⟩⟩ .nil, rfl, rfl⟩⟩ .nil

/-- A map without the last topic. -/
def shortMap : CanonicalTree := buildTree "map" [⟨"map", "map", none, [], []⟩,
  ⟨"install", "topic", some "map", [("id", .str "t1")], [("title", .str "Installation")]⟩,
  ⟨"usage", "topic", some "map", [], [("title", .str "Usage")]⟩]

theorem shortMap_retitled : ∃ evidence evidence' g g',
    @extract asciiRuntime shortMap (titledMap "Installation" "History") = .ok evidence ∧
    @extract asciiRuntime shortMap (titledMap "Montage" "Historique") = .ok evidence' ∧
    match_ evidence defaultMatchingProfile = .ok g ∧ match_ evidence' defaultMatchingProfile = .ok g' ∧
    ∀ s t, g.Confirmed s t ↔ g'.Confirmed s t := by
  have hrun : Outcome.Returns (do
      let evidence ← @extract asciiRuntime shortMap (titledMap "Installation" "History")
      let evidence' ← @extract asciiRuntime shortMap (titledMap "Montage" "Historique")
      let g ← match_ evidence defaultMatchingProfile
      let g' ← match_ evidence' defaultMatchingProfile
      return ((evidence, evidence'), g, g')) fun x =>
        (table x.1.1 defaultMatchingProfile).SameComparisons (table x.1.2 defaultMatchingProfile) := by
    decide +kernel
  obtain ⟨x, hrun, hsame⟩ := hrun
  simp only [Outcome.bind_ok, Outcome.pure_ok] at hrun
  obtain ⟨evidence, he, evidence', he', g, hg, g', hg', rfl⟩ := hrun
  exact ⟨evidence, evidence', g, g', he, he', hg, hg',
    @confirmed_retitled asciiRuntime _ _ _ _ _ _ _ _ titledMap_retitled he he' hg hg' hsame⟩

/-- The translated title of a topic without an id makes it another topic, whatever the profile says. -/
theorem translated_not_confirmed : defaultMatchingProfile.disableSimilarityForTranslatable = true ∧
    Retitled (titledMap "Installation" "History") (titledMap "Montage" "Historique") ∧
    Outcome.Returns (do
      let evidence ← @extract asciiRuntime (titledMap "Installation" "History") (titledMap "Installation" "History")
      match_ evidence defaultMatchingProfile) (fun g => g.Confirmed "history" "history") ∧
    Outcome.Returns (do
      let evidence ← @extract asciiRuntime (titledMap "Installation" "History") (titledMap "Montage" "Historique")
      match_ evidence defaultMatchingProfile) fun g => ¬ g.Confirmed "history" "history" :=
  ⟨rfl, titledMap_retitled, by decide +kernel, by decide +kernel⟩

end Reconciliation.Matching

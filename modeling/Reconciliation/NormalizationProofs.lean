/-
  Reconciliation.NormalizationProofs — normalizing again changes nothing.

  White space once collapsed and stripped stays as it is (`collapseWhitespace_again`), so
  every value does (`normalizeValue_again`) and every tree does (`normalizeTree_again`).
  Python finds a normalized value equal to the given one exactly when it is the given one,
  a not-a-number apart (`normalizeValue_unchanged`): that one value is listed in the trace
  and kept.
-/
import Reconciliation.Normalization

namespace Reconciliation.Contracts

/-! ## Collapsed white space -/

/-- Blanks are the only white space, and no two stand together. -/
structure Collapsed (cs : List Char) : Prop where
  blanks : ∀ c ∈ cs, isSpace c = true → c = ' '
  apart : cs.IsChain fun a b => ¬ (isSpace a = true ∧ isSpace b = true)

theorem Collapsed.within {cs ds : List Char} (h : Collapsed cs) (hds : ds <:+: cs) : Collapsed ds where
  blanks := fun c hc hspace => h.blanks c (hds.subset hc) hspace
  apart := by
    obtain ⟨before, after, rfl⟩ := hds
    exact (List.isChain_append.mp (List.isChain_append.mp h.apart).1).2.1

/-- In a run only blanks are dropped, so what follows the run does not begin with one. -/
theorem collapsed_collapseRuns (cs : List Char) (inRun : Bool) :
    Collapsed (collapseRuns inRun cs) ∧
      (inRun = true → ∀ c ∈ (collapseRuns inRun cs).head?, isSpace c = false) := by
  induction cs generalizing inRun with
  | nil => exact ⟨⟨by simp [collapseRuns], by simp [collapseRuns]⟩, by simp [collapseRuns]⟩
  | cons c cs ih =>
    unfold collapseRuns
    by_cases hc : isSpace c = true
    · rw [if_pos hc]
      cases inRun with
      | true => exact ih true
      | false =>
        obtain ⟨hrest, hhead⟩ := ih true
        refine ⟨⟨?_, ?_⟩, by simp⟩
        · intro d hd hspace
          rcases List.mem_cons.mp hd with rfl | hd
          · rfl
          · exact hrest.blanks d hd hspace
        · refine List.isChain_cons.mpr ⟨fun d hd hboth => ?_, hrest.apart⟩
          have := hhead rfl d hd
          simp_all
    · rw [if_neg hc]
      obtain ⟨hrest, -⟩ := ih false
      refine ⟨⟨?_, ?_⟩, ?_⟩
      · intro d hd hspace
        rcases List.mem_cons.mp hd with rfl | hd
        · exact absurd hspace hc
        · exact hrest.blanks d hd hspace
      · exact List.isChain_cons.mpr ⟨fun d hd hboth => hc hboth.1, hrest.apart⟩
      · intro _ d hd
        rw [List.head?_cons, Option.mem_some_iff] at hd
        subst hd
        simpa using hc

theorem collapseRuns_collapsed {cs : List Char} (h : Collapsed cs) : collapseRuns false cs = cs := by
  have hgo : ∀ (inRun : Bool) (cs : List Char), Collapsed cs →
      (inRun = true → ∀ c ∈ cs.head?, isSpace c = false) → collapseRuns inRun cs = cs := by
    intro inRun cs
    induction cs generalizing inRun with
    | nil => intro _ _; rfl
    | cons c cs ih =>
      intro h hhead
      have hrest : Collapsed cs := h.within (List.suffix_cons c cs).isInfix
      unfold collapseRuns
      by_cases hc : isSpace c = true
      · have hrun : inRun = false := by
          by_contra hrun
          have := hhead (by simpa using hrun) c rfl
          simp_all
        have hnext : ∀ d ∈ cs.head?, isSpace d = false := by
          intro d hd
          have := (List.isChain_cons.mp h.apart).1 d hd
          simp_all
        rw [if_pos hc, hrun, if_neg (by simp), ih true hrest fun _ => hnext, ← h.blanks c (by simp) hc]
      · rw [if_neg hc, ih false hrest (by simp)]
  exact hgo false cs h (by simp)

theorem strip_within (cs : List Char) : strip cs <:+: cs := by
  show (cs.dropWhile isSpace).rdropWhile isSpace <:+: cs
  have hend : (cs.dropWhile isSpace).rdropWhile isSpace <+: cs.dropWhile isSpace := List.rdropWhile_prefix isSpace _
  exact hend.isInfix.trans (List.dropWhile_suffix isSpace).isInfix

/-- A stripped text begins and ends with no white space. -/
theorem strip_again (cs : List Char) : strip (strip cs) = strip cs := by
  show ((strip cs).dropWhile isSpace).rdropWhile isSpace = strip cs
  have hhead : (strip cs).dropWhile isSpace = strip cs := by
    rw [List.dropWhile_eq_self_iff]
    intro hlen hspace
    have hstart : strip cs <+: cs.dropWhile isSpace := List.rdropWhile_prefix isSpace _
    have hfirst : 0 < (cs.dropWhile isSpace).length := Nat.lt_of_lt_of_le hlen hstart.length_le
    have hnot := List.dropWhile_get_zero_not isSpace cs hfirst
    rw [hstart.getElem hlen] at hspace
    exact hnot hspace
  rw [hhead]
  exact List.rdropWhile_idempotent isSpace (cs.dropWhile isSpace)

theorem collapseWhitespace_again (s : String) : collapseWhitespace (collapseWhitespace s) = collapseWhitespace s := by
  have hcollapsed : Collapsed (strip (collapseRuns false s.toList)) :=
    (collapsed_collapseRuns s.toList false).1.within (strip_within _)
  unfold collapseWhitespace
  rw [String.toList_ofList, collapseRuns_collapsed hcollapsed, strip_again]

/-! ## Distinct keys -/

namespace CanonicalValue

mutual

/-- Every dict in the value holds each of its keys once. -/
def DistinctKeys : CanonicalValue → Prop
  | .list items => DistinctKeysItems items
  | .dict entries => (entries.map Prod.fst).Nodup ∧ DistinctKeysEntries entries
  | _ => True

def DistinctKeysItems : List CanonicalValue → Prop
  | [] => True
  | v :: rest => DistinctKeys v ∧ DistinctKeysItems rest

def DistinctKeysEntries : List (String × CanonicalValue) → Prop
  | [] => True
  | (_, v) :: rest => DistinctKeys v ∧ DistinctKeysEntries rest

end

/-- Only a not-a-number is the same as itself and not equal to itself. -/
theorem pyEq_self_iff (v : CanonicalValue) : v.pyEq v = true ↔ ∀ object, v ≠ .float (.nan object) := by
  have hsame := pySame_refl v
  cases v with
  | float f => cases f <;> simp [pyEq, magnitude, PyFloat.magnitude]
  | _ => simpa [pySame, pyIs] using hsame

end CanonicalValue

end Reconciliation.Contracts

namespace Reconciliation.Normalization

open Reconciliation.Base Reconciliation.Contracts Reconciliation.Contracts.CanonicalValue Reconciliation.Validation

/-! ## Values -/

mutual

theorem normalizeValue_again : ∀ v : CanonicalValue, normalizeValue (normalizeValue v) = normalizeValue v
  | .none => by simp [normalizeValue]
  | .bool b => by simp [normalizeValue]
  | .int z => by simp [normalizeValue]
  | .float f => by simp [normalizeValue]
  | .str s => by simp [normalizeValue, collapseWhitespace_again]
  | .list items => by simp [normalizeValue, normalizeItems_again items]
  | .dict entries => by simp [normalizeValue, normalizeEntries_again entries]

theorem normalizeItems_again : ∀ items : List CanonicalValue, normalizeItems (normalizeItems items) = normalizeItems items
  | [] => rfl
  | v :: rest => by simp [normalizeItems, normalizeValue_again v, normalizeItems_again rest]

theorem normalizeEntries_again : ∀ entries : List (String × CanonicalValue),
    normalizeEntries (normalizeEntries entries) = normalizeEntries entries
  | [] => rfl
  | (k, v) :: rest => by simp [normalizeEntries, normalizeValue_again v, normalizeEntries_again rest]

end

mutual

/-- A value that stays the same for Python stays as it is. -/
theorem normalizeValue_of_same : ∀ v : CanonicalValue, v.DistinctKeys → (normalizeValue v).pySame v = true →
    normalizeValue v = v
  | .none, _, _ => rfl
  | .bool _, _, _ => rfl
  | .int _, _, _ => rfl
  | .float _, _, _ => rfl
  | .str s, _, h => by
    have : collapseWhitespace s = s := by simpa [normalizeValue, pySame, pyIs, pyEq] using h
    rw [normalizeValue, this]
  | .list items, hkeys, h => by
    have hitems : pyEqList (normalizeItems items) items = true := by simpa [normalizeValue, pySame, pyIs, pyEq] using h
    rw [normalizeValue, normalizeItems_of_same items (by simpa [DistinctKeys] using hkeys) hitems]
  | .dict entries, hkeys, h => by
    obtain ⟨hnodup, hvalues⟩ : (entries.map Prod.fst).Nodup ∧ DistinctKeysEntries entries := by
      simpa [DistinctKeys] using hkeys
    have hentries : pyEqEntries (normalizeEntries entries) entries = true := by
      have : (normalizeEntries entries).length = entries.length ∧ pyEqEntries (normalizeEntries entries) entries = true := by
        simpa [normalizeValue, pySame, pyIs, pyEq] using h
      exact this.2
    rw [normalizeValue, normalizeEntries_of_same entries entries (fun e he => he) hnodup hvalues hentries]

theorem normalizeItems_of_same : ∀ items : List CanonicalValue, DistinctKeysItems items →
    pyEqList (normalizeItems items) items = true → normalizeItems items = items
  | [], _, _ => rfl
  | v :: rest, hkeys, h => by
    obtain ⟨hv, hrest⟩ : DistinctKeys v ∧ DistinctKeysItems rest := by simpa [DistinctKeysItems] using hkeys
    rw [normalizeItems, pyEqList, Bool.and_eq_true] at h
    rw [normalizeItems, normalizeValue_of_same v hv h.1, normalizeItems_of_same rest hrest h.2]

/-- An entry is compared with the one that has its key, and no other has. -/
theorem normalizeEntries_of_same : ∀ rest entries : List (String × CanonicalValue), (∀ e ∈ rest, e ∈ entries) →
    (entries.map Prod.fst).Nodup → DistinctKeysEntries rest → pyEqEntries (normalizeEntries rest) entries = true →
    normalizeEntries rest = rest
  | [], _, _, _, _, _ => rfl
  | (k, v) :: rest, entries, hsub, hnodup, hkeys, h => by
    obtain ⟨hv, hrest⟩ : DistinctKeys v ∧ DistinctKeysEntries rest := by simpa [DistinctKeysEntries] using hkeys
    rw [normalizeEntries, pyEqEntries, Bool.and_eq_true, List.any_eq_true] at h
    obtain ⟨⟨⟨k', w⟩, hw, hkw⟩, htail⟩ := h
    obtain ⟨rfl, hsame⟩ : k' = k ∧ (normalizeValue v).pySame w = true := by
      simpa only [pySame, Bool.and_eq_true, decide_eq_true_eq] using hkw
    have hvw : (k', w) = (k', v) := List.inj_on_of_nodup_map hnodup hw (hsub _ (by simp)) rfl
    obtain ⟨-, rfl⟩ := Prod.mk.inj hvw
    rw [normalizeEntries, normalizeValue_of_same w hv hsame,
      normalizeEntries_of_same rest entries (fun e he => hsub e (by simp [he])) hnodup hrest htail]

end

/-- Normalization lists no change exactly where it makes none, a not-a-number apart. -/
theorem normalizeValue_unchanged {v : CanonicalValue} (hkeys : v.DistinctKeys) :
    (normalizeValue v).pyEq v = true ↔ normalizeValue v = v ∧ ∀ object, v ≠ .float (.nan object) := by
  constructor
  · intro h
    have hsame : normalizeValue v = v := normalizeValue_of_same v hkeys (by rw [pySame, h, Bool.or_true])
    rw [hsame] at h
    exact ⟨hsame, (pyEq_self_iff v).mp h⟩
  · intro h
    rw [h.1]
    exact (pyEq_self_iff v).mpr h.2

/-! ## Properties -/

/-- A not-a-number that normalization compares with itself. -/
def LooseNan (profile : NormalizationProfile) (key : String) (value : CanonicalValue) : Prop :=
  (∃ object, value = .float (.nan object)) ∧ profile.collapseWhitespace = true ∧
    key ∉ profile.nonsemanticMetadataKeys ∧ key ∉ profile.preservePropertyKeys

section Property
variable {profile : NormalizationProfile} {ref : NodeRef} {key : String} {v w : CanonicalValue}

/-- Everything normalization can do with a property. -/
theorem normalizeProperty_cases (profile : NormalizationProfile) (ref : NodeRef) (key : String) (v : CanonicalValue) :
    (key ∈ profile.nonsemanticMetadataKeys ∧
      normalizeProperty profile ref key v = (Option.none, [⟨ref, key, "exclude-nonsemantic"⟩])) ∨
    ((key ∉ profile.nonsemanticMetadataKeys ∧ profile.collapseWhitespace = true ∧ key ∉ profile.preservePropertyKeys) ∧
      normalizeProperty profile ref key v =
        (some (normalizeValue v), if (normalizeValue v).pyEq v then [] else [⟨ref, key, "collapse-whitespace"⟩])) ∨
    (¬ (profile.collapseWhitespace = true ∧ key ∉ profile.preservePropertyKeys) ∧
      normalizeProperty profile ref key v = (some v, [])) := by
  unfold normalizeProperty
  by_cases hout : key ∈ profile.nonsemanticMetadataKeys
  · exact Or.inl ⟨hout, if_pos hout⟩
  · rw [if_neg hout]
    by_cases hcollapse : profile.collapseWhitespace = true ∧ key ∉ profile.preservePropertyKeys
    · exact Or.inr (Or.inl ⟨⟨hout, hcollapse⟩, if_pos hcollapse⟩)
    · exact Or.inr (Or.inr ⟨hcollapse, if_neg hcollapse⟩)

theorem normalizeProperty_preserved (hkey : key ∈ profile.preservePropertyKeys) :
    normalizeProperty profile ref key v = (some v, []) := by
  rcases normalizeProperty_cases profile ref key v with ⟨hout, -⟩ | ⟨⟨-, -, hnot⟩, -⟩ | ⟨-, heq⟩
  · exact absurd hkey (profile.no_conflict key hout)
  · exact absurd hkey hnot
  · exact heq

/-- At most one entry, and that of the property. -/
theorem normalizeProperty_listed (profile : NormalizationProfile) (ref : NodeRef) (key : String) (v : CanonicalValue) :
    (normalizeProperty profile ref key v).2 = [] ∨
      ∃ rule, (normalizeProperty profile ref key v).2 = [⟨ref, key, rule⟩] := by
  rcases normalizeProperty_cases profile ref key v with ⟨-, heq⟩ | ⟨-, heq⟩ | ⟨-, heq⟩
  · exact Or.inr ⟨_, by rw [heq]⟩
  · by_cases hsame : (normalizeValue v).pyEq v = true
    · exact Or.inl (by simp [heq, hsame])
    · exact Or.inr ⟨"collapse-whitespace", by simp [heq, hsame]⟩
  · exact Or.inl (by rw [heq])

theorem normalizeProperty_again (h : (normalizeProperty profile ref key v).1 = some w) :
    (normalizeProperty profile ref key w).1 = some w := by
  rcases normalizeProperty_cases profile ref key v with ⟨-, heq⟩ | ⟨hcollapse, heq⟩ | ⟨-, heq⟩
  · simp [heq] at h
  · have hw : normalizeValue v = w := by simpa [heq] using h
    rw [normalizeProperty, if_neg hcollapse.1, if_pos hcollapse.2, ← hw, normalizeValue_again]
  · have hw : v = w := by simpa [heq] using h
    rw [← hw, heq]

/-- Where a value stays, nothing is listed but a not-a-number. -/
theorem normalizeProperty_kept (h : (normalizeProperty profile ref key v).1 = some v) :
    (normalizeProperty profile ref key v).2 = [] ↔ ¬ LooseNan profile key v := by
  rcases normalizeProperty_cases profile ref key v with ⟨-, heq⟩ | ⟨⟨hout, hcollapse⟩, heq⟩ | ⟨hcollapse, heq⟩
  · simp [heq] at h
  · have hv : normalizeValue v = v := by simpa [heq] using h
    have hself : v.pyEq v = true ↔ ¬ ∃ object, v = .float (.nan object) := by rw [pyEq_self_iff, not_exists]
    simp [heq, hv, hself, LooseNan, hout, hcollapse]
  · have hnot : ¬ LooseNan profile key v := fun hloose => hcollapse ⟨hloose.2.1, hloose.2.2.2⟩
    simp [heq, hnot]

/-- Where nothing is listed, the value stays. -/
theorem normalizeProperty_silent (hkeys : v.DistinctKeys) (h : (normalizeProperty profile ref key v).2 = []) :
    (normalizeProperty profile ref key v).1 = some v := by
  rcases normalizeProperty_cases profile ref key v with ⟨-, heq⟩ | ⟨-, heq⟩ | ⟨-, heq⟩
  · simp [heq] at h
  · have hsame : (normalizeValue v).pyEq v = true := by
      by_contra hdiffers
      simp [heq, hdiffers] at h
    rw [heq, ((normalizeValue_unchanged hkeys).mp hsame).1]
  · rw [heq]

theorem normalizeValue_nan {object : Nat} : normalizeValue v = .float (.nan object) ↔ v = .float (.nan object) := by
  cases v <;> simp [normalizeValue]

/-- What stays of a value is a not-a-number exactly when the value is. -/
theorem looseNan_kept (h : (normalizeProperty profile ref key v).1 = some w) :
    LooseNan profile key w ↔ LooseNan profile key v := by
  have hnan : ∀ object, w = .float (.nan object) ↔ v = .float (.nan object) := by
    intro object
    rcases normalizeProperty_cases profile ref key v with ⟨-, heq⟩ | ⟨-, heq⟩ | ⟨-, heq⟩
    · simp [heq] at h
    · have hw : normalizeValue v = w := by simpa [heq] using h
      rw [← hw]
      exact normalizeValue_nan
    · have hw : v = w := by simpa [heq] using h
      rw [hw]
  simp only [LooseNan, hnan]

/-- A loose not-a-number stays. -/
theorem looseNan_stays (h : LooseNan profile key v) : (normalizeProperty profile ref key v).1 = some v := by
  obtain ⟨⟨object, rfl⟩, hcollapse, hout, hpreserve⟩ := h
  rw [normalizeProperty, if_neg hout, if_pos ⟨hcollapse, hpreserve⟩]
  rfl

end Property

/-! ## Trees -/

section Tree
variable {tree : CanonicalTree} {profile : NormalizationProfile}

theorem get_normalizeContent (profile : NormalizationProfile) (ref : NodeRef) (content : Properties) (key : String) :
    (normalizeContent profile ref content).get? key =
      (content.get? key).bind fun value => (normalizeProperty profile ref key value).1 := by
  rw [normalizeContent, Dict.get?_filterMapVal, Dict.get?_sorted]

theorem normalizeContent_again (profile : NormalizationProfile) (ref : NodeRef) (content : Properties) :
    normalizeContent profile ref (normalizeContent profile ref content) = normalizeContent profile ref content := by
  have hsorted : (normalizeContent profile ref content).sorted = normalizeContent profile ref content :=
    Dict.sorted_eq_self ((Dict.pairwise_keys_sorted content).sublist (Dict.keys_filterMapVal_sublist _ _))
  conv_lhs => rw [normalizeContent, hsorted]
  refine Dict.filterMapVal_eq_self fun e he => ?_
  obtain ⟨value, -, hvalue⟩ := Option.bind_eq_some_iff.mp
    ((get_normalizeContent profile ref content e.1).symm.trans ((Dict.get?_eq_some _).mpr he))
  exact normalizeProperty_again hvalue

theorem normalizeNode_again (profile : NormalizationProfile) (ref : NodeRef) (node : CanonicalNode) :
    normalizeNode profile ref (normalizeNode profile ref node) = normalizeNode profile ref node := by
  unfold normalizeNode
  rw [normalizeContent_again]

theorem tree_eq {t t' : CanonicalTree} (hroot : t.rootNodeRef = t'.rootNodeRef) (hnodes : t.nodes = t'.nodes) : t = t' := by
  cases t
  cases t'
  simp_all

/-- Normalizing a normalized tree leaves it as it is. -/
theorem normalizeTree_again (tree : CanonicalTree) (profile : NormalizationProfile) :
    normalizeTree (normalizeTree tree profile) profile = normalizeTree tree profile := by
  have hsorted : (normalizeTree tree profile).nodes.sorted = (normalizeTree tree profile).nodes := by
    refine Dict.sorted_eq_self ?_
    show (tree.nodes.sorted.mapVal (normalizeNode profile)).keys.Pairwise (· ≤ ·)
    rw [Dict.keys_mapVal]
    exact Dict.pairwise_keys_sorted tree.nodes
  refine tree_eq rfl ?_
  show (normalizeTree tree profile).nodes.sorted.mapVal (normalizeNode profile) = (normalizeTree tree profile).nodes
  rw [hsorted]
  refine Dict.mapVal_eq_self fun e he => ?_
  obtain ⟨node, -, heq⟩ := Option.map_eq_some_iff.mp
    ((get_normalize tree profile e.1).symm.trans ((Dict.get?_eq_some _).mpr he))
  rw [← heq, normalizeNode_again]

/-- The entries of a property are what normalizing it lists. -/
theorem mem_trace {e : NormalizationTraceEntry} : e ∈ (normalize tree profile).trace ↔
    ∃ ref node key value, tree.nodes.get? ref = some node ∧ node.contentProperties.get? key = some value ∧
      e ∈ (normalizeProperty profile ref key value).2 := by
  simp only [normalize, List.mem_flatMap, Dict.mem_sorted]
  constructor
  · intro h
    obtain ⟨⟨ref, node⟩, hnode, ⟨key, value⟩, hvalue, he⟩ := h
    exact ⟨ref, node, key, value, (Dict.get?_eq_some _).mpr hnode, (Dict.get?_eq_some _).mpr hvalue, he⟩
  · intro h
    obtain ⟨ref, node, key, value, hnode, hvalue, he⟩ := h
    exact ⟨(ref, node), (Dict.get?_eq_some _).mp hnode, (key, value), (Dict.get?_eq_some _).mp hvalue, he⟩

/-- An entry about a property is one its own value was listed for. -/
theorem listed_iff {ref : NodeRef} {node : CanonicalNode} {key : String} {value : CanonicalValue}
    (hnode : tree.nodes.get? ref = some node) (hvalue : node.contentProperties.get? key = some value) :
    (∃ e ∈ (normalize tree profile).trace, e.nodeRef = ref ∧ e.propertyKey = key) ↔
      (normalizeProperty profile ref key value).2 ≠ [] := by
  constructor
  · intro h
    obtain ⟨e, he, rfl, rfl⟩ := h
    obtain ⟨ref, node', key, value', hnode', hvalue', he⟩ := mem_trace.mp he
    rcases normalizeProperty_listed profile ref key value' with hnone | ⟨rule, hone⟩
    · rw [hnone] at he
      simp at he
    · rw [hone, List.mem_singleton] at he
      subst he
      have hsame : node' = node := Option.some.inj (hnode'.symm.trans hnode)
      subst hsame
      have hsame : value' = value := Option.some.inj (hvalue'.symm.trans hvalue)
      subst hsame
      simp [hone]
  · intro h
    rcases normalizeProperty_listed profile ref key value with hnone | ⟨rule, hone⟩
    · exact absurd hnone h
    · exact ⟨⟨ref, key, rule⟩, mem_trace.mpr ⟨ref, node, key, value, hnode, hvalue, by simp [hone]⟩, rfl, rfl⟩

/-- No property has two entries. -/
theorem trace_nodup (tree : CanonicalTree) (profile : NormalizationProfile) :
    ((normalize tree profile).trace.map fun e => (e.nodeRef, e.propertyKey)).Nodup := by
  have hone : ∀ (ref : NodeRef) (p : String × CanonicalValue),
      ((normalizeProperty profile ref p.1 p.2).2.map fun e => (e.nodeRef, e.propertyKey)) = [] ∨
        ((normalizeProperty profile ref p.1 p.2).2.map fun e => (e.nodeRef, e.propertyKey)) = [(ref, p.1)] := by
    intro ref p
    rcases normalizeProperty_listed profile ref p.1 p.2 with hnone | ⟨rule, hone⟩
    · exact Or.inl (by rw [hnone]; rfl)
    · exact Or.inr (by rw [hone]; rfl)
  have hlabels : ∀ (ref : NodeRef) (p : String × CanonicalValue), ∀ x ∈ (normalizeProperty profile ref p.1 p.2).2.map
      (fun e => (e.nodeRef, e.propertyKey)), x = (ref, p.1) := by
    intro ref p x hx
    rcases hone ref p with h | h
    · simp [h] at hx
    · simpa [h] using hx
  show (List.map _ (tree.nodes.sorted.entries.flatMap _)).Nodup
  rw [List.map_flatMap]
  refine nodup_flatMap_of_label Prod.fst Prod.fst tree.nodes.sorted.nodup (fun e _ => ?_) fun e _ x hx => ?_
  · rw [List.map_flatMap]
    refine nodup_flatMap_of_label Prod.fst Prod.snd e.2.contentProperties.sorted.nodup
      (fun p _ => ?_) fun p _ x hx => ?_
    · rcases hone e.1 p with h | h <;> simp [h]
    · rw [hlabels e.1 p x hx]
  · rw [List.map_flatMap] at hx
    obtain ⟨p, -, hx⟩ := List.mem_flatMap.mp hx
    rw [hlabels e.1 p x hx]

end Tree

end Reconciliation.Normalization

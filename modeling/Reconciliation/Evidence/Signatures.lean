/-
  Reconciliation.Evidence.Signatures — what the signatures of two nodes tell about them.

  A signature joins the type and the printed properties with bars, a child signature the types
  of the children with commas, and nothing is escaped. Printed values are sealed, so signatures
  are equal exactly when the nodes print alike, or a type or a key runs over the end of the
  other's (`signature_eq_iff`). So they are faithful exactly when nothing runs over and equal
  values are those that print alike (`faithful_iff`); nothing runs over where no type holds a bar
  or a comma and no key an equals sign (`plain_not_confusable`, `plain_types_apart`). Two nodes
  with equal nested dicts, and two with types of their own, break it (`notes_unfaithful`).
-/
import Reconciliation.Builders
import Reconciliation.Contracts.Printing

namespace Reconciliation.Evidence

open Reconciliation.Base Reconciliation.Base.Fields Reconciliation.Contracts Reconciliation.Builders

/-! ## Properties -/

/-- The properties without the persistent-id keys. -/
def outsideIds (p : Properties) : Properties where
  entries := p.entries.filter fun e => e.1 ∉ defaultIdKeys
  nodup := p.nodup.sublist (List.filter_sublist.map Prod.fst)

/-- The type, the identity outside the persistent ids and the content are equal. -/
structure SameProperties (n m : CanonicalNode) : Prop where
  type_eq : n.nodeType = m.nodeType
  identity_eq : (outsideIds n.identityProperties).pyEq (outsideIds m.identityProperties) = true
  content_eq : n.contentProperties.pyEq m.contentProperties = true

/-- The values as they are printed, key after key. -/
def printed [PyRuntime] (p : Properties) : List (String × String) := p.sorted.entries.map fun e => (e.1, e.2.repr)

/-- The type and the keys are equal, and the values print alike. -/
structure PrintAlike [PyRuntime] (n m : CanonicalNode) : Prop where
  type_eq : n.nodeType = m.nodeType
  identity_eq : printed (outsideIds n.identityProperties) = printed (outsideIds m.identityProperties)
  content_eq : printed n.contentProperties = printed m.contentProperties

/-- The types of the children. -/
def childTypes (tree : CanonicalTree) (node : CanonicalNode) : Except PyError (List String) :=
  node.childRefs.mapM fun c => (tree.node c).map CanonicalNode.nodeType

/-- The signatures of two nodes are equal when the nodes are, and so are the child signatures. -/
structure Faithful [PyRuntime] (tree tree' : CanonicalTree) (n m : CanonicalNode) : Prop where
  signature_iff : signature n = signature m ↔ SameProperties n m
  children_iff : ∀ ts us, childTypes tree n = .ok ts → childTypes tree' m = .ok us →
    (childSignature tree n = childSignature tree' m ↔ ts = us)

/-! ## Records of a node -/

/-- Every printed value under its key and the kind of the property. -/
def named (tag : String) (entries : List (String × String)) : List (String × String) :=
  entries.map fun e => (tag ++ e.1 ++ "=", e.2)

/-- The type and the printed properties. -/
def shown [PyRuntime] (node : CanonicalNode) : List (String × String) :=
  ("type=" ++ node.nodeType, "") ::
    (named "id:" (printed (outsideIds node.identityProperties)) ++ named "content:" (printed node.contentProperties))

def unvalued (types : List String) : List (String × String) := types.map fun t => (t, "")

theorem sorted_outsideIds (p : Properties) :
    (outsideIds p).sorted.entries = p.sorted.entries.filter fun e => e.1 ∉ defaultIdKeys := by
  refine List.Perm.eq_of_pairwise ?_ (pairwise_sortedBy Prod.fst _)
    ((pairwise_sortedBy Prod.fst p.entries).sublist List.filter_sublist)
    ((sortedBy_perm Prod.fst _).trans ((sortedBy_perm Prod.fst p.entries).filter _).symm)
  intro a b ha hb hab hba
  have ha' : a ∈ p.entries := (List.mem_filter.mp ((mem_sortedBy Prod.fst).mp ha)).1
  have hb' : b ∈ p.entries := (mem_sortedBy Prod.fst).mp (List.mem_filter.mp hb).1
  exact List.inj_on_of_nodup_map p.nodup ha' hb' (le_antisymm hab hba)

section Signatures
variable [PyRuntime] {n m : CanonicalNode}

theorem signature_eq (n : CanonicalNode) :
    signature n = String.intercalate "|" ((shown n).map fun field => field.1 ++ field.2) := by
  unfold signature shown named printed
  simp only [sorted_outsideIds, List.map_cons, List.map_append, List.map_map, String.append_empty]
  rfl

omit [PyRuntime] in
theorem childSignature_eq {tree : CanonicalTree} {node : CanonicalNode} {types : List String}
    (h : childTypes tree node = .ok types) :
    childSignature tree node = .ok (String.intercalate "," ((unvalued types).map fun field => field.1 ++ field.2)) := by
  unfold childTypes at h
  unfold childSignature unvalued
  simp [h, Function.comp_def]

theorem shown_written (hfloats : PlainFloats) (n : CanonicalNode) : ∀ field ∈ shown n, field.1 ≠ "" ∧ Sealed '|' field.2 := by
  have hnamed : ∀ (tag : String) (p : Properties), ∀ field ∈ named tag (printed p), field.1 ≠ "" ∧ Sealed '|' field.2 := by
    intro tag p field hf
    unfold named printed at hf
    rw [List.map_map] at hf
    obtain ⟨e, -, rfl⟩ := List.mem_map.mp hf
    exact ⟨by simp, e.2.sealed_repr hfloats⟩
  intro field hf
  rcases List.mem_cons.mp hf with rfl | hf
  · exact ⟨by simp, sealed_empty⟩
  · rcases List.mem_append.mp hf with hf | hf
    · exact hnamed _ _ field hf
    · exact hnamed _ _ field hf

omit [PyRuntime] in
theorem named_inj {tag : String} {l l' : List (String × String)} : named tag l = named tag l' ↔ l = l' := by
  refine ⟨fun h => List.map_injective_iff.mpr (fun e f hef => ?_) h, congrArg _⟩
  obtain ⟨hlabel, hvalue⟩ := Prod.mk.inj hef
  rw [String.append_left_inj, String.append_right_inj] at hlabel
  exact Prod.ext hlabel hvalue

omit [PyRuntime] in
/-- The identity part of a record ends where the content part begins. -/
theorem named_append_inj {l l' k k' : List (String × String)} :
    named "id:" l ++ named "content:" k = named "id:" l' ++ named "content:" k' ↔ l = l' ∧ k = k' := by
  have hids : ∀ l : List (String × String), ∀ f ∈ named "id:" l, f.1.toList.head? = some 'i' := by
    intro l f hf
    obtain ⟨e, -, rfl⟩ := List.mem_map.mp hf
    simp
  have hcontents : ∀ k : List (String × String), ∀ f ∈ named "content:" k, f.1.toList.head? ≠ some 'i' := by
    intro k f hf
    obtain ⟨e, -, rfl⟩ := List.mem_map.mp hf
    simp
  have hsplit : ∀ l k : List (String × String),
      (named "id:" l ++ named "content:" k).filter (fun f => f.1.toList.head? = some 'i') = named "id:" l := by
    intro l k
    rw [List.filter_append, List.filter_eq_self.mpr fun f hf => decide_eq_true (hids l f hf),
      List.filter_eq_nil_iff.mpr fun f hf => by simpa using hcontents k f hf, List.append_nil]
  constructor
  · intro h
    have hid := congrArg (List.filter fun f => f.1.toList.head? = some 'i') h
    rw [hsplit, hsplit] at hid
    rw [hid] at h
    exact ⟨named_inj.mp hid, named_inj.mp (List.append_cancel_left h)⟩
  · rintro ⟨rfl, rfl⟩
    rfl

theorem shown_eq_iff : shown n = shown m ↔ PrintAlike n m := by
  unfold shown
  rw [List.cons.injEq, Prod.mk.injEq, String.append_right_inj, named_append_inj]
  constructor
  · intro h
    exact ⟨h.1.1, h.2.1, h.2.2⟩
  · intro h
    exact ⟨⟨h.type_eq, rfl⟩, h.identity_eq, h.content_eq⟩

/-- Signatures are equal when the nodes print alike, or a name runs over the end of the other's. -/
theorem signature_eq_iff (hfloats : PlainFloats) :
    signature n = signature m ↔ PrintAlike n m ∨ Confusable "|" (shown n) (shown m) := by
  rw [signature_eq, signature_eq, intercalate_eq_iff (d := '|') (by simp) (shown_written hfloats n) (shown_written hfloats m),
    shown_eq_iff]

omit [PyRuntime] in
theorem pyEq_keys {p q : Properties} (h : p.pyEq q = true) : p.sorted.keys = q.sorted.keys := by
  rw [Properties.pyEq, Bool.and_eq_true, decide_eq_true_eq, List.all_eq_true] at h
  obtain ⟨hsize, hentries⟩ := h
  have hsub : p.keys ⊆ q.keys := by
    intro k hk
    obtain ⟨v, hv⟩ := p.entry_of_mem_keys hk
    have hfound := hentries (k, v) hv
    cases hq : q.get? k with
    | none => simp [hq] at hfound
    | some w => exact q.mem_keys.mpr ⟨w, hq⟩
  have hlen : q.keys.length ≤ p.keys.length := by
    simpa [Dict.keys, Dict.size] using hsize.symm.le
  have hperm : p.keys.Perm q.keys := (List.subperm_of_subset p.nodup hsub).perm_of_length_le hlen
  have hsorted : ∀ p : Properties, p.sorted.keys.Pairwise (· ≤ ·) ∧ p.sorted.keys.Perm p.keys := fun p =>
    ⟨List.pairwise_map.mpr (pairwise_sortedBy Prod.fst p.entries), (sortedBy_perm Prod.fst p.entries).map Prod.fst⟩
  exact List.Perm.eq_of_pairwise (fun _ _ _ _ => le_antisymm) (hsorted p).1 (hsorted q).1
    (((hsorted p).2.trans hperm).trans (hsorted q).2.symm)

/-- Nodes with the same properties have the same labels. -/
theorem labels_of_same (h : SameProperties n m) : (shown n).map Prod.fst = (shown m).map Prod.fst := by
  have hnamed : ∀ (tag : String) {p q : Properties}, p.pyEq q = true →
      (named tag (printed p)).map Prod.fst = (named tag (printed q)).map Prod.fst := by
    intro tag p q hpq
    have hlabels : ∀ p : Properties, (named tag (printed p)).map Prod.fst = p.sorted.keys.map fun k => tag ++ k ++ "=" := by
      intro p
      simp [named, printed, Dict.keys, Function.comp_def]
    rw [hlabels, hlabels, pyEq_keys hpq]
  unfold shown
  rw [List.map_cons, List.map_cons, List.map_append, List.map_append, hnamed _ h.identity_eq, hnamed _ h.content_eq, h.type_eq]

omit [PyRuntime] in
theorem unvalued_written {tree : CanonicalTree} {node : CanonicalNode} {types : List String}
    (h : childTypes tree node = .ok types) : ∀ field ∈ unvalued types, field.1 ≠ "" ∧ Sealed ',' field.2 := by
  intro field hf
  obtain ⟨t, ht, rfl⟩ := List.mem_map.mp hf
  obtain ⟨c, -, hc⟩ := (Outcome.mapM_mem h).mp ht
  simp only [Outcome.map_ok] at hc
  obtain ⟨child, -, rfl⟩ := hc
  exact ⟨child.nodeType_ne, sealed_empty⟩

end Signatures

/-- The signatures are faithful exactly when equal values are those that print alike, and neither a
    name nor a child's type runs over the end of another. -/
theorem faithful_iff [PyRuntime] (hfloats : PlainFloats) (tree tree' : CanonicalTree) (n m : CanonicalNode) :
    Faithful tree tree' n m ↔ (SameProperties n m ↔ PrintAlike n m) ∧ ¬ Confusable "|" (shown n) (shown m) ∧
      ∀ ts us, childTypes tree n = .ok ts → childTypes tree' m = .ok us → ¬ Confusable "," (unvalued ts) (unvalued us) := by
  have hchildren : ∀ {ts us}, childTypes tree n = .ok ts → childTypes tree' m = .ok us →
      ((childSignature tree n = childSignature tree' m ↔ ts = us) ↔ ¬ Confusable "," (unvalued ts) (unvalued us)) := by
    intro ts us hts hus
    have hinj : unvalued ts = unvalued us ↔ ts = us :=
      (List.map_injective_iff.mpr fun t u htu => (Prod.mk.inj htu).1).eq_iff
    rw [childSignature_eq hts, childSignature_eq hus, Except.ok.injEq,
      intercalate_eq_iff (d := ',') (by simp) (unvalued_written hts) (unvalued_written hus), hinj]
    constructor
    · intro h hc
      exact not_confusable_of_labels (by rw [h.mp (Or.inr hc)]) hc
    · intro h
      exact ⟨fun ho => ho.resolve_right h, Or.inl⟩
  constructor
  · intro hf
    have hsignature := hf.signature_iff
    rw [signature_eq_iff hfloats] at hsignature
    have hapart : ¬ Confusable "|" (shown n) (shown m) := fun hc =>
      not_confusable_of_labels (labels_of_same (hsignature.mp (Or.inr hc))) hc
    refine ⟨?_, hapart, fun ts us hts hus => (hchildren hts hus).mp (hf.children_iff ts us hts hus)⟩
    exact ⟨fun h => (hsignature.mpr h).resolve_right hapart, fun h => hsignature.mp (Or.inl h)⟩
  · intro hcond
    obtain ⟨hvalues, hapart, htypes⟩ := hcond
    refine ⟨?_, fun ts us hts hus => (hchildren hts hus).mpr (htypes ts us hts hus)⟩
    rw [signature_eq_iff hfloats, or_iff_left hapart]
    exact hvalues.symm

/-! ## Plain names -/

/-- The type holds no bar, and no key an equals sign. -/
def Plain (node : CanonicalNode) : Prop :=
  '|' ∉ node.nodeType.toList ∧ ∀ k ∈ node.identityProperties.keys ++ node.contentProperties.keys, '=' ∉ k.toList

theorem mem_of_head {c : Char} {s : String} (h : s.toList.head? = some c) : c ∈ s.toList := List.mem_of_head? h

/-- A key without an equals sign ends at the first one. -/
theorem key_ends {k k' more : String} (hmore : more ≠ "") (hk : '=' ∉ k'.toList) : k ++ "=" ++ more ≠ k' ++ "=" := by
  intro he
  replace he := congrArg String.toList he
  simp only [String.toList_append] at he
  have hne : more.toList ≠ [] := fun h => hmore (String.toList_eq_nil_iff.mp h)
  rw [← List.dropLast_append_getLast hne, ← List.append_assoc] at he
  have hinit := (List.append_inj' he rfl).1
  refine hk ?_
  rw [← hinit]
  simp

section Labels
variable [PyRuntime] {n m : CanonicalNode}

/-- A label of a node: its type, or a key behind a bar. -/
theorem label_cases {label value : String} (h : (label, value) ∈ delimit "|" (shown n)) :
    (label = "type=" ++ n.nodeType ∧ value = "") ∨ ∃ tag ∈ ["id:", "content:"],
      ∃ k ∈ n.identityProperties.keys ++ n.contentProperties.keys, label = "|" ++ (tag ++ k ++ "=") := by
  have hprinted : ∀ {p : Properties} {e : String × String}, e ∈ printed p → e.1 ∈ p.keys := by
    intro p e he
    obtain ⟨e', he', rfl⟩ := List.mem_map.mp he
    exact p.mem_keys_of_entry ((p.mem_sorted).mp he')
  rcases List.mem_cons.mp h with he | h
  · exact Or.inl ⟨congrArg Prod.fst he, congrArg Prod.snd he⟩
  · obtain ⟨f, hf, hfe⟩ := List.mem_map.mp h
    obtain rfl : "|" ++ f.1 = label := congrArg Prod.fst hfe
    right
    rcases List.mem_append.mp hf with hf | hf
    · obtain ⟨e, he, rfl⟩ := List.mem_map.mp hf
      have hkey : e.1 ∈ n.identityProperties.keys := by
        obtain ⟨v, hv⟩ := Dict.entry_of_mem_keys _ (hprinted he)
        exact Dict.mem_keys_of_entry _ (List.mem_filter.mp hv).1
      exact ⟨"id:", by simp, e.1, List.mem_append_left _ hkey, rfl⟩
    · obtain ⟨e, he, rfl⟩ := List.mem_map.mp hf
      exact ⟨"content:", by simp, e.1, List.mem_append_right _ (hprinted he), rfl⟩

theorem not_overruns_plain (hfloats : PlainFloats) (hm : Plain m) :
    ¬ Overruns (delimit "|" (shown n)) (delimit "|" (shown m)) := by
  intro ho
  obtain ⟨label, more, value, value', hin, hin', hmore, hbegins⟩ :=
    ho.exists_label (delimited_delimit (d := '|') (by simp) (shown_written hfloats n))
  have hfirst : ∀ {x y : String}, "type=" ++ x ≠ "|" ++ y := by
    intro x y he
    simpa using congrArg (fun s => s.toList.head?) he
  rcases label_cases hin with ⟨rfl, rfl⟩ | ⟨tag, htag, k, -, rfl⟩
  · rcases label_cases hin' with ⟨he, -⟩ | ⟨tag', -, k', -, he⟩
    · rw [String.append_assoc, String.append_right_inj] at he
      refine hm.1 ?_
      rw [← he, String.toList_append]
      exact List.mem_append_right _ (mem_of_head (hbegins rfl))
    · rw [String.append_assoc] at he
      exact hfirst he
  · rcases label_cases hin' with ⟨he, -⟩ | ⟨tag', htag', k', hk', he⟩
    · rw [String.append_assoc] at he
      exact hfirst he.symm
    · rw [String.append_assoc, String.append_right_inj] at he
      obtain rfl : tag = tag' := by
        have hhead := congrArg (fun s => s.toList.head?) he
        rcases List.mem_pair.mp htag with rfl | rfl
        · rcases List.mem_pair.mp htag' with rfl | rfl
          · rfl
          · simp at hhead
        · rcases List.mem_pair.mp htag' with rfl | rfl
          · simp at hhead
          · rfl
      simp only [String.append_assoc, String.append_right_inj] at he
      exact key_ends hmore (hm.2 k' hk') (by rw [String.append_assoc]; exact he)

/-- Where the types hold no bar and the keys no equals sign, no name runs over another. -/
theorem plain_not_confusable (hfloats : PlainFloats) (hn : Plain n) (hm : Plain m) :
    ¬ Confusable "|" (shown n) (shown m) := by
  intro hc
  rcases hc with ho | ho
  · exact not_overruns_plain hfloats hm ho
  · exact not_overruns_plain hfloats hn ho

end Labels

/-- Types without a comma do not run over each other. -/
theorem plain_types_apart {ts us : List String} (hts : ∀ t ∈ ts, t ≠ "" ∧ ',' ∉ t.toList)
    (hus : ∀ u ∈ us, u ≠ "" ∧ ',' ∉ u.toList) : ¬ Confusable "," (unvalued ts) (unvalued us) := by
  have hlabel : ∀ {ts : List String} {label value : String}, (label, value) ∈ delimit "," (unvalued ts) →
      value = "" ∧ ∃ t ∈ ts, label = t ∨ label = "," ++ t := by
    intro ts label value hin
    cases ts with
    | nil => cases hin
    | cons t ts =>
      rcases List.mem_cons.mp hin with he | hin
      · exact ⟨congrArg Prod.snd he, t, List.mem_cons_self, Or.inl (congrArg Prod.fst he)⟩
      · obtain ⟨f, hf, he⟩ := List.mem_map.mp hin
        obtain ⟨u, hu, rfl⟩ := List.mem_map.mp hf
        exact ⟨(congrArg Prod.snd he).symm, u, List.mem_cons_of_mem t hu, Or.inr (congrArg Prod.fst he).symm⟩
  have happart : ∀ {ts us : List String}, (∀ t ∈ ts, t ≠ "" ∧ ',' ∉ t.toList) → (∀ u ∈ us, u ≠ "" ∧ ',' ∉ u.toList) →
      ¬ Overruns (delimit "," (unvalued ts)) (delimit "," (unvalued us)) := by
    intro ts us hts hus ho
    have hdelimited : Delimited ',' (delimit "," (unvalued ts)) := by
      refine delimited_delimit (by simp) fun field hf => ?_
      obtain ⟨t, ht, rfl⟩ := List.mem_map.mp hf
      exact ⟨(hts t ht).1, sealed_empty⟩
    obtain ⟨label, more, value, value', hin, hin', -, hbegins⟩ := ho.exists_label hdelimited
    obtain ⟨hempty, t, ht, hlt⟩ := hlabel hin
    obtain ⟨-, u, hu, hlu⟩ := hlabel hin'
    have hcomma : ',' ∈ more.toList := mem_of_head (hbegins hempty)
    have hpart : ∀ {x : String}, x ++ more ≠ u := by
      intro x he
      refine (hus u hu).2 ?_
      rw [← he, String.toList_append]
      exact List.mem_append_right _ hcomma
    rcases hlt with rfl | rfl
    · rcases hlu with he | he
      · exact hpart he
      · -- the first type would begin with a comma
        have hhead : label.toList.head? = some ',' := by
          have hfirst := congrArg (fun s => s.toList.head?) he
          cases hl : label.toList with
          | nil => exact absurd (String.toList_eq_nil_iff.mp hl) (hts label ht).1
          | cons c cs => simpa [hl] using hfirst
        exact (hts label ht).2 (mem_of_head hhead)
    · rcases hlu with he | he
      · exact hpart he
      · rw [String.append_assoc, String.append_right_inj] at he
        exact hpart he
  intro hc
  rcases hc with ho | ho
  · exact happart hts hus ho
  · exact happart hus hts ho

/-! ## Unfaithful signatures -/

/-- A note with a nested dict, one with a level, and one above two topics. -/
def notesBefore : CanonicalTree := buildTree "book" [⟨"book", "map", none, [], []⟩,
  ⟨"dates", "note", some "book", [], [("meta", .dict [("from", .int 1), ("to", .int 2)])]⟩,
  ⟨"level", "note", some "book", [], [("level", .int 1)]⟩, ⟨"parts", "note", some "book", [], []⟩,
  ⟨"first", "task", some "parts", [], []⟩, ⟨"second", "topic", some "parts", [], []⟩]

/-- The dict in another order, the level in the type, and the two types in one. -/
def notesAfter : CanonicalTree := buildTree "book" [⟨"book", "map", none, [], []⟩,
  ⟨"dates", "note", some "book", [], [("meta", .dict [("to", .int 2), ("from", .int 1)])]⟩,
  ⟨"level", "note|content:level=1", some "book", [], []⟩, ⟨"parts", "note", some "book", [], []⟩,
  ⟨"both", "task,topic", some "parts", [], []⟩]

theorem plainFloats_ascii : @PlainFloats asciiRuntime := by
  intro f c hc
  have hdigits : c ∈ "0.0".toList := hc
  have hcases : c = '0' ∨ c = '.' ∨ c = '0' := by simpa using hdigits
  rcases hcases with rfl | rfl | rfl <;> decide

theorem notes_faithful_iff : ∃ n m, notesBefore.nodes.get? "level" = some n ∧ notesAfter.nodes.get? "level" = some m ∧
    (@Faithful asciiRuntime notesBefore notesAfter n m ↔ (SameProperties n m ↔ @PrintAlike asciiRuntime n m) ∧
      ¬ Confusable "|" (@shown asciiRuntime n) (@shown asciiRuntime m) ∧
      ∀ ts us, childTypes notesBefore n = .ok ts → childTypes notesAfter m = .ok us →
        ¬ Confusable "," (unvalued ts) (unvalued us)) := by
  have hnodes : (∃ n, notesBefore.nodes.get? "level" = some n) ∧ ∃ m, notesAfter.nodes.get? "level" = some m :=
    ⟨Option.isSome_iff_exists.mp (by decide +kernel), Option.isSome_iff_exists.mp (by decide +kernel)⟩
  obtain ⟨⟨n, hn⟩, m, hm⟩ := hnodes
  exact ⟨n, m, hn, hm, @faithful_iff asciiRuntime plainFloats_ascii _ _ n m⟩

/-- Equal dicts print differently, a type reads as a property, and a type as two. -/
theorem notes_unfaithful :
    (∃ n ∈ notesBefore.nodes.get? "dates", ∃ m ∈ notesAfter.nodes.get? "dates", SameProperties n m ∧
      @signature asciiRuntime n ≠ @signature asciiRuntime m ∧ ¬ @Faithful asciiRuntime notesBefore notesAfter n m) ∧
    (∃ n ∈ notesBefore.nodes.get? "level", ∃ m ∈ notesAfter.nodes.get? "level", n.nodeType ≠ m.nodeType ∧
      @signature asciiRuntime n = @signature asciiRuntime m ∧ ¬ @Faithful asciiRuntime notesBefore notesAfter n m) ∧
    ∃ n ∈ notesBefore.nodes.get? "parts", ∃ m ∈ notesAfter.nodes.get? "parts",
      childTypes notesBefore n = .ok ["task", "topic"] ∧ childTypes notesAfter m = .ok ["task,topic"] ∧
      childSignature notesBefore n = childSignature notesAfter m ∧ ¬ @Faithful asciiRuntime notesBefore notesAfter n m := by
  refine ⟨?_, ?_, ?_⟩
  · have hrun : ∃ n ∈ notesBefore.nodes.get? "dates", ∃ m ∈ notesAfter.nodes.get? "dates", (n.nodeType = m.nodeType ∧
        (outsideIds n.identityProperties).pyEq (outsideIds m.identityProperties) = true ∧
        n.contentProperties.pyEq m.contentProperties = true) ∧ @signature asciiRuntime n ≠ @signature asciiRuntime m := by
      decide +kernel
    obtain ⟨n, hn, m, hm, ⟨htype, hids, hcontent⟩, hne⟩ := hrun
    have hsame : SameProperties n m := ⟨htype, hids, hcontent⟩
    exact ⟨n, hn, m, hm, hsame, hne, fun hf => hne ((@Faithful.signature_iff asciiRuntime _ _ _ _ hf).mpr hsame)⟩
  · have hrun : ∃ n ∈ notesBefore.nodes.get? "level", ∃ m ∈ notesAfter.nodes.get? "level", n.nodeType ≠ m.nodeType ∧
        @signature asciiRuntime n = @signature asciiRuntime m := by
      decide +kernel
    obtain ⟨n, hn, m, hm, htype, he⟩ := hrun
    exact ⟨n, hn, m, hm, htype, he, fun hf => htype ((@Faithful.signature_iff asciiRuntime _ _ _ _ hf).mp he).type_eq⟩
  · have hrun : ∃ n ∈ notesBefore.nodes.get? "parts", ∃ m ∈ notesAfter.nodes.get? "parts",
        childTypes notesBefore n = .ok ["task", "topic"] ∧ childTypes notesAfter m = .ok ["task,topic"] ∧
        childSignature notesBefore n = childSignature notesAfter m := by
      decide +kernel
    obtain ⟨n, hn, m, hm, hts, hus, he⟩ := hrun
    refine ⟨n, hn, m, hm, hts, hus, he, fun hf => ?_⟩
    have htypes : ["task", "topic"] = ["task,topic"] := (@Faithful.children_iff asciiRuntime _ _ _ _ hf _ _ hts hus).mp he
    exact absurd htypes (by decide)

end Reconciliation.Evidence

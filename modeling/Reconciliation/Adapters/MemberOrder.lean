/-
  Reconciliation.Adapters.MemberOrder — documents that differ in the order of object members.

  `Permuted` values are equal but for that, at any depth. The tree of the one document is then
  the tree of the other, rearranged below objects and nowhere else (`adapt_permuted`): members
  keep their keys and paths, items their indices, and all members are of one type.
-/
import Reconciliation.Adapters.Layout
import Reconciliation.Contracts.Renaming

namespace Reconciliation.Adapters

open Reconciliation.Base Reconciliation.Base.Rose Reconciliation.Contracts Reconciliation.Validation

/-- Equal but for the order of the members of objects, at any depth. -/
inductive Permuted : CanonicalValue → CanonicalValue → Prop
  | scalar {v : CanonicalValue} (hscalar : isContainer v = false) : Permuted v v
  | list {xs ys : List CanonicalValue} (e : xs.length = ys.length)
      (hitem : ∀ i : Fin xs.length, Permuted (xs.get i) (ys.get (Fin.cast e i))) : Permuted (.list xs) (.list ys)
  | dict {xs ys : List (String × CanonicalValue)} (e : Fin xs.length ≃ Fin ys.length)
      (hkey : ∀ i, (ys.get (e i)).1 = (xs.get i).1) (hvalue : ∀ i, Permuted (xs.get i).2 (ys.get (e i)).2) :
      Permuted (.dict xs) (.dict ys)

section Values
variable {v w : CanonicalValue}

theorem Permuted.isContainer_eq (h : Permuted v w) : isContainer w = isContainer v := by
  cases h with
  | scalar => rfl
  | list => rfl
  | dict => rfl

theorem Permuted.eq_of_scalar (h : Permuted v w) (hscalar : isContainer v = false) : w = v := by
  cases h with
  | scalar => rfl
  | list => cases hscalar
  | dict => cases hscalar

theorem allFiniteItems_iff {items : List CanonicalValue} :
    allFiniteItems items = true ↔ ∀ v ∈ items, allFinite v = true := by
  induction items with
  | nil => simp [allFiniteItems]
  | cons v items ih => simp [allFiniteItems, ih]

theorem allFiniteMembers_iff {members : List (String × CanonicalValue)} :
    allFiniteMembers members = true ↔ ∀ m ∈ members, allFinite m.2 = true := by
  induction members with
  | nil => simp [allFiniteMembers]
  | cons m members ih => simp [allFiniteMembers, ih]

theorem Permuted.allFinite (h : Permuted v w) (hfinite : allFinite v = true) : allFinite w = true := by
  induction h with
  | scalar => exact hfinite
  | @list xs ys e _ ih =>
    rw [Adapters.allFinite, allFiniteItems_iff] at hfinite ⊢
    intro y hy
    obtain ⟨j, rfl⟩ := List.get_of_mem hy
    exact ih (Fin.cast e.symm j) (hfinite _ (List.get_mem _ _))
  | @dict xs ys e _ _ ih =>
    rw [Adapters.allFinite, allFiniteMembers_iff] at hfinite ⊢
    intro y hy
    obtain ⟨j, rfl⟩ := List.get_of_mem hy
    obtain ⟨i, rfl⟩ := e.surjective j
    exact ih i (hfinite _ (List.get_mem _ _))

end Values

/-! ## Shapes -/

/-- The types of the one list are those of the other. -/
def SameTypes (xs ys : List NodeData) : Prop := xs.map NodeData.nodeType = ys.map NodeData.nodeType

/-- The children of every node but an object keep their order. -/
def KeepsOrder (type : String) : Prop := type ≠ "data:object"

abbrev Rearrangement : Rose NodeData → Rose NodeData → Prop :=
  Rearranged Eq SameTypes fun data => KeepsOrder data.nodeType.val

theorem rearrangement_leaf (data : NodeData) : Rearrangement (.node data []) (.node data []) :=
  .node (Equiv.refl _) rfl rfl (fun _ _ => rfl) fun i => i.elim0

theorem rearrangement_single {data : NodeData} {s t : Rose NodeData} (h : Rearrangement s t) :
    Rearrangement (.node data [s]) (.node data [t]) := by
  refine .node (Equiv.refl (Fin 1)) rfl ?_ (fun _ _ => rfl) fun i => ?_
  · show [s.label.nodeType] = [t.label.nodeType]
    rw [h.related]
  · match i with
    | ⟨0, _⟩ => exact h

section Shapes
variable [PyRuntime]

theorem rearrangement_holder {v w : CanonicalValue} {data : Properties → NodeData} {s t : Rose NodeData}
    (h : Permuted v w) (hbelow : Rearrangement s t) : Rearrangement (holder data v s) (holder data w t) := by
  by_cases hcontainer : isContainer v = true
  · rw [holder, holder, if_pos hcontainer, if_pos (h.isContainer_eq.trans hcontainer)]
    exact rearrangement_single hbelow
  · obtain rfl := h.eq_of_scalar (Bool.not_eq_true _ ▸ hcontainer)
    rw [holder, holder, if_neg hcontainer, if_neg hcontainer]
    exact rearrangement_leaf _

theorem label_holder (data : Properties → NodeData) (v : CanonicalValue) (s : Rose NodeData) :
    (holder data v s).label = data (if isContainer v then Dict.empty else scalarProperties v) := by
  unfold holder
  split <;> rfl

variable [KeyRuntime]

/-- The nodes of members are all of one type. -/
theorem types_memberShapes (path : String) (members : List (String × CanonicalValue)) :
    ((memberShapes path members).map label).map NodeData.nodeType =
      List.replicate members.length ⟨"data:property", by decide⟩ := by
  induction members with
  | nil => rw [memberShapes]; rfl
  | cons member members ih =>
    rw [memberShapes, List.map_cons, List.map_cons, ih, label_holder]
    rfl

theorem types_itemShapes (path : String) (items : List CanonicalValue) (index : Nat) :
    ((itemShapes path index items).map label).map NodeData.nodeType =
      List.replicate items.length ⟨"data:item", by decide⟩ := by
  induction items generalizing index with
  | nil => rw [itemShapes]; rfl
  | cons item items ih =>
    rw [itemShapes, List.map_cons, List.map_cons, ih, label_holder]
    rfl

theorem memberShapes_at (path : String) (members : List (String × CanonicalValue)) (i : Fin (memberShapes path members).length) :
    (memberShapes path members).get i = memberShape path (members.get (Fin.cast (length_memberShapes path members) i)) := by
  obtain ⟨i, hi⟩ := i
  have hlt : i < members.length := hi.trans_eq (length_memberShapes path members)
  have hget : (memberShapes path members)[i]? = some (memberShape path members[i]) := by
    rw [memberShapes_eq, List.getElem?_map, List.getElem?_eq_getElem hlt]
    rfl
  exact Option.some.inj ((List.getElem?_eq_getElem hi).symm.trans hget)

theorem itemShapes_at (path : String) (items : List CanonicalValue) (i : Fin (itemShapes path 0 items).length) :
    (itemShapes path 0 items).get i = itemShape path i (items.get (Fin.cast (length_itemShapes path items 0) i)) := by
  obtain ⟨i, hi⟩ := i
  have hlt : i < items.length := hi.trans_eq (length_itemShapes path items 0)
  have hget : (itemShapes path 0 items)[i]? = some (itemShape path i items[i]) := by
    rw [itemShapes_get, List.getElem?_eq_getElem hlt, Nat.zero_add]
    rfl
  exact Option.some.inj ((List.getElem?_eq_getElem hi).symm.trans hget)

/-- The shape of a permuted value is rearranged, below objects only. -/
theorem rearrangement_shape {v w : CanonicalValue} (h : Permuted v w) (path : String) :
    Rearrangement (shape path v) (shape path w) := by
  induction h generalizing path with
  | scalar hscalar =>
    rw [shape_scalar hscalar]
    exact rearrangement_leaf _
  | @list xs ys e hitem ih =>
    have hlength : (itemShapes path 0 xs).length = (itemShapes path 0 ys).length := by
      rw [length_itemShapes, length_itemShapes, e]
    rw [shape, shape]
    refine .node (finCongr hlength) rfl ?_ (fun _ _ => rfl) fun i => ?_
    · rw [SameTypes, types_itemShapes, types_itemShapes, e]
    · rw [itemShapes_at, itemShapes_at]
      unfold itemShape
      exact rearrangement_holder (hitem (Fin.cast (length_itemShapes path xs 0) i)) (ih _ _)
  | @dict xs ys e hkey hvalue ih =>
    have hlength : xs.length = ys.length := by simpa using Fintype.card_congr e
    rw [shape, shape]
    refine .node ((finCongr (length_memberShapes path xs)).trans (e.trans (finCongr (length_memberShapes path ys).symm)))
      rfl ?_ (fun hobject => absurd rfl hobject) fun i => ?_
    · rw [SameTypes, types_memberShapes, types_memberShapes, hlength]
    · rw [memberShapes_at, memberShapes_at]
      have hk := hkey (Fin.cast (length_memberShapes path xs) i)
      unfold memberShape
      simp only [finCongr_apply, Equiv.trans_apply, Fin.cast_cast, Fin.cast_eq_self] at hk ⊢
      rw [hk]
      exact rearrangement_holder (hvalue _) (ih _ _)

theorem rearrangement_document (adapter : DataTreeAdapter) {v w : CanonicalValue} (h : Permuted v w) :
    Rearrangement (documentShape adapter v) (documentShape adapter w) :=
  rearrangement_single (rearrangement_shape h "$")

end Shapes

/-! ## Trees -/

/-- References carried along with their places. -/
noncomputable def carried (π : List Nat → List Nat) : NodeRef → NodeRef :=
  Function.extend (outline "n") (outline "n" ∘ π) id

theorem carried_outline (π : List Nat → List Nat) (p : List Nat) : carried π (outline "n" p) = outline "n" (π p) :=
  (outline_injective "n").extend_apply _ _ p

section Trees
variable {t u : Rose NodeData} {source target : CanonicalTree} {π : List Nat → List Nat}
  (hc : Carries Eq SameTypes (fun data : NodeData => KeepsOrder data.nodeType.val) t u π) (hs : Represents t source)
  (ht : Represents u target)

include hc

theorem parent_carried {p : List Nat} :
    (slotAt (π p)).parentRef = (slotAt p).parentRef.map (carried π) := by
  induction p using List.reverseRecOn with
  | nil => rw [hc.root]; rfl
  | append_singleton q i _ =>
    obtain ⟨j, hj⟩ := hc.snoc q i
    rw [hj, slotAt_parent, slotAt_parent, Option.map_some, carried_outline]

include hs ht

/-- The node of a carried place is the rearranged node. -/
theorem rearrangedNode_carried {p : List Nat} {s s' : Rose NodeData} (hp : t.descend p = some s)
    (hp' : u.descend (π p) = some s') (hrearranged : Rearrangement s s') :
    RearrangedNode (carried π) KeepsOrder source target (nodeAt p s) (nodeAt (π p) s') := by
  have hrefs : ∀ q (r : Rose NodeData), (nodeAt q r).childRefs =
      (List.range r.children.length).map fun i => outline "n" (q ++ [i]) := by
    intro q r
    show childRefs (slotAt q).ref r.children.length = _
    simp only [childRefs, slotAt_ref, outline_snoc]
    rfl
  have hlabel : s'.label = s.label := hrearranged.related.symm
  refine ⟨?_, parent_carried hc, ?_, ?_, fun hkeeps => ?_, ?_⟩
  · show s'.label.nodeType.val = s.label.nodeType.val
    rw [hlabel]
  · show s'.label.identityProperties = s.label.identityProperties
    rw [hlabel]
  · show s'.label.contentProperties = s.label.contentProperties
    rw [hlabel]
  · rw [hrefs, hrefs, ← hrearranged.length_eq, List.map_map]
    refine List.map_congr_left fun i hi => ?_
    rw [Function.comp_apply, carried_outline, hc.fixed p s i hp hkeeps (List.mem_range.mp hi)]
  · rw [hrefs, hrefs, ← hrearranged.length_eq, List.forall₂_map_left_iff, List.forall₂_map_right_iff, List.forall₂_same]
    intro i hi child hchild
    have hlt := List.mem_range.mp hi
    have hlt' : i < s'.children.length := hlt.trans_eq hrearranged.length_eq
    have hsource := hs.get (descend_snoc.mpr ⟨s, hp, List.getElem?_eq_getElem hlt⟩)
    have htarget := ht.get (descend_snoc.mpr ⟨s', hp', List.getElem?_eq_getElem hlt'⟩)
    obtain rfl := Option.some.inj (hchild.symm.trans hsource)
    refine ⟨_, htarget, congrArg Subtype.val ?_⟩
    have htypes := congrArg (·[i]?) hrearranged.siblings
    simp only [List.getElem?_map, List.getElem?_eq_getElem hlt, List.getElem?_eq_getElem hlt', Option.map_some,
      Option.some.injEq] at htypes
    exact htypes.symm

theorem rearrangedTree_carried : RearrangedTree (carried π) KeepsOrder source target where
  injective := by
    intro a ha b hb hab
    obtain ⟨p, s, hp, rfl⟩ := hs.mem_keys.mp ha
    obtain ⟨q, s', hq, rfl⟩ := hs.mem_keys.mp hb
    rw [carried_outline, carried_outline] at hab
    rw [hc.injective p q s s' hp hq (outline_injective "n" hab)]
  onto := by
    intro ref' href'
    obtain ⟨q, s', hq, rfl⟩ := ht.mem_keys.mp href'
    obtain ⟨p, s, hp, rfl⟩ := hc.onto q s' hq
    exact ⟨_, hs.mem_keys.mpr ⟨p, s, hp, rfl⟩, carried_outline π p⟩
  root_eq := by
    rw [hs.root_eq, ht.root_eq, ← outline_nil "n", carried_outline, hc.root]
  node := by
    intro ref node hnode
    obtain ⟨p, s, hp, rfl, rfl⟩ := (hs.nodes_iff _ _).mp hnode
    obtain ⟨s', hp', hrearranged⟩ := hc.node p s hp
    rw [carried_outline]
    exact ⟨_, ht.get hp', rearrangedNode_carried hc hs ht hp hp' hrearranged⟩

end Trees

/-- The trees of permuted values are rearrangements of each other, below objects only. -/
theorem adapt_permuted [PyRuntime] [KeyRuntime] (adapter : DataTreeAdapter) (sourceUri targetUri : Option String)
    {v w : CanonicalValue} (h : Permuted v w) (hfinite : allFinite v = true) : ∃ source target f,
      adapter.adapt v sourceUri = .ok source ∧ adapter.adapt w targetUri = .ok target ∧
        Represents (documentShape adapter v) source ∧ Represents (documentShape adapter w) target ∧
        RearrangedTree f KeepsOrder source target := by
  obtain ⟨source, hsource, hs⟩ := adapt_represents adapter sourceUri hfinite
  obtain ⟨target, htarget, ht⟩ := adapt_represents adapter targetUri (h.allFinite hfinite)
  obtain ⟨π, hc⟩ := (rearrangement_document adapter h).exists_carries
  exact ⟨source, target, carried π, hsource, htarget, hs, ht, rearrangedTree_carried hc hs ht⟩

end Reconciliation.Adapters

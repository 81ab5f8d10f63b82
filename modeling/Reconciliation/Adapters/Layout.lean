/-
  Reconciliation.Adapters.Layout — what the data-tree adapter builds, without the node map.

  The `shape` of a value is the ordered tree of the nodes it becomes, without references. The
  adapter lays that tree out: it adds a node for every place, named by its numbers, in
  preorder, and nothing else (`build_entries`). So the canonical tree of a value with finite numbers
  exists and `Represents` its document (`adapt_represents`), and it is rooted
  (`Represents.rooted`).
-/
import Reconciliation.Adapters.DataTree
import Reconciliation.Validation.TreeValidator

namespace Reconciliation.Adapters

open Reconciliation.Base Reconciliation.Base.Rose Reconciliation.Contracts Reconciliation.Validation

/-! ## Finite values -/

mutual

/-- Every number in the value is finite. -/
def allFinite : CanonicalValue → Bool
  | .float f => isFinite f
  | .list items => allFiniteItems items
  | .dict entries => allFiniteMembers entries
  | _ => true

def allFiniteItems : List CanonicalValue → Bool
  | [] => true
  | v :: rest => allFinite v && allFiniteItems rest

def allFiniteMembers : List (String × CanonicalValue) → Bool
  | [] => true
  | (_, v) :: rest => allFinite v && allFiniteMembers rest

end

/-! ## Shapes -/

def scalarType : CanonicalValue → NodeType
  | .none => ⟨"data:null", null_ne⟩
  | .bool _ => ⟨"data:boolean", boolean_ne⟩
  | .str _ => ⟨"data:string", string_ne⟩
  | _ => ⟨"data:number", number_ne⟩

section Shapes
variable [PyRuntime]

def scalarProperties : CanonicalValue → Properties
  | .none => property "value" .none
  | value => (property "value" value).insert "text" (.str value.pyStr)

def scalarData (value : CanonicalValue) (path : String) : NodeData where
  nodeType := scalarType value
  contentProperties := scalarProperties value
  xpath := path

/-- A property or an item: a scalar is its content, a container is below it. -/
def holder (data : Properties → NodeData) (value : CanonicalValue) (below : Rose NodeData) : Rose NodeData :=
  if isContainer value then .node (data Dict.empty) [below] else .node (data (scalarProperties value)) []

variable [KeyRuntime]

mutual

/-- The nodes a value becomes. -/
def shape (path : String) : CanonicalValue → Rose NodeData
  | .dict entries => .node (objectData path) (memberShapes path entries)
  | .list items => .node (arrayData path) (itemShapes path 0 items)
  | value => .node (scalarData value path) []

def memberShapes (path : String) : List (String × CanonicalValue) → List (Rose NodeData)
  | [] => []
  | (key, value) :: rest =>
    let childPath := pathChild path (.inl key)
    holder (fun content => propertyData key content childPath) value (shape childPath value) :: memberShapes path rest

def itemShapes (path : String) (index : Nat) : List CanonicalValue → List (Rose NodeData)
  | [] => []
  | value :: rest =>
    let childPath := pathChild path (.inr index)
    holder (fun content => itemData index content childPath) value (shape childPath value) ::
      itemShapes path (index + 1) rest

end

def documentShape (adapter : DataTreeAdapter) (value : CanonicalValue) : Rose NodeData :=
  .node (documentData adapter.sourceFormat) [shape "$" value]

/-- The shape of one member of an object. -/
def memberShape (path : String) (member : String × CanonicalValue) : Rose NodeData :=
  let childPath := pathChild path (.inl member.1)
  holder (fun content => propertyData member.1 content childPath) member.2 (shape childPath member.2)

def itemShape (path : String) (index : Nat) (value : CanonicalValue) : Rose NodeData :=
  let childPath := pathChild path (.inr index)
  holder (fun content => itemData index content childPath) value (shape childPath value)

theorem shape_scalar {value : CanonicalValue} (hscalar : isContainer value = false) (path : String) :
    shape path value = .node (scalarData value path) [] := by
  cases value with
  | list items => cases hscalar
  | dict entries => cases hscalar
  | none | bool | int | float | str => rfl

theorem memberShapes_eq (path : String) (members : List (String × CanonicalValue)) :
    memberShapes path members = members.map (memberShape path) := by
  induction members with
  | nil => rw [memberShapes, List.map_nil]
  | cons member members ih =>
    rw [memberShapes, ih, List.map_cons]
    rfl

theorem itemShapes_get (path : String) (items : List CanonicalValue) (index i : Nat) :
    (itemShapes path index items)[i]? = items[i]?.map (itemShape path (index + i)) := by
  induction items generalizing index i with
  | nil => rw [itemShapes]; rfl
  | cons value items ih =>
    rw [itemShapes]
    cases i with
    | zero => rfl
    | succ i =>
      rw [List.getElem?_cons_succ, List.getElem?_cons_succ, ih, Nat.add_right_comm]
      rfl

theorem length_memberShapes (path : String) (members : List (String × CanonicalValue)) :
    (memberShapes path members).length = members.length := by rw [memberShapes_eq, List.length_map]

theorem length_itemShapes (path : String) (items : List CanonicalValue) (index : Nat) :
    (itemShapes path index items).length = items.length := by
  induction items generalizing index with
  | nil => rw [itemShapes]; rfl
  | cons value items ih => rw [itemShapes, List.length_cons, ih, List.length_cons]

end Shapes

/-! ## Laying a tree out -/

mutual

/-- The nodes of a tree in preorder, each in its slot. -/
def placed (slot : Slot) : Rose NodeData → List (NodeRef × CanonicalNode)
  | .node data cs => (slot.ref, slot.node data cs.length) :: placedFrom slot 0 cs

def placedFrom (slot : Slot) (index : Nat) : List (Rose NodeData) → List (NodeRef × CanonicalNode)
  | [] => []
  | c :: cs => placed (slot.child index) c ++ placedFrom slot (index + 1) cs

end

/-- The slot of a place below. -/
def Slot.follow (slot : Slot) (p : List Nat) : Slot := p.foldl Slot.child slot

theorem Slot.follow_ref (slot : Slot) (p : List Nat) : (slot.follow p).ref = outline slot.ref p := by
  induction p generalizing slot with
  | nil => rfl
  | cons i p ih => exact ih (slot.child i)

theorem Slot.follow_snoc (slot : Slot) (p : List Nat) (i : Nat) : slot.follow (p ++ [i]) = (slot.follow p).child i :=
  List.foldl_append

mutual

/-- The nodes laid out are those of the places. -/
theorem mem_placed {ref : NodeRef} {node : CanonicalNode} : ∀ (slot : Slot) (t : Rose NodeData),
    (ref, node) ∈ placed slot t ↔
      ∃ p s, t.descend p = some s ∧ ref = (slot.follow p).ref ∧ node = (slot.follow p).node s.label s.children.length
  | slot, .node data cs => by
    rw [placed, List.mem_cons, mem_placedFrom slot 0 cs]
    constructor
    · intro h
      rcases h with h | ⟨i, c, p, s, -, hc, hs, hslot⟩
      · cases h
        exact ⟨[], _, rfl, rfl, rfl⟩
      · exact ⟨i :: p, s, descend_cons.mpr ⟨c, hc, hs⟩, hslot⟩
    · intro h
      obtain ⟨p, s, hs, href, hnode⟩ := h
      cases p with
      | nil =>
        cases hs
        rw [href, hnode]
        exact Or.inl rfl
      | cons i p =>
        obtain ⟨c, hc, hs⟩ := descend_cons.mp hs
        exact Or.inr ⟨i, c, p, s, Nat.zero_le i, hc, hs, href, hnode⟩

theorem mem_placedFrom {ref : NodeRef} {node : CanonicalNode} : ∀ (slot : Slot) (index : Nat) (cs : List (Rose NodeData)),
    (ref, node) ∈ placedFrom slot index cs ↔ ∃ i c p s, index ≤ i ∧ cs[i - index]? = some c ∧ c.descend p = some s ∧
      ref = (slot.follow (i :: p)).ref ∧ node = (slot.follow (i :: p)).node s.label s.children.length
  | slot, index, [] => by simp [placedFrom]
  | slot, index, c :: cs => by
    rw [placedFrom, List.mem_append, mem_placed (slot.child index) c, mem_placedFrom slot (index + 1) cs]
    constructor
    · intro h
      rcases h with ⟨p, s, hs, hslot⟩ | ⟨i, c', p, s, hi, hc, hs, hslot⟩
      · exact ⟨index, c, p, s, le_refl _, by simp, hs, hslot⟩
      · refine ⟨i, c', p, s, by omega, ?_, hs, hslot⟩
        rw [show i - index = (i - (index + 1)) + 1 by omega]
        exact hc
    · intro h
      obtain ⟨i, c', p, s, hi, hc, hs, hslot⟩ := h
      by_cases hfirst : i = index
      · subst hfirst
        rw [Nat.sub_self] at hc
        cases hc
        exact Or.inl ⟨p, s, hs, hslot⟩
      · refine Or.inr ⟨i, c', p, s, by omega, ?_, hs, hslot⟩
        rw [show i - index = (i - (index + 1)) + 1 by omega] at hc
        exact hc

end

mutual

theorem length_placed : ∀ (slot : Slot) (t : Rose NodeData), (placed slot t).length = t.size
  | slot, .node data cs => by rw [placed, List.length_cons, length_placedFrom slot 0 cs, size]

theorem length_placedFrom : ∀ (slot : Slot) (index : Nat) (cs : List (Rose NodeData)),
    (placedFrom slot index cs).length = sizes cs
  | slot, index, [] => by rw [placedFrom, sizes]; rfl
  | slot, index, c :: cs => by
    rw [placedFrom, List.length_append, length_placed (slot.child index) c, length_placedFrom slot (index + 1) cs, sizes]

end

/-! ## Building lays the shape out -/

/-- No node stands at the reference or below. -/
def Vacant (nodes : Nodes) (ref : NodeRef) : Prop := ∀ k ∈ nodes.keys, ∀ p, k ≠ outline ref p

/-- No node stands at a child from the index on, or below. -/
def VacantFrom (nodes : Nodes) (ref : NodeRef) (index : Nat) : Prop := ∀ i, index ≤ i → Vacant nodes (childRef ref i)

theorem Vacant.not_mem {nodes : Nodes} {ref : NodeRef} (h : Vacant nodes ref) : ref ∉ nodes.keys :=
  fun hin => h ref hin [] rfl

/-- Below a node just added nothing stands. -/
theorem Vacant.insert {nodes : Nodes} {ref : NodeRef} (h : Vacant nodes ref) (node : CanonicalNode) :
    VacantFrom (nodes.insert ref node) ref 0 := by
  intro i _ k hk p
  obtain ⟨v, hv⟩ := Dict.entry_of_mem_keys _ hk
  rw [Dict.entries_insert h.not_mem, List.mem_append, List.mem_singleton] at hv
  rcases hv with hv | hv
  · exact h k (Dict.mem_keys_of_entry _ hv) (i :: p)
  · cases hv
    intro heq
    have hplace : [] = i :: p := outline_injective ref heq
    cases hplace

/-- The later children of a node stay vacant when one is laid out. -/
theorem VacantFrom.placed {nodes nodes' : Nodes} {slot : Slot} {index : Nat} {t : Rose NodeData}
    (h : VacantFrom nodes slot.ref index) (hnodes : nodes'.entries = nodes.entries ++ placed (slot.child index) t) :
    VacantFrom nodes' slot.ref (index + 1) := by
  intro i hi k hk p
  obtain ⟨v, hv⟩ := Dict.entry_of_mem_keys _ hk
  rw [hnodes, List.mem_append] at hv
  rcases hv with hv | hv
  · exact h i (by omega) k (Dict.mem_keys_of_entry _ hv) p
  · obtain ⟨q, s, -, href, -⟩ := (mem_placed _ _).mp hv
    rw [href, Slot.follow_ref]
    intro heq
    have hplace : index :: q = i :: p := outline_injective slot.ref heq
    have hindex : index = i := (List.cons.inj hplace).1
    omega

section Building
variable [PyRuntime]

theorem scalarContent_ok {value : CanonicalValue} (hscalar : isContainer value = false) (hfinite : allFinite value = true) :
    scalarContent value = .ok (scalarProperties value) := by
  cases value with
  | list items => cases hscalar
  | dict entries => cases hscalar
  | float f =>
    rw [allFinite] at hfinite
    simp [scalarContent, canonicalScalar, hfinite, scalarProperties, bind, Except.bind, pure, Except.pure]
  | none => rfl
  | bool b => rfl
  | int z => rfl
  | str s => rfl

variable [KeyRuntime]

/-- A property or an item is laid out before the loop goes on. -/
theorem build_holder {value : CanonicalValue} {slot : Slot} {path : String} {nodes : Nodes}
    {data : Properties → NodeData} (hfinite : allFinite value = true) (hvacant : Vacant nodes slot.ref)
    (hbuild : ∀ (slot : Slot) (path : String) (nodes : Nodes), Vacant nodes slot.ref → ∃ nodes',
      buildValue value slot path nodes = .ok nodes' ∧ nodes'.entries = nodes.entries ++ placed slot (shape path value)) :
    ∃ nodes', nodes'.entries = nodes.entries ++ placed slot (holder data value (shape path value)) ∧
      ∀ next : Nodes → Except DataTreeAdaptationError Nodes,
        (if isContainer value then do
          let nodes ← buildValue value (slot.child 0) path (nodes.insert slot.ref (slot.node (data Dict.empty) 1))
          next nodes
        else do
          let content ← scalarContent value
          next (nodes.insert slot.ref (slot.node (data content) 0))) = next nodes' := by
  by_cases hcontainer : isContainer value = true
  · obtain ⟨nodes', hrun, hentries⟩ := hbuild (slot.child 0) path (nodes.insert slot.ref (slot.node (data Dict.empty) 1))
      (hvacant.insert _ 0 (le_refl 0))
    refine ⟨nodes', ?_, fun next => ?_⟩
    · rw [hentries, Dict.entries_insert hvacant.not_mem, holder, if_pos hcontainer, placed, placedFrom, placedFrom,
        List.append_nil, List.append_assoc]
      rfl
    · rw [if_pos hcontainer, hrun]
      rfl
  · have hscalar : isContainer value = false := Bool.not_eq_true _ ▸ hcontainer
    refine ⟨nodes.insert slot.ref (slot.node (data (scalarProperties value)) 0), ?_, fun next => ?_⟩
    · rw [Dict.entries_insert hvacant.not_mem, holder, if_neg hcontainer, placed, placedFrom]
      rfl
    · rw [if_neg hcontainer, scalarContent_ok hscalar hfinite]
      rfl

theorem build_scalar {value : CanonicalValue} (hscalar : isContainer value = false) (hfinite : allFinite value = true)
    {slot : Slot} {path : String} {nodes : Nodes} (hvacant : Vacant nodes slot.ref) : ∃ nodes',
      buildValue value slot path nodes = .ok nodes' ∧ nodes'.entries = nodes.entries ++ placed slot (shape path value) := by
  have hcontent := scalarContent_ok hscalar hfinite
  refine ⟨nodes.insert slot.ref (slot.node (scalarData value path) 0), ?_, ?_⟩
  · cases value with
    | list items => cases hscalar
    | dict entries => cases hscalar
    | none | bool | int | float | str =>
      rw [buildValue, hcontent]
      · rfl
      all_goals
        intro _ h
        cases h
  · rw [Dict.entries_insert hvacant.not_mem]
    cases value with
    | list items => cases hscalar
    | dict entries => cases hscalar
    | none | bool | int | float | str => rfl

mutual

/-- Building a value adds the nodes of its shape, in preorder. -/
theorem build_entries : ∀ (value : CanonicalValue) (_ : allFinite value = true) (slot : Slot) (path : String)
    (nodes : Nodes), Vacant nodes slot.ref → ∃ nodes', buildValue value slot path nodes = .ok nodes' ∧
      nodes'.entries = nodes.entries ++ placed slot (shape path value)
  | .dict entries, hfinite, slot, path, nodes, hvacant => by
    rw [allFinite] at hfinite
    obtain ⟨nodes', hrun, hentries⟩ := build_members entries hfinite slot 0 path _
      (hvacant.insert (slot.node (objectData path) entries.length))
    refine ⟨nodes', by rw [buildValue, hrun], ?_⟩
    rw [hentries, Dict.entries_insert hvacant.not_mem, shape, placed, length_memberShapes, List.append_assoc]
    rfl
  | .list items, hfinite, slot, path, nodes, hvacant => by
    rw [allFinite] at hfinite
    obtain ⟨nodes', hrun, hentries⟩ := build_items items hfinite slot 0 path _
      (hvacant.insert (slot.node (arrayData path) items.length))
    refine ⟨nodes', by rw [buildValue, hrun], ?_⟩
    rw [hentries, Dict.entries_insert hvacant.not_mem, shape, placed, length_itemShapes, List.append_assoc]
    rfl
  | .none, hfinite, _, _, _, hvacant => build_scalar rfl hfinite hvacant
  | .bool _, hfinite, _, _, _, hvacant => build_scalar rfl hfinite hvacant
  | .int _, hfinite, _, _, _, hvacant => build_scalar rfl hfinite hvacant
  | .float _, hfinite, _, _, _, hvacant => build_scalar rfl hfinite hvacant
  | .str _, hfinite, _, _, _, hvacant => build_scalar rfl hfinite hvacant

theorem build_members : ∀ (members : List (String × CanonicalValue)) (_ : allFiniteMembers members = true) (slot : Slot)
    (index : Nat) (path : String) (nodes : Nodes), VacantFrom nodes slot.ref index → ∃ nodes',
      buildMembers members slot index path nodes = .ok nodes' ∧
        nodes'.entries = nodes.entries ++ placedFrom slot index (memberShapes path members)
  | [], _, slot, index, path, nodes, _ => ⟨nodes, by rw [buildMembers], by simp [memberShapes, placedFrom]⟩
  | (key, value) :: rest, hfinite, slot, index, path, nodes, hvacant => by
    rw [allFiniteMembers, Bool.and_eq_true] at hfinite
    obtain ⟨nodes₁, hentries₁, hstep⟩ := @build_holder _ _ value (slot.child index) (pathChild path (.inl key)) _
      (fun content => propertyData key content (pathChild path (.inl key))) hfinite.1
      (hvacant index (le_refl index)) (build_entries value hfinite.1)
    obtain ⟨nodes₂, hrun, hentries₂⟩ := build_members rest hfinite.2 slot (index + 1) path nodes₁ (hvacant.placed hentries₁)
    refine ⟨nodes₂, ?_, ?_⟩
    · rw [buildMembers]
      exact (hstep fun nodes => buildMembers rest slot (index + 1) path nodes).trans hrun
    · rw [hentries₂, hentries₁, memberShapes, placedFrom, List.append_assoc]

theorem build_items : ∀ (items : List CanonicalValue) (_ : allFiniteItems items = true) (slot : Slot) (index : Nat)
    (path : String) (nodes : Nodes), VacantFrom nodes slot.ref index → ∃ nodes',
      buildItems items slot index path nodes = .ok nodes' ∧
        nodes'.entries = nodes.entries ++ placedFrom slot index (itemShapes path index items)
  | [], _, slot, index, path, nodes, _ => ⟨nodes, by rw [buildItems], by simp [itemShapes, placedFrom]⟩
  | value :: rest, hfinite, slot, index, path, nodes, hvacant => by
    rw [allFiniteItems, Bool.and_eq_true] at hfinite
    obtain ⟨nodes₁, hentries₁, hstep⟩ := @build_holder _ _ value (slot.child index) (pathChild path (.inr index)) _
      (fun content => itemData index content (pathChild path (.inr index))) hfinite.1
      (hvacant index (le_refl index)) (build_entries value hfinite.1)
    obtain ⟨nodes₂, hrun, hentries₂⟩ := build_items rest hfinite.2 slot (index + 1) path nodes₁ (hvacant.placed hentries₁)
    refine ⟨nodes₂, ?_, ?_⟩
    · rw [buildItems]
      exact (hstep fun nodes => buildItems rest slot (index + 1) path nodes).trans hrun
    · rw [hentries₂, hentries₁, itemShapes, placedFrom, List.append_assoc]

end

end Building

/-! ## The tree of a document -/

/-- The slot of a place of the document. -/
def slotAt (p : List Nat) : Slot := Slot.root.follow p

theorem slotAt_ref (p : List Nat) : (slotAt p).ref = outline "n" p := Slot.follow_ref _ p

theorem slotAt_parent (p : List Nat) (i : Nat) : (slotAt (p ++ [i])).parentRef = some (outline "n" p) := by
  rw [slotAt, Slot.follow_snoc]
  exact congrArg some (Slot.follow_ref _ p)

/-- The node of a place where the subtree `s` stands. -/
def nodeAt (p : List Nat) (s : Rose NodeData) : CanonicalNode := (slotAt p).node s.label s.children.length

theorem mem_childRefs_nodeAt {p : List Nat} {s : Rose NodeData} {c : NodeRef} :
    c ∈ (nodeAt p s).childRefs ↔ ∃ i < s.children.length, c = outline "n" (p ++ [i]) := by
  show c ∈ childRefs (slotAt p).ref s.children.length ↔ _
  rw [childRefs, List.mem_map]
  simp only [List.mem_range, slotAt_ref, outline_snoc, childRef, eq_comm]

/-- The tree holds the nodes of the places of `t`, and no others. -/
structure Represents (t : Rose NodeData) (tree : CanonicalTree) : Prop where
  root_eq : tree.rootNodeRef = "n"
  nodes_iff : ∀ ref node, tree.nodes.get? ref = some node ↔
    ∃ p s, t.descend p = some s ∧ ref = outline "n" p ∧ node = nodeAt p s
  size_eq : tree.nodes.size = t.size

theorem canonicalTree_ok {rootNodeRef : NodeRef} {nodes : Nodes} {root : CanonicalNode}
    (hroot : nodes.get? rootNodeRef = some root) (hparent : root.parentRef = none)
    (hkeys : ∀ e ∈ nodes.entries, e.1 = e.2.nodeRef) :
    ∃ tree, canonicalTree rootNodeRef nodes = .ok tree ∧ tree.rootNodeRef = rootNodeRef ∧ tree.nodes = nodes := by
  have hne : nodes.entries ≠ [] := List.ne_nil_of_mem (nodes.get?_eq_some.mp hroot)
  unfold canonicalTree
  rw [if_neg hne]
  split
  · rename_i h
    rw [hroot] at h
    cases h
  · rename_i root' h
    obtain rfl := Option.some.inj (hroot.symm.trans h)
    rw [dif_pos hparent]
    split
    · rename_i e he
      have hbad := List.find?_some he
      exact absurd (hkeys e (List.mem_of_find?_eq_some he)) (by simpa using hbad)
    · exact ⟨_, rfl, rfl, rfl⟩

/-- The adapter returns the tree of the document's shape. -/
theorem adapt_represents [PyRuntime] [KeyRuntime] (adapter : DataTreeAdapter) (documentUri : Option String)
    {value : CanonicalValue} (hfinite : allFinite value = true) :
    ∃ tree, adapter.adapt value documentUri = .ok tree ∧ Represents (documentShape adapter value) tree := by
  have hempty : Vacant Dict.empty "n" := fun k hk => absurd hk List.not_mem_nil
  obtain ⟨nodes, hrun, hentries⟩ := build_entries value hfinite (Slot.root.child 0) "$"
    (Dict.empty.insert "n" (Slot.root.node (documentData adapter.sourceFormat) 1)) (hempty.insert _ 0 (le_refl 0))
  have hplaced : nodes.entries = placed Slot.root (documentShape adapter value) := by
    rw [hentries, Dict.entries_insert hempty.not_mem, documentShape, placed, placedFrom, placedFrom, List.append_nil]
    rfl
  have hget : ∀ ref node, nodes.get? ref = some node ↔ ∃ p s, (documentShape adapter value).descend p = some s ∧
      ref = outline "n" p ∧ node = nodeAt p s := by
    intro ref node
    rw [nodes.get?_eq_some, hplaced, mem_placed]
    simp only [Slot.follow_ref]
    exact Iff.rfl
  obtain ⟨tree, htree, hroot, hnodes⟩ := canonicalTree_ok ((hget "n" _).mpr ⟨[], _, rfl, rfl, rfl⟩) rfl fun e he => by
    obtain ⟨p, s, -, href, hnode⟩ := (hget e.1 e.2).mp (nodes.get?_eq_some.mpr he)
    rw [href, hnode]
    exact (slotAt_ref p).symm
  refine ⟨tree, ?_, hroot, hnodes ▸ hget, ?_⟩
  · unfold DataTreeAdapter.adapt
    simp only [Outcome.bind_ok]
    exact ⟨nodes, hrun, by rw [show Slot.root.ref = "n" from rfl, htree]⟩
  · rw [hnodes, Dict.size, hplaced, length_placed]

namespace Represents
variable {t : Rose NodeData} {tree : CanonicalTree} (h : Represents t tree)

include h

theorem get {p : List Nat} {s : Rose NodeData} (hs : t.descend p = some s) :
    tree.nodes.get? (outline "n" p) = some (nodeAt p s) := (h.nodes_iff _ _).mpr ⟨p, s, hs, rfl, rfl⟩

theorem mem_keys {ref : NodeRef} : ref ∈ tree.nodes.keys ↔ ∃ p s, t.descend p = some s ∧ ref = outline "n" p := by
  rw [tree.nodes.mem_keys]
  constructor
  · intro hx
    obtain ⟨node, hnode⟩ := hx
    obtain ⟨p, s, hs, href, -⟩ := (h.nodes_iff _ _).mp hnode
    exact ⟨p, s, hs, href⟩
  · intro hx
    obtain ⟨p, s, hs, rfl⟩ := hx
    exact ⟨_, h.get hs⟩

theorem mem_childrenOf {p : List Nat} {s : Rose NodeData} (hs : t.descend p = some s) {c : NodeRef} :
    c ∈ tree.childrenOf (outline "n" p) ↔ ∃ i < s.children.length, c = outline "n" (p ++ [i]) := by
  rw [CanonicalTree.childrenOf_eq (h.get hs), mem_childRefs_nodeAt]

theorem parentOf_root : tree.parentOf (outline "n" []) = none := by
  rw [CanonicalTree.parentOf_eq (h.get rfl)]
  rfl

/-- The parent of a place is the place above. -/
theorem parentOf_snoc {p : List Nat} {i : Nat} {s : Rose NodeData} (hs : t.descend (p ++ [i]) = some s) :
    tree.parentOf (outline "n" (p ++ [i])) = some (outline "n" p) := by
  rw [CanonicalTree.parentOf_eq (h.get hs)]
  exact slotAt_parent p i

/-- The tree of a document passes every check of a whole tree. -/
theorem rooted : Rooted tree := by
  have hchild : ∀ {p s i}, t.descend p = some s → i < s.children.length →
      ∃ c, t.descend (p ++ [i]) = some c := by
    intro p s i hs hi
    exact ⟨_, descend_snoc.mpr ⟨s, hs, List.getElem?_eq_getElem hi⟩⟩
  refine ⟨?_, ?_, ?_, ?_, ?_⟩
  · intro ref href c hc
    obtain ⟨p, s, hs, rfl⟩ := h.mem_keys.mp href
    obtain ⟨i, hi, rfl⟩ := (h.mem_childrenOf hs).mp hc
    obtain ⟨s', hs'⟩ := hchild hs hi
    exact h.mem_keys.mpr ⟨_, s', hs', rfl⟩
  · intro ref href c hc
    obtain ⟨p, s, hs, rfl⟩ := h.mem_keys.mp href
    obtain ⟨i, hi, rfl⟩ := (h.mem_childrenOf hs).mp hc
    obtain ⟨s', hs'⟩ := hchild hs hi
    exact h.parentOf_snoc hs'
  · intro ref href parent hparent
    obtain ⟨p, s, hs, rfl⟩ := h.mem_keys.mp href
    induction p using List.reverseRecOn with
    | nil =>
      rw [h.parentOf_root] at hparent
      cases hparent
    | append_singleton q i _ =>
      rw [h.parentOf_snoc hs] at hparent
      obtain rfl := Option.some.inj hparent
      obtain ⟨s', hs', hi⟩ := descend_snoc.mp hs
      exact ⟨h.mem_keys.mpr ⟨q, s', hs', rfl⟩,
        (h.mem_childrenOf hs').mpr ⟨i, (List.getElem?_eq_some_iff.mp hi).1, rfl⟩⟩
  · intro ref href hparent
    obtain ⟨p, s, hs, rfl⟩ := h.mem_keys.mp href
    induction p using List.reverseRecOn with
    | nil => exact h.root_eq.symm
    | append_singleton q i _ =>
      rw [h.parentOf_snoc hs] at hparent
      cases hparent
  · intro ref href
    obtain ⟨p, s, hs, rfl⟩ := h.mem_keys.mp href
    -- a chain of parents shortens the place
    induction p using List.reverseRecOn generalizing s with
    | nil => exact Acc.intro _ fun q hq => absurd (h.parentOf_root.symm.trans hq) (by simp)
    | append_singleton q i ih =>
      obtain ⟨s', hs', -⟩ := descend_snoc.mp hs
      have hparent := h.parentOf_snoc hs
      refine Acc.intro _ fun r hr => ?_
      obtain rfl := Option.some.inj (hparent.symm.trans hr)
      exact ih s' hs' (h.mem_keys.mpr ⟨q, s', hs', rfl⟩)

end Represents

end Reconciliation.Adapters

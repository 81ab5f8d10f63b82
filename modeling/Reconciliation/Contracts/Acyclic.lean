/-
  Reconciliation.Contracts.Acyclic — the causal graph accepts exactly the acyclic link sets.

  The nodes being visited are a path to the node at hand, so a successor among them closes
  a cycle. The visited nodes are settled, so a search that is not told of a cycle settles its
  node (`hasCycle_ends`). A call adds a node to the path and a path holds each endpoint
  once, so the bound on the calls is never reached. The check therefore ends on every link
  set, and passes exactly when there is no directed cycle (`causalGraph_accepts`).
-/
import Reconciliation.Base.Cycles
import Reconciliation.Contracts.Results

namespace Reconciliation.Contracts

open Reconciliation.Base

/-! ## Where a search ends -/

/-- A search finds a cycle, or settles the nodes it was asked about and leaves the path as it was. -/
def SearchEnds (R : String → String → Prop) (nodes : List String) (search : CycleSearch)
    (outcome : Except PyError (Bool × CycleSearch)) : Prop :=
  (∃ after, outcome = .ok (true, after) ∧ ∃ a, Relation.TransGen R a a) ∨
    ∃ after, outcome = .ok (false, after) ∧ after.visiting = search.visiting ∧ Settled R {a | a ∈ after.visited} ∧
      (∀ a ∈ search.visited, a ∈ after.visited) ∧ ∀ a ∈ nodes, a ∈ after.visited

section Search
variable {R : String → String → Prop} {adjacency : Dict String (List String)}

/-- The loop over successors ends as the calls it makes do. -/
theorem searchAll_ends {call : String → CycleSearch → Except PyError (Bool × CycleSearch)} (nexts : List String)
    (search : CycleSearch) (hsettled : Settled R {a | a ∈ search.visited})
    (hback : ∀ next ∈ nexts, next ∈ search.visiting → ∃ a, Relation.TransGen R a a)
    (hcall : ∀ next ∈ nexts, ∀ s : CycleSearch, s.visiting = search.visiting → Settled R {a | a ∈ s.visited} →
      next ∉ s.visiting → SearchEnds R [next] s (call next s)) :
    SearchEnds R nexts search (searchAll call nexts search) := by
  induction nexts generalizing search with
  | nil => exact Or.inr ⟨search, rfl, rfl, hsettled, fun a ha => ha, by simp⟩
  | cons next rest ih =>
    unfold searchAll
    by_cases hpath : next ∈ search.visiting
    · rw [if_pos hpath]
      exact Or.inl ⟨search, rfl, hback next (by simp) hpath⟩
    rw [if_neg hpath]
    by_cases hvisited : next ∈ search.visited
    · rw [if_pos hvisited]
      rcases ih search hsettled (fun n hn => hback n (by simp [hn])) (fun n hn => hcall n (by simp [hn])) with
        hcycle | ⟨after, hrun, hsame, hafter, hkept, hdone⟩
      · exact Or.inl hcycle
      · refine Or.inr ⟨after, hrun, hsame, hafter, hkept, ?_⟩
        intro a ha
        rcases List.mem_cons.mp ha with rfl | ha
        · exact hkept a hvisited
        · exact hdone a ha
    rw [if_neg hvisited]
    rcases hcall next (by simp) search rfl hsettled hpath with
      ⟨s, hs, hcycle⟩ | ⟨s, hs, hsame, hnow, hkept, hdone⟩
    · exact Or.inl ⟨s, by rw [hs]; rfl, hcycle⟩
    · have hrest := ih s hnow (fun n hn => hsame ▸ hback n (by simp [hn]))
        (fun n hn s' hs' => hcall n (by simp [hn]) s' (hs'.trans hsame))
      rw [hs]
      rcases hrest with hcycle | ⟨after, hafter, hsame', hnow', hkept', hdone'⟩
      · exact Or.inl hcycle
      · refine Or.inr ⟨after, hafter, hsame'.trans hsame, hnow', fun a ha => hkept' a (hkept a ha), ?_⟩
        intro a ha
        rcases List.mem_cons.mp ha with rfl | ha
        · exact hkept' a (hdone a (by simp))
        · exact hdone' a ha

/-- A call ends as long as the path it extends leaves it enough rounds. -/
theorem hasCycle_ends (hsucc : ∀ a b, b ∈ (adjacency.get? a).getD [] ↔ R a b) {ends : List String}
    (hends : ∀ a b, R a b → b ∈ ends) (fuel : Nat) (node : String) (search : CycleSearch)
    (hsettled : Settled R {a | a ∈ search.visited}) (hpath : ∀ a ∈ search.visiting, Relation.TransGen R a node)
    (hnodup : search.visiting.Nodup) (hsub : ∀ a ∈ search.visiting, a ∈ ends) (hnode : node ∈ ends)
    (hfresh : node ∉ search.visiting) (hfuel : ends.length < fuel + search.visiting.length) :
    SearchEnds R [node] search (hasCycle adjacency fuel node search) := by
  induction fuel generalizing node search with
  | zero =>
    have := (List.subperm_of_subset hnodup hsub).length_le
    omega
  | succ fuel ih =>
    have hall : SearchEnds R ((adjacency.get? node).getD []) { search with visiting := node :: search.visiting }
        (searchAll (hasCycle adjacency fuel) ((adjacency.get? node).getD [])
          { search with visiting := node :: search.visiting }) := by
      apply searchAll_ends
      · exact hsettled
      · intro next hnext hin
        have hedge : R node next := (hsucc node next).mp hnext
        rcases List.mem_cons.mp hin with rfl | hin
        · exact ⟨next, .single hedge⟩
        · exact ⟨next, (hpath next hin).tail hedge⟩
      · intro next hnext s hs hnow hnot
        have hedge : R node next := (hsucc node next).mp hnext
        apply ih next s hnow
        · intro a ha
          rw [hs] at ha
          rcases List.mem_cons.mp ha with rfl | ha
          · exact .single hedge
          · exact (hpath a ha).tail hedge
        · rw [hs]
          exact List.nodup_cons.mpr ⟨hfresh, hnodup⟩
        · intro a ha
          rw [hs] at ha
          rcases List.mem_cons.mp ha with rfl | ha
          · exact hnode
          · exact hsub a ha
        · exact hends node next hedge
        · exact hnot
        · rw [hs, List.length_cons]
          omega
    unfold hasCycle
    rcases hall with ⟨s, hs, hcycle⟩ | ⟨s, hs, hsame, hnow, hkept, hdone⟩
    · exact Or.inl ⟨s, by simp only [hs]; rfl, hcycle⟩
    · refine Or.inr ⟨⟨s.visiting.filter (· ≠ node), node :: s.visited⟩, by simp only [hs]; rfl, ?_, ?_, ?_, by simp⟩
      · show s.visiting.filter _ = search.visiting
        rw [hsame]
        show (node :: search.visiting).filter _ = search.visiting
        rw [List.filter_cons_of_neg (by simp), List.filter_eq_self]
        intro a ha
        simp only [ne_eq, decide_eq_true_eq]
        exact fun heq => hfresh (heq ▸ ha)
      · have := hnow.insert node fun next hnext => hdone next ((hsucc node next).mpr hnext)
        show Settled R {a | a ∈ node :: s.visited}
        have hset : {a | a ∈ node :: s.visited} = Set.insert node {a | a ∈ s.visited} := by
          ext a
          simp [Set.insert]
        rw [hset]
        exact this
      · intro a ha
        exact List.mem_cons_of_mem node (hkept a ha)

/-- The outer loop passes when there is no cycle, and otherwise raises the documented error. -/
theorem acyclicFrom_ends (hsucc : ∀ a b, b ∈ (adjacency.get? a).getD [] ↔ R a b) {ends : List String}
    (hends : ∀ a b, R a b → b ∈ ends) {fuel : Nat} (hfuel : ends.length < fuel) (starts : List String)
    (hstarts : ∀ a ∈ starts, a ∈ ends) (search : CycleSearch) (hpath : search.visiting = [])
    (hsettled : Settled R {a | a ∈ search.visited})
    (hleft : ∀ a b, R a b → a ∈ search.visited ∨ a ∈ starts) :
    (acyclicFrom adjacency fuel starts search = .ok () ∧ ∀ a, ¬ Relation.TransGen R a a) ∨
      (acyclicFrom adjacency fuel starts search =
        .error (.validationError "CausalOperationGraph" [.text "causal operation graph contains an invalid cycle"]) ∧
          ∃ a, Relation.TransGen R a a) := by
  induction starts generalizing search with
  | nil =>
    refine Or.inl ⟨rfl, hsettled.acyclic_of_sources fun a b hab => ?_⟩
    simpa using hleft a b hab
  | cons start rest ih =>
    unfold acyclicFrom
    by_cases hvisited : start ∈ search.visited
    · rw [if_pos hvisited]
      apply ih (fun a ha => hstarts a (by simp [ha])) search hpath hsettled
      intro a b hab
      rcases hleft a b hab with h | h
      · exact Or.inl h
      · rcases List.mem_cons.mp h with rfl | h
        · exact Or.inl hvisited
        · exact Or.inr h
    · rw [if_neg hvisited]
      have hsearch : SearchEnds R [start] search (hasCycle adjacency fuel start search) :=
        hasCycle_ends hsucc hends fuel start search hsettled (by simp [hpath]) (by simp [hpath]) (by simp [hpath])
          (hstarts start (by simp)) (by simp [hpath]) (by simp [hpath, hfuel])
      rcases hsearch with ⟨s, hs, hcycle⟩ | ⟨s, hs, hsame, hnow, hkept, hdone⟩
      · exact Or.inr ⟨by rw [hs]; rfl, hcycle⟩
      · rw [hs]
        apply ih (fun a ha => hstarts a (by simp [ha])) s (hsame.trans hpath) hnow
        intro a b hab
        rcases hleft a b hab with h | h
        · exact Or.inl (hkept a h)
        · rcases List.mem_cons.mp h with rfl | h
          · exact Or.inl (hdone a (by simp))
          · exact Or.inr h

end Search

/-! ## The check -/

/-- One operation is given as the cause of another. -/
def Causes (links : List CausalLink) (root derived : String) : Prop :=
  ∃ l ∈ links, l.val.rootOperationId = root ∧ l.val.derivedOperationId = derived

/-- The operations the links name. -/
def linkEnds (links : List CausalLink) : List String :=
  links.flatMap fun l => [l.val.rootOperationId, l.val.derivedOperationId]

section Graph
variable {links : List CausalLink}

theorem length_linkEnds (links : List CausalLink) : (linkEnds links).length = 2 * links.length := by
  simp [linkEnds, List.length_flatMap, Nat.mul_comm]

theorem Causes.mem_linkEnds {a b : String} (h : Causes links a b) : b ∈ linkEnds links := by
  obtain ⟨l, hl, -, rfl⟩ := h
  exact List.mem_flatMap.mpr ⟨l, hl, by simp⟩

/-- A node's successors are what its links derive, in link order. -/
theorem mem_successors {a b : String} :
    b ∈ ((Dict.group (links.map fun l => (l.val.rootOperationId, l.val.derivedOperationId))).get? a).getD [] ↔
      Causes links a b := by
  rw [Dict.getD_group]
  simp [Causes]

theorem mem_starts {a : String} :
    a ∈ (Dict.group (links.map fun l => (l.val.rootOperationId, l.val.derivedOperationId))).keys ↔
      ∃ l ∈ links, l.val.rootOperationId = a := by
  rw [Dict.mem_keys_group]
  simp

theorem check_ends (selected : CandidateExplanation) (alternatives : List CandidateExplanation) :
    (CausalOperationGraphFields.check ⟨selected, alternatives⟩ = .ok () ∧
      ∀ a, ¬ Relation.TransGen (Causes selected.links) a a) ∨
    (CausalOperationGraphFields.check ⟨selected, alternatives⟩ =
        .error (.validationError "CausalOperationGraph" [.text "causal operation graph contains an invalid cycle"]) ∧
      ∃ a, Relation.TransGen (Causes selected.links) a a) := by
  have hfuel : (linkEnds selected.links).length < 2 * selected.links.length + 1 := by
    rw [length_linkEnds]
    omega
  apply acyclicFrom_ends (fun a b => mem_successors) (fun a b h => h.mem_linkEnds) hfuel
  · intro a ha
    obtain ⟨l, hl, rfl⟩ := mem_starts.mp ha
    exact List.mem_flatMap.mpr ⟨l, hl, by simp⟩
  · rfl
  · simpa using Settled.empty
  · intro a b h
    obtain ⟨l, hl, hroot, -⟩ := h
    exact Or.inr (mem_starts.mpr ⟨l, hl, hroot⟩)

end Graph

/-- Building a causal graph ends: it succeeds exactly without a directed cycle, and otherwise
    raises the documented error. -/
theorem causalGraph_accepts (selected : CandidateExplanation) (alternatives : List CandidateExplanation) :
    ((∃ graph, Checked.build CausalOperationGraphFields.check ⟨selected, alternatives⟩ = .ok graph) ↔
      ∀ id, ¬ Relation.TransGen (Causes selected.links) id id) ∧
    ((∃ graph, Checked.build CausalOperationGraphFields.check ⟨selected, alternatives⟩ = .ok graph) ∨
      Checked.build CausalOperationGraphFields.check ⟨selected, alternatives⟩ =
        .error (.validationError "CausalOperationGraph" [.text "causal operation graph contains an invalid cycle"])) := by
  rcases check_ends selected alternatives with ⟨hpass, hnone⟩ | ⟨hfail, hcycle⟩
  · have hbuild : ∃ graph, Checked.build CausalOperationGraphFields.check ⟨selected, alternatives⟩ = .ok graph :=
      Checked.build_total hpass
    exact ⟨⟨fun _ => hnone, fun _ => hbuild⟩, Or.inl hbuild⟩
  · have hbuild := Checked.build_error.mpr hfail
    refine ⟨⟨fun hgraph => ?_, fun hnone => ?_⟩, Or.inr hbuild⟩
    · obtain ⟨graph, hgraph⟩ := hgraph
      rw [hbuild] at hgraph
      cases hgraph
    · obtain ⟨a, ha⟩ := hcycle
      exact absurd ha (hnone a)

end Reconciliation.Contracts

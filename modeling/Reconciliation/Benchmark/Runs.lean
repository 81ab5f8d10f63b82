/-
  Reconciliation.Benchmark.Runs — what the engine reports of the generated trees, whatever
  their size.

  The trees are reconciled under the bundle for DITA maps.
-/
import Reconciliation.Benchmark.Generators
import Reconciliation.Reports.PackagedDiff
import Reconciliation.Reports.Translations

namespace Reconciliation.Benchmark

open Reconciliation.Base Reconciliation.Contracts Reconciliation.Evidence Reconciliation.Validation
  Reconciliation.Normalization Reconciliation.Alignment Reconciliation.Matching Reconciliation.Classification
  Reconciliation.Engine Reconciliation.Adapters Reconciliation.Reports Reconciliation.Builders

/-! ## The command -/

/-- A job id that the execution context accepts. -/
abbrev JobId := { id : String // id ≠ "" }

def benchmarkCommand (source target : CanonicalTree) (jobId : JobId) : ReconcileTreesCommand :=
  { ditaMapCommand source target with executionContext := ⟨jobId.val, none, unlimited, false, jobId.property⟩ }

def reconcileTrees [PyRuntime] (source target : CanonicalTree) (jobId : JobId) : Except PyError ReconciliationResult :=
  reconcile (benchmarkCommand source target jobId)

section Fans
variable {source target : CanonicalTree} {m n : Nat} {data data' : Nat → NodeData} {jobId : JobId}

theorem admitted (hs : Rooted source) (ht : Rooted target) : Admitted (benchmarkCommand source target jobId) where
  source_valid := validateTree_iff.mpr (validateTreeResult_nil_iff.mpr hs)
  target_valid := validateTree_iff.mpr (validateTreeResult_nil_iff.mpr ht)
  profiles_valid := by
    show validateProfiles defaultMatchingProfile defaultOperationProfile defaultSuppressionProfile = []
    decide +kernel
  within_limits := rfl

/-! ## Rows of identified topics -/

theorem firstPresent_topicref {slot : Slot} {id : String} (hne : id ≠ "") :
    firstPresent (generated slot (topicrefData id) 0) defaultIdKeys = some id := by
  show (if id ≠ "" then some id else _) = some id
  rw [if_pos hne]

/-- A fan of topics, each with its own id. -/
structure Row (tree : CanonicalTree) (count : Nat) (name : Nat → String) : Prop where
  fan : Fan tree count fun i => topicrefData (name i)
  name_ne : ∀ i, name i ≠ ""
  name_injective : Function.Injective name

namespace Row
variable {t : CanonicalTree} {name name' : Nat → String} (h : Row t n name)

include h

theorem idOf_leaf {i : Nat} (hi : i < n) : idOf t (childRef "n" i) = some (name i) := by
  unfold idOf
  rw [h.fan.get_leaf i hi, Option.bind_some]
  exact firstPresent_topicref (h.name_ne i)

theorem idOf_root : idOf t "n" = none := by
  unfold idOf
  rw [h.fan.get_root]
  rfl

theorem idOf_eq {ref : NodeRef} {id : String} : idOf t ref = some id ↔ ∃ i < n, ref = childRef "n" i ∧ id = name i := by
  constructor
  · intro hid
    rcases h.fan.only ref (mem_of_idOf hid) with rfl | ⟨i, hi, rfl⟩
    · rw [h.idOf_root] at hid
      cases hid
    · rw [h.idOf_leaf hi] at hid
      exact ⟨i, hi, rfl, (Option.some.inj hid).symm⟩
  · intro hx
    obtain ⟨i, hi, rfl, rfl⟩ := hx
    exact h.idOf_leaf hi

theorem idOf_none {ref : NodeRef} (hknown : ref ∈ t.nodes.keys) : idOf t ref = none ↔ ref = t.rootNodeRef := by
  rw [h.fan.root_eq]
  constructor
  · intro hnone
    rcases h.fan.only ref hknown with rfl | ⟨i, hi, rfl⟩
    · rfl
    · rw [h.idOf_leaf hi] at hnone
      cases hnone
  · rintro rfl
    exact h.idOf_root

theorem idOf_unique (r r' : NodeRef) (id : String) (hr : idOf t r = some id) (hr' : idOf t r' = some id) : r = r' := by
  obtain ⟨i, -, rfl, hi⟩ := h.idOf_eq.mp hr
  obtain ⟨j, -, rfl, hj⟩ := h.idOf_eq.mp hr'
  rw [h.name_injective (hi.symm.trans hj)]

theorem normalized (profile : NormalizationProfile) : Row (normalizeTree t profile) n name where
  fan := h.fan.normalized fun _ _ _ => rfl
  name_ne := h.name_ne
  name_injective := h.name_injective

end Row

section Rows
variable {a b : Nat → String} (hs : Row source n a) (ht : Row target m b)

include hs ht

theorem sameId_row {s t : NodeRef} :
    SameId source target s t ↔ ∃ i < n, ∃ j < m, a i = b j ∧ s = childRef "n" i ∧ t = childRef "n" j := by
  unfold SameId
  simp only [hs.idOf_eq, ht.idOf_eq]
  constructor
  · intro hx
    obtain ⟨id, ⟨i, hi, rfl, rfl⟩, j, hj, rfl, hid⟩ := hx
    exact ⟨i, hi, j, hj, hid, rfl, rfl⟩
  · intro hx
    obtain ⟨i, hi, j, hj, hid, rfl, rfl⟩ := hx
    exact ⟨a i, ⟨i, hi, rfl, rfl⟩, j, hj, rfl, hid⟩

theorem identified_row : Identified source target where
  source_ids _ hknown := hs.idOf_none hknown
  target_ids _ hknown := ht.idOf_none hknown
  source_unique := hs.idOf_unique
  target_unique := ht.idOf_unique
  same_type s t x y hst hx hy := by
    obtain ⟨i, hi, j, hj, -, rfl, rfl⟩ := (sameId_row hs ht).mp hst
    rw [hs.fan.get_leaf i hi] at hx
    rw [ht.fan.get_leaf j hj] at hy
    cases hx
    cases hy
    rfl

theorem counterparts_row {p q : NodeRef} (h : Counterparts source target p q) :
    (p = "n" ∧ q = "n") ∨ ∃ i j, a i = b j ∧ p = childRef "n" i ∧ q = childRef "n" j := by
  rcases h with ⟨hp, hq⟩ | hst
  · rw [hs.fan.root_eq] at hp
    rw [ht.fan.root_eq] at hq
    exact Or.inl ⟨hp, hq⟩
  · obtain ⟨i, -, j, -, hid, hp, hq⟩ := (sameId_row hs ht).mp hst
    exact Or.inr ⟨i, j, hid, hp, hq⟩

theorem roots_counterparts : Counterparts source target "n" "n" := Or.inl ⟨hs.fan.root_eq.symm, ht.fan.root_eq.symm⟩

/-- The references hold no hyphen, so the regions are told apart. -/
theorem distinctParentIds_row : DistinctParentIds source target := by
  have hsealed : ∀ {p q}, Counterparts source target p q → Fields.Sealed '-' p := by
    intro p q hpq
    have hroot : Fields.Sealed '-' "n" := Fields.sealed_plain fun c hc => by
      obtain rfl : c = 'n' := by simpa using hc
      decide
    rcases counterparts_row hs ht hpq with ⟨rfl, -⟩ | ⟨i, -, -, rfl, -⟩
    · exact hroot
    · exact Rose.sealed_outline (by decide) (by decide) hroot [i]
  intro p q p' q' hpq hpq' hid
  exact arrow_cancel (hsealed hpq) (hsealed hpq') (regionIdFor_eq_iff.mp hid)

/-- The difference of two rows whose common ids come in one order. -/
inductive RowDifference (n m : Nat) (a b : Nat → String) : Entry → Prop
  | kept {i j : Nat} (hi : i < n) (hj : j < m) (hid : a i = b j) :
    RowDifference n m a b (.match_, [childRef "n" i], [childRef "n" j])
  | deleted {i : Nat} (hi : i < n) (hno : ∀ j < m, a i ≠ b j) : RowDifference n m a b (.delete, [childRef "n" i], [])
  | inserted {j : Nat} (hj : j < m) (hno : ∀ i < n, a i ≠ b j) : RowDifference n m a b (.insert, [], [childRef "n" j])

omit hs ht in
/-- A sublist of the right list is related to one of the left. -/
theorem exists_sublist_of_forall₂ {α β : Type} {R : α → β → Prop} {as : List α} {bs bs' : List β}
    (h : List.Forall₂ R as bs) (hsub : bs'.Sublist bs) : ∃ as', as'.Sublist as ∧ List.Forall₂ R as' bs' := by
  induction h generalizing bs' with
  | nil =>
    cases hsub
    exact ⟨[], .slnil, .nil⟩
  | @cons a b as bs hab _ ih =>
    cases hsub with
    | cons _ hsub =>
      obtain ⟨as', has', hrel⟩ := ih hsub
      exact ⟨as', has'.cons a, hrel⟩
    | cons_cons _ hsub =>
      obtain ⟨as', has', hrel⟩ := ih hsub
      exact ⟨a :: as', has'.cons_cons a, .cons hab hrel⟩

omit hs ht in
/-- The children come in the order of their numbers. -/
theorem lt_of_children {count i j : Nat} (h : [childRef "n" i, childRef "n" j].Sublist (childRefs "n" count)) : i < j := by
  have hpairwise : (childRefs "n" count).Pairwise fun x y => ∃ i j, i < j ∧ x = childRef "n" i ∧ y = childRef "n" j :=
    List.pairwise_map.mpr (List.pairwise_lt_range.imp fun {i j} hlt => ⟨i, j, hlt, rfl, rfl⟩)
  obtain ⟨i', j', hlt, hi, hj⟩ := List.pairwise_pair.mp (hpairwise.sublist h)
  rwa [childRef_injective "n" hi, childRef_injective "n" hj]

theorem difference_row {alignmentProfile : AlignmentProfile}
    (hordered : ∀ i i' j j', a i = b j → a i' = b j' → i < i' → j < j') {e : Entry} :
    Difference source target alignmentProfile e ↔ RowDifference n m a b e := by
  constructor
  · intro h
    cases h with
    | kept hst hp hq hpq hx hy he =>
      obtain ⟨i, hi, j, hj, hid, rfl, rfl⟩ := (sameId_row hs ht).mp hst
      exact .kept hi hj hid
    | updated hst hp hq hpq hx hy he =>
      obtain ⟨i, hi, j, hj, hid, rfl, rfl⟩ := (sameId_row hs ht).mp hst
      rw [hs.fan.get_leaf i hi] at hx
      rw [ht.fan.get_leaf j hj] at hy
      cases hx
      cases hy
      cases he
    | moved hst hp hq hpq =>
      obtain ⟨rfl, -⟩ := hs.fan.parentOf_iff.mp hp
      obtain ⟨rfl, -⟩ := ht.fan.parentOf_iff.mp hq
      exact absurd (roots_counterparts hs ht) hpq
    | deleted hp hpq hno =>
      obtain ⟨rfl, i, hi, rfl⟩ := hs.fan.parentOf_iff.mp hp
      exact .deleted hi fun j hj hid => hno _ ((sameId_row hs ht).mpr ⟨i, hi, j, hj, hid, rfl, rfl⟩)
    | inserted hq hpq hno =>
      obtain ⟨rfl, j, hj, rfl⟩ := ht.fan.parentOf_iff.mp hq
      exact .inserted hj fun i hi hid => hno _ ((sameId_row hs ht).mpr ⟨i, hi, j, hj, hid, rfl, rfl⟩)
    | @reordered p q node as bs y y' hpq hnode _ hcommon hy hy' =>
      -- two common children would come in opposite orders
      exfalso
      obtain ⟨xs, hxs, hrel⟩ := exists_sublist_of_forall₂ hcommon.same hy
      cases hrel with
      | @cons x _ xs _ hxy hrel =>
        cases hrel with
        | @cons x' _ xs' _ hxy' hnil =>
          cases hnil
          obtain ⟨i, hi, j, hj, hid, rfl, rfl⟩ := (sameId_row hs ht).mp hxy
          obtain ⟨i', hi', j', hj', hid', rfl, rfl⟩ := (sameId_row hs ht).mp hxy'
          have hsource := hxs.trans hcommon.in_order
          have hp : p = "n" := by
            rcases counterparts_row hs ht hpq with ⟨hp, -⟩ | ⟨k, -, -, rfl, -⟩
            · exact hp
            · exact absurd hsource (hs.fan.childrenOf_below k)
          have hq : q = "n" := by
            rcases counterparts_row hs ht hpq with ⟨-, hq⟩ | ⟨-, k, -, -, rfl⟩
            · exact hq
            · exact absurd hy' (ht.fan.childrenOf_below k)
          subst hp
          subst hq
          rw [hs.fan.childrenOf_root] at hsource
          rw [ht.fan.childrenOf_root] at hy'
          have hforward := hordered i i' j j' hid hid' (lt_of_children hsource)
          have hbackward := lt_of_children hy'
          omega
  · intro h
    cases h with
    | @kept i j hi hj hid =>
      exact .kept ((sameId_row hs ht).mpr ⟨i, hi, j, hj, hid, rfl, rfl⟩) (hs.fan.parentOf_leaf hi) (ht.fan.parentOf_leaf hj)
        (roots_counterparts hs ht) (hs.fan.get_leaf i hi) (ht.fan.get_leaf j hj) rfl
    | @deleted i hi hno =>
      refine .deleted (hs.fan.parentOf_leaf hi) (roots_counterparts hs ht) fun t hst => ?_
      obtain ⟨i', hi', j, hj, hid, hrefs, -⟩ := (sameId_row hs ht).mp hst
      obtain rfl := childRef_injective "n" hrefs
      exact hno j hj hid
    | @inserted j hj hno =>
      refine .inserted (ht.fan.parentOf_leaf hj) (roots_counterparts hs ht) fun s hst => ?_
      obtain ⟨i, hi, j', hj', hid, -, hrefs⟩ := (sameId_row hs ht).mp hst
      obtain rfl := childRef_injective "n" hrefs
      exact hno i hi hid

end Rows

/-! ## Reports of rows -/

theorem Row.label_eq {t : CanonicalTree} {name : Nat → String} (h : Row t n name) {ref : NodeRef} {node : CanonicalNode}
    (hnode : t.nodes.get? ref = some node) : firstPresent node defaultLabelKeys = none := by
  rcases h.fan.only ref ((Dict.mem_keys _).mpr ⟨node, hnode⟩) with rfl | ⟨i, hi, rfl⟩
  · rw [h.fan.get_root] at hnode
    cases hnode
    rfl
  · rw [h.fan.get_leaf i hi] at hnode
    cases hnode
    rfl

/-- The report of two rows. -/
structure RowReport (source target : CanonicalTree) (n m : Nat) (a b : Nat → String) (result : ReconciliationResult) :
    Prop where
  nodup : (result.operations.operations.map fun op => entry op.val).Nodup
  reported : ∀ e, e ∈ result.operations.operations.map (fun op => entry op.val) ↔ RowDifference n m a b e
  matched : ∀ s t, SameId source target s t → result.matchGraph.Confirmed s t
  confirmed : ∀ s t, result.matchGraph.Confirmed s t → SameId source target s t ∨ (s = "n" ∧ t = "n")

/-- Two rows whose common ids come in one order are reported with their difference. -/
theorem row_report [PyRuntime] {a b : Nat → String} (hs : Row source n a) (ht : Row target m b)
    (hordered : ∀ i i' j j', a i = b j → a i' = b j' → i < i' → j < j') :
    Outcome.Returns (reconcileTrees source target jobId) (RowReport source target n m a b) := by
  have hs' : Row (normalizedSource (benchmarkCommand source target jobId)) n a := hs.normalized _
  have ht' : Row (normalizedTarget (benchmarkCommand source target jobId)) m b := ht.normalized _
  have h : Admitted (benchmarkCommand source target jobId) := admitted hs.fan.rooted ht.fan.rooted
  obtain ⟨evidence, he⟩ := h.exists_evidence
  have hid := identified_row hs' ht'
  have hseparated : Separated evidence defaultMatchingProfile :=
    ditaMap_separated (unlike_of_unlabelled he fun _ _ => hs'.label_eq)
  have henabled : AllEnabled defaultOperationProfile := by decide
  obtain ⟨result, hrun, hnodup, hdiff⟩ := (exactDiff_separated h hid he hseparated henabled).mpr
    (distinctParentIds_row hs' ht')
  obtain ⟨evidence', hstages⟩ := runStages_stages ((reconcile_admitted h).symm.trans hrun)
  obtain rfl : evidence = evidence' := Except.ok.inj (he.symm.trans hstages.extracted)
  have hsame : ∀ s t, SameId (normalizedSource (benchmarkCommand source target jobId))
      (normalizedTarget (benchmarkCommand source target jobId)) s t ↔ SameId source target s t := fun s t => by
    rw [sameId_row hs' ht', sameId_row hs ht]
  refine ⟨result, hrun, hnodup, fun e => (hdiff e).trans (difference_row hs' ht' hordered), fun s t hst => ?_, fun s t hc => ?_⟩
  · exact (confirmed_iff hstages.matched).mpr
      (Or.inl ((authoritative_iff_same hid he hseparated.authoritative).mpr ((hsame s t).mpr hst)))
  · rcases corresponding_cases hid hseparated he ((confirmed_iff hstages.matched).mp hc) with hst | ⟨hroot, hroot'⟩
    · exact Or.inl ((hsame s t).mp hst)
    · exact Or.inr ⟨hroot.trans hs'.fan.root_eq, hroot'.trans ht'.fan.root_eq⟩

end Fans

/-! ## Wide trees -/

def wideName (i : Nat) : String := "k" ++ toString i

theorem wideName_injective : Function.Injective wideName := fun _ _ h =>
  toString_injective ((String.append_right_inj "k").mp h)

/-- The names of the children of the edited tree. -/
def editedName (n i : Nat) : String := if i < (n + 1) / 2 then wideName (2 * i) else "new" ++ toString i

theorem wideName_ne_new (i j : Nat) : wideName i ≠ "new" ++ toString j := by
  intro h
  have hchars := congrArg String.toList h
  simp [wideName] at hchars

theorem new_injective {i j : Nat} (h : "new" ++ toString i = "new" ++ toString j) : i = j :=
  toString_injective ((String.append_right_inj "new").mp h)

/-- An id of the wide tree is kept exactly where it is twice the index. -/
theorem wideName_eq_edited {n i j : Nat} : wideName i = editedName n j ↔ j < (n + 1) / 2 ∧ i = 2 * j := by
  unfold editedName
  split_ifs with hj
  · exact ⟨fun h => ⟨hj, wideName_injective h⟩, fun h => congrArg wideName h.2⟩
  · exact ⟨fun h => absurd h (wideName_ne_new i j), fun h => absurd h.1 hj⟩

/-- The kept children keep their order. -/
theorem edited_ordered {n : Nat} (i i' j j' : Nat) (h : wideName i = editedName n j) (h' : wideName i' = editedName n j')
    (hlt : i < i') : j < j' := by
  have hdouble := (wideName_eq_edited.mp h).2
  have hdouble' := (wideName_eq_edited.mp h').2
  omega

theorem editedName_injective (n : Nat) : Function.Injective (editedName n) := by
  intro i j h
  by_cases hi : i < (n + 1) / 2
  · rw [editedName, if_pos hi] at h
    have hdouble := (wideName_eq_edited.mp h).2
    omega
  · by_cases hj : j < (n + 1) / 2
    · rw [editedName.eq_1 n j, if_pos hj] at h
      have hdouble := (wideName_eq_edited.mp h.symm).2
      have hlow := (wideName_eq_edited.mp h.symm).1
      exact absurd hlow hi
    · rw [editedName, editedName, if_neg hi, if_neg hj] at h
      exact new_injective h

/-- An id of the wide tree is dropped exactly when its index is odd. -/
theorem dropped_iff {n i : Nat} (hi : i < n) : (∀ j < (n + 1) / 2 + n / 4, wideName i ≠ editedName n j) ↔
    ∃ j < n / 2, i = 2 * j + 1 := by
  constructor
  · intro hno
    by_contra heven
    have hhalf : i = 2 * (i / 2) := by
      by_contra hodd
      exact heven ⟨i / 2, by omega, by omega⟩
    exact hno (i / 2) (by omega) (wideName_eq_edited.mpr ⟨by omega, hhalf⟩)
  · intro h j _ hid
    obtain ⟨k, -, rfl⟩ := h
    have hdouble := (wideName_eq_edited.mp hid).2
    omega

/-- An id of the edited tree is new exactly when it comes after the kept ones. -/
theorem added_iff {n j : Nat} : (∀ i < n, wideName i ≠ editedName n j) ↔ (n + 1) / 2 ≤ j := by
  constructor
  · intro hno
    by_contra hlow
    exact hno (2 * j) (by omega) (wideName_eq_edited.mpr ⟨by omega, rfl⟩)
  · intro hhigh i _ hid
    have hlow := (wideName_eq_edited.mp hid).1
    omega

theorem wide_row {n : Nat} {t : CanonicalTree} (h : Fan t n fun i => topicrefData ("k" ++ toString i)) : Row t n wideName where
  fan := h
  name_ne _ := by simp [wideName]
  name_injective := wideName_injective

theorem edited_row {n m : Nat} {t : CanonicalTree} (h : Fan t m (editedData n)) : Row t m (editedName n) where
  fan := by
    have hdata : editedData n = fun i => topicrefData (editedName n i) := by
      funext i
      unfold editedData editedName
      split_ifs <;> rfl
    exact hdata ▸ h
  name_ne i := by
    unfold editedName
    split_ifs <;> simp [wideName]
  name_injective := editedName_injective n

/-- The operations that turn the wide tree into the edited one. -/
def editedOperations (n : Nat) : List Entry :=
  (List.range ((n + 1) / 2)).map (fun j => (.match_, [childRef "n" (2 * j)], [childRef "n" j])) ++
    (List.range (n / 2)).map (fun j => (.delete, [childRef "n" (2 * j + 1)], [])) ++
      (List.range (n / 4)).map fun j => (.insert, [], [childRef "n" ((n + 1) / 2 + j)])

theorem mem_editedOperations {n : Nat} {e : Entry} :
    e ∈ editedOperations n ↔ RowDifference n ((n + 1) / 2 + n / 4) wideName (editedName n) e := by
  simp only [editedOperations, List.mem_append, List.mem_map, List.mem_range]
  constructor
  · intro h
    rcases h with (⟨j, hj, rfl⟩ | ⟨j, hj, rfl⟩) | ⟨j, hj, rfl⟩
    · exact .kept (by omega) (by omega) (wideName_eq_edited.mpr ⟨hj, rfl⟩)
    · exact .deleted (by omega) ((dropped_iff (by omega)).mpr ⟨j, hj, rfl⟩)
    · exact .inserted (by omega) (added_iff.mpr (by omega))
  · intro h
    cases h with
    | @kept i j hi hj hid =>
      obtain ⟨hlow, rfl⟩ := wideName_eq_edited.mp hid
      exact Or.inl (Or.inl ⟨j, hlow, rfl⟩)
    | @deleted i hi hno =>
      obtain ⟨j, hj, rfl⟩ := (dropped_iff hi).mp hno
      exact Or.inl (Or.inr ⟨j, hj, rfl⟩)
    | @inserted j hj hno =>
      have hhigh := added_iff.mp hno
      exact Or.inr ⟨j - (n + 1) / 2, by omega, by rw [Nat.add_sub_cancel' hhigh]⟩

theorem editedOperations_nodup (n : Nat) : (editedOperations n).Nodup := by
  have hchild : ∀ {i j : Nat}, childRef "n" i = childRef "n" j → i = j := fun h => childRef_injective "n" h
  refine List.Nodup.append (List.Nodup.append ?_ ?_ ?_) ?_ ?_
  · refine List.nodup_range.map fun i j h => hchild (by simpa using congrArg (fun e : Entry => e.2.2) h)
  · refine List.nodup_range.map fun i j h => ?_
    have hsucc := @hchild (2 * i + 1) (2 * j + 1) (by simpa using congrArg (fun e : Entry => e.2.1) h)
    omega
  · simp [List.disjoint_left]
  · refine List.nodup_range.map fun i j h => ?_
    have hadd := @hchild ((n + 1) / 2 + i) ((n + 1) / 2 + j) (by simpa using congrArg (fun e : Entry => e.2.2) h)
    omega
  · intro e he hnew
    simp only [List.mem_append, List.mem_map] at he hnew
    obtain ⟨k, -, rfl⟩ := hnew
    rcases he with ⟨j, -, hj⟩ | ⟨j, -, hj⟩ <;> cases hj

section Reports
variable [PyRuntime]

/-- Of the edited pair of any size a run reports the even children as kept, the odd ones as deleted and the
    new ones as inserted, and nothing else. -/
theorem highEditDensity_report (n : Nat) (jobId : JobId) : ∃ source target,
    highEditDensityPair n = .ok (source, target) ∧ Outcome.Returns (reconcileTrees source target jobId) fun result =>
      (result.operations.operations.map fun op => entry op.val).Perm (editedOperations n) := by
  obtain ⟨source, target, hpair, hsource, htarget⟩ := highEditDensityPair_fans n
  refine ⟨source, target, hpair, ?_⟩
  obtain ⟨result, hrun, hreport⟩ :=
    @row_report source target _ n jobId _ _ _ (wide_row hsource) (edited_row htarget) edited_ordered
  exact ⟨result, hrun, (List.perm_ext_iff_of_nodup hreport.nodup (editedOperations_nodup n)).mpr fun e =>
    (hreport.reported e).trans mem_editedOperations.symm⟩

end Reports

/-! ## Repetitive trees -/

section Repetitive
variable [PyRuntime] {t : CanonicalTree} {n : Nat} {evidence : EvidenceIndex} {profile : MatchingProfile}
  (h : Fan t n fun _ => sameData) (he : extract t t = .ok evidence)

include h he

/-- All children give the evidence of the first. -/
theorem leaf_evidence : ∃ a : NodeEvidence, a.persistentId = none ∧ a.nodeType = "item" ∧
    ∀ i < n, evidence.source.val.get? (childRef "n" i) = some { a with nodeRef := childRef "n" i } := by
  obtain ⟨hes, -⟩ := extract_ok.mp he
  let a : NodeEvidence := {
    nodeRef := "n"
    nodeType := "item"
    persistentId := none
    label := none
    signature := signature (leafEntry 0 sameData).2
    childSignature := "" }
  refine ⟨a, rfl, rfl, fun i hi => (get_extractTree hes).mpr ⟨_, h.get_leaf i hi, ?_⟩⟩
  rfl

theorem root_evidence : ∃ a, evidence.source.val.get? "n" = some a ∧ a.nodeType = "map" := by
  obtain ⟨hes, -⟩ := extract_ok.mp he
  obtain ⟨a, ha⟩ := (Dict.mem_keys _).mp ((mem_keys_extractTree hes).mpr ((Dict.mem_keys _).mpr ⟨_, h.get_root⟩))
  obtain ⟨node, hnode, hevidence⟩ := (get_extractTree hes).mp ha
  rw [h.get_root] at hnode
  cases hnode
  exact ⟨a, ha, (nodeEvidence_fields hevidence).2.1⟩

theorem not_authoritative_leaf {i : Nat} (hi : i < n) {r : NodeRef} : ¬ Authoritative evidence profile (childRef "n" i) r := by
  intro hauth
  obtain ⟨a, hnone, -, hleaf⟩ := leaf_evidence h he
  obtain ⟨-, id, hholds, -⟩ := hauth.sharesId he
  obtain ⟨b, hb, hid⟩ := (hholds _).mpr rfl
  obtain rfl := Option.some.inj ((hleaf i hi).symm.trans hb)
  rw [show _ = none from hnone] at hid
  cases hid

variable (hw : Discerning profile) (htype : profile.hardConstraintNodeType = true) {s r : NodeRef}

include htype in
/-- The root is compared with the root only. -/
theorem roots_of_edge_fan (hedge : (table evidence profile).Edge s r) (hroot : s = "n" ∨ r = "n") : s = "n" ∧ r = "n" := by
  obtain ⟨v, hadmits⟩ := hedge.admits
  obtain ⟨-, -, a, b, ha, hb, hcompatible, -⟩ := admits_iff.mp hadmits
  rw [← same_evidence he] at hb
  have hsame := compatible_iff.mp hcompatible htype
  obtain ⟨hes, -⟩ := extract_ok.mp he
  obtain ⟨x, -, hitem, hleaf⟩ := leaf_evidence h he
  obtain ⟨y, hy, hmap⟩ := root_evidence h he
  have hcase : ∀ {ref : NodeRef} {e : NodeEvidence}, evidence.source.val.get? ref = some e →
      (ref = "n" ∧ e.nodeType = "map") ∨ e.nodeType = "item" := by
    intro ref e hget
    rcases h.only ref ((mem_keys_extractTree hes).mp ((Dict.mem_keys _).mpr ⟨e, hget⟩)) with rfl | ⟨i, hi, rfl⟩
    · obtain rfl := Option.some.inj (hy.symm.trans hget)
      exact Or.inl ⟨rfl, hmap⟩
    · obtain rfl := Option.some.inj ((hleaf i hi).symm.trans hget)
      exact Or.inr hitem
  have hno : ¬ ("map" : String) = "item" := by decide
  rcases hcase ha with ⟨rfl, hx⟩ | hx
  · rcases hcase hb with ⟨rfl, -⟩ | hx'
    · exact ⟨rfl, rfl⟩
    · exact absurd (hx.symm.trans (hsame.trans hx')) hno
  · rcases hcase hb with ⟨rfl, hx'⟩ | hx'
    · exact absurd (hx'.symm.trans (hsame.symm.trans hx)) hno
    · rcases hroot with rfl | rfl
      · obtain rfl := Option.some.inj (hy.symm.trans ha)
        exact absurd (hmap.symm.trans hx) hno
      · obtain rfl := Option.some.inj (hy.symm.trans hb)
        exact absurd (hmap.symm.trans hx') hno

include hw htype

/-- Where there are two children, every pair of them is ambiguous, and no other. -/
theorem edge_fan (hmany : 2 ≤ n) : (table evidence profile).Edge s r ↔
    ∃ i < n, ∃ j < n, s = childRef "n" i ∧ r = childRef "n" j := by
  obtain ⟨hes, -⟩ := extract_ok.mp he
  constructor
  · intro hedge
    have hnot : ¬ (s = "n" ∨ r = "n") := by
      intro hroot
      obtain ⟨rfl, rfl⟩ := roots_of_edge_fan h he htype hedge hroot
      obtain ⟨s', r', hother, hne, hrow⟩ := hedge.exists_other
      obtain ⟨rfl, rfl⟩ := roots_of_edge_fan h he htype hother hrow
      exact hne rfl
    obtain ⟨v, hadmits⟩ := hedge.admits
    obtain ⟨-, -, a, b, ha, hb, -⟩ := admits_iff.mp hadmits
    rw [← same_evidence he] at hb
    have hs := h.only s ((mem_keys_extractTree hes).mp ((Dict.mem_keys _).mpr ⟨a, ha⟩))
    have hr := h.only r ((mem_keys_extractTree hes).mp ((Dict.mem_keys _).mpr ⟨b, hb⟩))
    obtain ⟨i, hi, rfl⟩ := hs.resolve_left fun heq => hnot (Or.inl heq)
    obtain ⟨j, hj, rfl⟩ := hr.resolve_left fun heq => hnot (Or.inr heq)
    exact ⟨i, hi, j, hj, rfl, rfl⟩
  · intro hx
    obtain ⟨i, hi, j, hj, rfl, rfl⟩ := hx
    obtain ⟨a, hnone, -, hleaf⟩ := leaf_evidence h he
    by_cases hij : j = i
    · -- another child makes this one waver
      subst hij
      obtain ⟨k, hk, hne⟩ : ∃ k < n, k ≠ j := by
        by_cases hzero : j = 0
        · exact ⟨1, by omega, by omega⟩
        · exact ⟨0, by omega, fun heq => hzero heq.symm⟩
      have hedge := edge_of_alike he hw (hleaf j hj) (hleaf k hk) hnone fun heq => hne (childRef_injective "n" heq)
      rcases corresponding_or_edge he hw (h.mem_keys.mpr (Or.inr ⟨j, hj, rfl⟩)) with hcorresponds | hself
      · rcases hcorresponds with hauth | hsettles
        · exact absurd hauth (not_authoritative_leaf h he hj)
        · exact absurd hsettles hedge.not_settles_source
      · exact hself
    · exact edge_of_alike he hw (hleaf i hi) (hleaf j hj) hnone fun heq => hij (childRef_injective "n" heq)

/-- Then only the root corresponds, to itself. -/
theorem corresponding_fan (hmany : 2 ≤ n) : Corresponding evidence profile s r ↔ s = "n" ∧ r = "n" := by
  obtain ⟨hes, -⟩ := extract_ok.mp he
  have hroot : Corresponding evidence profile "n" "n" := by
    rcases corresponding_or_edge he hw (h.mem_keys.mpr (Or.inl rfl)) with hcorresponds | hedge
    · exact hcorresponds
    · obtain ⟨i, -, -, -, heq, -⟩ := (edge_fan h he hw htype hmany).mp hedge
      exact absurd heq (childRef_ne "n" i).2
  constructor
  · intro hx
    obtain rfl := eq_of_corresponding he hw hx
    refine and_self_iff.mpr ((h.only s ?_).resolve_right fun hleaf => ?_)
    · obtain ⟨a, -, ha, -⟩ := hx.compatible
      exact (mem_keys_extractTree hes).mp ((Dict.mem_keys _).mpr ⟨a, ha⟩)
    · obtain ⟨i, hi, rfl⟩ := hleaf
      rcases hx with hauth | hsettles
      · exact not_authoritative_leaf h he hi hauth
      · exact ((edge_fan h he hw htype hmany).mpr ⟨i, hi, i, hi, rfl, rfl⟩).not_settles_source hsettles
  · rintro ⟨rfl, rfl⟩
    exact hroot

end Repetitive

/-- Where only a node without a parent corresponds, a tree against itself gives nothing to report, unless
    everything is emitted. -/
theorem not_reported_self [PyRuntime] {command : ReconcileTreesCommand} {evidence : EvidenceIndex}
    {result : ReconciliationResult} (h : Admitted command) (hsame : command.targetTree = command.sourceTree)
    (hweight : 0 < weightFor command.matchingProfile .semanticSignature) (hs : Stages command evidence result)
    (hpolicy : command.operationProfile.unresolvedPresencePolicy ≠ .emitAll) {root : NodeRef}
    (honly : ∀ s r, Corresponding evidence command.matchingProfile s r → s = root)
    (hroot : command.sourceTree.parentOf root = none) {x : StructuralOperationFields} :
    ¬ Reported (context command result) command.alignmentProfile (h.comparison evidence)
      (certainty evidence command.matchingProfile) x := by
  have hd := selfCompared h hsame hweight hs.extracted
  have hparent : ∀ {s p : NodeRef}, (h.comparison evidence).source.parent s = some p → s ≠ root := by
    intro s p hp heq
    rw [h.source_parent, heq, hroot] at hp
    cases hp
  intro hx
  have hunchanged := reported_unchanged h hsame hweight hs hx
  cases hx with
  | aligned ha hen =>
    obtain ⟨hm, p, q, hp, -⟩ := ha
    exact hparent hp (honly _ _ hm)
  | deleted ha hu hen => exact hpolicy (hd.open_of_absent ha).1
  | inserted ha hu hen => exact hpolicy (hd.swap.open_of_absent ha).1
  | moved hm hen =>
    obtain ⟨hmatched, p, q, hp, -⟩ := hm.1
    exact hparent hp (honly _ _ hmatched)
  | reordered hpq hshuffled hen => exact hunchanged.2 rfl

/-- A repetitive tree with two children or more against itself: every pair of its children is ambiguous,
    only the root is confirmed, and nothing is reported. -/
theorem repetitive_report [PyRuntime] (n : Nat) (jobId : JobId) : ∃ t, repetitiveTree (n + 2) = .ok t ∧
    Outcome.Returns (reconcileTrees t t jobId) fun result =>
      result.operations.operations = [] ∧
      (∀ s r, result.matchGraph.Confirmed s r ↔ s = "n" ∧ r = "n") ∧
      ∀ s r, result.matchGraph.Ambiguous s r ↔ ∃ i < n + 2, ∃ j < n + 2, s = childRef "n" i ∧ r = childRef "n" j := by
  obtain ⟨t, ht, hfan⟩ := repetitiveTree_fan (n + 2)
  have h : Admitted (benchmarkCommand t t jobId) := admitted hfan.rooted hfan.rooted
  have hfan' : Fan (normalizedSource (benchmarkCommand t t jobId)) (n + 2) fun _ => sameData :=
    hfan.normalized fun _ _ _ => rfl
  have hweight : 0 < weightFor defaultMatchingProfile .semanticSignature := by decide +kernel
  have hpolicy : defaultOperationProfile.unresolvedPresencePolicy ≠ .emitAll := by decide
  have hprobable : 0 < defaultMatchingProfile.probableThreshold := by decide +kernel
  obtain ⟨evidence, he⟩ := h.exists_evidence
  have he' : extract (normalizedSource (benchmarkCommand t t jobId)) (normalizedSource (benchmarkCommand t t jobId)) =
    .ok evidence := he
  have hedges := fun s r => @edge_fan _ _ _ _ _ hfan' he' (Or.inl hweight) rfl s r (by omega)
  have hcorresponds := fun s r => @corresponding_fan _ _ _ _ _ hfan' he' (Or.inl hweight) rfl s r (by omega)
  obtain ⟨result, hrun⟩ := (runStages_total_iff h he).mpr
    ⟨supported_self he' (Or.inl hweight) (Or.inl hprobable), distinctRegionIds_self h rfl hweight he⟩
  obtain ⟨evidence', hs⟩ := runStages_stages hrun
  obtain rfl : evidence = evidence' := Except.ok.inj (he.symm.trans hs.extracted)
  refine ⟨t, ht, result, by rw [reconcileTrees, reconcile_admitted h, hrun], ?_, fun s r => ?_, fun s r => ?_⟩
  · refine List.eq_nil_iff_forall_not_mem.mpr fun op hop => ?_
    exact not_reported_self h rfl hweight hs hpolicy (fun s r hm => ((hcorresponds s r).mp hm).1) hfan.parentOf_root
      ((hs.reported h op).mp hop)
  · exact (confirmed_iff hs.matched).trans (hcorresponds s r)
  · exact (ambiguous_iff hs.matched).trans (hedges s r)

end Reconciliation.Benchmark

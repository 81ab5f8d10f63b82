/-
  Reconciliation.Base.Dict — insertion-ordered maps with distinct keys, and lists
  sorted by a key.

  A `Dict` keeps its entries in the order they were inserted and carries the proof that
  no key occurs twice, so a lookup and a membership say the same thing
  (`get?_eq_some`). `sortedBy` is a stable sort; it forgets the order of its input
  whenever the key tells the elements apart (`sortedBy_eq_of_perm`), and keeps related
  lists related (`forall₂_sortedBy`). `group` collects the values of a list of keyed
  values under their keys, in order (`getD_group`).
-/
import Reconciliation.Base.Outcome

namespace Reconciliation.Base

/-- When a partial map can be undone, what it keeps stands in the order it came from. -/
theorem map_filterMap_sublist {α β : Type} {f : α → Option β} {g : β → α} {l : List α}
    (h : ∀ a ∈ l, ∀ b, f a = some b → g b = a) : ((l.filterMap f).map g).Sublist l := by
  induction l with
  | nil => simp
  | cons a rest ih =>
    have ih := ih fun a' ha' => h a' (List.mem_cons_of_mem a ha')
    rw [List.filterMap_cons]
    cases hb : f a with
    | none => exact ih.trans (List.sublist_cons_self _ _)
    | some b =>
      rw [List.map_cons, h a List.mem_cons_self b hb]
      exact ih.cons_cons a

/-- Lists of labelled entries, one list a label, hold no entry twice. -/
theorem nodup_flatMap_of_label {α β κ : Type} {l : List α} {f : α → List β} (key : α → κ) (label : β → κ)
    (hl : (l.map key).Nodup) (hf : ∀ a ∈ l, (f a).Nodup) (hlabel : ∀ a ∈ l, ∀ b ∈ f a, label b = key a) :
    (l.flatMap f).Nodup := by
  refine List.nodup_flatMap.mpr ⟨hf, ?_⟩
  refine (List.pairwise_map.mp hl).imp_of_mem fun {a a'} ha ha' hne => ?_
  intro b hb hb'
  exact hne ((hlabel a ha b hb).symm.trans (hlabel a' ha' b hb'))

/-! ## Sorting by a key -/

section Sorting
variable {α κ : Type} [LinearOrder κ] (key : α → κ)

/-- A stable sort by `key`. -/
def sortedBy (l : List α) : List α := l.insertionSort fun a b => key a ≤ key b

theorem sortedBy_perm (l : List α) : (sortedBy key l).Perm l := List.perm_insertionSort _ l

@[simp] theorem mem_sortedBy {l : List α} {a : α} : a ∈ sortedBy key l ↔ a ∈ l :=
  (sortedBy_perm key l).mem_iff

@[simp] theorem length_sortedBy (l : List α) : (sortedBy key l).length = l.length :=
  (sortedBy_perm key l).length_eq

theorem nodup_sortedBy {l : List α} : (sortedBy key l).Nodup ↔ l.Nodup := (sortedBy_perm key l).nodup_iff

theorem pairwise_sortedBy (l : List α) : (sortedBy key l).Pairwise fun a b => key a ≤ key b := by
  have : Std.Total (fun a b : α => key a ≤ key b) := ⟨fun a b => le_total (key a) (key b)⟩
  have : IsTrans α (fun a b : α => key a ≤ key b) := ⟨fun _ _ _ => le_trans⟩
  exact List.pairwise_insertionSort _ l

/-- When the key tells the elements apart, sorting forgets the order of its input. -/
theorem sortedBy_eq_of_perm {l l' : List α} (hinj : ∀ a ∈ l, ∀ b ∈ l, key a = key b → a = b) (h : l.Perm l') :
    sortedBy key l = sortedBy key l' := by
  refine List.Perm.eq_of_pairwise ?_ (pairwise_sortedBy key l)
    (pairwise_sortedBy key l') (((sortedBy_perm key l).trans h).trans (sortedBy_perm key l').symm)
  intro a b ha hb hab hba
  exact hinj a ((mem_sortedBy key).mp ha) b (h.mem_iff.mpr ((mem_sortedBy key).mp hb)) (le_antisymm hab hba)

/-- A list in the order of the key is any of its rearrangements sorted. -/
theorem eq_sortedBy_of_perm {l l' : List α} (hinj : ∀ a ∈ l, ∀ b ∈ l, key a = key b → a = b)
    (hsorted : l.Pairwise fun a b => key a ≤ key b) (h : l.Perm l') : l = sortedBy key l' :=
  (hsorted.insertionSort_eq).symm.trans (sortedBy_eq_of_perm key hinj h)

/-- The head of a sorted list is a least element. -/
theorem head_sortedBy_le {l : List α} {a : α} {rest : List α} (h : sortedBy key l = a :: rest) :
    ∀ b ∈ l, key a ≤ key b := by
  intro b hb
  have hp := pairwise_sortedBy key l
  rw [h] at hp
  have hb' : b ∈ a :: rest := by rw [← h]; simpa using hb
  rcases List.mem_cons.mp hb' with rfl | hb'
  · exact le_refl _
  · exact List.rel_of_pairwise_cons hp hb'

theorem sortedBy_eq_nil {l : List α} : sortedBy key l = [] ↔ l = [] := by
  rw [← List.length_eq_zero_iff, length_sortedBy, List.length_eq_zero_iff]

end Sorting

section Related
variable {α β κ : Type} [LinearOrder κ] {key : α → κ} {key' : β → κ} {R : α → β → Prop}

theorem forall₂_orderedInsert (hkey : ∀ a b, R a b → key a = key' b) {a : α} {b : β} (hab : R a b) {l : List α}
    {l' : List β} (h : List.Forall₂ R l l') : List.Forall₂ R (l.orderedInsert (fun x y => key x ≤ key y) a)
      (l'.orderedInsert (fun x y => key' x ≤ key' y) b) := by
  induction h with
  | nil => exact .cons hab .nil
  | @cons c d l l' hcd h ih =>
    rw [List.orderedInsert_cons, List.orderedInsert_cons, hkey a b hab, hkey c d hcd]
    split
    · exact .cons hab (.cons hcd h)
    · exact .cons hcd ih

/-- Lists that are related element by element, under equal keys, are still so when sorted. -/
theorem forall₂_sortedBy (hkey : ∀ a b, R a b → key a = key' b) {l : List α} {l' : List β} (h : List.Forall₂ R l l') :
    List.Forall₂ R (sortedBy key l) (sortedBy key' l') := by
  induction h with
  | nil => exact .nil
  | cons hab _ ih => exact forall₂_orderedInsert hkey hab ih

/-- Functions that agree on related elements map related lists to the same list. -/
theorem map_eq_of_forall₂ {γ : Type} {f : α → γ} {g : β → γ} {l : List α} {l' : List β}
    (h : List.Forall₂ (fun a b => f a = g b) l l') : l.map f = l'.map g := by
  induction h with
  | nil => rfl
  | cons hab _ ih => rw [List.map_cons, List.map_cons, hab, ih]

end Related

/-! ## Maps -/

/-- An insertion-ordered map. -/
structure Dict (κ ν : Type) where
  entries : List (κ × ν)
  nodup : (entries.map Prod.fst).Nodup
  deriving DecidableEq

namespace Dict

section Basics
variable {κ ν : Type}

def empty : Dict κ ν := ⟨[], List.nodup_nil⟩

def keys (d : Dict κ ν) : List κ := d.entries.map Prod.fst

def values (d : Dict κ ν) : List ν := d.entries.map Prod.snd

def size (d : Dict κ ν) : Nat := d.entries.length

def get? [DecidableEq κ] (d : Dict κ ν) (k : κ) : Option ν := (d.entries.find? fun e => e.1 = k).map Prod.snd

theorem entry_unique (d : Dict κ ν) {k : κ} {v w : ν} (hv : (k, v) ∈ d.entries) (hw : (k, w) ∈ d.entries) : v = w := by
  have := List.inj_on_of_nodup_map d.nodup hv hw rfl
  exact (Prod.mk.inj this).2

theorem mem_keys_of_entry (d : Dict κ ν) {k : κ} {v : ν} (h : (k, v) ∈ d.entries) : k ∈ d.keys :=
  List.mem_map.mpr ⟨(k, v), h, rfl⟩

theorem entry_of_mem_keys (d : Dict κ ν) {k : κ} (h : k ∈ d.keys) : ∃ v, (k, v) ∈ d.entries := by
  obtain ⟨⟨k', v⟩, hm, rfl⟩ := List.mem_map.mp h
  exact ⟨v, hm⟩

variable [DecidableEq κ]

theorem get?_eq_some (d : Dict κ ν) {k : κ} {v : ν} : d.get? k = some v ↔ (k, v) ∈ d.entries := by
  unfold get?
  constructor
  · intro h
    obtain ⟨⟨k', v'⟩, hf, rfl⟩ := Option.map_eq_some_iff.mp h
    have hk : k' = k := by simpa using List.find?_some hf
    exact hk ▸ List.mem_of_find?_eq_some hf
  · intro h
    cases hf : d.entries.find? fun e => e.1 = k with
    | none => simpa using List.find?_eq_none.mp hf _ h
    | some e =>
      have hk : e.1 = k := by simpa using List.find?_some hf
      have he : (k, e.2) ∈ d.entries := by rw [← hk]; exact List.mem_of_find?_eq_some hf
      simp [d.entry_unique h he]

theorem mem_keys (d : Dict κ ν) {k : κ} : k ∈ d.keys ↔ ∃ v, d.get? k = some v := by
  constructor
  · intro h
    obtain ⟨v, hv⟩ := d.entry_of_mem_keys h
    exact ⟨v, d.get?_eq_some.mpr hv⟩
  · intro hx
    obtain ⟨v, hv⟩ := hx
    exact d.mem_keys_of_entry (d.get?_eq_some.mp hv)

instance (d : Dict κ ν) (k : κ) : Decidable (k ∈ d.keys) := inferInstanceAs (Decidable (k ∈ List.map _ _))

end Basics

/-! ## Building -/

section Building
variable {κ ν ν' : Type}

/-- The entries in key order. -/
def sorted [LinearOrder κ] (d : Dict κ ν) : Dict κ ν where
  entries := sortedBy Prod.fst d.entries
  nodup := (((sortedBy_perm Prod.fst d.entries).map Prod.fst).nodup_iff).mpr d.nodup

@[simp] theorem mem_sorted [LinearOrder κ] (d : Dict κ ν) {e : κ × ν} : e ∈ d.sorted.entries ↔ e ∈ d.entries :=
  mem_sortedBy _

@[simp] theorem get?_sorted [LinearOrder κ] (d : Dict κ ν) (k : κ) : d.sorted.get? k = d.get? k := by
  ext v; rw [get?_eq_some, get?_eq_some, mem_sorted]

theorem get?_eq_of_perm [DecidableEq κ] {d d' : Dict κ ν} (h : d.entries.Perm d'.entries) (k : κ) : d.get? k = d'.get? k := by
  ext v
  rw [get?_eq_some, get?_eq_some, h.mem_iff]

/-- The entries in key order do not depend on the order they were inserted in. -/
theorem sorted_eq_of_perm [LinearOrder κ] {d d' : Dict κ ν} (h : d.entries.Perm d'.entries) : d.sorted = d'.sorted := by
  have hentries : d.sorted.entries = d'.sorted.entries :=
    sortedBy_eq_of_perm Prod.fst (fun _ ha _ hb hk => List.inj_on_of_nodup_map d.nodup ha hb hk) h
  cases hd : d.sorted
  cases hd' : d'.sorted
  simpa [hd, hd'] using hentries

/-- Rewrite every value, keeping the keys and their order. -/
def mapVal (f : κ → ν → ν') (d : Dict κ ν) : Dict κ ν' where
  entries := d.entries.map fun e => (e.1, f e.1 e.2)
  nodup := by simpa [Function.comp_def] using d.nodup

theorem get?_mapVal [DecidableEq κ] (f : κ → ν → ν') (d : Dict κ ν) (k : κ) :
    (d.mapVal f).get? k = (d.get? k).map (f k) := by
  ext v
  simp only [get?_eq_some, mapVal, List.mem_map, Prod.mk.injEq, Option.map_eq_some_iff]
  constructor
  · rintro ⟨⟨k', w⟩, hm, rfl, rfl⟩; exact ⟨w, hm, rfl⟩
  · rintro ⟨w, hm, rfl⟩; exact ⟨(k, w), hm, rfl, rfl⟩

/-- Rewrite or drop every value, keeping the order of the keys that stay. -/
def filterMapVal (f : κ → ν → Option ν') (d : Dict κ ν) : Dict κ ν' where
  entries := d.entries.filterMap fun e => (f e.1 e.2).map fun v => (e.1, v)
  nodup := by
    rw [List.map_filterMap]
    refine d.nodup.sublist ?_
    induction d.entries with
    | nil => simp
    | cons e rest ih =>
      cases h : f e.1 e.2 with
      | none => simpa [h] using ih.trans (List.sublist_cons_self _ _)
      | some v => simpa [h] using ih

theorem eq_of_entries {d d' : Dict κ ν} (h : d.entries = d'.entries) : d = d' := by
  cases d
  cases d'
  simpa using h

theorem sorted_eq_self [LinearOrder κ] {d : Dict κ ν} (h : d.keys.Pairwise (· ≤ ·)) : d.sorted = d :=
  eq_of_entries (List.Pairwise.insertionSort_eq (List.pairwise_map.mp h))

theorem pairwise_keys_sorted [LinearOrder κ] (d : Dict κ ν) : d.sorted.keys.Pairwise (· ≤ ·) :=
  List.pairwise_map.mpr (pairwise_sortedBy Prod.fst d.entries)

theorem mem_keys_sorted [LinearOrder κ] {d : Dict κ ν} {k : κ} : k ∈ d.sorted.keys ↔ k ∈ d.keys :=
  ((sortedBy_perm Prod.fst d.entries).map Prod.fst).mem_iff

theorem keys_mapVal (f : κ → ν → ν') (d : Dict κ ν) : (d.mapVal f).keys = d.keys := by
  simp [keys, mapVal, Function.comp_def]

theorem keys_filterMapVal_sublist (f : κ → ν → Option ν') (d : Dict κ ν) : (d.filterMapVal f).keys.Sublist d.keys := by
  show ((d.entries.filterMap fun e => (f e.1 e.2).map fun v => (e.1, v)).map Prod.fst).Sublist (d.entries.map Prod.fst)
  induction d.entries with
  | nil => simp
  | cons e rest ih =>
    cases h : f e.1 e.2 with
    | none => simpa [h] using ih.trans (List.sublist_cons_self _ _)
    | some v => simpa [h] using ih

theorem get?_filterMapVal [DecidableEq κ] (f : κ → ν → Option ν') (d : Dict κ ν) (k : κ) :
    (d.filterMapVal f).get? k = (d.get? k).bind (f k) := by
  ext v
  rw [get?_eq_some, Option.bind_eq_some_iff]
  constructor
  · intro h
    obtain ⟨⟨k', w⟩, hw, hv⟩ := List.mem_filterMap.mp h
    obtain ⟨v', hv', heq⟩ := Option.map_eq_some_iff.mp hv
    obtain ⟨rfl, rfl⟩ := Prod.mk.inj heq
    exact ⟨w, (get?_eq_some d).mpr hw, hv'⟩
  · intro h
    obtain ⟨w, hw, hv⟩ := h
    exact List.mem_filterMap.mpr ⟨(k, w), (get?_eq_some d).mp hw, by simp [hv]⟩

/-- Rewriting every value to itself changes nothing. -/
theorem mapVal_eq_self {f : κ → ν → ν} {d : Dict κ ν} (h : ∀ e ∈ d.entries, f e.1 e.2 = e.2) : d.mapVal f = d := by
  refine eq_of_entries ?_
  show (d.entries.map fun e => (e.1, f e.1 e.2)) = d.entries
  rw [List.map_congr_left fun e he => by rw [h e he]]
  exact List.map_id d.entries

theorem filterMapVal_eq_self {f : κ → ν → Option ν} {d : Dict κ ν} (h : ∀ e ∈ d.entries, f e.1 e.2 = some e.2) :
    d.filterMapVal f = d := by
  refine eq_of_entries ?_
  show (d.entries.filterMap fun e => (f e.1 e.2).map fun v => (e.1, v)) = d.entries
  rw [List.filterMap_congr fun e he => by rw [h e he]]
  exact List.filterMap_some

/-- Rewrite every value by a function that may fail. -/
def mapValM {ε : Type} (f : κ → ν → Except ε ν') (d : Dict κ ν) : Except ε (Dict κ ν') :=
  match h : d.entries.mapM fun e => (f e.1 e.2).map fun v => (e.1, v) with
  | .error e => .error e
  | .ok entries => .ok ⟨entries, by
      rw [Outcome.mapM_map Prod.fst Prod.fst (by simp +contextual) h]; exact d.nodup⟩

theorem mapValM_ok {ε : Type} {f : κ → ν → Except ε ν'} {d : Dict κ ν} {d' : Dict κ ν'} :
    d.mapValM f = .ok d' ↔
      List.Forall₂ (fun e e' => e'.1 = e.1 ∧ f e.1 e.2 = .ok e'.2) d.entries d'.entries := by
  have key : d.mapValM f = .ok d' ↔ (d.entries.mapM fun e => (f e.1 e.2).map fun v => (e.1, v)) = .ok d'.entries := by
    unfold mapValM
    split
    · rename_i e he; simp [he]
    · rename_i es hes
      cases d'
      simp [hes]
  rw [key, Outcome.mapM_ok]
  refine Iff.of_eq (congrArg (List.Forall₂ · d.entries d'.entries) ?_)
  funext e e'
  simp only [Outcome.map_ok, eq_iff_iff]
  constructor
  · rintro ⟨v, hv, rfl⟩; exact ⟨rfl, hv⟩
  · rintro ⟨h1, h2⟩; exact ⟨e'.2, h2, by rw [← h1]⟩

/-- After a traversal, a key holds the function's value at what it held. -/
theorem get?_mapValM [DecidableEq κ] {ε : Type} {f : κ → ν → Except ε ν'} {d : Dict κ ν} {d' : Dict κ ν'}
    (h : d.mapValM f = .ok d') {k : κ} {v' : ν'} :
    d'.get? k = some v' ↔ ∃ v, d.get? k = some v ∧ f k v = .ok v' := by
  simp only [get?_eq_some]
  have h := mapValM_ok.mp h
  constructor
  · intro hm
    obtain ⟨⟨k', v⟩, he, hk, hf⟩ := Outcome.left_of_mem_right h hm
    simp only at hk hf
    exact ⟨v, hk ▸ he, hk ▸ hf⟩
  · intro hx
    obtain ⟨v, hm, hf⟩ := hx
    obtain ⟨⟨k', w⟩, he, hk, hw⟩ := Outcome.right_of_mem_left h hm
    simp only at hk hw
    rw [hf] at hw
    cases hw; exact hk ▸ he

theorem keys_mapValM {ε : Type} {f : κ → ν → Except ε ν'} {d : Dict κ ν} {d' : Dict κ ν'}
    (h : d.mapValM f = .ok d') : d'.keys = d.keys := by
  have key : ∀ {es : List (κ × ν)} {es' : List (κ × ν')},
      List.Forall₂ (fun e e' => e'.1 = e.1 ∧ f e.1 e.2 = .ok e'.2) es es' → es'.map Prod.fst = es.map Prod.fst := by
    intro es es' h
    induction h with
    | nil => rfl
    | cons hab _ ih => rw [List.map_cons, List.map_cons, hab.1, ih]
  exact key (mapValM_ok.mp h)

theorem mapValM_total {ε : Type} {f : κ → ν → Except ε ν'} {d : Dict κ ν}
    (h : ∀ e ∈ d.entries, ∃ v, f e.1 e.2 = .ok v) : ∃ d', d.mapValM f = .ok d' := by
  obtain ⟨out, hout⟩ := Outcome.mapM_total (f := fun e => (f e.1 e.2).map fun v => (e.1, v)) (l := d.entries)
    fun e he => by obtain ⟨v, hv⟩ := h e he; exact ⟨(e.1, v), by simp [hv]⟩
  unfold mapValM
  split
  · rename_i e he; rw [hout] at he; cases he
  · exact ⟨_, rfl⟩

/-- Functions that agree on corresponding entries rewrite two maps to the same map. -/
theorem mapValM_congr {μ ε : Type} {f : κ → ν → Except ε ν'} {f' : κ → μ → Except ε ν'} {d : Dict κ ν} {d' : Dict κ μ}
    (h : List.Forall₂ (fun e e' => e.1 = e'.1 ∧ f e.1 e.2 = f' e'.1 e'.2) d.entries d'.entries) :
    d.mapValM f = d'.mapValM f' := by
  have hm : (d.entries.mapM fun e => (f e.1 e.2).map fun v => (e.1, v)) =
      d'.entries.mapM fun e => (f' e.1 e.2).map fun v => (e.1, v) :=
    Outcome.mapM_congr (h.imp fun e e' he => by rw [he.2, he.1])
  unfold mapValM
  split
  · rename_i e he
    split
    · rename_i e' he'
      rw [hm, he'] at he
      cases he
      rfl
    · rename_i out hout
      rw [hm, hout] at he
      cases he
  · rename_i out hout
    split
    · rename_i e' he'
      rw [hm, he'] at hout
      cases hout
    · rename_i out' hout'
      rw [hm, hout'] at hout
      cases hout
      rfl

/-- `d[k] = v`: replaces in place, or appends. -/
def insert [DecidableEq κ] (d : Dict κ ν) (k : κ) (v : ν) : Dict κ ν :=
  if h : k ∈ d.keys then
    ⟨d.entries.map fun e => if e.1 = k then (k, v) else e, by
      have : (d.entries.map fun e => if e.1 = k then (k, v) else e).map Prod.fst = d.entries.map Prod.fst := by
        rw [List.map_map]
        refine List.map_congr_left fun e _ => ?_
        by_cases he : e.1 = k <;> simp [he]
      rw [this]; exact d.nodup⟩
  else
    ⟨d.entries ++ [(k, v)], by
      rw [List.map_append, List.nodup_append]
      refine ⟨d.nodup, by simp, fun a ha b hb hab => h ?_⟩
      simp only [List.map_cons, List.map_nil, List.mem_singleton] at hb
      exact hb ▸ hab ▸ ha⟩

theorem entries_insert [DecidableEq κ] {d : Dict κ ν} {k : κ} (h : k ∉ d.keys) (v : ν) :
    (d.insert k v).entries = d.entries ++ [(k, v)] := by
  unfold insert
  rw [dif_neg h]

theorem mem_insert [DecidableEq κ] (d : Dict κ ν) (k : κ) (v : ν) {e : κ × ν} :
    e ∈ (d.insert k v).entries ↔ e = (k, v) ∨ (e ∈ d.entries ∧ e.1 ≠ k) := by
  unfold insert
  split
  · rename_i h
    constructor
    · intro he
      obtain ⟨e', he', rfl⟩ := List.mem_map.mp he
      by_cases hk : e'.1 = k
      · exact Or.inl (by simp [hk])
      · exact Or.inr (by simpa [hk] using he')
    · rintro (rfl | ⟨he, hk⟩)
      · obtain ⟨w, hw⟩ := d.entry_of_mem_keys h
        exact List.mem_map.mpr ⟨(k, w), hw, by simp⟩
      · exact List.mem_map.mpr ⟨e, he, by simp [hk]⟩
  · rename_i h
    simp only [List.mem_append, List.mem_singleton]
    constructor
    · rintro (he | rfl)
      · exact Or.inr ⟨he, fun hk => h (List.mem_map.mpr ⟨e, he, hk⟩)⟩
      · exact Or.inl rfl
    · rintro (rfl | ⟨he, -⟩)
      · exact Or.inr rfl
      · exact Or.inl he

theorem get?_insert [DecidableEq κ] (d : Dict κ ν) (k : κ) (v : ν) (k' : κ) :
    (d.insert k v).get? k' = if k' = k then some v else d.get? k' := by
  ext w
  rw [get?_eq_some, mem_insert]
  by_cases h : k' = k
  · subst h; simp [eq_comm]
  · simp [h, get?_eq_some]

end Building

/-! ## Grouping -/

section Grouping
variable {κ ν : Type} [DecidableEq κ]

/-- `d.setdefault(k, []).append(v)`. -/
def push (d : Dict κ (List ν)) (k : κ) (v : ν) : Dict κ (List ν) := d.insert k ((d.get? k).getD [] ++ [v])

/-- Every value under its key, in the order of the list. -/
def group (kvs : List (κ × ν)) : Dict κ (List ν) := kvs.foldl (fun d e => d.push e.1 e.2) empty

theorem getD_foldl_push (kvs : List (κ × ν)) (d : Dict κ (List ν)) (k : κ) :
    ((kvs.foldl (fun d e => d.push e.1 e.2) d).get? k).getD [] =
      (d.get? k).getD [] ++ (kvs.filter fun e => e.1 = k).map Prod.snd := by
  induction kvs generalizing d with
  | nil => simp
  | cons e kvs ih =>
    rw [List.foldl_cons, ih, push, get?_insert]
    by_cases h : e.1 = k
    · subst h; simp
    · simp [h, Ne.symm h]

/-- A key's group is the list of its values. -/
theorem getD_group (kvs : List (κ × ν)) (k : κ) :
    ((group kvs).get? k).getD [] = (kvs.filter fun e => e.1 = k).map Prod.snd := by
  rw [group, getD_foldl_push]; simp [empty, get?]

theorem mem_keys_foldl_push (kvs : List (κ × ν)) (d : Dict κ (List ν)) (k : κ) :
    k ∈ (kvs.foldl (fun d e => d.push e.1 e.2) d).keys ↔ k ∈ d.keys ∨ k ∈ kvs.map Prod.fst := by
  induction kvs generalizing d with
  | nil => simp
  | cons e kvs ih =>
    rw [List.foldl_cons, ih, mem_keys, push]
    simp only [get?_insert, mem_keys, List.map_cons, List.mem_cons]
    by_cases h : k = e.1
    · simp [h]
    · simp [h]

theorem mem_keys_group (kvs : List (κ × ν)) (k : κ) : k ∈ (group kvs).keys ↔ k ∈ kvs.map Prod.fst := by
  rw [group, mem_keys_foldl_push]; simp [empty, keys]

/-- The groups are the non-empty lists of values of one key. -/
theorem mem_group (kvs : List (κ × ν)) {k : κ} {vs : List ν} :
    (k, vs) ∈ (group kvs).entries ↔ vs = (kvs.filter fun e => e.1 = k).map Prod.snd ∧ vs ≠ [] := by
  rw [← get?_eq_some]
  have hg := getD_group kvs k
  constructor
  · intro h
    rw [h, Option.getD_some] at hg
    refine ⟨hg, fun hnil => ?_⟩
    have hk := (mem_keys_group kvs k).mp ((mem_keys _).mpr ⟨vs, h⟩)
    obtain ⟨e, he, rfl⟩ := List.mem_map.mp hk
    have : e.2 ∈ vs := by rw [hg]; exact List.mem_map.mpr ⟨e, List.mem_filter.mpr ⟨he, by simp⟩, rfl⟩
    rw [hnil] at this; cases this
  · intro hx
    obtain ⟨hvs, hne⟩ := hx
    rw [← hvs] at hg
    cases h : (group kvs).get? k with
    | none => rw [h] at hg; exact absurd hg.symm hne
    | some ws => rw [h] at hg; exact congrArg some hg

end Grouping

/-! ## From pairs -/

section Pairs
variable {κ ν : Type} [DecidableEq κ]

/-- `dict(pairs)`: of two pairs with one key the later stays. -/
def ofPairs (kvs : List (κ × ν)) : Dict κ ν := kvs.foldl (fun d e => d.insert e.1 e.2) empty

theorem get?_empty (k : κ) : (empty : Dict κ ν).get? k = none := rfl

/-- The last pair of a key decides. -/
theorem get?_ofPairs_snoc (kvs : List (κ × ν)) (e : κ × ν) (k : κ) :
    (ofPairs (kvs ++ [e])).get? k = if k = e.1 then some e.2 else (ofPairs kvs).get? k := by
  unfold ofPairs
  rw [List.foldl_append]
  exact get?_insert _ _ _ _

theorem mem_of_get?_ofPairs {kvs : List (κ × ν)} {k : κ} {v : ν} (h : (ofPairs kvs).get? k = some v) : (k, v) ∈ kvs := by
  induction kvs using List.reverseRecOn with
  | nil => cases h
  | append_singleton kvs e ih =>
    rw [get?_ofPairs_snoc] at h
    split at h
    · rename_i hk
      cases h
      exact List.mem_append_right _ (by simp [hk])
    · exact List.mem_append_left _ (ih h)

theorem exists_get?_ofPairs {kvs : List (κ × ν)} {k : κ} (h : k ∈ kvs.map Prod.fst) : ∃ v, (ofPairs kvs).get? k = some v := by
  induction kvs using List.reverseRecOn with
  | nil => cases h
  | append_singleton kvs e ih =>
    rw [get?_ofPairs_snoc]
    by_cases hk : k = e.1
    · exact ⟨e.2, if_pos hk⟩
    · rw [if_neg hk]
      rw [List.map_append, List.mem_append] at h
      exact ih (h.resolve_right fun hmem => hk (List.mem_singleton.mp hmem))

/-- A key with one value has it. -/
theorem get?_ofPairs {kvs : List (κ × ν)} {k : κ} {v : ν} (hmem : (k, v) ∈ kvs) (hunique : ∀ w, (k, w) ∈ kvs → w = v) :
    (ofPairs kvs).get? k = some v := by
  obtain ⟨w, hw⟩ := exists_get?_ofPairs (List.mem_map.mpr ⟨(k, v), hmem, rfl⟩)
  rw [hw, hunique w (mem_of_get?_ofPairs hw)]

end Pairs

/-! ## Counting -/

section Counting
variable {κ : Type} [DecidableEq κ]

/-- `d[k] = d.get(k, 0) + 1`. -/
def bump (d : Dict κ Nat) (k : κ) : Dict κ Nat := d.insert k ((d.get? k).getD 0 + 1)

/-- How often each key occurs. -/
def tally (keys : List κ) : Dict κ Nat := keys.foldl bump empty

theorem sum_map_replace {l : List (κ × Nat)} (hl : (l.map Prod.fst).Nodup) {k : κ} {v w : Nat} (hv : (k, v) ∈ l) :
    (l.map fun e => if e.1 = k then w else e.2).sum + v = (l.map Prod.snd).sum + w := by
  induction l with
  | nil => cases hv
  | cons e l ih =>
    obtain ⟨hfresh, hl⟩ := List.nodup_cons.mp hl
    simp only [List.map_cons, List.sum_cons]
    rcases List.mem_cons.mp hv with rfl | hv
    · have hrest : (l.map fun e => if e.1 = k then w else e.2) = l.map Prod.snd := by
        refine List.map_congr_left fun e he => if_neg fun hk => hfresh ?_
        exact List.mem_map.mpr ⟨e, he, hk⟩
      rw [hrest, if_pos rfl]
      omega
    · have hne : e.1 ≠ k := fun hk => hfresh (List.mem_map.mpr ⟨(k, v), hv, hk.symm⟩)
      have := ih hl hv
      rw [if_neg hne]
      omega

theorem sum_bump (d : Dict κ Nat) (k : κ) : (d.bump k).values.sum = d.values.sum + 1 := by
  unfold bump values insert
  split
  · rename_i hk
    obtain ⟨v, hv⟩ := d.entry_of_mem_keys hk
    have hget : d.get? k = some v := (get?_eq_some d).mpr hv
    have hreplace := @sum_map_replace κ _ d.entries d.nodup k v (v + 1) hv
    have hmap : (d.entries.map fun e => if e.1 = k then (k, (d.get? k).getD 0 + 1) else e).map Prod.snd =
        d.entries.map fun e => if e.1 = k then v + 1 else e.2 := by
      rw [List.map_map, hget]
      refine List.map_congr_left fun e _ => ?_
      by_cases he : e.1 = k <;> simp [he]
    show (List.map Prod.snd (List.map _ d.entries)).sum = _
    rw [hmap]
    omega
  · rename_i hk
    have hget : d.get? k = none := by
      cases hget : d.get? k with
      | none => rfl
      | some v => exact absurd ((mem_keys d).mpr ⟨v, hget⟩) hk
    simp [hget]

/-- The counts add up to the number of keys counted. -/
theorem sum_tally (keys : List κ) : (tally keys).values.sum = keys.length := by
  induction keys using List.reverseRecOn with
  | nil => rfl
  | append_singleton keys k ih =>
    unfold tally at ih ⊢
    rw [List.foldl_append, List.foldl_cons, List.foldl_nil, sum_bump, ih, List.length_append]
    rfl

end Counting

end Dict

end Reconciliation.Base

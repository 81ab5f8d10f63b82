/-
  Reconciliation.Base.Rose — ordered trees with labels, the places in them, and trees that
  are rearranged.

  A place is the list of the numbers of the children on the way down; `descend` is the
  subtree there. Places have names, the numbers after the root's name with points between
  (`outline`), and no two places have the same (`outline_injective`).

  A tree is a rearrangement of another when the children of every node stand in another
  order, in the same order below the nodes that are `Fixed`, and what the nodes hold is
  related. The places of the one are then carried one to one to those of the other, parents
  to parents, and below fixed nodes number by number (`Rearranged.exists_carries`).
-/
import Reconciliation.Base.Fields
import Reconciliation.Base.Sequence

namespace Reconciliation.Base

inductive Rose (α : Type) where
  | node (label : α) (children : List (Rose α))

namespace Rose
variable {α β : Type}

def label : Rose α → α
  | .node a _ => a

def children : Rose α → List (Rose α)
  | .node _ cs => cs

/-! ## Places -/

/-- The subtree at a place. -/
def descend (t : Rose α) : List Nat → Option (Rose α)
  | [] => some t
  | i :: p => t.children[i]?.bind fun c => c.descend p

theorem descend_append (t : Rose α) (p q : List Nat) : t.descend (p ++ q) = (t.descend p).bind (·.descend q) := by
  induction p generalizing t with
  | nil => rfl
  | cons i p ih =>
    rw [List.cons_append, descend, descend]
    cases t.children[i]? with
    | none => rfl
    | some c => exact ih c

theorem descend_snoc {t s : Rose α} {p : List Nat} {i : Nat} :
    t.descend (p ++ [i]) = some s ↔ ∃ parent, t.descend p = some parent ∧ parent.children[i]? = some s := by
  rw [descend_append, Option.bind_eq_some_iff]
  refine exists_congr fun parent => and_congr_right fun _ => ?_
  rw [descend]
  cases parent.children[i]? <;> simp [descend]

theorem descend_cons {t s : Rose α} {i : Nat} {p : List Nat} :
    t.descend (i :: p) = some s ↔ ∃ c, t.children[i]? = some c ∧ c.descend p = some s := by
  rw [descend, Option.bind_eq_some_iff]

mutual

/-- How many nodes a tree has. -/
def size : Rose α → Nat
  | .node _ cs => sizes cs + 1

def sizes : List (Rose α) → Nat
  | [] => 0
  | c :: cs => c.size + sizes cs

end

theorem size_le_sizes {cs : List (Rose α)} {c : Rose α} (h : c ∈ cs) : c.size ≤ sizes cs := by
  induction cs with
  | nil => cases h
  | cons d cs ih =>
    rw [sizes]
    rcases List.mem_cons.mp h with rfl | h
    · omega
    · have := ih h
      omega

theorem size_child {t c : Rose α} (h : c ∈ t.children) : c.size < t.size := by
  obtain ⟨a, cs⟩ := t
  have hle : c.size ≤ sizes cs := size_le_sizes h
  rw [size]
  omega

mutual

/-- How many nodes the longest way down passes. -/
def height : Rose α → Nat
  | .node _ cs => heights cs + 1

def heights : List (Rose α) → Nat
  | [] => 0
  | c :: cs => max c.height (heights cs)

end

theorem lt_heights_iff {cs : List (Rose α)} {limit : Nat} : limit < heights cs ↔ ∃ c ∈ cs, limit < c.height := by
  induction cs with
  | nil => simp [heights]
  | cons c cs ih => rw [heights, lt_max_iff, ih, List.exists_mem_cons_iff]

/-- A tree is higher than a limit exactly when a place is that deep. -/
theorem lt_height_iff {t : Rose α} {limit : Nat} :
    limit < t.height ↔ ∃ p s, t.descend p = some s ∧ limit ≤ p.length := by
  obtain ⟨a, cs⟩ := t
  rw [height]
  induction limit generalizing a cs with
  | zero => exact ⟨fun _ => ⟨[], _, rfl, Nat.zero_le _⟩, fun _ => Nat.succ_pos _⟩
  | succ limit ih =>
    have hbelow : ∀ c : Rose α, limit < c.height ↔ ∃ p s, c.descend p = some s ∧ limit ≤ p.length := fun c => by
      obtain ⟨b, ds⟩ := c
      rw [height]
      exact ih b ds
    rw [Nat.succ_lt_succ_iff, lt_heights_iff]
    constructor
    · intro h
      obtain ⟨c, hc, hlimit⟩ := h
      obtain ⟨p, s, hs, hle⟩ := (hbelow c).mp hlimit
      obtain ⟨i, hi⟩ := List.mem_iff_getElem?.mp hc
      exact ⟨i :: p, s, descend_cons.mpr ⟨c, hi, hs⟩, Nat.succ_le_succ hle⟩
    · intro h
      obtain ⟨p, s, hs, hle⟩ := h
      cases p with
      | nil => exact absurd hle (Nat.not_succ_le_zero limit)
      | cons i p =>
        obtain ⟨c, hi, hs⟩ := descend_cons.mp hs
        exact ⟨c, List.mem_of_getElem? hi, (hbelow c).mpr ⟨p, s, hs, Nat.le_of_succ_le_succ hle⟩⟩

/-- Two trees of one form whose nodes hold related labels. -/
def Similar (R : α → β → Prop) (t : Rose α) (u : Rose β) : Prop :=
  ∀ p, Option.Rel (fun s s' => R s.label s'.label ∧ s.children.length = s'.children.length) (t.descend p) (u.descend p)

theorem similar_node {R : α → β → Prop} {a : α} {b : β} {cs : List (Rose α)} {ds : List (Rose β)} :
    Similar R (.node a cs) (.node b ds) ↔ R a b ∧ List.Forall₂ (Similar R) cs ds := by
  constructor
  · intro h
    obtain ⟨hlabel, hlength⟩ := Option.rel_some_some.mp (h [])
    refine ⟨hlabel, List.forall₂_iff_get.mpr ⟨hlength, fun i hi hi' p => ?_⟩⟩
    have hp := h (i :: p)
    rw [descend, descend] at hp
    have hc : (Rose.node a cs).children[i]? = some (cs.get ⟨i, hi⟩) := List.getElem?_eq_getElem hi
    have hd : (Rose.node b ds).children[i]? = some (ds.get ⟨i, hi'⟩) := List.getElem?_eq_getElem hi'
    rwa [hc, hd] at hp
  · rintro ⟨hlabel, hchildren⟩ p
    cases p with
    | nil => exact .some ⟨hlabel, hchildren.length_eq⟩
    | cons i p =>
      rw [descend, descend]
      show Option.Rel _ (cs[i]?.bind _) (ds[i]?.bind _)
      by_cases hi : i < cs.length
      · have hi' : i < ds.length := hchildren.length_eq ▸ hi
        rw [List.getElem?_eq_getElem hi, List.getElem?_eq_getElem hi']
        exact (List.forall₂_iff_get.mp hchildren).2 i hi hi' p
      · have hi' : ¬ i < ds.length := hchildren.length_eq ▸ hi
        rw [List.getElem?_eq_none (Nat.le_of_not_lt hi), List.getElem?_eq_none (Nat.le_of_not_lt hi')]
        exact .none

/-! ## Names of places -/

/-- The numbers of a place after the name of the root, with points between. -/
def outline (root : String) (p : List Nat) : String := p.foldl (fun name i => name ++ "." ++ toString i) root

@[simp] theorem outline_nil (root : String) : outline root [] = root := rfl

theorem outline_cons (root : String) (i : Nat) (p : List Nat) :
    outline root (i :: p) = outline (root ++ "." ++ toString i) p := rfl

theorem outline_append (root : String) (p q : List Nat) : outline root (p ++ q) = outline (outline root p) q :=
  List.foldl_append

theorem outline_snoc (root : String) (p : List Nat) (i : Nat) :
    outline root (p ++ [i]) = outline root p ++ "." ++ toString i := outline_append root p [i]

/-- What a name adds to the root's. -/
def suffix : List Nat → String
  | [] => ""
  | i :: p => "." ++ (toString i ++ suffix p)

theorem outline_eq (root : String) (p : List Nat) : outline root p = root ++ suffix p := by
  induction p generalizing root with
  | nil => exact String.append_empty.symm
  | cons i p ih => rw [outline_cons, ih, suffix, String.append_assoc, String.append_assoc]

theorem suffix_ends (p : List Nat) : Fields.Ends '.' (suffix p) := by
  intro c hc
  cases p with
  | nil => simp [suffix] at hc
  | cons i p => simpa [suffix, eq_comm] using hc

theorem sealed_number {d : Char} (hd : d.isDigit = false) (i : Nat) : Fields.Sealed d (toString i) := by
  refine Fields.sealed_plain fun c hc => ?_
  rw [Nat.toString_eq_ofList_toDigits, String.toList_ofList] at hc
  have hdigit := Nat.isDigit_of_mem_toDigits (by decide) (by decide) hc
  refine ⟨?_, ?_, ?_⟩
  · rintro rfl
    rw [hd] at hdigit
    cases hdigit
  all_goals
    rintro rfl
    exact absurd hdigit (by decide)

/-- A name of a place holds no separator but the point. -/
theorem sealed_outline {d : Char} (hd : d.isDigit = false) (hpoint : d ≠ '.') {root : String} (hroot : Fields.Sealed d root)
    (p : List Nat) : Fields.Sealed d (outline root p) := by
  have hdot : Fields.Sealed d "." := Fields.sealed_plain fun c hc => by
    obtain rfl : c = '.' := by simpa using hc
    exact ⟨hpoint.symm, by decide, by decide⟩
  induction p generalizing root with
  | nil => exact hroot
  | cons i p ih =>
    rw [outline_cons]
    exact ih ((hroot.append hdot).append (sealed_number hd i))

theorem suffix_injective : Function.Injective suffix := by
  intro p q h
  induction p generalizing q with
  | nil =>
    cases q with
    | nil => rfl
    | cons j q => simp [suffix] at h
  | cons i p ih =>
    cases q with
    | nil => simp [suffix] at h
    | cons j q =>
      rw [suffix, suffix, String.append_right_inj] at h
      obtain ⟨hij, hpq⟩ := (sealed_number (by decide) i).cancel (sealed_number (by decide) j) (suffix_ends p) (suffix_ends q) h
      rw [toString_injective hij, ih hpq]

/-- No two places have one name. -/
theorem outline_injective (root : String) : Function.Injective (outline root) := by
  intro p q h
  rw [outline_eq, outline_eq, String.append_right_inj] at h
  exact suffix_injective h

/-! ## Rearrangements -/

/-- The nodes hold related labels, and so do their children taken together; the children stand in
    another order, below a fixed node in the same. -/
inductive Rearranged (Related : α → β → Prop) (Siblings : List α → List β → Prop) (Fixed : α → Prop) :
    Rose α → Rose β → Prop
  | node {a : α} {b : β} {cs : List (Rose α)} {ds : List (Rose β)} (e : Fin cs.length ≃ Fin ds.length)
      (hlabel : Related a b) (hsiblings : Siblings (cs.map label) (ds.map label))
      (hfixed : Fixed a → ∀ i, (e i : Nat) = i)
      (hchild : ∀ i, Rearranged Related Siblings Fixed (cs.get i) (ds.get (e i))) :
      Rearranged Related Siblings Fixed (.node a cs) (.node b ds)

section Rearranging
variable {Related : α → β → Prop} {Siblings : List α → List β → Prop} {Fixed : α → Prop} {t : Rose α} {u : Rose β}

theorem Rearranged.related (h : Rearranged Related Siblings Fixed t u) : Related t.label u.label := by
  cases h with
  | node e hlabel _ _ _ => exact hlabel

theorem Rearranged.siblings (h : Rearranged Related Siblings Fixed t u) :
    Siblings (t.children.map label) (u.children.map label) := by
  cases h with
  | node e _ hsiblings _ _ => exact hsiblings

theorem Rearranged.length_eq (h : Rearranged Related Siblings Fixed t u) : t.children.length = u.children.length := by
  cases h with
  | node e _ _ _ _ =>
    have hcard := Fintype.card_congr e
    rwa [Fintype.card_fin, Fintype.card_fin] at hcard

/-- The places of a tree carried to those of another: parents to parents, to a rearrangement below. -/
structure Carries (Related : α → β → Prop) (Siblings : List α → List β → Prop) (Fixed : α → Prop) (t : Rose α)
    (u : Rose β) (π : List Nat → List Nat) : Prop where
  root : π [] = []
  snoc : ∀ p i, ∃ j, π (p ++ [i]) = π p ++ [j]
  node : ∀ p s, t.descend p = some s → ∃ s', u.descend (π p) = some s' ∧ Rearranged Related Siblings Fixed s s'
  fixed : ∀ p s i, t.descend p = some s → Fixed s.label → i < s.children.length → π (p ++ [i]) = π p ++ [i]
  injective : ∀ p q s s', t.descend p = some s → t.descend q = some s' → π p = π q → p = q
  onto : ∀ q s', u.descend q = some s' → ∃ p s, t.descend p = some s ∧ π p = q

/-- Carry the first number of a place by `e`, and the rest below it. -/
def carry {m n : Nat} (e : Fin m ≃ Fin n) (below : Fin m → List Nat → List Nat) : List Nat → List Nat
  | [] => []
  | i :: p => if h : i < m then (e ⟨i, h⟩ : Nat) :: below ⟨i, h⟩ p else i :: p

theorem carry_cons {m n : Nat} (e : Fin m ≃ Fin n) (below : Fin m → List Nat → List Nat) (i : Fin m) (p : List Nat) :
    carry e below ((i : Nat) :: p) = (e i : Nat) :: below i p := by
  rw [carry, dif_pos i.isLt]

theorem carry_snoc {m n : Nat} {e : Fin m ≃ Fin n} {below : Fin m → List Nat → List Nat} (hroot : ∀ k, below k [] = [])
    (hsnoc : ∀ k p i, ∃ j, below k (p ++ [i]) = below k p ++ [j]) (p : List Nat) (i : Nat) :
    ∃ j, carry e below (p ++ [i]) = carry e below p ++ [j] := by
  have hbeyond : ∀ k q, ¬ k < m → carry e below (k :: q) = k :: q := fun k q hk => by rw [carry, dif_neg hk]
  cases p with
  | nil =>
    by_cases hi : i < m
    · refine ⟨e ⟨i, hi⟩, ?_⟩
      rw [List.nil_append, carry_cons e below ⟨i, hi⟩ [], hroot]
      rfl
    · exact ⟨i, hbeyond i [] hi⟩
  | cons k p =>
    by_cases hk : k < m
    · obtain ⟨j, hj⟩ := hsnoc ⟨k, hk⟩ p i
      refine ⟨j, ?_⟩
      rw [List.cons_append, carry_cons e below ⟨k, hk⟩, carry_cons e below ⟨k, hk⟩, hj, List.cons_append]
    · exact ⟨i, by rw [List.cons_append, hbeyond k _ hk, hbeyond k _ hk, List.cons_append]⟩

/-- A rearrangement carries the places. -/
theorem Rearranged.exists_carries (h : Rearranged Related Siblings Fixed t u) :
    ∃ π, Carries Related Siblings Fixed t u π := by
  induction h with
  | @node a b cs ds e hlabel hsiblings hfixed hchild ih =>
    choose below hbelow using ih
    -- a place below the root is one below a child of the one tree and of the other
    have hsource : ∀ {i p s}, (Rose.node a cs).descend (i :: p) = some s →
        ∃ k : Fin cs.length, i = k ∧ (cs.get k).descend p = some s := by
      intro i p s hs
      obtain ⟨c, hc, hs⟩ := descend_cons.mp hs
      obtain ⟨hi, rfl⟩ := List.getElem?_eq_some_iff.mp hc
      exact ⟨⟨i, hi⟩, rfl, hs⟩
    have htarget : ∀ (k : Fin ds.length) p, (Rose.node b ds).descend ((k : Nat) :: p) = (ds.get k).descend p := by
      intro k p
      rw [descend, children, List.getElem?_eq_getElem k.isLt]
      rfl
    refine ⟨carry e below, rfl, carry_snoc (fun k => (hbelow k).root) (fun k => (hbelow k).snoc), ?_, ?_, ?_, ?_⟩
    · intro p s hs
      cases p with
      | nil =>
        cases hs
        exact ⟨_, rfl, .node e hlabel hsiblings hfixed hchild⟩
      | cons i p =>
        obtain ⟨k, rfl, hsub⟩ := hsource hs
        rw [carry_cons, htarget]
        exact (hbelow k).node p s hsub
    · intro p s i hs hfix hi
      cases p with
      | nil =>
        cases hs
        obtain ⟨k, rfl⟩ : ∃ k : Fin cs.length, i = k := ⟨⟨i, hi⟩, rfl⟩
        rw [List.nil_append, carry_cons, hfixed hfix, (hbelow k).root]
        rfl
      | cons j p =>
        obtain ⟨k, rfl, hsub⟩ := hsource hs
        rw [List.cons_append, carry_cons, carry_cons, (hbelow k).fixed p s i hsub hfix hi, List.cons_append]
    · intro p q s s' hs hs' hpq
      cases p with
      | nil =>
        cases q with
        | nil => rfl
        | cons j q =>
          obtain ⟨k, rfl, -⟩ := hsource hs'
          rw [carry_cons] at hpq
          cases hpq
      | cons i p =>
        obtain ⟨k, rfl, hsub⟩ := hsource hs
        rw [carry_cons] at hpq
        cases q with
        | nil => cases hpq
        | cons j q =>
          obtain ⟨l, rfl, hsub'⟩ := hsource hs'
          rw [carry_cons, List.cons.injEq] at hpq
          obtain rfl := e.injective (Fin.ext hpq.1)
          rw [(hbelow k).injective p q s s' hsub hsub' hpq.2]
    · intro q s' hs'
      cases q with
      | nil => exact ⟨[], _, rfl, rfl⟩
      | cons j q =>
        obtain ⟨d, hd, hs'⟩ := descend_cons.mp hs'
        obtain ⟨hj, rfl⟩ := List.getElem?_eq_some_iff.mp hd
        obtain ⟨k, hk⟩ := e.surjective ⟨j, hj⟩
        have hbelow' := (hbelow k).onto q s' (by rw [hk]; exact hs')
        obtain ⟨p, s, hs, hp⟩ := hbelow'
        refine ⟨(k : Nat) :: p, s, ?_, ?_⟩
        · rw [descend, children, List.getElem?_eq_getElem k.isLt]
          exact hs
        · rw [carry_cons, hk, hp]

end Rearranging

end Rose

end Reconciliation.Base

/-
  Reconciliation.Base.Forest — links that lead upwards, and forests given by child lists.

  `chase` follows a link until it ends or comes back to a place it has seen; over
  finitely many places it always decides (`chase_decides`), and when it does not come
  back the chain of links is finite (`chase_ends`).

  A `Forest` is a finite set of members with child lists and parent links that agree,
  where no chain of parents is infinite. A `Route` goes down child lists; where the links
  agree there is at most one to each place (`Route.unique`), and every chain of parent links
  from there is its beginning (`Route.chain_prefix`). `drain` works through a stack, pushing
  what each element opens up; over a forest it comes to an end within as many pops as there
  are members, popping no member twice (`drain_visits`).
-/
import Reconciliation.Base.Outcome

namespace Reconciliation.Base

/-! ## Following a link -/

section Chase
variable {α : Type} [DecidableEq α] (next : α → Option α)

/-- Follow `next` from a place: `true` when it comes back to a place seen before. -/
def chase : Nat → List α → Option α → Option Bool
  | _, _, none => some false
  | 0, _, some _ => none
  | fuel + 1, seen, some a => if a ∈ seen then some true else chase fuel (a :: seen) (next a)

/-- `b` is the next place after `a`. -/
def Follows (b a : α) : Prop := next a = some b

variable {next}

/-- Each round sees a new place, so one more round than there are places decides. -/
theorem chase_decides {members : List α} (hfin : ∀ a b, next a = some b → a ∈ members) {fuel : Nat} {seen : List α}
    {a : Option α} (hnodup : seen.Nodup) (hsub : seen ⊆ members) (hfuel : members.length < fuel + seen.length) :
    ∃ back, chase next fuel seen a = some back := by
  induction fuel generalizing seen a with
  | zero =>
    have hle : seen.length ≤ members.length := (hnodup.subperm hsub).length_le
    omega
  | succ fuel ih =>
    cases a with
    | none => exact ⟨false, rfl⟩
    | some a =>
      rw [chase]
      split
      · exact ⟨true, rfl⟩
      · rename_i hnew
        cases hnext : next a with
        | none => exact ⟨false, by unfold chase; rfl⟩
        | some b =>
          refine ih (List.nodup_cons.mpr ⟨hnew, hnodup⟩) ?_ (by simp only [List.length_cons]; omega)
          exact List.cons_subset.mpr ⟨hfin a b hnext, hsub⟩

/-- When the chase does not come back, the chain of links is finite. -/
theorem chase_ends {fuel : Nat} {seen : List α} {a : α} (h : chase next fuel seen (some a) = some false) :
    Acc (Follows next) a := by
  induction fuel generalizing seen a with
  | zero => simp [chase] at h
  | succ fuel ih =>
    rw [chase] at h
    split at h
    · cases h
    · refine Acc.intro a fun b hb => ?_
      rw [show next a = some b from hb] at h
      exact ih h

/-- When the chase comes back, some place ahead lies on a loop of links. -/
theorem chase_loops {fuel : Nat} {seen : List α} {a : α}
    (hseen : ∀ s ∈ seen, Relation.TransGen (Follows next) a s) (h : chase next fuel seen (some a) = some true) :
    ∃ b, Relation.TransGen (Follows next) b b ∧ Relation.ReflTransGen (Follows next) b a := by
  induction fuel generalizing seen a with
  | zero => simp [chase] at h
  | succ fuel ih =>
    rw [chase] at h
    split at h
    · rename_i hin
      exact ⟨a, hseen a hin, Relation.ReflTransGen.refl⟩
    · cases hb : next a with
      | none =>
        rw [hb] at h
        unfold chase at h
        cases h
      | some b =>
        rw [hb] at h
        have hlink : Follows next b a := hb
        have hahead : ∀ s ∈ a :: seen, Relation.TransGen (Follows next) b s := by
          intro s hs
          rcases List.mem_cons.mp hs with rfl | hs
          · exact Relation.TransGen.single hlink
          · exact Relation.TransGen.head hlink (hseen s hs)
        obtain ⟨c, hloop, hreach⟩ := ih hahead h
        exact ⟨c, hloop, hreach.tail hlink⟩

omit [DecidableEq α] in
/-- Above a loop no chain is finite. -/
theorem not_acc_of_loop {r : α → α → Prop} {a b : α} (hloop : Relation.TransGen r b b)
    (hreach : Relation.ReflTransGen r b a) : ¬ Acc r a := by
  have hself : ∀ b, Acc (Relation.TransGen r) b → ¬ Relation.TransGen r b b := by
    intro b hb
    induction hb with
    | intro b _ ih => exact fun hloop => ih b hloop hloop
  intro hacc
  rcases Relation.reflTransGen_iff_eq_or_transGen.mp hreach with rfl | hpath
  · exact hself a hacc.transGen hloop
  · exact hself b (hacc.transGen.inv hpath) hloop

/-- A chain of links is finite exactly when no place ahead lies on a loop. -/
theorem chase_ends_iff {fuel : Nat} {a : α} {back : Bool} (h : chase next fuel [] (some a) = some back) :
    back = false ↔ Acc (Follows next) a := by
  constructor
  · intro hb
    subst hb
    exact chase_ends h
  · intro hacc
    cases back with
    | false => rfl
    | true =>
      obtain ⟨b, hloop, hreach⟩ := chase_loops (by simp) h
      exact absurd hacc (not_acc_of_loop hloop hreach)

end Chase

/-! ## Forests -/

/-- Finitely many members with child lists and parent links that agree. -/
structure Forest (α : Type) where
  members : List α
  children : α → List α
  parent : α → Option α
  child_mem : ∀ a ∈ members, ∀ b ∈ children a, b ∈ members
  parent_of_child : ∀ a ∈ members, ∀ b ∈ children a, parent b = some a
  child_of_parent : ∀ b ∈ members, ∀ a, parent b = some a → a ∈ members ∧ b ∈ children a
  children_nodup : ∀ a ∈ members, (children a).Nodup
  grounded : ∀ a ∈ members, Acc (Follows parent) a

namespace Forest
variable {α : Type} (F : Forest α)

/-- Induction from the top: what passes from parents to children holds of every member. -/
theorem induction_down {P : α → Prop} (htop : ∀ a ∈ F.members, F.parent a = none → P a)
    (hchild : ∀ a ∈ F.members, ∀ b ∈ F.children a, P a → P b) : ∀ a ∈ F.members, P a := by
  intro a ha
  induction F.grounded a ha with
  | intro a _ ih =>
    cases hp : F.parent a with
    | none => exact htop a ha hp
    | some p =>
      obtain ⟨hpm, hac⟩ := F.child_of_parent a ha p hp
      exact hchild p hpm a hac (ih p hp hpm)

/-- `b` is `a` or lies below it. -/
inductive Below (F : Forest α) (a : α) : α → Prop
  | refl : Below F a a
  | step {b c : α} : Below F a b → c ∈ F.children b → Below F a c

variable {F}

theorem Below.mem {a b : α} (h : F.Below a b) (ha : a ∈ F.members) : b ∈ F.members := by
  induction h with
  | refl => exact ha
  | step _ hc ih => exact F.child_mem _ ih _ hc

theorem Below.follows {a b : α} (h : F.Below a b) (ha : a ∈ F.members) :
    a = b ∨ Relation.TransGen (Follows F.parent) a b := by
  induction h with
  | refl => exact Or.inl rfl
  | step hb hc ih =>
    have hlink := F.parent_of_child _ (hb.mem ha) _ hc
    rcases ih with rfl | ih
    · exact Or.inr (Relation.TransGen.single hlink)
    · exact Or.inr (ih.tail hlink)

/-- Nothing lies below one of its own children. -/
theorem not_below_child {a b : α} (ha : a ∈ F.members) (h : F.Below a b) : a ∉ F.children b := by
  intro hc
  have hlink : Follows F.parent b a := F.parent_of_child b (h.mem ha) a hc
  have hloop : Relation.TransGen (Follows F.parent) a a := by
    rcases h.follows ha with rfl | ht
    · exact Relation.TransGen.single hlink
    · exact ht.tail hlink
  exact not_acc_of_loop hloop Relation.ReflTransGen.refl (F.grounded a ha)

end Forest

/-! ## Routes along child lists -/

/-- A way down from `a`, by the places it passes, the last first. -/
inductive Route {α : Type} (children : α → List α) (a : α) : List α → α → Prop
  | here : Route children a [] a
  | down {route : List α} {b c : α} : Route children a route b → c ∈ children b → Route children a (b :: route) c

section Routes
variable {α : Type} {children : α → List α} {parent : α → Option α} {a b : α}

/-- Where the children agree on their parent, a route is the parent chain of its end. -/
theorem Route.unique (htop : ∀ p, a ∉ children p) (hparent : ∀ p c, c ∈ children p → parent c = some p)
    {first second : List α} (h1 : Route children a first b) (h2 : Route children a second b) : first = second := by
  induction h1 generalizing second with
  | here =>
    cases h2 with
    | here => rfl
    | down _ hc => exact absurd hc (htop _)
  | @down route p c hp hc ih =>
    cases h2 with
    | here => exact absurd hc (htop p)
    | @down route' q _ hq hc' =>
      have hpq : p = q := Option.some.inj ((hparent p c hc).symm.trans (hparent q c hc'))
      subst hpq
      rw [ih hq]

/-- What a route reaches from a top has a finite chain of parents. -/
theorem Route.grounded (htop : parent a = none) (hparent : ∀ p c, c ∈ children p → parent c = some p)
    {route : List α} (h : Route children a route b) : Acc (Follows parent) b := by
  induction h with
  | here => exact Acc.intro a fun p hp => absurd (htop.symm.trans hp) (by simp)
  | @down _ p c _ hc ih =>
    refine Acc.intro c fun q hq => ?_
    have hpq : p = q := Option.some.inj ((hparent p c hc).symm.trans hq)
    exact hpq ▸ ih

/-- A route read backwards is a chain of parent links. -/
theorem Route.chain_up (hparent : ∀ p c, c ∈ children p → parent c = some p) {route : List α}
    (h : Route children a route b) : (b :: route).IsChain fun c p => parent c = some p := by
  induction h with
  | here => exact List.isChain_singleton a
  | down _ hc ih => exact ih.cons_cons (hparent _ _ hc)

/-- No chain of parent links goes further up than the route. -/
theorem Route.chain_prefix (htop : parent a = none) (hparent : ∀ p c, c ∈ children p → parent c = some p)
    {route chain : List α} (h : Route children a route b)
    (hchain : (b :: chain).IsChain fun c p => parent c = some p) : chain <+: route := by
  induction h generalizing chain with
  | here =>
    cases chain with
    | nil => exact List.nil_prefix
    | cons p rest =>
      rw [List.isChain_cons_cons, htop] at hchain
      cases hchain.1
  | @down route p c _ hc ih =>
    cases chain with
    | nil => exact List.nil_prefix
    | cons q rest =>
      rw [List.isChain_cons_cons, hparent p c hc] at hchain
      cases hchain.1
      exact List.prefix_cons_inj p |>.mpr (ih hchain.2)

end Routes

/-- A chain of links leads to what it passes through. -/
theorem exists_chain_iff_transGen {α : Type} {r : α → α → Prop} {a b : α} :
    (∃ chain, (a :: chain).IsChain r ∧ b ∈ chain) ↔ Relation.TransGen r a b := by
  constructor
  · intro h
    obtain ⟨chain, hchain, hb⟩ := h
    induction chain generalizing a with
    | nil => cases hb
    | cons c rest ih =>
      rw [List.isChain_cons_cons] at hchain
      rcases List.mem_cons.mp hb with rfl | hb
      · exact .single hchain.1
      · exact .head hchain.1 (ih hchain.2 hb)
  · intro h
    induction h using Relation.TransGen.head_induction_on with
    | single hab => exact ⟨[b], List.isChain_pair.mpr hab, List.mem_singleton_self b⟩
    | @head a c hac _ ih =>
      obtain ⟨chain, hchain, hb⟩ := ih
      exact ⟨c :: chain, hchain.cons_cons hac, List.mem_cons_of_mem c hb⟩

/-! ## Draining a stack -/

section Drain
variable {ε σ α ι : Type}

/-- Work through a stack: pop an item, push the items it opens up, note it. -/
def drain (stuck : ε) (opens : ι → Except ε (List ι)) (note : σ → ι → σ) : Nat → List ι → σ → Except ε σ
  | _, [], s => .ok s
  | 0, _ :: _, _ => .error stuck
  | fuel + 1, i :: stack, s => do
    let more ← opens i
    drain stuck opens note fuel (more ++ stack) (note s i)

variable {stuck : ε} {opens : ι → Except ε (List ι)} {note : σ → ι → σ} {key : ι → α} {F : Forest α} {top : α}

/-- What holds between two pops: nothing was pushed twice, and everything pushed, the top
    apart, has its parent among the popped. -/
structure Draining (F : Forest α) (top : α) (popped stack : List α) : Prop where
  nodup : (popped ++ stack).Nodup
  below : ∀ a ∈ popped ++ stack, F.Below top a
  parent_popped : ∀ a ∈ popped ++ stack, a ≠ top → ∃ p ∈ popped, F.parent a = some p

theorem Draining.pop {popped stack : List α} {a : α} {more : List α} (h : Draining F top popped (a :: stack))
    (htop : top ∈ F.members) (hmore : more.Perm (F.children a)) : Draining F top (a :: popped) (more ++ stack) := by
  have hab : F.Below top a := h.below a (by simp)
  have ha : a ∈ F.members := hab.mem htop
  have hmem : ∀ {b}, b ∈ more → b ∈ F.children a := fun hb => hmore.mem_iff.mp hb
  have hold : ∀ {b}, b ∈ popped ++ stack → b ∈ popped ++ a :: stack := fun hb => by
    rcases List.mem_append.mp hb with hb | hb <;> simp [hb]
  have hmid : (popped ++ a :: stack).Perm (a :: (popped ++ stack)) := List.perm_middle
  have hnd := (hmid.nodup_iff.mp h.nodup)
  rw [List.nodup_cons] at hnd
  have hfresh : ∀ b ∈ more, b ∉ a :: (popped ++ stack) := by
    intro b hb hin
    have hpb := F.parent_of_child a ha b (hmem hb)
    have hne : b ≠ top := fun he => F.not_below_child htop hab (he ▸ hmem hb)
    obtain ⟨p, hp, hpp⟩ := h.parent_popped b (hmid.mem_iff.mpr hin) hne
    rw [hpb] at hpp
    cases hpp
    exact hnd.1 (List.mem_append.mpr (Or.inl hp))
  have hperm : ((a :: popped) ++ (more ++ stack)).Perm (more ++ (a :: (popped ++ stack))) := by
    rw [← List.append_assoc]
    exact (List.perm_append_comm.append_right stack).trans (by simp)
  refine ⟨?_, ?_, ?_⟩
  · rw [hperm.nodup_iff, List.nodup_append]
    refine ⟨hmore.nodup_iff.mpr (F.children_nodup a ha), List.nodup_cons.mpr hnd, ?_⟩
    rintro b hb _ hin rfl
    exact hfresh b hb hin
  · intro b hb
    rcases List.mem_append.mp (hperm.mem_iff.mp hb) with hb | hb
    · exact hab.step (hmem hb)
    · exact h.below b (hmid.mem_iff.mpr hb)
  · intro b hb hne
    rcases List.mem_append.mp (hperm.mem_iff.mp hb) with hb | hb
    · exact ⟨a, List.mem_cons_self, F.parent_of_child a ha b (hmem hb)⟩
    · obtain ⟨p, hp, hpp⟩ := h.parent_popped b (hmid.mem_iff.mpr hb) hne
      exact ⟨p, List.mem_cons_of_mem a hp, hpp⟩

/-- The order in which a stack is worked through. -/
inductive Trail (opens : ι → Except ε (List ι)) : List ι → List ι → Prop
  | done : Trail opens [] []
  | pop {i : ι} {stack more visited : List ι} : opens i = .ok more → Trail opens (more ++ stack) visited →
      Trail opens (i :: stack) (i :: visited)

theorem Trail.starts {stack visited : List ι} (h : Trail opens stack visited) : stack ⊆ visited := by
  induction h with
  | done => simp
  | @pop i stack more visited _ _ ih =>
    intro j hj
    rcases List.mem_cons.mp hj with rfl | hj
    · exact List.mem_cons_self
    · exact List.mem_cons_of_mem i (ih (List.mem_append_right more hj))

/-- What every item visited opens up is visited. -/
theorem Trail.closed {stack visited : List ι} (h : Trail opens stack visited) :
    ∀ i ∈ visited, ∃ more, opens i = .ok more ∧ more ⊆ visited := by
  induction h with
  | done => simp
  | @pop i stack more visited hopens htrail ih =>
    intro j hj
    rcases List.mem_cons.mp hj with rfl | hj
    · exact ⟨more, hopens, fun k hk => List.mem_cons_of_mem j (htrail.starts (List.mem_append_left stack hk))⟩
    · obtain ⟨more', hopens', hsub⟩ := ih j hj
      exact ⟨more', hopens', fun k hk => List.mem_cons_of_mem i (hsub hk)⟩

/-- What passes from an item to all it opens up holds of every item visited. -/
theorem Trail.keeps {P : ι → Prop} (hstep : ∀ i more, P i → opens i = .ok more → ∀ j ∈ more, P j)
    {stack visited : List ι} (h : Trail opens stack visited) (hstart : ∀ i ∈ stack, P i) : ∀ i ∈ visited, P i := by
  induction h with
  | done => simp
  | @pop i stack more visited hopens _ ih =>
    have hi : P i := hstart i List.mem_cons_self
    intro j hj
    rcases List.mem_cons.mp hj with rfl | hj
    · exact hi
    · refine ih (fun k hk => ?_) j hj
      rcases List.mem_append.mp hk with hk | hk
      · exact hstep i more hi hopens k hk
      · exact hstart k (List.mem_cons_of_mem i hk)

/-- Over a forest the stack runs empty within as many pops as there are members, and no member
    is popped twice. -/
theorem drain_visits (htop : top ∈ F.members)
    (hopens : ∀ i, key i ∈ F.members → ∃ more, opens i = .ok more ∧ (more.map key).Perm (F.children (key i)))
    {fuel : Nat} {popped : List α} {stack : List ι} {s : σ} (h : Draining F top popped (stack.map key))
    (hfuel : F.members.length ≤ fuel + popped.length) :
    ∃ visited, drain stuck opens note fuel stack s = .ok (visited.foldl note s) ∧ Trail opens stack visited ∧
      (∀ i ∈ visited, F.Below top (key i)) ∧ (visited.map key).Nodup ∧ ∀ i ∈ visited, key i ∉ popped := by
  induction fuel generalizing popped stack s with
  | zero =>
    cases stack with
    | nil => exact ⟨[], rfl, .done, by simp, by simp, by simp⟩
    | cons i stack =>
      have hle : (popped ++ (i :: stack).map key).length ≤ F.members.length :=
        (h.nodup.subperm fun a ha => (h.below a ha).mem htop).length_le
      simp only [List.length_append, List.length_map, List.length_cons] at hle
      omega
  | succ fuel ih =>
    cases stack with
    | nil => exact ⟨[], rfl, .done, by simp, by simp, by simp⟩
    | cons i stack =>
      have hi : F.Below top (key i) := h.below _ (by simp)
      have hfresh : key i ∉ popped := fun hin =>
        (List.nodup_append.mp h.nodup).2.2 (key i) hin (key i) (by simp) rfl
      obtain ⟨more, hmore, hperm⟩ := hopens i (hi.mem htop)
      have hpop := h.pop htop hperm
      rw [← List.map_append] at hpop
      obtain ⟨visited, hrun, htrail, hbelow, hnodup, hnew⟩ :=
        ih (s := note s i) hpop (by simp only [List.length_cons]; omega)
      refine ⟨i :: visited, ?_, .pop hmore htrail, ?_, ?_, ?_⟩
      · rw [drain, hmore]
        exact hrun
      · intro j hj
        rcases List.mem_cons.mp hj with rfl | hj
        · exact hi
        · exact hbelow j hj
      · rw [List.map_cons, List.nodup_cons]
        refine ⟨fun hin => ?_, hnodup⟩
        obtain ⟨j, hj, heq⟩ := List.mem_map.mp hin
        exact hnew j hj (by simp [heq])
      · intro j hj
        rcases List.mem_cons.mp hj with rfl | hj
        · exact hfresh
        · exact fun hin => hnew j hj (List.mem_cons_of_mem _ hin)

end Drain

end Reconciliation.Base

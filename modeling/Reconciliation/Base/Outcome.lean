/-
  Reconciliation.Base.Outcome — rules for computations in `Except`.

  A run that ends well is peeled apart one bind at a time (`bind_ok`); a traversal that
  ends well ran its action on every element (`mapM_ok`), and a traversal or a fold ends
  well when the action does everywhere (`mapM_total`, `foldlM_total`); what every step of
  a fold keeps, the fold keeps (`foldlM_keeps`), and it ran every step (`foldlM_ran`). `Raises` bounds the
  errors a computation ends in, and composes along binds and traversals. `Emits` says what a
  computation of a list ends with, and composes along guards and traversals
  (`Emits.unless`, `emits_flatten`, `emits_keys`). A `Checked` value is a record with the proof that its
  validator accepts it; building one fails exactly when the validator does (`build_ok`,
  `build_error`).
-/
import Mathlib

namespace Reconciliation.Base.Outcome

variable {ε α β σ : Type}

@[simp] theorem bind_ok {x : Except ε α} {f : α → Except ε β} {b : β} :
    (x >>= f) = .ok b ↔ ∃ a, x = .ok a ∧ f a = .ok b := by
  cases x <;> simp [bind, Except.bind]

@[simp] theorem map_ok {x : Except ε α} {f : α → β} {b : β} : x.map f = .ok b ↔ ∃ a, x = .ok a ∧ f a = b := by
  cases x <;> simp [Except.map]

@[simp] theorem pure_ok {a b : α} : (pure a : Except ε α) = .ok b ↔ a = b := by
  simp [pure, Except.pure]

/-- A failing bind failed at its first or its second part. -/
theorem bind_error {x : Except ε α} {f : α → Except ε β} {e : ε} :
    (x >>= f) = .error e ↔ x = .error e ∨ ∃ a, x = .ok a ∧ f a = .error e := by
  cases x <;> simp [bind, Except.bind]

theorem right_of_mem_left {R : α → β → Prop} {l : List α} {out : List β} (h : List.Forall₂ R l out) {a : α}
    (ha : a ∈ l) : ∃ b ∈ out, R a b := by
  induction h with
  | nil => cases ha
  | cons hab _ ih =>
    rcases List.mem_cons.mp ha with rfl | ha
    · exact ⟨_, by simp, hab⟩
    · obtain ⟨b, hb, hR⟩ := ih ha
      exact ⟨b, by simp [hb], hR⟩

theorem left_of_mem_right {R : α → β → Prop} {l : List α} {out : List β} (h : List.Forall₂ R l out) {b : β}
    (hb : b ∈ out) : ∃ a ∈ l, R a b := right_of_mem_left h.flip hb

/-- Keeping each element or dropping it leaves a sublist. -/
theorem reduceOption_sublist {l : List α} {found : List (Option α)}
    (h : List.Forall₂ (fun a o => ∀ b, o = some b → b = a) l found) : found.reduceOption.Sublist l := by
  induction h with
  | nil => exact .slnil
  | @cons a o _ _ hao _ ih =>
    cases o with
    | none => exact ih.cons a
    | some b =>
      rw [List.reduceOption_cons_of_some, hao b rfl]
      exact ih.cons_cons a

theorem mapM_ok {f : α → Except ε β} {l : List α} {out : List β} :
    l.mapM f = .ok out ↔ List.Forall₂ (fun a b => f a = .ok b) l out := by
  induction l generalizing out with
  | nil => rw [List.mapM_nil, pure_ok, List.forall₂_nil_left_iff, eq_comm]
  | cons a l ih =>
    rw [List.mapM_cons]
    simp only [bind_ok, pure_ok, ih]
    constructor
    · intro hx
      obtain ⟨b, hb, rest, hrest, rfl⟩ := hx
      exact .cons hb hrest
    · rintro (_ | ⟨hb, hrest⟩)
      exact ⟨_, hb, _, hrest, rfl⟩

theorem mapM_mem {f : α → Except ε β} {l : List α} {out : List β} (h : l.mapM f = .ok out) {b : β} :
    b ∈ out ↔ ∃ a ∈ l, f a = .ok b := by
  replace h := mapM_ok.mp h
  induction h with
  | nil => simp
  | cons hb _ ih => simp [ih, hb, eq_comm]

/-- A traversal whose action returns lists returns nothing else. -/
theorem mem_flatten_mapM {f : α → Except ε (List β)} {l : List α} {outs : List (List β)} (h : l.mapM f = .ok outs) {b : β}
    (hb : b ∈ outs.flatten) : ∃ a ∈ l, ∃ out, f a = .ok out ∧ b ∈ out := by
  obtain ⟨out, hout, hb⟩ := List.mem_flatten.mp hb
  obtain ⟨a, ha, hrun⟩ := (mapM_mem h).mp hout
  exact ⟨a, ha, out, hrun, hb⟩

theorem mapM_total {f : α → Except ε β} {l : List α} (h : ∀ a ∈ l, ∃ b, f a = .ok b) :
    ∃ out, l.mapM f = .ok out := by
  induction l with
  | nil => exact ⟨[], rfl⟩
  | cons a l ih =>
    obtain ⟨b, hb⟩ := h a (by simp)
    obtain ⟨out, hout⟩ := ih fun a ha => h a (by simp [ha])
    exact ⟨b :: out, by rw [List.mapM_cons]; simp [hb, hout]⟩

/-- Two traversals whose actions agree on corresponding elements are the same. -/
theorem mapM_congr {α' : Type} {f : α → Except ε β} {f' : α' → Except ε β} {l : List α} {l' : List α'}
    (h : List.Forall₂ (fun a a' => f a = f' a') l l') : l.mapM f = l'.mapM f' := by
  induction h with
  | nil => rfl
  | cons hab _ ih => rw [List.mapM_cons, List.mapM_cons, hab, ih]

/-- What the action keeps about each element, the traversal keeps about the list. -/
theorem mapM_map {γ : Type} {f : α → Except ε β} {l : List α} {out : List β} (p : α → γ) (q : β → γ)
    (hpq : ∀ a ∈ l, ∀ b, f a = .ok b → q b = p a) (h : l.mapM f = .ok out) : out.map q = l.map p := by
  replace h := mapM_ok.mp h
  induction h with
  | nil => rfl
  | cons hb _ ih =>
    rw [List.map_cons, List.map_cons, hpq _ (by simp) _ hb, ih fun a ha => hpq a (by simp [ha])]

theorem foldlM_total {f : σ → α → Except ε σ} {l : List α} (hstep : ∀ a ∈ l, ∀ s, ∃ s', f s a = .ok s') (s : σ) :
    ∃ s', l.foldlM f s = .ok s' := by
  induction l generalizing s with
  | nil => exact ⟨s, rfl⟩
  | cons a l ih =>
    obtain ⟨t, ht⟩ := hstep a (by simp) s
    obtain ⟨s', hs'⟩ := ih (fun b hb => hstep b (by simp [hb])) t
    exact ⟨s', by rw [List.foldlM_cons, bind_ok]; exact ⟨t, ht, hs'⟩⟩

/-- What every step of a fold keeps, the fold keeps. -/
theorem foldlM_keeps {f : σ → α → Except ε σ} {P : σ → Prop} {l : List α}
    (hstep : ∀ a ∈ l, ∀ s s', P s → f s a = .ok s' → P s') {s s' : σ} (hs : P s) (h : l.foldlM f s = .ok s') : P s' := by
  induction l generalizing s with
  | nil =>
    cases h
    exact hs
  | cons a l ih =>
    rw [List.foldlM_cons, bind_ok] at h
    obtain ⟨t, ht, h⟩ := h
    exact ih (fun b hb => hstep b (by simp [hb])) (hstep a (by simp) s t hs ht) h

/-- A fold that ends well ran its action on every element, between two states of its own. -/
theorem foldlM_ran {f : σ → α → Except ε σ} {l : List α} {s s' : σ} (h : l.foldlM f s = .ok s') {a : α} (ha : a ∈ l) :
    ∃ before after mid mid', l = before ++ a :: after ∧ before.foldlM f s = .ok mid ∧ f mid a = .ok mid' ∧
      after.foldlM f mid' = .ok s' := by
  obtain ⟨before, after, rfl⟩ := List.append_of_mem ha
  rw [List.foldlM_append, bind_ok] at h
  obtain ⟨mid, hbefore, h⟩ := h
  rw [List.foldlM_cons, bind_ok] at h
  obtain ⟨mid', hstep, hafter⟩ := h
  exact ⟨before, after, mid, mid', rfl, hbefore, hstep, hafter⟩

/-! ## Returning -/

/-- The computation ends well with a value that satisfies `P`. -/
def Returns (x : Except ε α) (P : α → Prop) : Prop := ∃ a, x = .ok a ∧ P a

theorem returns_ok {a : α} {P : α → Prop} : Returns (.ok a : Except ε α) P ↔ P a := by
  constructor
  · intro h
    obtain ⟨b, hb, hP⟩ := h
    cases hb
    exact hP
  · exact fun h => ⟨a, rfl, h⟩

theorem not_returns_error {e : ε} {P : α → Prop} : ¬ Returns (.error e : Except ε α) P := by
  intro h
  obtain ⟨b, hb, -⟩ := h
  cases hb

instance (x : Except ε α) (P : α → Prop) [DecidablePred P] : Decidable (Returns x P) :=
  match x with
  | .ok _ => decidable_of_iff' _ returns_ok
  | .error _ => isFalse not_returns_error

/-! ## Raising -/

/-- Every error the computation ends in satisfies `P`. -/
def Raises (P : ε → Prop) (x : Except ε α) : Prop := ∀ e, x = .error e → P e

theorem raises_ok {P : ε → Prop} (a : α) : Raises P (.ok a : Except ε α) := by
  intro e he
  cases he

theorem raises_error {P : ε → Prop} {e : ε} : Raises P (.error e : Except ε α) ↔ P e := by
  constructor
  · exact fun h => h e rfl
  · intro h e' he
    cases he
    exact h

instance (P : ε → Prop) [DecidablePred P] (x : Except ε α) : Decidable (Raises P x) :=
  match x with
  | .ok a => isTrue (raises_ok a)
  | .error _ => decidable_of_iff' _ raises_error

theorem Raises.bind {P : ε → Prop} {x : Except ε α} {f : α → Except ε β} (hx : Raises P x) (hf : ∀ a, Raises P (f a)) :
    Raises P (x >>= f) := by
  intro e he
  rcases bind_error.mp he with he | ⟨a, -, he⟩
  · exact hx e he
  · exact hf a e he

theorem Raises.mapM {P : ε → Prop} {f : α → Except ε β} (hf : ∀ a, Raises P (f a)) (l : List α) : Raises P (l.mapM f) := by
  induction l with
  | nil => exact raises_ok []
  | cons a l ih =>
    rw [List.mapM_cons]
    exact (hf a).bind fun b => ih.bind fun bs => raises_ok (b :: bs)

/-! ## Emissions -/

/-- The computation ends well with the elements that satisfy `P`, each once. -/
def Emits (x : Except ε (List β)) (P : β → Prop) : Prop := ∃ out, x = .ok out ∧ out.Nodup ∧ ∀ b, b ∈ out ↔ P b

theorem Emits.congr {x : Except ε (List β)} {P Q : β → Prop} (h : Emits x P) (hPQ : ∀ b, P b ↔ Q b) : Emits x Q := by
  obtain ⟨out, hx, hnodup, hmem⟩ := h
  exact ⟨out, hx, hnodup, fun b => (hmem b).trans (hPQ b)⟩

theorem emits_nothing {P : β → Prop} (h : ∀ b, ¬ P b) : Emits (.ok [] : Except ε (List β)) P :=
  ⟨[], rfl, List.nodup_nil, fun b => ⟨fun hb => absurd hb List.not_mem_nil, fun hb => absurd hb (h b)⟩⟩

/-- A guard in front of a computation cuts its elements off. -/
theorem Emits.unless {A : Prop} [Decidable A] {x : Except ε (List β)} {P : β → Prop} (h : Emits x P) :
    Emits (if A then .ok [] else x) fun b => ¬ A ∧ P b := by
  by_cases hA : A
  · rw [if_pos hA]
    exact emits_nothing fun b hb => hb.1 hA
  · rw [if_neg hA]
    exact h.congr fun b => (and_iff_right hA).symm

/-- Where something was emitted, the guard in front did not hold. -/
theorem of_mem_unless {A : Prop} [Decidable A] {x : Except ε (List β)} {out : List β}
    (h : (if A then .ok [] else x) = .ok out) {b : β} (hb : b ∈ out) : ¬ A ∧ x = .ok out := by
  by_cases hA : A
  · rw [if_pos hA] at h
    cases h
    cases hb
  · rw [if_neg hA] at h
    exact ⟨hA, h⟩

/-- A guard in front does not keep an action from returning. -/
theorem total_unless {A : Prop} [Decidable A] {x : Except ε (List β)} (h : ∃ out, x = .ok out) :
    ∃ out, (if A then .ok [] else x) = .ok out := by
  by_cases hA : A
  · exact ⟨[], if_pos hA⟩
  · rw [if_neg hA]
    exact h

/-- A traversal whose action emits lists emits all of them; nothing comes twice when no two visits
    emit the same. -/
theorem emits_flatten {f : α → Except ε (List β)} {P : α → β → Prop} {l : List α} (h : ∀ a ∈ l, Emits (f a) (P a)) :
    ∃ outs, l.mapM f = .ok outs ∧ (∀ b, b ∈ outs.flatten ↔ ∃ a ∈ l, P a b) ∧
      ((l.Pairwise fun a a' => ∀ b, P a b → ¬ P a' b) → outs.flatten.Nodup) := by
  induction l with
  | nil => exact ⟨[], rfl, by simp, fun _ => List.nodup_nil⟩
  | cons a l ih =>
    obtain ⟨out, hout, hnodup, hmem⟩ := h a (by simp)
    obtain ⟨outs, houts, hmems, hnodups⟩ := ih fun b hb => h b (by simp [hb])
    refine ⟨out :: outs, by rw [List.mapM_cons]; simp [hout, houts], fun b => ?_, fun hdisjoint => ?_⟩
    · rw [List.flatten_cons, List.mem_append, hmem, hmems, List.exists_mem_cons_iff]
    · obtain ⟨ha, hl⟩ := List.pairwise_cons.mp hdisjoint
      rw [List.flatten_cons, List.nodup_append]
      refine ⟨hnodup, hnodups hl, ?_⟩
      intro b hb b' hb' hbb
      subst hbb
      obtain ⟨a', ha', hP⟩ := (hmems b).mp hb'
      exact ha a' ha' b ((hmem b).mp hb) hP

/-- A traversal emits no key twice exactly when no visit does and no two visits share one. -/
theorem emits_keys {κ : Type} (key : β → κ) {f : α → Except ε (List β)} {P : α → β → Prop} {l : List α}
    (h : ∀ a ∈ l, Emits (f a) (P a)) {outs : List (List β)} (hrun : l.mapM f = .ok outs) :
    (outs.flatten.map key).Nodup ↔ (∀ a ∈ l, ∀ b b', P a b → P a b' → key b = key b' → b = b') ∧
      l.Pairwise fun a a' => ∀ b b', P a b → P a' b' → key b ≠ key b' := by
  replace hrun := mapM_ok.mp hrun
  induction hrun with
  | nil => simp
  | @cons a out l outs hout hrun ih =>
    obtain ⟨out', hout', hnodup, hmem⟩ := h a List.mem_cons_self
    obtain rfl := Except.ok.inj (hout.symm.trans hout')
    have hl : ∀ a ∈ l, Emits (f a) (P a) := fun a ha => h a (List.mem_cons_of_mem _ ha)
    have hmems : ∀ b, b ∈ outs.flatten ↔ ∃ a ∈ l, P a b := by
      obtain ⟨outs', houts', hmems, -⟩ := emits_flatten hl
      obtain rfl := Except.ok.inj ((mapM_ok.mpr hrun).symm.trans houts')
      exact hmems
    have hone : (out.map key).Nodup ↔ ∀ b b', P a b → P a b' → key b = key b' → b = b' := by
      simp only [List.nodup_map_iff_inj_on hnodup, hmem]
      exact ⟨fun hinj b b' hb hb' hk => hinj b hb b' hb' hk, fun hinj b hb b' hb' hk => hinj b b' hb hb' hk⟩
    have htail : (outs.flatten.map key).Nodup ↔ _ ∧ _ := ih hl
    rw [List.flatten_cons, List.map_append, List.nodup_append, htail, hone, List.pairwise_cons, List.forall_mem_cons]
    constructor
    · intro hx
      obtain ⟨ha, ⟨hin, hpair⟩, hapart⟩ := hx
      refine ⟨⟨ha, hin⟩, fun a' ha' b b' hb hb' => ?_, hpair⟩
      exact hapart _ (List.mem_map_of_mem ((hmem b).mpr hb)) _ (List.mem_map_of_mem ((hmems b').mpr ⟨a', ha', hb'⟩))
    · intro hx
      obtain ⟨⟨ha, hin⟩, hapart, hpair⟩ := hx
      refine ⟨ha, ⟨hin, hpair⟩, fun k hk k' hk' => ?_⟩
      obtain ⟨b, hb, rfl⟩ := List.mem_map.mp hk
      obtain ⟨b', hb', rfl⟩ := List.mem_map.mp hk'
      obtain ⟨a', ha', hP⟩ := (hmems b').mp hb'
      exact hapart a' ha' b b' ((hmem b).mp hb) hP

end Reconciliation.Base.Outcome

/-! ## Checked values -/

namespace Reconciliation.Base

/-- A record its validator accepts. -/
structure Checked {ε φ : Type} (check : φ → Except ε Unit) where
  val : φ
  accepted : check val = .ok ()

namespace Checked
variable {ε φ : Type} {check : φ → Except ε Unit}

theorem ext_val {a b : Checked check} (h : a.val = b.val) : a = b := by
  cases a; cases b; cases h; rfl

instance [DecidableEq φ] : DecidableEq (Checked check) := fun _ _ =>
  decidable_of_iff _ ⟨ext_val, fun h => h ▸ rfl⟩

/-- Run the validator on a record and keep the record. -/
def build (check : φ → Except ε Unit) (fields : φ) : Except ε (Checked check) :=
  match h : check fields with
  | .ok () => .ok ⟨fields, h⟩
  | .error e => .error e

@[simp] theorem build_ok {fields : φ} {a : Checked check} : build check fields = .ok a ↔ a.val = fields := by
  unfold build
  split
  · refine ⟨fun he => ?_, fun he => congrArg Except.ok (ext_val he.symm)⟩
    cases he
    rfl
  · rename_i e h
    refine ⟨fun he => absurd he (by simp), fun he => ?_⟩
    rw [← he, a.accepted] at h
    cases h

theorem build_error {fields : φ} {e : ε} : build check fields = .error e ↔ check fields = .error e := by
  unfold build
  split
  · rename_i h
    simp [h]
  · rename_i e' h
    simp [h]

theorem raises_build {P : ε → Prop} {fields : φ} (h : Outcome.Raises P (check fields)) :
    Outcome.Raises P (build check fields) := fun e he => h e (build_error.mp he)

theorem build_total {fields : φ} (h : check fields = .ok ()) : ∃ a, build check fields = .ok a :=
  ⟨⟨fields, h⟩, build_ok.mpr rfl⟩

theorem of_mem_build {fields : φ} {out : List (Checked check)} (h : (do let a ← build check fields; return [a]) = .ok out)
    {a : Checked check} (ha : a ∈ out) : a.val = fields := by
  simp only [Outcome.bind_ok, Outcome.pure_ok, build_ok] at h
  obtain ⟨built, hval, rfl⟩ := h
  exact List.mem_singleton.mp ha ▸ hval

/-- Building one accepted record emits it. -/
theorem emits_build {fields : φ} (h : check fields = .ok ()) :
    Outcome.Emits (do let a ← build check fields; return [a]) fun a => a.val = fields := by
  obtain ⟨a, ha⟩ := build_total h
  refine ⟨[a], by rw [ha]; rfl, List.nodup_singleton a, fun b => ?_⟩
  rw [List.mem_singleton]
  exact ⟨fun hb => hb ▸ build_ok.mp ha, fun hb => ext_val (hb.trans (build_ok.mp ha).symm)⟩

end Checked

end Reconciliation.Base

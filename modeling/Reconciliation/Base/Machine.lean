/-
  Reconciliation.Base.Machine — machines that take one event after another, and what holds
  of every state they reach.

  An event is possible in a state or not, and leads to one next state. `Reach Ok` are the
  states of the runs whose events are all `Ok` where they are taken; an invariant is shown
  one event at a time (`Reach.invariant`). `Path` continues a run by any possible events; a
  run whose every unfinished state has an event that brings it closer to its end can be
  continued to the end (`exists_path_end`).
-/
import Mathlib.Logic.Basic

namespace Reconciliation.Base

structure Machine (σ ε : Type) where
  start : σ
  Possible : σ → ε → Prop
  next : σ → ε → σ

namespace Machine

section Runs
variable {σ ε : Type} (M : Machine σ ε)

/-- The states of the runs whose events all meet a condition. -/
inductive Reach (Ok : σ → ε → Prop) : σ → Prop
  | start : Reach Ok M.start
  | next {s : σ} {event : ε} : Reach Ok s → M.Possible s event → Ok s event → Reach Ok (M.next s event)

inductive Path : σ → σ → Prop
  | refl (s : σ) : Path s s
  | next {s t : σ} {event : ε} : M.Possible s event → Path (M.next s event) t → Path s t

variable {M} {Ok Ok' : σ → ε → Prop} {I : σ → Prop}

/-- What holds at the start and is kept by every event of a run holds of every state. -/
theorem Reach.invariant (hstart : I M.start)
    (hnext : ∀ s event, I s → M.Possible s event → Ok s event → I (M.next s event)) {s : σ} (h : M.Reach Ok s) :
    I s := by
  induction h with
  | start => exact hstart
  | next _ hpossible hok ih => exact hnext _ _ ih hpossible hok

/-- A run meets a second condition when the first one gives it wherever an invariant holds. -/
theorem Reach.weaken (hinv : ∀ s, M.Reach Ok s → I s)
    (hok : ∀ s event, I s → M.Possible s event → Ok s event → Ok' s event) {s : σ} (h : M.Reach Ok s) :
    M.Reach Ok' s := by
  induction h with
  | start => exact .start
  | next hs hpossible hoks ih => exact .next ih hpossible (hok _ _ (hinv _ hs) hpossible hoks)

/-- When some event brings every state that is not at its end closer to it, the end can be reached. -/
theorem exists_path_end (distance : σ → Nat)
    (hcloser : ∀ s, I s → distance s ≠ 0 →
      ∃ event, M.Possible s event ∧ I (M.next s event) ∧ distance (M.next s event) < distance s) {s : σ} (h : I s) :
    ∃ t, M.Path s t ∧ I t ∧ distance t = 0 := by
  induction hn : distance s using Nat.strongRecOn generalizing s with
  | ind n ih =>
    by_cases hend : distance s = 0
    · exact ⟨s, .refl s, h, hend⟩
    · obtain ⟨event, hpossible, hinv, hlt⟩ := hcloser s h hend
      obtain ⟨t, hpath, ht, hzero⟩ := ih _ (hn ▸ hlt) hinv rfl
      exact ⟨t, .next hpossible hpath, ht, hzero⟩

end Runs

end Machine

end Reconciliation.Base

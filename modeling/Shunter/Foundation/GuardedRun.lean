import Mathlib

/-!
# Runs whose steps meet a condition

A machine is a partial step function over actions, and a run is a fold of it.
`stepsMeet` says that every action of a run meets a condition on the state in
which it is taken.
-/

namespace Foundation

variable {σ α : Type*} (step : σ → α → Option σ) (ok : σ → α → Bool)

def stepsMeet : σ → List α → Bool
  | _, [] => true
  | s, a :: l => ok s a && (step s a).all fun s' => stepsMeet s' l

variable {step ok} {s s' : σ}

theorem of_guard {p : Prop} [Decidable p] (h : (if p then some s else none) = some s') :
    p ∧ s = s' := by
  obtain ⟨hp, hs⟩ := Option.ite_none_right_eq_some.mp h
  exact ⟨hp, Option.some.inj hs⟩

theorem invariant_of_stepsMeet {Inv : σ → Prop}
    (hstep : ∀ s a s', Inv s → ok s a = true → step s a = some s' → Inv s') {l : List α}
    (h : Inv s) (hmeet : stepsMeet step ok s l = true) (hrun : l.foldlM step s = some s') :
    Inv s' := by
  induction l generalizing s with
  | nil =>
    obtain rfl : s = s' := by simpa using hrun
    exact h
  | cons a l ih =>
    rw [List.foldlM_cons, Option.bind_eq_bind, Option.bind_eq_some_iff] at hrun
    obtain ⟨next, hnext, hrun⟩ := hrun
    simp only [stepsMeet, Bool.and_eq_true, hnext, Option.all_some] at hmeet
    exact ih (hstep s a next h hmeet.1 hnext) hmeet.2 hrun

theorem invariant_of_run {Inv : σ → Prop}
    (hstep : ∀ s a s', Inv s → step s a = some s' → Inv s') {l : List α} (h : Inv s)
    (hrun : l.foldlM step s = some s') : Inv s' := by
  induction l generalizing s with
  | nil =>
    obtain rfl : s = s' := by simpa using hrun
    exact h
  | cons a l ih =>
    rw [List.foldlM_cons, Option.bind_eq_bind, Option.bind_eq_some_iff] at hrun
    obtain ⟨next, hnext, hrun⟩ := hrun
    exact ih (hstep s a next h hnext) hrun

end Foundation

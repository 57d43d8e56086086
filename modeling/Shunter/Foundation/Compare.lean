import Mathlib

/-!
# Comparisons through a rank

Lexicographic comparison commutes with mapping both lists through a function
that preserves the comparison of their items, and a comparison that is computed
from a rank inherits the laws of the order of ranks.
-/

namespace Foundation

theorem compareLex_map {α β : Type*} {cmp : α → α → Ordering}
    {cmp' : β → β → Ordering} {f : α → β} (h : ∀ x y, cmp' (f x) (f y) = cmp x y)
    (l l' : List α) :
    List.compareLex cmp' (l.map f) (l'.map f) = List.compareLex cmp l l' := by
  induction l generalizing l' with
  | nil => cases l' <;> rfl
  | cons x l ih =>
    cases l' with
    | nil => rfl
    | cons y l' => simp only [List.map_cons, List.compareLex_cons_cons, h, ih]

theorem compare_map {α β : Type*} [Ord α] [Ord β] {f : α → β}
    (h : ∀ x y, compare (f x) (f y) = compare x y) (l l' : List α) :
    compare (l.map f) (l'.map f) = compare l l' :=
  compareLex_map h l l'

theorem compare_natCast (m n : Nat) : compare (m : Int) (n : Int) = compare m n := by
  rw [← cmp_eq_compare, ← cmp_eq_compare]
  exact Nat.strictMono_cast.cmp_map_eq m n

section Rank

variable {α ρ : Type*} [Ord ρ] {cmp : α → α → Ordering} {rank : α → ρ}

theorem transCmp_of_rank [Std.TransOrd ρ]
    (h : ∀ x y, cmp x y = compare (rank x) (rank y)) : Std.TransCmp cmp := by
  have heq : cmp = compareOn rank := by
    funext x y
    exact h x y
  rw [heq]
  infer_instance

theorem compare_eq_iff_rank [Std.LawfulEqOrd ρ]
    (h : ∀ x y, cmp x y = compare (rank x) (rank y)) {x y : α} :
    cmp x y = .eq ↔ rank x = rank y := by
  rw [h]
  exact Std.compare_eq_iff_eq

end Rank

end Foundation

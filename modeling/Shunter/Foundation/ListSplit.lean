import Mathlib

/-!
# Lists split at a position

Searching a list for the first item with a property splits it into the items
before that position and the rest.  Updates at the position then act on the
split list without index arithmetic.  A binary search ends at the boundary
between the positions where a test holds and those behind them.
-/

namespace Foundation

variable {α : Type*}

theorem exists_split_findIdx (p : α → Bool) (l : List α) :
    ∃ before rest, l = before ++ rest ∧ l.findIdx p = before.length ∧
      (∀ x ∈ before, p x = false) ∧ (∀ x tail, rest = x :: tail → p x = true) := by
  induction l with
  | nil => exact ⟨[], [], rfl, rfl, by simp, by simp⟩
  | cons a l ih =>
    cases ha : p a with
    | true =>
      refine ⟨[], a :: l, rfl, by simp [List.findIdx_cons, ha], by simp, ?_⟩
      rintro x tail ⟨⟩
      exact ha
    | false =>
      obtain ⟨before, rest, rfl, hlen, hbefore, hrest⟩ := ih
      refine ⟨a :: before, rest, rfl, by simp [List.findIdx_cons, ha, hlen], ?_, hrest⟩
      exact List.forall_mem_cons.mpr ⟨ha, hbefore⟩

theorem forall_mem_append_cons {P : α → Prop} {a b : List α} {x : α} :
    (∀ y ∈ a ++ x :: b, P y) ↔ (∀ y ∈ a, P y) ∧ P x ∧ ∀ y ∈ b, P y := by
  rw [List.forall_mem_append, List.forall_mem_cons]

@[simp] theorem insertIdx_append_length (a b : List α) (x : α) :
    (a ++ b).insertIdx a.length x = a ++ x :: b := by
  induction a with
  | nil => simp
  | cons y a ih => simp [ih]

@[simp] theorem insertIdx_append_length_succ (a b : List α) (x y : α) :
    (a ++ x :: b).insertIdx (a.length + 1) y = a ++ x :: y :: b := by
  have h := insertIdx_append_length (a ++ [x]) b y
  simpa using h

@[simp] theorem eraseIdx_append_length (a b : List α) (x : α) :
    (a ++ x :: b).eraseIdx a.length = a ++ b := by
  simp [List.eraseIdx_append_of_length_le]

@[simp] theorem eraseIdx_append_length_succ (a b : List α) (x y : α) :
    (a ++ x :: y :: b).eraseIdx (a.length + 1) = a ++ x :: b := by
  simp [List.eraseIdx_append_of_length_le]

theorem exists_adjacent_split {l : List α} {i : Nat} (h : i + 1 < l.length) :
    ∃ before x y rest, l = before ++ x :: y :: rest ∧ before.length = i := by
  refine ⟨l.take i, l[i], l[i + 1], l.drop (i + 2), ?_, by simp; omega⟩
  rw [← List.drop_eq_getElem_cons h, ← List.drop_eq_getElem_cons (by omega),
    List.take_append_drop]

/-! ## Search by halving -/

def halve (below : Nat → Bool) (lo hi : Nat) : Nat :=
  if lo < hi then
    if below ((lo + hi) / 2) then halve below ((lo + hi) / 2 + 1) hi
    else halve below lo ((lo + hi) / 2)
  else lo
  termination_by hi - lo

theorem halve_eq {below : Nat → Bool} {n lo hi : Nat} (hlo : lo ≤ n) (hhi : n ≤ hi)
    (h : ∀ i < hi, below i = true ↔ i < n) : halve below lo hi = n := by
  fun_induction halve below lo hi with
  | case1 lo hi hlt hbelow ih =>
    have hmid := (h _ (by omega)).mp hbelow
    exact ih (by omega) hhi h
  | case2 lo hi hlt hbelow ih =>
    have hmid := mt (h _ (by omega)).mpr hbelow
    exact ih hlo (by omega) fun i hi => h i (by omega)
  | case3 lo hi hlt => omega

/-- In a list that a test splits into a front and a back, the loop ends at the first position of
the back. -/
theorem halve_eq_findIdx {α : Type} {l : List α} {below : α → Bool}
    (h : l.Pairwise fun a b => below b = true → below a = true) :
    halve (fun i => l[i]?.any below) 0 l.length = l.findIdx fun a => !below a := by
  apply halve_eq (Nat.zero_le _) List.findIdx_le_length
  intro i hi
  rw [List.getElem?_eq_getElem hi, Option.any_some]
  constructor
  · intro hbelow
    by_contra hge
    rw [not_lt] at hge
    have hfound := List.findIdx_getElem (w := lt_of_le_of_lt hge hi)
    rcases hge.lt_or_eq with hlt | heq
    · simp [List.pairwise_iff_getElem.mp h _ i (hlt.trans hi) hi hlt hbelow] at hfound
    · simp [heq, hbelow] at hfound
  · intro hlt
    simpa using List.not_of_lt_findIdx hlt

end Foundation

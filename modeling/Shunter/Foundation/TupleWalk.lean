import Shunter.Foundation.TupleDelta

/-!
# Walks over tuples

A nested loop builds tuples one item at a time.  At each depth it draws from
candidates that may depend on the tuple so far, and gives a tuple up as soon
as a test fails.  It visits the tuples of the product that pass the test, when
a tuple that fails cannot be completed to one that passes and the candidates
leave out nothing that passes.
-/

namespace Foundation

variable {α : Type*} (keep : List α → Bool)

/-- The completions of a tuple, with one function for the candidates at each depth. -/
def walk : List (List α → List α) → List α → List (List α)
  | [], t => [t]
  | rows :: rest, t => (rows t).flatMap fun a =>
    if keep (t ++ [a]) then walk rest (t ++ [a]) else []

/-- The candidates at each depth are the items of a list, up to some that fail the test. -/
def Candidates : Nat → List (List α → List α) → List (List α) → Prop
  | _, [], [] => True
  | depth, rows :: rest, l :: ls =>
    (∀ t, t.length = depth → keep t = true →
      ((rows t).filter fun a => keep (t ++ [a])).Perm (l.filter fun a => keep (t ++ [a]))) ∧
    Candidates (depth + 1) rest ls
  | _, _, _ => False

theorem candidates_all (depth : Nat) (ls : List (List α)) :
    Candidates keep depth (ls.map fun l _ => l) ls := by
  induction ls generalizing depth with
  | nil => trivial
  | cons l ls ih => exact ⟨fun _ _ _ => .refl _, ih (depth + 1)⟩

theorem candidates_range' (rows : Nat → List α → List α) (ls : List (List α)) (depth : Nat)
    (h : ∀ d l, ls[d]? = some l → ∀ t, t.length = depth + d → keep t = true →
      ((rows (depth + d) t).filter fun a => keep (t ++ [a])).Perm
        (l.filter fun a => keep (t ++ [a]))) :
    Candidates keep depth ((List.range' depth ls.length).map rows) ls := by
  induction ls generalizing depth with
  | nil => trivial
  | cons l ls ih =>
    refine ⟨h 0 l rfl, ih (depth + 1) fun d l' hl' => ?_⟩
    rw [Nat.add_right_comm, Nat.add_assoc]
    exact h (d + 1) l' hl'

/-- A test that looks at the last item only, as long as the items before it have passed. -/
theorem walk_congr {keep keep' : List α → Bool}
    (h : ∀ t a, keep' t = true → keep (t ++ [a]) = keep' (t ++ [a]))
    (cands : List (List α → List α)) {t : List α} (ht : keep' t = true) :
    walk keep cands t = walk keep' cands t := by
  induction cands generalizing t with
  | nil => rfl
  | cons rows rest ih =>
    rw [walk, walk]
    congr 1
    funext a
    rw [h t a ht]
    cases ha : keep' (t ++ [a]) with
    | true => simp only [if_true]; exact ih ha
    | false => rfl

variable {keep}

theorem keep_of_append (hmono : ∀ t a, keep (t ++ [a]) = true → keep t = true) {t u : List α}
    (h : keep (t ++ u) = true) : keep t = true := by
  induction u generalizing t with
  | nil => simpa using h
  | cons a u ih =>
    apply hmono t a
    apply ih
    simpa using h

theorem flatMap_if_filter {β : Type*} (p : α → Bool) (f : α → List β) (l : List α) :
    (l.flatMap fun a => if p a then f a else []) = (l.filter p).flatMap f := by
  induction l with
  | nil => rfl
  | cons a l ih => cases ha : p a <;> simp [ha, ih]

theorem walk_perm (hmono : ∀ t a, keep (t ++ [a]) = true → keep t = true)
    {cands : List (List α → List α)} {ls : List (List α)} {t : List α}
    (h : Candidates keep t.length cands ls) (ht : keep t = true) :
    (walk keep cands t).Perm (((tuples ls).map (t ++ ·)).filter keep) := by
  induction cands generalizing ls t with
  | nil =>
    cases ls with
    | nil => simp [walk, tuples, ht]
    | cons l ls => exact h.elim
  | cons rows rest ih =>
    cases ls with
    | nil => exact h.elim
    | cons l ls =>
      have hstep : ∀ a, keep (t ++ [a]) = true →
          (walk keep rest (t ++ [a])).Perm
            (((tuples ls).map ((t ++ [a]) ++ ·)).filter keep) := by
        intro a ha
        apply ih _ ha
        rw [List.length_append]
        exact h.2
      -- An item that fails the test has no completion that passes it.
      have hfail : ∀ a, keep (t ++ [a]) = false →
          (((tuples ls).map ((t ++ [a]) ++ ·)).filter keep) = [] := by
        intro a ha
        rw [List.filter_eq_nil_iff]
        intro u hu hkeep
        obtain ⟨v, -, rfl⟩ := List.mem_map.mp hu
        rw [keep_of_append hmono hkeep] at ha
        cases ha
      have htuples : ((tuples (l :: ls)).map (t ++ ·)).filter keep =
          l.flatMap fun a => if keep (t ++ [a]) then
            ((tuples ls).map ((t ++ [a]) ++ ·)).filter keep else [] := by
        rw [tuples, consAll, List.map_flatMap, List.filter_flatMap]
        congr 1
        funext a
        cases ha : keep (t ++ [a]) with
        | true => simp [Function.comp_def]
        | false => simpa [Function.comp_def] using hfail a ha
      rw [walk, htuples, flatMap_if_filter, flatMap_if_filter]
      refine (List.Perm.flatMap_right _ (h.1 t rfl ht)).trans ?_
      apply List.Perm.flatMap_left
      intro a ha
      exact hstep a (List.mem_filter.mp ha).2

end Foundation

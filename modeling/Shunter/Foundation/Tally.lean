import Shunter.Foundation.Bag

/-!
# Tallies

Counts of keyed items in the order in which the keys first occur.  Each
occurrence adds the same amount, modulo the size of the counter.  The
difference of two tallies lists each item as often as the first counts it more
than the second.
-/

namespace Foundation

variable {α κ μ : Type*} [DecidableEq κ]

structure Tallied (κ α : Type*) where
  key : κ
  item : α
  count : Nat

variable (modulus step : Nat)

def bump (key : κ) (a : α) : List (Tallied κ α) → List (Tallied κ α)
  | [] => [⟨key, a, step % modulus⟩]
  | e :: es =>
    if e.key = key then { e with count := (e.count + step) % modulus } :: es
    else e :: bump key a es

def tally (l : List (κ × α)) : List (Tallied κ α) :=
  l.foldl (fun es ka => bump modulus step ka.1 ka.2 es) []

def countOf (es : List (Tallied κ α)) (key : κ) : Nat :=
  ((es.find? fun e => e.key = key).map Tallied.count).getD 0

def surplus (es es' : List (Tallied κ α)) : List α :=
  es.flatMap fun e => List.replicate (e.count - countOf es' e.key) e.item

section Bump

variable {modulus step} {key key' : κ} {a : α} {es : List (Tallied κ α)}

theorem countOf_bump : countOf (bump modulus step key a es) key' =
    if key = key' then (countOf es key' + step) % modulus else countOf es key' := by
  induction es with
  | nil =>
    by_cases h : key = key' <;> simp [bump, countOf, h]
  | cons e es ih =>
    rw [bump]
    by_cases he : e.key = key
    · by_cases h : key = key' <;> simp [countOf, he, h]
    · by_cases h' : e.key = key'
      · have hne : ¬ key = key' := fun h => he (h'.trans h.symm)
        rw [if_neg he]
        simp [countOf, h', hne]
      · rw [if_neg he]
        simpa [countOf, h'] using ih

theorem keys_bump : (bump modulus step key a es).map Tallied.key =
    if key ∈ es.map Tallied.key then es.map Tallied.key else es.map Tallied.key ++ [key] := by
  induction es with
  | nil => simp [bump]
  | cons e es ih =>
    rw [bump]
    by_cases he : e.key = key
    · simp [he]
    · rw [if_neg he, List.map_cons, ih]
      have hne : ¬ key = e.key := fun h => he h.symm
      simp only [List.map_cons, List.mem_cons, hne, false_or]
      split <;> rfl

theorem mem_bump {e : Tallied κ α} (h : e ∈ bump modulus step key a es) :
    (e.key, e.item) = (key, a) ∨ ∃ e' ∈ es, (e.key, e.item) = (e'.key, e'.item) := by
  induction es with
  | nil =>
    rw [bump, List.mem_singleton] at h
    exact .inl (by rw [h])
  | cons e' es ih =>
    rw [bump] at h
    split at h
    · rcases List.mem_cons.mp h with rfl | h
      · exact .inr ⟨e', by simp, rfl⟩
      · exact .inr ⟨e, by simp [h], rfl⟩
    · rcases List.mem_cons.mp h with rfl | h
      · exact .inr ⟨e, by simp, rfl⟩
      · rcases ih h with h | ⟨e'', he'', heq⟩
        · exact .inl h
        · exact .inr ⟨e'', by simp [he''], heq⟩

end Bump

/-- A tally has each key once, with an item that has the key. -/
structure IsTally (es : List (Tallied κ α)) (l : List (κ × α)) : Prop where
  nodup : (es.map Tallied.key).Nodup
  item : ∀ e ∈ es, (e.key, e.item) ∈ l
  count : ∀ key, countOf es key = step * (l.countP fun ka => ka.1 = key) % modulus

theorem tally_isTally (l : List (κ × α)) : IsTally modulus step (tally modulus step l) l := by
  induction l using List.reverseRecOn with
  | nil => exact ⟨.nil, by simp [tally], by simp [tally, countOf]⟩
  | append_singleton l ka ih =>
    have htally : tally modulus step (l ++ [ka]) =
        bump modulus step ka.1 ka.2 (tally modulus step l) := by
      simp [tally]
    rw [htally]
    constructor
    · rw [keys_bump]
      split
      · exact ih.nodup
      · next hnew =>
        rw [List.nodup_append_comm, List.singleton_append, List.nodup_cons]
        exact ⟨hnew, ih.nodup⟩
    · intro e he
      rw [List.mem_append, List.mem_singleton]
      rcases mem_bump he with heq | ⟨e', he', heq⟩
      · exact .inr heq
      · exact .inl (heq ▸ ih.item e' he')
    · intro key
      rw [countOf_bump, ih.count, List.countP_append, List.countP_singleton]
      by_cases hkey : ka.1 = key
      · simp [hkey, Nat.mul_add]
      · simp [hkey]

theorem count_surplus [DecidableEq μ] {cls : α → μ} {es es' : List (Tallied κ α)}
    (hnodup : (es.map Tallied.key).Nodup) {b : α} {key : κ}
    (hkey : ∀ e ∈ es, e.key = key ↔ cls e.item = cls b) :
    (bag cls (surplus es es')).count (cls b) = countOf es key - countOf es' key := by
  induction es with
  | nil => simp [surplus, countOf]
  | cons e es ih =>
    rw [List.map_cons, List.nodup_cons] at hnodup
    obtain ⟨he, htail⟩ := List.forall_mem_cons.mp hkey
    have hsplit : (bag cls (surplus (e :: es) es')).count (cls b) =
        (if cls e.item = cls b then e.count - countOf es' e.key else 0) +
          (bag cls (surplus es es')).count (cls b) := by
      rw [surplus, List.flatMap_cons, bag_append, Multiset.count_add, ← surplus]
      congr 1
      simp [bag, List.count_replicate]
    rw [hsplit, ih hnodup.2 htail]
    by_cases h : e.key = key
    · -- No other entry has this key.
      have hnone : countOf es key = 0 := by
        have hfind : es.find? (fun e => e.key = key) = none := by
          rw [List.find?_eq_none]
          intro e' he' heq
          apply hnodup.1
          rw [h, ← of_decide_eq_true heq]
          exact List.mem_map_of_mem he'
        rw [countOf, hfind]
        rfl
      rw [if_pos (he.mp h), hnone]
      simp [countOf, h]
    · rw [if_neg (mt he.mpr h)]
      simp [countOf, h]

end Foundation

import Shunter.Foundation.Bag
import Shunter.Foundation.BucketMap

/-!
# Counted buckets

A bag kept as a hash map: under each hash the items with that hash, each with
the number of its occurrences.  An item whose count has gone down to zero
stays in its bucket.
-/

namespace Foundation

open Std (ExtTreeMap TransOrd LawfulEqOrd)

def updateFirst {β : Type*} (p : β → Bool) (g : β → β) : List β → Option (List β)
  | [] => none
  | b :: l => if p b then some (g b :: l) else (updateFirst p g l).map (b :: ·)

theorem updateFirst_eq_none {β : Type*} {p : β → Bool} {g : β → β} {l : List β} :
    updateFirst p g l = none ↔ ∀ b ∈ l, p b = false := by
  induction l with
  | nil => simp [updateFirst]
  | cons b l ih => cases hb : p b <;> simp [updateFirst, hb, ih]

theorem updateFirst_eq_some {β : Type*} {p : β → Bool} {g : β → β} {l l' : List β}
    (h : updateFirst p g l = some l') :
    ∃ l₁ b l₂, l = l₁ ++ b :: l₂ ∧ p b = true ∧ l' = l₁ ++ g b :: l₂ := by
  induction l generalizing l' with
  | nil => cases h
  | cons b l ih =>
    rw [updateFirst] at h
    split at h
    · next hb =>
      cases h
      exact ⟨[], b, l, rfl, hb, rfl⟩
    · obtain ⟨rest, hrest, rfl⟩ := Option.map_eq_some_iff.mp h
      obtain ⟨l₁, b', l₂, rfl, hb', rfl⟩ := ih hrest
      exact ⟨b :: l₁, b', l₂, rfl, hb', rfl⟩

structure Counted (α : Type*) where
  item : α
  count : Nat

abbrev CountedBuckets (η α : Type*) [Ord η] := BucketMap η (Counted α)

namespace CountedBuckets

variable {α η κ : Type*} [Ord η] [TransOrd η] {hash : α → η} {eqv : α → α → Bool} {cls : α → κ}
  {m m' : CountedBuckets η α} {a b : α}

section Operations

variable (hash eqv)

/-- One more occurrence.  The result says where a new entry has been put, if there is one. -/
def increment (m : CountedBuckets η α) (a : α) : CountedBuckets η α × Option (η × Nat) :=
  let bucket := m.bucket (hash a)
  match updateFirst (fun c => eqv c.item a) (fun c => { c with count := c.count + 1 }) bucket with
  | some bucket => (m.insert (hash a) bucket, none)
  | none => (m.push (hash a) ⟨a, 1⟩, some (hash a, bucket.length))

def decrement (m : CountedBuckets η α) (a : α) : Option (CountedBuckets η α) :=
  (updateFirst (fun c => 0 < c.count && eqv c.item a) (fun c => { c with count := c.count - 1 })
    (m.bucket (hash a))).map (m.insert (hash a))

def held (m : CountedBuckets η α) (b : α) : Nat :=
  total (fun c => if eqv c.item b then c.count else 0) (m.bucket (hash b))

end Operations

theorem bucket_insert [LawfulEqOrd η] [DecidableEq η] (m : CountedBuckets η α) (k k' : η)
    (l : List (Counted α)) :
    BucketMap.bucket (m.insert k l) k' = if k = k' then l else m.bucket k' := by
  simp only [BucketMap.bucket, get_insert]
  split <;> rfl

/-- Items are equal when they have the same class, and then they have the same hash. -/
structure Classified (hash : α → η) (eqv : α → α → Bool) (cls : α → κ) : Prop where
  eqv_iff : ∀ a b, eqv a b = true ↔ cls a = cls b
  hash_eq : ∀ a b, cls a = cls b → hash a = hash b

theorem held_empty (hash : α → η) (eqv : α → α → Bool) (b : α) :
    held hash eqv (∅ : CountedBuckets η α) b = 0 := by
  simp [held]

theorem held_congr [DecidableEq κ] (hc : Classified hash eqv cls) (h : cls a = cls b) :
    held hash eqv m a = held hash eqv m b := by
  simp only [held, hc.hash_eq _ _ h, hc.eqv_iff, h]

theorem decrement_eq_none :
    decrement hash eqv m a = none ↔ held hash eqv m a = 0 := by
  rw [decrement, Option.map_eq_none_iff, updateFirst_eq_none, held]
  generalize m.bucket (hash a) = l
  induction l with
  | nil => simp
  | cons c l ih =>
    rw [List.forall_mem_cons, ih, total_cons, Nat.add_eq_zero_iff]
    cases hca : eqv c.item a <;> simp

section Held

variable [LawfulEqOrd η] [DecidableEq η] [DecidableEq κ]

theorem held_insert (k : η) (l : List (Counted α)) :
    held hash eqv (m.insert k l) b =
      if k = hash b then total (fun c => if eqv c.item b then c.count else 0) l
      else held hash eqv m b := by
  rw [held, bucket_insert]
  split <;> rfl

theorem held_increment (hc : Classified hash eqv cls) :
    held hash eqv (increment hash eqv m a).1 b =
      held hash eqv m b + if cls a = cls b then 1 else 0 := by
  have hcls : hash a ≠ hash b → ¬ cls a = cls b := fun h hab => h (hc.hash_eq a b hab)
  unfold increment
  dsimp only
  split
  · next bucket hbucket =>
    obtain ⟨l₁, c, l₂, hold, hca, rfl⟩ := updateFirst_eq_some hbucket
    have hitem : eqv c.item b = true ↔ cls a = cls b := by
      rw [hc.eqv_iff, (hc.eqv_iff c.item a).mp hca]
    rw [held_insert]
    split
    · next h =>
      rw [held, ← h, hold]
      by_cases hab : cls a = cls b <;> simp [hitem, hab]
      omega
    · next h => simp [hcls h]
  · rw [BucketMap.push, held_insert]
    split
    · next h =>
      rw [held, ← h]
      by_cases hab : cls a = cls b <;> simp [hc.eqv_iff, hab]
    · next h => simp [hcls h]

theorem held_decrement (hc : Classified hash eqv cls) (h : decrement hash eqv m a = some m') :
    held hash eqv m b = held hash eqv m' b + if cls a = cls b then 1 else 0 := by
  have hcls : hash a ≠ hash b → ¬ cls a = cls b := fun h hab => h (hc.hash_eq a b hab)
  obtain ⟨bucket, hbucket, rfl⟩ := Option.map_eq_some_iff.mp h
  obtain ⟨l₁, c, l₂, hold, hca, rfl⟩ := updateFirst_eq_some hbucket
  simp only [Bool.and_eq_true, decide_eq_true_eq] at hca
  have hitem : eqv c.item b = true ↔ cls a = cls b := by
    rw [hc.eqv_iff, (hc.eqv_iff c.item a).mp hca.2]
  rw [held_insert]
  split
  · next h =>
    rw [held, ← h, hold]
    by_cases hab : cls a = cls b <;> simp [hitem, hab]
    omega
  · next h => simp [hcls h]

end Held

/-! ## Items in the order in which they came -/

section Order

def emitted (m : CountedBuckets η α) (order : List (η × Nat)) : List α :=
  order.flatMap fun ref =>
    ((m.bucket ref.1)[ref.2]?.map fun c => List.replicate c.count c.item).getD []

structure Lists [DecidableEq η] (hash : α → η) (m : CountedBuckets η α) (order : List (η × Nat)) :
    Prop where
  positions : ∀ k, (order.filter fun ref => ref.1 = k).map Prod.snd =
    List.range (m.bucket k).length
  hashes : ∀ k, ∀ c ∈ m.bucket k, hash c.item = k

theorem total_filter {M : Type*} [AddCommMonoid M] {f : α → M} {p : α → Bool} {l : List α}
    (h : ∀ a ∈ l, p a = false → f a = 0) : total f (l.filter p) = total f l := by
  induction l with
  | nil => rfl
  | cons a l ih =>
    obtain ⟨ha, hl⟩ := List.forall_mem_cons.mp h
    cases hp : p a with
    | true => simp [hp, ih hl]
    | false => simp [hp, ih hl, ha hp]

theorem total_range_getElem? {M : Type*} [AddCommMonoid M] (f : Option α → M) (l : List α) :
    total (fun i => f l[i]?) (List.range l.length) = total (fun a => f (some a)) l := by
  induction l with
  | nil => rfl
  | cons a l ih =>
    rw [List.length_cons, List.range_succ_eq_map, total_cons, total_map, total_cons, ← ih]
    simp [Function.comp_def]

variable [DecidableEq η] [DecidableEq κ] {order : List (η × Nat)}

theorem count_emitted (hc : Classified hash eqv cls) (h : Lists hash m order) :
    (bag cls (emitted m order)).count (cls b) = held hash eqv m b := by
  -- What the entry at a position contributes to the class.
  let weight : Option (Counted α) → Nat := fun c =>
    (c.map fun c => if eqv c.item b then c.count else 0).getD 0
  have hcount : ∀ l, (bag cls (emitted m l)).count (cls b) =
      total (fun ref => weight (m.bucket ref.1)[ref.2]?) l := by
    intro l
    induction l with
    | nil => rfl
    | cons ref l ih =>
      rw [emitted, List.flatMap_cons, bag_append, Multiset.count_add, total_cons, ← ih]
      congr 1
      cases (m.bucket ref.1)[ref.2]? with
      | none => rfl
      | some c => simp [weight, bag, List.count_replicate, hc.eqv_iff]
  have hother : ∀ ref ∈ order, decide (ref.1 = hash b) = false →
      weight (m.bucket ref.1)[ref.2]? = 0 := by
    intro ref _ hne
    cases hentry : (m.bucket ref.1)[ref.2]? with
    | none => rfl
    | some c =>
      have hhash := h.hashes ref.1 c (List.mem_of_getElem? hentry)
      have hitem : ¬ eqv c.item b = true := by
        rw [hc.eqv_iff]
        intro hcb
        exact of_decide_eq_false hne (hhash.symm.trans (hc.hash_eq _ _ hcb))
      simp [weight, hitem]
  calc (bag cls (emitted m order)).count (cls b)
      = total (fun ref => weight (m.bucket ref.1)[ref.2]?)
          (order.filter fun ref => ref.1 = hash b) := by rw [hcount order, total_filter hother]
    _ = total (fun i => weight (m.bucket (hash b))[i]?)
          ((order.filter fun ref => ref.1 = hash b).map Prod.snd) := by
        rw [total_map]
        apply total_congr
        intro ref href
        rw [of_decide_eq_true (List.mem_filter.mp href).2]
        rfl
    _ = held hash eqv m b := by
        rw [h.positions, total_range_getElem?]
        rfl

theorem Lists.empty : Lists hash (∅ : CountedBuckets η α) [] :=
  ⟨fun k => by simp, fun k c hc => by simp at hc⟩

variable [LawfulEqOrd η]

theorem Lists.recount (h : Lists hash m order) {k : η} {l₁ l₂ : List (Counted α)} {c : Counted α}
    (hold : m.bucket k = l₁ ++ c :: l₂) (n : Nat) :
    Lists hash (m.insert k (l₁ ++ { c with count := n } :: l₂)) order := by
  constructor
  · intro k'
    rw [h.positions k', bucket_insert]
    split
    · next hk =>
      rw [← hk, hold]
      simp
    · rfl
  · intro k' c' hc'
    rw [bucket_insert] at hc'
    split at hc'
    · next hk =>
      subst hk
      have hmem := h.hashes k
      simp only [hold, List.forall_mem_append, List.forall_mem_cons] at hmem
      simp only [List.mem_append, List.mem_cons] at hc'
      rcases hc' with hc' | rfl | hc'
      · exact hmem.1 c' hc'
      · exact hmem.2.1
      · exact hmem.2.2 c' hc'
    · exact h.hashes k' c' hc'

theorem Lists.increment (h : Lists hash m order) (a : α) :
    Lists hash (increment hash eqv m a).1 (order ++ (increment hash eqv m a).2.toList) := by
  unfold CountedBuckets.increment
  dsimp only
  split
  · next bucket hbucket =>
    obtain ⟨l₁, c, l₂, hold, -, rfl⟩ := updateFirst_eq_some hbucket
    simpa using h.recount hold (c.count + 1)
  · rw [BucketMap.push]
    constructor
    · intro k
      rw [List.filter_append, List.map_append, h.positions k, bucket_insert]
      by_cases hk : hash a = k
      · simp [hk, List.range_succ]
      · simp [hk]
    · intro k c hc
      rw [bucket_insert] at hc
      split at hc
      · next hk =>
        subst hk
        rcases List.mem_append.mp hc with hc | hc
        · exact h.hashes _ c hc
        · rw [List.mem_singleton.mp hc]
      · exact h.hashes k c hc

theorem Lists.decrement (h : Lists hash m order) (hdec : decrement hash eqv m a = some m') :
    Lists hash m' order := by
  obtain ⟨bucket, hbucket, rfl⟩ := Option.map_eq_some_iff.mp hdec
  obtain ⟨l₁, c, l₂, hold, -, rfl⟩ := updateFirst_eq_some hbucket
  exact h.recount hold (c.count - 1)

end Order

/-! ## Counting and dropping -/

section Loops

variable (hash eqv)

def countAll (l : List α) : CountedBuckets η α :=
  l.foldl (fun m a => (increment hash eqv m a).1) ∅

def dropHeld (m : CountedBuckets η α) : List α → List α
  | [] => []
  | a :: l =>
    match decrement hash eqv m a with
    | some m => dropHeld m l
    | none => a :: dropHeld m l

variable {hash eqv}

theorem mem_of_mem_dropHeld {l : List α} (h : a ∈ dropHeld hash eqv m l) : a ∈ l := by
  induction l generalizing m with
  | nil => simp [dropHeld] at h
  | cons b l ih =>
    rw [dropHeld] at h
    split at h
    · exact List.mem_cons_of_mem b (ih h)
    · rcases List.mem_cons.mp h with rfl | h
      · exact List.mem_cons_self
      · exact List.mem_cons_of_mem b (ih h)

variable [LawfulEqOrd η] [DecidableEq η] [DecidableEq κ]

theorem held_countAll (hc : Classified hash eqv cls) (l : List α) (b : α) :
    held hash eqv (countAll hash eqv l) b = (bag cls l).count (cls b) := by
  have hfold : ∀ m : CountedBuckets η α,
      held hash eqv (l.foldl (fun m a => (increment hash eqv m a).1) m) b =
        held hash eqv m b + (bag cls l).count (cls b) := by
    induction l with
    | nil => simp
    | cons a l ih =>
      intro m
      rw [List.foldl_cons, ih, held_increment hc, bag_cons, Multiset.count_cons]
      simp only [eq_comm]
      omega
  rw [countAll, hfold, held_empty, Nat.zero_add]

theorem count_dropHeld (hc : Classified hash eqv cls) (m : CountedBuckets η α) (l : List α)
    (b : α) :
    (bag cls (dropHeld hash eqv m l)).count (cls b) =
      (bag cls l).count (cls b) - held hash eqv m b := by
  induction l generalizing m with
  | nil => simp [dropHeld]
  | cons a l ih =>
    rw [dropHeld, bag_cons, Multiset.count_cons]
    cases hdec : decrement hash eqv m a with
    | some m' =>
      have hheld := held_decrement (b := b) hc hdec
      rw [ih, hheld]
      simp only [eq_comm]
      split <;> omega
    | none =>
      rw [bag_cons, Multiset.count_cons, ih]
      split
      · next hab =>
        have hzero := decrement_eq_none.mp hdec
        have hheld : held hash eqv m b = held hash eqv m a := held_congr hc hab
        omega
      · omega

theorem bag_dropHeld (hc : Classified hash eqv cls) {l part rest : List α}
    (h : bag cls l = bag cls rest + bag cls part) :
    bag cls (dropHeld hash eqv (countAll hash eqv part) l) = bag cls rest := by
  apply bag_ext
  intro b
  rw [count_dropHeld hc, held_countAll hc, h, Multiset.count_add, Nat.add_sub_cancel]

end Loops

end CountedBuckets

/-! ## Distinct items -/

/-- A set of items, those of one class being the same item, with a counter for its size. -/
structure DistinctBuckets (η α : Type*) [Ord η] where
  buckets : BucketMap η α
  n : Nat

namespace DistinctBuckets

variable {α η κ : Type*} [Ord η] [TransOrd η]

def empty : DistinctBuckets η α := ⟨∅, 0⟩

def contains (hash : α → η) (eqv : α → α → Bool) (s : DistinctBuckets η α) (a : α) : Bool :=
  (s.buckets.bucket (hash a)).any (eqv a)

def add (hash : α → η) (eqv : α → α → Bool) (s : DistinctBuckets η α) (a : α) :
    DistinctBuckets η α :=
  if s.contains hash eqv a then s else ⟨s.buckets.push (hash a) a, s.n + 1⟩

variable {hash : α → η} {eqv : α → α → Bool} {cls : α → κ} {s : DistinctBuckets η α}
  {seen : Finset κ}

structure Holds (hash : α → η) (eqv : α → α → Bool) (cls : α → κ) (s : DistinctBuckets η α)
    (seen : Finset κ) : Prop where
  contains_iff : ∀ a, s.contains hash eqv a = true ↔ cls a ∈ seen
  size : s.n = seen.card

theorem holds_empty : Holds hash eqv cls (empty : DistinctBuckets η α) ∅ where
  contains_iff := by simp [contains, empty]
  size := rfl

variable [LawfulEqOrd η] [DecidableEq η] [DecidableEq κ]

theorem Holds.add (h : Holds hash eqv cls s seen)
    (hc : CountedBuckets.Classified hash eqv cls) (a : α) :
    Holds hash eqv cls (s.add hash eqv a) (insert (cls a) seen) := by
  unfold DistinctBuckets.add
  split
  · next hmem => rwa [Finset.insert_eq_of_mem ((h.contains_iff a).mp hmem)]
  · next hmem =>
    have hnot : cls a ∉ seen := fun hseen => hmem ((h.contains_iff a).mpr hseen)
    refine ⟨fun b => ?_, ?_⟩
    · have hb := h.contains_iff b
      unfold contains at hb ⊢
      rw [BucketMap.bucket_push, Finset.mem_insert, ← hb]
      split
      · rw [List.any_append, Bool.or_eq_true]
        simp only [List.any_cons, List.any_nil, Bool.or_false, hc.eqv_iff]
        exact or_comm
      · next hhash =>
        have hne : cls b ≠ cls a := fun heq => hhash (hc.hash_eq b a heq).symm
        simp [hne]
    · rw [h.size, Finset.card_insert_of_notMem hnot]

theorem holds_foldl (hc : CountedBuckets.Classified hash eqv cls) (l : List α) :
    ∀ {s : DistinctBuckets η α} {seen : Finset κ}, Holds hash eqv cls s seen →
      Holds hash eqv cls (l.foldl (DistinctBuckets.add hash eqv) s)
        (seen ∪ (l.map cls).toFinset) := by
  induction l with
  | nil => simp
  | cons a l ih =>
    intro s seen h
    have hrest := ih (h.add hc a)
    rwa [Finset.insert_union, ← Finset.union_insert, ← List.toFinset_cons, ← List.map_cons]
      at hrest

theorem n_foldl (hc : CountedBuckets.Classified hash eqv cls) (l : List α) :
    (l.foldl (DistinctBuckets.add hash eqv) empty).n = (l.map cls).toFinset.card := by
  simpa using (holds_foldl hc l holds_empty).size

end DistinctBuckets

end Foundation

import Mathlib

/-!
# Bags of classes

Two items of a list count as the same when they have the same class.  The bag
of a list keeps the classes with their multiplicities and forgets the order.
A sum over a list whose summands only depend on the class is a sum over its
bag, so an equation of bags gives an equation of sums.
-/

namespace Foundation

variable {α β κ μ M : Type*}

def bag (cls : α → κ) (l : List α) : Multiset κ := l.map cls

section Bag

variable (cls : α → κ)

@[simp] theorem bag_nil : bag cls [] = 0 := rfl

@[simp] theorem bag_cons (a : α) (l : List α) : bag cls (a :: l) = cls a ::ₘ bag cls l := rfl

@[simp] theorem bag_append (l l' : List α) : bag cls (l ++ l') = bag cls l + bag cls l' := by
  simp [bag]

theorem bag_perm {l l' : List α} (h : l.Perm l') : bag cls l = bag cls l' :=
  Multiset.coe_eq_coe.mpr (h.map cls)

theorem mem_bag {k : κ} {l : List α} : k ∈ bag cls l ↔ ∃ a ∈ l, cls a = k := by
  simp [bag]

theorem bag_map (f : β → α) (l : List β) : bag cls (l.map f) = bag (cls ∘ f) l := by
  simp [bag]

theorem count_bag [DecidableEq κ] (k : κ) (l : List α) :
    (bag cls l).count k = l.countP fun a => cls a = k := by
  induction l with
  | nil => rfl
  | cons a l ih =>
    rw [bag_cons, Multiset.count_cons, ih, List.countP_cons]
    simp [eq_comm]

theorem bag_ext [DecidableEq κ] {l l' : List α}
    (h : ∀ a, (bag cls l).count (cls a) = (bag cls l').count (cls a)) : bag cls l = bag cls l' := by
  ext k
  by_cases hk : ∃ a, cls a = k
  · obtain ⟨a, rfl⟩ := hk
    exact h a
  · have hzero : ∀ l : List α, (bag cls l).count k = 0 := by
      intro l
      rw [Multiset.count_eq_zero, mem_bag]
      rintro ⟨a, -, ha⟩
      exact hk ⟨a, ha⟩
    rw [hzero, hzero]

end Bag

/-! ## Sums over lists -/

section Total

variable [AddCommMonoid M]

def total (f : α → M) (l : List α) : M := (l.map f).sum

@[simp] theorem total_nil (f : α → M) : total f [] = 0 := rfl

@[simp] theorem total_cons (f : α → M) (a : α) (l : List α) :
    total f (a :: l) = f a + total f l := by
  simp [total]

@[simp] theorem total_append (f : α → M) (l l' : List α) :
    total f (l ++ l') = total f l + total f l' := by
  simp [total]

theorem total_add (f g : α → M) (l : List α) :
    total (fun a => f a + g a) l = total f l + total g l :=
  List.sum_map_add

theorem total_map (f : α → M) (g : β → α) (l : List β) : total f (l.map g) = total (f ∘ g) l := by
  simp [total]

theorem total_flatMap (f : α → M) (g : β → List α) (l : List β) :
    total f (l.flatMap g) = total (fun b => total f (g b)) l := by
  induction l with
  | nil => rfl
  | cons b l ih => simp [ih]

theorem total_zero (l : List α) : total (fun _ => (0 : M)) l = 0 := by
  induction l with
  | nil => rfl
  | cons a l ih => simp [ih]

theorem total_comm (f : α → β → M) (l : List α) (l' : List β) :
    total (fun a => total (f a) l') l = total (fun b => total (fun a => f a b) l) l' := by
  induction l with
  | nil => simp [total_zero]
  | cons a l ih => simp [ih, total_add]

theorem total_congr {f g : α → M} {l : List α} (h : ∀ a ∈ l, f a = g a) :
    total f l = total g l := by
  rw [total, List.map_congr_left h, total]

theorem bag_flatMap (cls : α → κ) (f : β → List α) (l : List β) :
    bag cls (l.flatMap f) = total (fun b => bag cls (f b)) l := by
  induction l with
  | nil => rfl
  | cons b l ih => simp [ih]

theorem bag_eq_total (cls : α → κ) (l : List α) : bag cls l = total (fun a => {cls a}) l := by
  induction l with
  | nil => rfl
  | cons a l ih => simp [ih]

variable {cls : α → κ}

/-- Sums over lists with the same bag agree when the summand only depends on the class. -/
theorem total_of_bag_eq {f : α → M} (hf : f.FactorsThrough cls) {l l' : List α}
    (h : bag cls l = bag cls l') : total f l = total f l' := by
  have hsum : ∀ l : List α, total f l = ((bag cls l).map (Function.extend cls f 0)).sum := by
    intro l
    simp only [bag, total, Multiset.map_coe, List.map_map, Multiset.sum_coe]
    congr 1
    apply List.map_congr_left
    intro a _
    exact (hf.extend_apply 0 a).symm
  rw [hsum l, hsum l', h]

theorem total_pairs_congr {cls' : β → μ} {f : α → β → M}
    (hleft : ∀ b, (fun a => f a b).FactorsThrough cls) (hright : ∀ a, (f a).FactorsThrough cls')
    {l l' : List α} {r r' : List β} (hl : bag cls l = bag cls l') (hr : bag cls' r = bag cls' r') :
    total (fun a => total (f a) r) l = total (fun a => total (f a) r') l' := by
  rw [total_congr fun a _ => total_of_bag_eq (hright a) hr]
  apply total_of_bag_eq _ hl
  intro a a' haa'
  exact total_congr fun b _ => hleft b haa'

end Total

theorem sum_map_total {f : α → M} [AddCommMonoid M] (g : β → Multiset α) (l : List β) :
    ((total g l).map f).sum = total (fun b => ((g b).map f).sum) l := by
  induction l with
  | nil => rfl
  | cons b l ih => simp [ih]

theorem total_eq_sum_map [AddCommMonoid M] (f : α → M) (l : List α) :
    total f l = ((bag id l).map f).sum := by
  simp [bag, total]

theorem bag_map_of_bag_eq {cls : α → κ} {f : α → α} (hf : (cls ∘ f).FactorsThrough cls)
    {l l' : List α} (h : bag cls l = bag cls l') : bag cls (l.map f) = bag cls (l'.map f) := by
  rw [bag_map, bag_map, bag_eq_total, bag_eq_total]
  refine total_of_bag_eq (fun a b hab => ?_) h
  exact congrArg _ (hf hab)

/-! ## Counts -/

theorem count_total [DecidableEq κ] (k : κ) (f : α → Multiset κ) (l : List α) :
    (total f l).count k = total (fun a => (f a).count k) l := by
  induction l with
  | nil => rfl
  | cons a l ih => simp [ih]

theorem count_bag_eq_total [DecidableEq κ] (cls : α → κ) (k : κ) (l : List α) :
    (bag cls l).count k = total (fun a => if cls a = k then 1 else 0) l := by
  rw [bag_eq_total, count_total]
  simp [Multiset.count_singleton, eq_comm]

theorem total_const (n : Nat) (l : List α) : total (fun _ => n) l = l.length * n := by
  simp [total]

theorem total_mul (n : Nat) (f : α → Nat) (l : List α) :
    total (fun a => n * f a) l = n * total f l := by
  simp [total, List.sum_map_mul_left]

theorem total_mono {f g : α → Nat} (h : ∀ a, f a ≤ g a) (l : List α) : total f l ≤ total g l := by
  induction l with
  | nil => exact le_rfl
  | cons a l ih =>
    rw [total_cons, total_cons]
    exact Nat.add_le_add (h a) ih

variable {cls : α → κ}

theorem bag_filter (p : α → Bool) (l : List α) :
    bag cls (l.filter p) = total (fun a => if p a then {cls a} else 0) l := by
  induction l with
  | nil => rfl
  | cons a l ih => cases hpa : p a <;> simp [hpa, ih]

theorem bag_filterMap_filter (f : β → Option α) (p : β → Bool) (l : List β) :
    bag cls ((l.filter p).filterMap f) =
      total (fun b => if p b then bag cls (f b).toList else 0) l := by
  induction l with
  | nil => rfl
  | cons b l ih =>
    cases hb : p b with
    | false => simp [hb, ih]
    | true => cases hf : f b <;> simp [hb, hf, ih]

theorem bag_filterMap (f : β → Option α) (l : List β) :
    bag cls (l.filterMap f) = total (fun b => bag cls (f b).toList) l := by
  induction l with
  | nil => rfl
  | cons b l ih => cases hf : f b <;> simp [hf, ih]

theorem countP_eq_total (p : α → Bool) (l : List α) :
    l.countP p = total (fun a => if p a then 1 else 0) l := by
  induction l with
  | nil => rfl
  | cons a l ih =>
    rw [List.countP_cons, total_cons, ih, Nat.add_comm]

theorem exists_of_mem_mapM {γ : Type*} {f : β → Option γ} {l : List β} {ys : List γ}
    (h : l.mapM f = some ys) {y : γ} (hy : y ∈ ys) : ∃ b ∈ l, f b = some y := by
  induction l generalizing ys with
  | nil =>
    cases h
    cases hy
  | cons b l ih =>
    simp only [List.mapM_cons, Option.bind_eq_bind, Option.bind_eq_some_iff, Option.pure_def,
      Option.some.injEq] at h
    obtain ⟨y', hy', rest, hrest, rfl⟩ := h
    rcases List.mem_cons.mp hy with rfl | hy
    · exact ⟨b, by simp, hy'⟩
    · obtain ⟨b', hb', heq⟩ := ih hrest hy
      exact ⟨b', by simp [hb'], heq⟩

theorem isSome_mapM {γ : Type*} {f : β → Option γ} {l : List β}
    (h : ∀ b ∈ l, (f b).isSome = true) : (l.mapM f).isSome = true := by
  induction l with
  | nil => rfl
  | cons b l ih =>
    obtain ⟨hb, hl⟩ := List.forall_mem_cons.mp h
    obtain ⟨y, hy⟩ := Option.isSome_iff_exists.mp hb
    obtain ⟨rest, hrest⟩ := Option.isSome_iff_exists.mp (ih hl)
    simp [List.mapM_cons, hy, hrest]

theorem bag_flatten_of_mapM {f : β → Option (List α)} {g : β → Multiset κ} {l : List β}
    {ys : List (List α)} (h : l.mapM f = some ys)
    (hf : ∀ b ∈ l, ∀ y, f b = some y → bag cls y = g b) : bag cls ys.flatten = total g l := by
  induction l generalizing ys with
  | nil =>
    cases h
    rfl
  | cons b l ih =>
    simp only [List.mapM_cons, Option.bind_eq_bind, Option.bind_eq_some_iff, Option.pure_def,
      Option.some.injEq] at h
    obtain ⟨y, hy, rest, hrest, rfl⟩ := h
    obtain ⟨hb, hl⟩ := List.forall_mem_cons.mp hf
    rw [List.flatten_cons, bag_append, total_cons, hb y hy, ih hrest hl]

theorem total_range_single [AddCommMonoid M] (a n : Nat) (x : M) :
    total (fun i => if a = i then x else 0) (List.range n) = if a < n then x else 0 := by
  have h := Finset.sum_ite_eq (Finset.range n) a fun _ => x
  simp only [Finset.mem_range] at h
  exact h

theorem bag_by_number {hits : List (Nat × α)} {n : Nat} (h : ∀ hit ∈ hits, hit.1 < n) :
    bag cls ((List.range n).flatMap fun i => (hits.filter fun hit => hit.1 = i).map Prod.snd) =
      bag (cls ∘ Prod.snd) hits := by
  have hpart : ∀ i, bag cls ((hits.filter fun hit => hit.1 = i).map Prod.snd) =
      total (fun hit => if hit.1 = i then {cls hit.2} else 0) hits := by
    intro i
    rw [bag_map, bag_filter]
    simp
  rw [bag_flatMap, total_congr fun i _ => hpart i, total_comm, bag_eq_total]
  apply total_congr
  intro hit hmem
  rw [total_range_single, if_pos (h hit hmem)]
  rfl

end Foundation

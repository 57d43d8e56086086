import Mathlib

/-!
# Sorted multimaps as lists of buckets

A multimap is a list of buckets whose keys increase strictly under a
comparison `cmp`; each bucket holds a nonempty, strictly increasing list of
values.  Two keys are the same key when `cmp` returns `.eq` on them, so no
decidable equality of keys is needed.
-/

namespace Foundation

open Std (TransCmp OrientedCmp)

universe u v

structure Bucket (κ : Type u) (ν : Type v) where
  key : κ
  values : List ν
  deriving DecidableEq, Repr

variable {κ : Type u} {ν : Type v}

/-! ## Strictly increasing value lists -/

section Values

variable [LinearOrder ν]

def insertValue (v : ν) : List ν → List ν
  | [] => [v]
  | w :: l =>
    if w < v then w :: insertValue v l
    else if w = v then w :: l
    else v :: w :: l

variable {l : List ν} {v : ν}

@[simp] theorem mem_insertValue {w : ν} : w ∈ insertValue v l ↔ w = v ∨ w ∈ l := by
  induction l with
  | nil => simp [insertValue]
  | cons x l ih =>
    simp only [insertValue]
    split
    · simp only [List.mem_cons, ih]
      tauto
    · split
      · next heq =>
        subst heq
        simp
      · simp

theorem insertValue_sorted (h : l.Pairwise (· < ·)) : (insertValue v l).Pairwise (· < ·) := by
  induction l with
  | nil => simp [insertValue]
  | cons x l ih =>
    obtain ⟨hx, hl⟩ := List.pairwise_cons.mp h
    simp only [insertValue]
    split
    · next hlt =>
      refine List.pairwise_cons.mpr ⟨?_, ih hl⟩
      intro y hy
      rcases mem_insertValue.mp hy with rfl | hy
      · exact hlt
      · exact hx y hy
    · split
      · exact h
      · next hlt hne =>
        have hvx : v < x := lt_of_le_of_ne (not_lt.mp hlt) (Ne.symm hne)
        refine List.pairwise_cons.mpr ⟨?_, h⟩
        intro y hy
        rcases List.mem_cons.mp hy with rfl | hy
        · exact hvx
        · exact hvx.trans (hx y hy)

theorem insertValue_length (h : v ∉ l) : (insertValue v l).length = l.length + 1 := by
  induction l with
  | nil => rfl
  | cons x l ih =>
    simp only [List.mem_cons, not_or] at h
    simp only [insertValue]
    split
    · simp [ih h.2]
    · rw [if_neg (Ne.symm h.1)]
      simp

theorem insertValue_ne_nil (v : ν) (l : List ν) : insertValue v l ≠ [] := by
  cases l with
  | nil => simp [insertValue]
  | cons x l =>
    simp only [insertValue]
    split
    · simp
    · split <;> simp

theorem insertValue_of_mem (h : l.Pairwise (· < ·)) (hv : v ∈ l) : insertValue v l = l := by
  induction l with
  | nil => cases hv
  | cons x l ih =>
    obtain ⟨hx, hl⟩ := List.pairwise_cons.mp h
    rcases List.mem_cons.mp hv with rfl | hv
    · simp [insertValue]
    · simp only [insertValue, hx v hv, if_true, ih hl hv]

theorem insertValue_of_lt (h : ∀ w ∈ l, w < v) : insertValue v l = l ++ [v] := by
  induction l with
  | nil => rfl
  | cons x l ih =>
    simp only [insertValue]
    rw [if_pos (h x (by simp)), ih (fun w hw => h w (by simp [hw]))]
    rfl

theorem insertIdx_findIdx (h : v ∉ l) :
    l.insertIdx (l.findIdx fun w => decide (v ≤ w)) v = insertValue v l := by
  induction l with
  | nil => rfl
  | cons x l ih =>
    simp only [List.mem_cons, not_or] at h
    by_cases hlt : x < v
    · have hle : ¬ v ≤ x := not_le.mpr hlt
      simp only [List.findIdx_cons, hle, insertValue, hlt]
      simpa using ih h.2
    · have hle : v ≤ x := not_lt.mp hlt
      simp [List.findIdx_cons, hle, hlt, insertValue, Ne.symm h.1]

/-- In an increasing list the first value that is not smaller decides membership. -/
theorem mem_iff_getElem?_findIdx (h : l.Pairwise (· < ·)) :
    v ∈ l ↔ l[l.findIdx fun w => decide (v ≤ w)]? = some v := by
  induction l with
  | nil => simp
  | cons x l ih =>
    obtain ⟨hx, hl⟩ := List.pairwise_cons.mp h
    by_cases hlt : x < v
    · have hle : ¬ v ≤ x := not_le.mpr hlt
      have hne : v ≠ x := ne_of_gt hlt
      simp only [List.findIdx_cons, hle, List.mem_cons, hne, false_or]
      simpa using ih hl
    · have hle : v ≤ x := not_lt.mp hlt
      have htail : v ∉ l := fun hv => hlt (hx v hv)
      simp [List.findIdx_cons, hle, htail, eq_comm]

theorem eraseIdx_findIdx (h : l[l.findIdx fun w => decide (v ≤ w)]? = some v) :
    l.eraseIdx (l.findIdx fun w => decide (v ≤ w)) = l.erase v := by
  induction l with
  | nil => simp
  | cons x l ih =>
    by_cases hlt : x < v
    · have hle : ¬ v ≤ x := not_le.mpr hlt
      have hne : x ≠ v := ne_of_lt hlt
      simp only [List.findIdx_cons, hle] at h ⊢
      rw [List.erase_cons_tail (by simpa using hne)]
      simpa using ih (by simpa using h)
    · have hle : v ≤ x := not_lt.mp hlt
      simp only [List.findIdx_cons, hle, decide_true, cond_true,
        List.getElem?_cons_zero, Option.some.injEq] at h
      subst h
      simp [List.findIdx_cons]

end Values

/-! ## Buckets ordered by key -/

section Lookup

variable (cmp : κ → κ → Ordering)

def SortedKeys (l : List (Bucket κ ν)) : Prop :=
  l.Pairwise fun a b => cmp a.key b.key = .lt

def lookup (k : κ) : List (Bucket κ ν) → List ν
  | [] => []
  | e :: l => if cmp e.key k = .eq then e.values else lookup k l

def mappingCount (l : List (Bucket κ ν)) : Nat := (l.map fun e => e.values.length).sum

def mappings (l : List (Bucket κ ν)) : List (κ × ν) :=
  l.flatMap fun e => e.values.map fun v => (e.key, v)

variable {cmp} {k k' : κ} {v : ν} {e : Bucket κ ν} {l l' : List (Bucket κ ν)}

theorem SortedKeys.tail (h : SortedKeys cmp (e :: l)) : SortedKeys cmp l :=
  (List.pairwise_cons.mp h).2

theorem lookup_append (h : ∀ b ∈ l, cmp b.key k = .lt) :
    lookup cmp k (l ++ l') = lookup cmp k l' := by
  induction l with
  | nil => rfl
  | cons e l ih =>
    have he := h e (by simp)
    simp only [List.cons_append, lookup, he]
    exact ih fun b hb => h b (List.mem_cons_of_mem _ hb)

theorem lookup_eq_nil (h : ∀ b ∈ l, cmp b.key k ≠ .eq) : lookup cmp k l = [] := by
  induction l with
  | nil => rfl
  | cons e l ih =>
    have he := h e (by simp)
    simp only [lookup, he]
    exact ih fun b hb => h b (List.mem_cons_of_mem _ hb)

theorem exists_bucket_of_mem_lookup (h : v ∈ lookup cmp k l) :
    ∃ e ∈ l, cmp e.key k = .eq ∧ v ∈ e.values := by
  induction l with
  | nil => cases h
  | cons e l ih =>
    simp only [lookup] at h
    split at h
    · next heq => exact ⟨e, by simp, heq, h⟩
    · obtain ⟨b, hb, hk, hv⟩ := ih h
      exact ⟨b, List.mem_cons_of_mem _ hb, hk, hv⟩

theorem mem_mappings : (k, v) ∈ mappings l ↔ ∃ e ∈ l, e.key = k ∧ v ∈ e.values := by
  simp only [mappings, List.mem_flatMap, List.mem_map, Prod.mk.injEq]
  constructor
  · rintro ⟨e, he, x, hx, rfl, rfl⟩
    exact ⟨e, he, rfl, hx⟩
  · rintro ⟨e, he, rfl, hv⟩
    exact ⟨e, he, v, hv, rfl, rfl⟩

theorem exists_mapping_of_mem_lookup (h : v ∈ lookup cmp k l) :
    ∃ k', cmp k' k = .eq ∧ (k', v) ∈ mappings l := by
  obtain ⟨e, he, hk, hv⟩ := exists_bucket_of_mem_lookup h
  exact ⟨e.key, hk, mem_mappings.mpr ⟨e, he, rfl, hv⟩⟩

@[simp] theorem mappingCount_cons :
    mappingCount (e :: l) = e.values.length + mappingCount l := by
  simp [mappingCount]

theorem length_mappings : (mappings l).length = mappingCount l := by
  simp [mappings, mappingCount, List.length_flatMap]

variable [TransCmp cmp]

/-- In a sorted list a bucket is found under every key that compares equal to its own. -/
theorem lookup_of_bucket (hs : SortedKeys cmp l) (he : e ∈ l)
    (hk : cmp e.key k = .eq) : lookup cmp k l = e.values := by
  induction l with
  | nil => cases he
  | cons b l ih =>
    obtain ⟨hb, hl⟩ := List.pairwise_cons.mp hs
    rcases List.mem_cons.mp he with rfl | he
    · simp [lookup, hk]
    · have hlt : cmp b.key k = .lt := TransCmp.lt_of_lt_of_eq (hb e he) hk
      simp only [lookup, hlt]
      exact ih hl he

theorem mem_lookup_iff (hs : SortedKeys cmp l) :
    v ∈ lookup cmp k l ↔ ∃ e ∈ l, cmp e.key k = .eq ∧ v ∈ e.values := by
  refine ⟨exists_bucket_of_mem_lookup, ?_⟩
  rintro ⟨e, he, hk, hv⟩
  rwa [lookup_of_bucket hs he hk]

theorem mem_lookup_of_mem_mappings (hs : SortedKeys cmp l) (h : (k, v) ∈ mappings l) :
    v ∈ lookup cmp k l := by
  obtain ⟨e, he, rfl, hv⟩ := mem_mappings.mp h
  exact (mem_lookup_iff hs).mpr ⟨e, he, Std.ReflCmp.compare_self, hv⟩

theorem lookup_eq_nil_of_lt (h : ∀ b ∈ l, cmp k b.key = .lt) (hk : cmp k k' = .eq) :
    lookup cmp k' l = [] := by
  apply lookup_eq_nil
  intro b hb hbk
  have hlt := TransCmp.lt_of_lt_of_eq (h b hb) hbk
  simp [hlt] at hk

theorem lookup_cons_gt (hs : SortedKeys cmp (e :: l)) (hgt : cmp e.key k = .gt) :
    lookup cmp k (e :: l) = [] := by
  have hlt : cmp k e.key = .lt := OrientedCmp.lt_of_gt hgt
  refine lookup_eq_nil_of_lt (k := k) ?_ Std.ReflCmp.compare_self
  have hhead := (List.pairwise_cons.mp hs).1
  exact List.forall_mem_cons.mpr ⟨hlt, fun b hb => TransCmp.lt_trans hlt (hhead b hb)⟩

end Lookup

/-! ## Insertion and removal of one mapping -/

section Update

variable [LinearOrder ν] (cmp : κ → κ → Ordering)

def insertMapping (k : κ) (v : ν) : List (Bucket κ ν) → List (Bucket κ ν)
  | [] => [⟨k, [v]⟩]
  | e :: l =>
    match cmp e.key k with
    | .lt => e :: insertMapping k v l
    | .eq => ⟨e.key, insertValue v e.values⟩ :: l
    | .gt => ⟨k, [v]⟩ :: e :: l

def eraseMapping (k : κ) (v : ν) : List (Bucket κ ν) → List (Bucket κ ν)
  | [] => []
  | e :: l =>
    match cmp e.key k with
    | .lt => e :: eraseMapping k v l
    | .eq =>
      if e.values.erase v = [] then l
      else ⟨e.key, e.values.erase v⟩ :: l
    | .gt => e :: l

/-- A well-formed multimap: sorted keys, and each bucket nonempty and increasing. -/
structure WellFormed (l : List (Bucket κ ν)) : Prop where
  sorted : SortedKeys cmp l
  increasing : ∀ e ∈ l, e.values.Pairwise (· < ·)
  nonempty : ∀ e ∈ l, e.values ≠ []

variable {cmp} {k k' : κ} {v w : ν} {e : Bucket κ ν} {l l' : List (Bucket κ ν)}

theorem WellFormed.nil : WellFormed cmp ([] : List (Bucket κ ν)) :=
  ⟨List.Pairwise.nil, by simp, by simp⟩

theorem WellFormed.tail (h : WellFormed cmp (e :: l)) : WellFormed cmp l where
  sorted := h.sorted.tail
  increasing := fun b hb => h.increasing b (List.mem_cons_of_mem _ hb)
  nonempty := fun b hb => h.nonempty b (List.mem_cons_of_mem _ hb)

theorem WellFormed.cons (he : ∀ b ∈ l, cmp e.key b.key = .lt)
    (hinc : e.values.Pairwise (· < ·)) (hne : e.values ≠ [])
    (hl : WellFormed cmp l) : WellFormed cmp (e :: l) where
  sorted := List.pairwise_cons.mpr ⟨he, hl.sorted⟩
  increasing := List.forall_mem_cons.mpr ⟨hinc, hl.increasing⟩
  nonempty := List.forall_mem_cons.mpr ⟨hne, hl.nonempty⟩

theorem WellFormed.head_lt (h : WellFormed cmp (e :: l)) :
    ∀ b ∈ l, cmp e.key b.key = .lt :=
  (List.pairwise_cons.mp h.sorted).1

theorem lookup_increasing (h : WellFormed cmp l) :
    (lookup cmp k l).Pairwise (· < ·) := by
  induction l with
  | nil => exact List.Pairwise.nil
  | cons e l ih =>
    simp only [lookup]
    split
    · exact h.increasing e (by simp)
    · exact ih h.tail

theorem insertMapping_append (h : ∀ b ∈ l, cmp b.key k = .lt) :
    insertMapping cmp k v (l ++ l') = l ++ insertMapping cmp k v l' := by
  induction l with
  | nil => rfl
  | cons e l ih =>
    have he := h e (by simp)
    simp only [List.cons_append, insertMapping, he]
    rw [ih fun b hb => h b (List.mem_cons_of_mem _ hb)]

theorem eraseMapping_append (h : ∀ b ∈ l, cmp b.key k = .lt) :
    eraseMapping cmp k v (l ++ l') = l ++ eraseMapping cmp k v l' := by
  induction l with
  | nil => rfl
  | cons e l ih =>
    have he := h e (by simp)
    simp only [List.cons_append, eraseMapping, he]
    rw [ih fun b hb => h b (List.mem_cons_of_mem _ hb)]

theorem key_of_mem_eraseMapping (h : e ∈ eraseMapping cmp k v l) :
    ∃ b ∈ l, b.key = e.key := by
  induction l with
  | nil => cases h
  | cons b l ih =>
    simp only [eraseMapping] at h
    split at h
    · rcases List.mem_cons.mp h with rfl | h
      · exact ⟨e, by simp, rfl⟩
      · obtain ⟨c, hc, hck⟩ := ih h
        exact ⟨c, List.mem_cons_of_mem _ hc, hck⟩
    · split at h
      · exact ⟨e, List.mem_cons_of_mem _ h, rfl⟩
      · rcases List.mem_cons.mp h with rfl | h
        · exact ⟨b, by simp, rfl⟩
        · exact ⟨e, List.mem_cons_of_mem _ h, rfl⟩
    · exact ⟨e, h, rfl⟩

theorem eraseMapping_wellFormed (h : WellFormed cmp l) :
    WellFormed cmp (eraseMapping cmp k v l) := by
  induction l with
  | nil => exact .nil
  | cons e l ih =>
    have hinc := h.increasing e (by simp)
    simp only [eraseMapping]
    split
    · refine .cons ?_ hinc (h.nonempty e (by simp)) (ih h.tail)
      intro b hb
      obtain ⟨c, hc, hck⟩ := key_of_mem_eraseMapping hb
      exact hck ▸ h.head_lt c hc
    · split
      · exact h.tail
      · next hne => exact .cons h.head_lt (hinc.sublist List.erase_sublist) hne h.tail
    · exact h

theorem mappingCount_insertMapping (h : v ∉ lookup cmp k l) :
    mappingCount (insertMapping cmp k v l) = mappingCount l + 1 := by
  induction l with
  | nil => simp [insertMapping, mappingCount]
  | cons e l ih =>
    simp only [insertMapping]
    split
    · next hlt =>
      simp only [lookup, hlt] at h
      simp only [mappingCount_cons, ih h]
      omega
    · next heq =>
      simp only [lookup, heq, if_true] at h
      simp only [mappingCount_cons, insertValue_length h]
      omega
    · simp only [mappingCount_cons, List.length_singleton]
      omega

theorem eraseMapping_of_not_mem (h : WellFormed cmp l) (hv : v ∉ lookup cmp k l) :
    eraseMapping cmp k v l = l := by
  induction l with
  | nil => rfl
  | cons e l ih =>
    simp only [eraseMapping]
    split
    · next hlt =>
      simp only [lookup, hlt] at hv
      rw [ih h.tail hv]
    · next heq =>
      simp only [lookup, heq, if_true] at hv
      rw [List.erase_of_not_mem hv, if_neg (h.nonempty e (by simp))]
    · rfl

variable [TransCmp cmp]

theorem mappings_increasing (h : WellFormed cmp l) :
    (mappings l).Pairwise fun p q => cmp p.1 q.1 = .lt ∨ cmp p.1 q.1 = .eq ∧ p.2 < q.2 := by
  rw [mappings, List.pairwise_flatMap]
  refine ⟨fun e he => ?_, h.sorted.imp fun hlt p hp q hq => ?_⟩
  · rw [List.pairwise_map]
    exact (h.increasing e he).imp fun hlt => .inr ⟨Std.ReflCmp.compare_self, hlt⟩
  · obtain ⟨v, -, rfl⟩ := List.mem_map.mp hp
    obtain ⟨w, -, rfl⟩ := List.mem_map.mp hq
    exact .inl hlt

theorem mappings_values_nodup (h : WellFormed cmp l)
    (hkey : ∀ k k' v, (k, v) ∈ mappings l → (k', v) ∈ mappings l → cmp k k' = .eq) :
    ((mappings l).map Prod.snd).Nodup := by
  rw [List.Nodup, List.pairwise_map]
  apply (mappings_increasing h).imp_of_mem
  rintro ⟨k, v⟩ ⟨k', v'⟩ hp hq hlt rfl
  simp [hkey k k' v hp hq] at hlt

theorem WellFormed.forall_lt (h : WellFormed cmp (e :: l)) (hlt : cmp k e.key = .lt) :
    ∀ b ∈ e :: l, cmp k b.key = .lt :=
  List.forall_mem_cons.mpr ⟨hlt, fun b hb => TransCmp.lt_trans hlt (h.head_lt b hb)⟩

private theorem ne_of_lt_of_eq {a : κ} (hlt : cmp a k = .lt) (heq : cmp a k' = .eq) :
    cmp k k' ≠ .eq := by
  intro hk
  simp [TransCmp.lt_of_lt_of_eq hlt hk] at heq

theorem key_of_mem_insertMapping (h : e ∈ insertMapping cmp k v l) :
    cmp e.key k = .eq ∨ ∃ b ∈ l, b.key = e.key := by
  induction l with
  | nil =>
    simp only [insertMapping, List.mem_singleton] at h
    subst h
    exact .inl Std.ReflCmp.compare_self
  | cons b l ih =>
    simp only [insertMapping] at h
    split at h
    · rcases List.mem_cons.mp h with rfl | h
      · exact .inr ⟨e, by simp, rfl⟩
      · rcases ih h with hk | ⟨c, hc, hck⟩
        · exact .inl hk
        · exact .inr ⟨c, List.mem_cons_of_mem _ hc, hck⟩
    · rcases List.mem_cons.mp h with rfl | h
      · exact .inr ⟨b, by simp, rfl⟩
      · exact .inr ⟨e, List.mem_cons_of_mem _ h, rfl⟩
    · rcases List.mem_cons.mp h with rfl | h
      · exact .inl Std.ReflCmp.compare_self
      · exact .inr ⟨e, h, rfl⟩

section

variable (h : WellFormed cmp l)
include h

theorem insertMapping_wellFormed : WellFormed cmp (insertMapping cmp k v l) := by
  induction l with
  | nil => exact .cons (by simp) (by simp) (by simp) .nil
  | cons e l ih =>
    have hhead := h.head_lt
    have hinc := h.increasing e (by simp)
    simp only [insertMapping]
    split
    · next hlt =>
      refine .cons ?_ hinc (h.nonempty e (by simp)) (ih h.tail)
      intro b hb
      rcases key_of_mem_insertMapping hb with hk | ⟨c, hc, hck⟩
      · exact TransCmp.lt_of_lt_of_eq hlt (OrientedCmp.eq_symm hk)
      · exact hck ▸ hhead c hc
    · exact .cons hhead (insertValue_sorted hinc) (insertValue_ne_nil _ _) h.tail
    · next hgt =>
      have hlt : cmp k e.key = .lt := OrientedCmp.lt_of_gt hgt
      exact .cons (h.forall_lt hlt) (by simp) (by simp) h

theorem mem_lookup_insertMapping :
    w ∈ lookup cmp k' (insertMapping cmp k v l) ↔
      (cmp k k' = .eq ∧ w = v) ∨ w ∈ lookup cmp k' l := by
  induction l with
  | nil =>
    simp only [insertMapping, lookup]
    split <;> simp_all
  | cons e l ih =>
    simp only [insertMapping]
    split
    · next hlt =>
      simp only [lookup]
      split
      · next hek => simp [ne_of_lt_of_eq hlt hek]
      · exact ih h.tail
    · next heq =>
      simp only [lookup, TransCmp.congr_left heq]
      split <;> simp_all
    · next hgt =>
      have hlt : cmp k e.key = .lt := OrientedCmp.lt_of_gt hgt
      by_cases hk : cmp k k' = .eq
      · -- every key of the old list is larger than `k`, hence than `k'`
        rw [lookup_eq_nil_of_lt (h.forall_lt hlt) hk]
        simp [lookup, hk]
      · rw [lookup]
        simp [hk]

theorem mem_lookup_eraseMapping :
    w ∈ lookup cmp k' (eraseMapping cmp k v l) ↔
      w ∈ lookup cmp k' l ∧ ¬ (cmp k k' = .eq ∧ w = v) := by
  induction l with
  | nil => simp [eraseMapping, lookup]
  | cons e l ih =>
    simp only [eraseMapping]
    split
    · next hlt =>
      simp only [lookup]
      split
      · next hek => simp [ne_of_lt_of_eq hlt hek]
      · exact ih h.tail
    · next heq =>
      have hnodup : e.values.Nodup := (h.increasing e (by simp)).imp ne_of_lt
      have hmem : w ∈ e.values.erase v ↔ w ∈ e.values ∧ w ≠ v := by
        rw [hnodup.mem_erase_iff]
        exact and_comm
      by_cases hk : cmp e.key k' = .eq
      · have hkk : cmp k k' = .eq := TransCmp.eq_trans (OrientedCmp.eq_symm heq) hk
        have hl : lookup cmp k' l = [] := lookup_eq_nil_of_lt h.head_lt hk
        split
        · next hnil =>
          rw [hnil] at hmem
          simp [hl, lookup, hk, hkk, ← hmem]
        · simp [lookup, hk, hkk, hmem]
      · have hkk : cmp k k' ≠ .eq := fun hc => hk (TransCmp.eq_trans heq hc)
        split <;> simp [lookup, hk, hkk]
    · next hgt =>
      have hlt : cmp k e.key = .lt := OrientedCmp.lt_of_gt hgt
      have hnot : w ∈ lookup cmp k' (e :: l) → cmp k k' ≠ .eq := by
        intro hw hk
        rw [lookup_eq_nil_of_lt (h.forall_lt hlt) hk] at hw
        cases hw
      tauto

theorem insertMapping_of_mem (hv : v ∈ lookup cmp k l) : insertMapping cmp k v l = l := by
  induction l with
  | nil => cases hv
  | cons e l ih =>
    simp only [insertMapping]
    split
    · next hlt =>
      simp only [lookup, hlt] at hv
      rw [ih h.tail hv]
    · next heq =>
      simp only [lookup, heq, if_true] at hv
      rw [insertValue_of_mem (h.increasing e (by simp)) hv]
    · next hgt => simp [lookup_cons_gt h.sorted hgt] at hv

end

theorem mappingCount_eraseMapping (h : v ∈ lookup cmp k l) (hs : SortedKeys cmp l) :
    mappingCount (eraseMapping cmp k v l) + 1 = mappingCount l := by
  induction l with
  | nil => cases h
  | cons e l ih =>
    simp only [eraseMapping]
    split
    · next hlt =>
      simp only [lookup, hlt] at h
      simp only [mappingCount_cons, ← ih h hs.tail]
      omega
    · next heq =>
      simp only [lookup, heq, if_true] at h
      have hlen := List.length_erase_add_one h
      split
      · next hnil =>
        simp only [hnil, List.length_nil] at hlen
        simp only [mappingCount_cons]
        omega
      · simp only [mappingCount_cons]
        omega
    · next hgt => simp [lookup_cons_gt hs hgt] at h

end Update

end Foundation

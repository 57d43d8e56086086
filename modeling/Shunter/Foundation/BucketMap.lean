import Mathlib

/-!
# Maps to buckets

A hash index keeps, under each hash, the list of items with that hash.  A
missing key and an empty bucket are the same thing to a reader.  Such an index
mirrors a map of rows when it holds one entry per row, in the bucket of the
row's hash.
-/

namespace Foundation

open Std (ExtTreeMap TransOrd LawfulEqOrd)

variable {κ ν : Type*} [Ord κ]

section Lookup

variable [TransOrd κ] [LawfulEqOrd κ] [DecidableEq κ] {m : ExtTreeMap κ ν} {k k' : κ} {v : ν}

theorem get_insert : (m.insert k v)[k']? = if k = k' then some v else m[k']? := by
  simp only [ExtTreeMap.getElem?_insert, Std.compare_eq_iff_eq]

theorem get_erase : (m.erase k)[k']? = if k = k' then none else m[k']? := by
  simp only [ExtTreeMap.getElem?_erase, Std.compare_eq_iff_eq]

end Lookup

abbrev BucketMap (κ ν : Type*) [Ord κ] := ExtTreeMap κ (List ν)

namespace BucketMap

variable [TransOrd κ]

def bucket (m : BucketMap κ ν) (k : κ) : List ν := m[k]?.getD []

def push (m : BucketMap κ ν) (k : κ) (v : ν) : BucketMap κ ν :=
  m.insert k (m.bucket k ++ [v])

def dropFirst (m : BucketMap κ ν) (k : κ) (p : ν → Bool) : BucketMap κ ν :=
  let rest := (m.bucket k).eraseP p
  if rest.length = 0 then m.erase k else m.insert k rest

@[simp] theorem bucket_empty (k : κ) : (∅ : BucketMap κ ν).bucket k = [] := by
  simp [bucket]

variable [LawfulEqOrd κ] {m : BucketMap κ ν} {k k' : κ} {v : ν} {p : ν → Bool}

theorem bucket_push [DecidableEq κ] :
    (m.push k v).bucket k' = if k = k' then m.bucket k' ++ [v] else m.bucket k' := by
  simp only [push, bucket, get_insert]
  split
  · next h => simp [h]
  · rfl

theorem bucket_foldl_push [DecidableEq κ] {ι ρ : Type*} (entry : ι → ρ → ν) (hash : ρ → κ)
    (l : List (ι × ρ)) (m : BucketMap κ ν) (k : κ) :
    (l.foldl (fun m p => m.push (hash p.2) (entry p.1 p.2)) m).bucket k =
      m.bucket k ++ (l.filter fun p => hash p.2 = k).map fun p => entry p.1 p.2 := by
  induction l generalizing m with
  | nil => simp
  | cons p l ih =>
    rw [List.foldl_cons, ih, bucket_push]
    by_cases hk : hash p.2 = k
    · simp [hk]
    · simp [hk]

theorem bucket_dropFirst [DecidableEq κ] :
    (m.dropFirst k p).bucket k' =
      if k = k' then (m.bucket k').eraseP p else m.bucket k' := by
  unfold dropFirst
  simp only
  split
  · next hnil =>
    simp only [bucket, get_erase]
    split
    · next h =>
      subst h
      simpa [bucket] using (List.eq_nil_of_length_eq_zero hnil).symm
    · rfl
  · simp only [bucket, get_insert]
    split
    · next h => simp [h]
    · rfl

end BucketMap

/-! ## Mirrors of a map of rows -/

section Mirrors

variable {ι ρ : Type*} [Ord ι] [TransOrd ι] [TransOrd κ]

structure BucketMap.Mirrors (m : BucketMap κ ν) (rows : ExtTreeMap ι ρ)
    (entry : ι → ρ → ν) (hash : ρ → κ) : Prop where
  mem_bucket : ∀ h e, e ∈ m.bucket h ↔
    ∃ (id : ι) (row : ρ), rows[id]? = some row ∧ entry id row = e ∧ hash row = h
  nodup : ∀ h, (m.bucket h).Nodup

namespace BucketMap

variable {m : BucketMap κ ν} {rows : ExtTreeMap ι ρ} {entry : ι → ρ → ν} {hash : ρ → κ}
  {id : ι} {row : ρ}

theorem Mirrors.empty : Mirrors (∅ : BucketMap κ ν) (∅ : ExtTreeMap ι ρ) entry hash :=
  ⟨by simp, by simp⟩

variable [LawfulEqOrd ι] [LawfulEqOrd κ] [DecidableEq κ]

theorem mirrors_foldl_push (rows : ExtTreeMap ι ρ) (entry : ι → ρ → ν) (hash : ρ → κ)
    (idOf : ν → ι) (hidOf : ∀ id row, idOf (entry id row) = id) :
    Mirrors (rows.toList.foldl (fun m p => m.push (hash p.2) (entry p.1 p.2)) ∅)
      rows entry hash := by
  have hbucket := bucket_foldl_push entry hash rows.toList (∅ : BucketMap κ ν)
  constructor
  · intro k e
    rw [hbucket]
    simp only [bucket_empty, List.nil_append, List.mem_map, List.mem_filter,
      decide_eq_true_eq, Prod.exists, ExtTreeMap.mem_toList_iff_getElem?_eq_some]
    constructor
    · rintro ⟨id, row, ⟨hr, hk⟩, he⟩
      exact ⟨id, row, hr, he, hk⟩
    · rintro ⟨id, row, hr, he, hk⟩
      exact ⟨id, row, ⟨hr, hk⟩, he⟩
  · intro k
    rw [hbucket, bucket_empty, List.nil_append]
    have hkeys : rows.toList.Pairwise fun a b => a.1 ≠ b.1 :=
      ExtTreeMap.distinct_keys_toList.imp fun h heq => h (Std.compare_eq_iff_eq.mpr heq)
    refine List.pairwise_map.mpr ((hkeys.filter _).imp ?_)
    intro a b hne heq
    have hids := congrArg idOf heq
    rw [hidOf, hidOf] at hids
    exact hne hids

variable [DecidableEq ι]

section

variable (h : Mirrors m rows entry hash) (idOf : ν → ι)
  (hidOf : ∀ id row, idOf (entry id row) = id)
include h idOf hidOf

theorem Mirrors.push (hid : rows[id]? = none) :
    Mirrors (m.push (hash row) (entry id row)) (rows.insert id row) entry hash := by
  have hfresh : ∀ k (r : ρ), entry id r ∉ m.bucket k := by
    intro k r hmem
    obtain ⟨id', r', hr', heq, -⟩ := (h.mem_bucket k _).mp hmem
    have hids := congrArg idOf heq
    rw [hidOf, hidOf] at hids
    subst hids
    simp [hid] at hr'
  constructor
  · intro k e
    have hsplit : (∃ (i : ι) (r : ρ), (rows.insert id row)[i]? = some r ∧ entry i r = e ∧
        hash r = k) ↔ (entry id row = e ∧ hash row = k) ∨ e ∈ m.bucket k := by
      rw [h.mem_bucket]
      simp only [get_insert]
      constructor
      · rintro ⟨i, r, hr, he, hk⟩
        split at hr
        · next heq =>
          cases hr
          exact .inl ⟨heq ▸ he, hk⟩
        · exact .inr ⟨i, r, hr, he, hk⟩
      · rintro (⟨he, hk⟩ | ⟨i, r, hr, he, hk⟩)
        · exact ⟨id, row, by simp, he, hk⟩
        · have hne : id ≠ i := by
            rintro rfl
            simp [hid] at hr
          exact ⟨i, r, by simp [hne, hr], he, hk⟩
    rw [hsplit, bucket_push]
    split
    · next hk =>
      simp only [List.mem_append, List.mem_singleton, hk, and_true]
      rw [or_comm, eq_comm]
    · next hk => simp [hk]
  · intro k
    rw [bucket_push]
    split
    · rw [List.nodup_append]
      refine ⟨h.nodup k, by simp, ?_⟩
      rintro a ha b hb rfl
      exact hfresh k row (List.mem_singleton.mp hb ▸ ha)
    · exact h.nodup k

theorem Mirrors.dropFirst (hrow : rows[id]? = some row) :
    Mirrors (m.dropFirst (hash row) fun e => idOf e == id) (rows.erase id) entry hash := by
  -- within one bucket only the entry of the erased row has its identifier
  have hother : ∀ k e, e ∈ m.bucket k → (idOf e = id ↔ e = entry id row) := by
    intro k e he
    obtain ⟨i, r, hr, rfl, -⟩ := (h.mem_bucket k e).mp he
    rw [hidOf]
    constructor
    · rintro rfl
      rw [hrow] at hr
      cases hr
      rfl
    · intro heq
      have hids := congrArg idOf heq
      rwa [hidOf, hidOf] at hids
  have hdrop : ∀ k e, e ∈ (m.bucket k).eraseP (fun e => idOf e == id) ↔
      e ∈ m.bucket k ∧ idOf e ≠ id := by
    intro k e
    constructor
    · intro he
      have hmem := List.mem_of_mem_eraseP he
      refine ⟨hmem, fun hid => ?_⟩
      have heq := (hother k e hmem).mp hid
      obtain ⟨a, l₁, l₂, -, ha, hl, herase⟩ :=
        List.exists_of_eraseP (p := fun e => idOf e == id) hmem (by simpa using hid)
      have hae : a = e := by
        rw [heq]
        exact (hother k a (by simp [hl])).mp (by simpa using ha)
      have hnodup := h.nodup k
      rw [hl, List.nodup_middle, hae, List.nodup_cons] at hnodup
      rw [herase] at he
      exact hnodup.1 he
    · rintro ⟨hmem, hid⟩
      exact (List.mem_eraseP_of_neg (by simpa using hid)).mpr hmem
  constructor
  · intro k e
    rw [bucket_dropFirst]
    simp only [get_erase]
    split
    · next hk =>
      rw [hdrop, h.mem_bucket]
      constructor
      · rintro ⟨⟨i, r, hr, rfl, hrk⟩, hne⟩
        rw [hidOf] at hne
        exact ⟨i, r, by simp [Ne.symm hne, hr], rfl, hrk⟩
      · rintro ⟨i, r, hr, rfl, hrk⟩
        split at hr
        · cases hr
        · next hne => exact ⟨⟨i, r, hr, rfl, hrk⟩, by rw [hidOf]; exact Ne.symm hne⟩
    · next hk =>
      rw [h.mem_bucket]
      constructor
      · rintro ⟨i, r, hr, rfl, hrk⟩
        have hne : id ≠ i := by
          rintro rfl
          rw [hrow] at hr
          cases hr
          exact hk hrk
        exact ⟨i, r, by simp [hne, hr], rfl, hrk⟩
      · rintro ⟨i, r, hr, rfl, hrk⟩
        split at hr
        · cases hr
        · exact ⟨i, r, hr, rfl, hrk⟩
  · intro k
    rw [bucket_dropFirst]
    split
    · exact (h.nodup k).sublist List.eraseP_sublist
    · exact h.nodup k

end

end BucketMap

end Mirrors

end Foundation

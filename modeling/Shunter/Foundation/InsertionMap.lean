import Mathlib

/-!
# Maps that keep the order of insertion

A map as a list of entries with different keys.  Setting a key that is there
changes its entry in place; a new key goes to the end.  Up to the order of the
entries, setting and erasing are putting an entry in front and taking it away.
-/

namespace Foundation

@[ext] structure InsertionMap (κ ν : Type*) where
  entries : List (κ × ν)
  nodup : (entries.map Prod.fst).Nodup

namespace InsertionMap

variable {κ ν : Type*}

def empty : InsertionMap κ ν := ⟨[], List.nodup_nil⟩

instance : EmptyCollection (InsertionMap κ ν) := ⟨empty⟩

@[simp] theorem entries_empty : (∅ : InsertionMap κ ν).entries = [] := rfl

def values (m : InsertionMap κ ν) : List ν := m.entries.map Prod.snd

variable [DecidableEq κ] (m : InsertionMap κ ν) (k : κ)

def get : Option ν := (m.entries.find? fun e => e.1 = k).map Prod.snd

def erase : InsertionMap κ ν where
  entries := m.entries.filter fun e => e.1 ≠ k
  nodup := m.nodup.sublist (List.filter_sublist.map _)

theorem map_fst_replace (l : List (κ × ν)) (v : ν) :
    (l.map fun e => if e.1 = k then (k, v) else e).map Prod.fst = l.map Prod.fst := by
  rw [List.map_map]
  apply List.map_congr_left
  intro e _
  by_cases he : e.1 = k <;> simp [he]

def set (v : ν) : InsertionMap κ ν :=
  if h : k ∈ m.entries.map Prod.fst then
    ⟨m.entries.map fun e => if e.1 = k then (k, v) else e, by
      rw [map_fst_replace]
      exact m.nodup⟩
  else
    ⟨m.entries ++ [(k, v)], by
      rw [List.map_append]
      exact m.nodup.append (by simp) (by simpa using h)⟩

variable {m k}

theorem get_eq_none : m.get k = none ↔ k ∉ m.entries.map Prod.fst := by
  simp only [get, Option.map_eq_none_iff, List.find?_eq_none, decide_eq_true_eq, List.mem_map,
    not_exists, not_and]

theorem mem_of_get {v : ν} (h : m.get k = some v) : (k, v) ∈ m.entries := by
  obtain ⟨e, he, rfl⟩ := Option.map_eq_some_iff.mp h
  have hkey : e.1 = k := by simpa using List.find?_some he
  exact hkey ▸ List.mem_of_find?_eq_some he

theorem get_of_mem {v : ν} (h : (k, v) ∈ m.entries) : m.get k = some v := by
  cases hget : m.get k with
  | none => exact absurd (List.mem_map_of_mem h) (get_eq_none.mp hget)
  | some w =>
    have hpair := List.inj_on_of_nodup_map m.nodup (mem_of_get hget) h rfl
    rw [(Prod.mk.injEq .. ▸ hpair : k = k ∧ w = v).2]

theorem erase_of_get_none (h : m.get k = none) : m.erase k = m := by
  have hall : ∀ e ∈ m.entries, e.1 ≠ k := by
    intro e he hkey
    exact get_eq_none.mp h (hkey ▸ List.mem_map_of_mem he)
  apply InsertionMap.ext
  simpa [erase, List.filter_eq_self] using hall

theorem perm_of_get {v : ν} (h : m.get k = some v) :
    m.entries.Perm ((k, v) :: (m.erase k).entries) := by
  obtain ⟨pre, post, hsplit⟩ := List.append_of_mem (mem_of_get h)
  have hnodup := m.nodup
  rw [hsplit, List.map_append, List.map_cons, List.nodup_append] at hnodup
  obtain ⟨-, hpost, hdisjoint⟩ := hnodup
  have hpre : pre.filter (fun e => decide (e.1 ≠ k)) = pre := by
    rw [List.filter_eq_self]
    intro e he
    have hne := hdisjoint e.1 (List.mem_map_of_mem he) k (by simp)
    simpa using hne
  have hpost' : post.filter (fun e => decide (e.1 ≠ k)) = post := by
    rw [List.filter_eq_self]
    intro e he
    have hne : e.1 ≠ k := by
      rintro rfl
      have hmem : e.1 ∈ post.map Prod.fst := List.mem_map_of_mem he
      exact (List.nodup_cons.mp hpost).1 hmem
    simpa using hne
  have herase : (m.erase k).entries = pre ++ post := by
    simp only [erase, hsplit, List.filter_append, hpre]
    rw [List.filter_cons, hpost']
    simp
  rw [herase, hsplit]
  exact List.perm_middle

theorem set_perm (v : ν) : (m.set k v).entries.Perm ((k, v) :: (m.erase k).entries) := by
  unfold set
  split
  · next h =>
    obtain ⟨w, hw⟩ := Option.ne_none_iff_exists'.mp (mt get_eq_none.mp (not_not.mpr h))
    have hperm := (perm_of_get hw).map fun e => if e.1 = k then (k, v) else e
    have hrest : ((m.erase k).entries.map fun e => if e.1 = k then (k, v) else e) =
        (m.erase k).entries := by
      rw [List.map_congr_left (g := id), List.map_id]
      intro e he
      have hne : e.1 ≠ k := by simpa using (List.mem_filter.mp he).2
      simp [hne]
    simpa [hrest] using hperm
  · next h =>
    rw [erase_of_get_none (get_eq_none.mpr h)]
    exact List.perm_append_singleton _ _

end InsertionMap

end Foundation

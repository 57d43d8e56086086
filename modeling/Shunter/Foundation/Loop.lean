import Mathlib

/-!
# Loops with an early error return

`loop body s l` runs `body` over the items of `l` in order and stops at the
first error.  The state reached so far is kept, so a body that writes before it
fails leaves its writes behind, as a statement-level loop does.  The rules for
loops over the entries of a map hide the list: their invariant speaks about the
set of keys visited so far.
-/

namespace Foundation

variable {σ α ε : Type*}

def loop (body : σ → α → σ × Option ε) : σ → List α → σ × Option ε
  | s, [] => (s, none)
  | s, a :: l =>
    match body s a with
    | (s', some e) => (s', some e)
    | (s', none) => loop body s' l

variable {body : σ → α → σ × Option ε}

@[simp] theorem loop_nil (s : σ) : loop body s [] = (s, none) := rfl

variable {s s' : σ} {l : List α} {a : α}

theorem loop_cons_ok (h : body s a = (s', none)) : loop body s (a :: l) = loop body s' l := by
  simp [loop, h]

theorem loop_cons_error {e : ε} (h : body s a = (s', some e)) :
    loop body s (a :: l) = (s', some e) := by
  simp [loop, h]

theorem loop_cons_eq_ok :
    loop body s (a :: l) = (s', none) ↔
      ∃ s₁, body s a = (s₁, none) ∧ loop body s₁ l = (s', none) := by
  rw [loop]
  split <;> simp_all

theorem loop_congr {body' : σ → α → σ × Option ε} (h : ∀ a ∈ l, ∀ s, body' s a = body s a)
    (s : σ) : loop body' s l = loop body s l := by
  induction l generalizing s with
  | nil => rfl
  | cons a l ih =>
    obtain ⟨hfirst, h⟩ := List.forall_mem_cons.mp h
    rw [loop, loop, hfirst]
    split
    · rfl
    · exact ih h _

/--
The total rule: a body that never fails under the invariant completes the
loop.  The invariant sees the items already visited.
-/
theorem loop_total (body : σ → α → σ × Option ε) (Inv : List α → σ → Prop) (l : List α)
    (hstep : ∀ done a rest s, l = done ++ a :: rest → Inv done s → ∃ s', body s a = (s', none) ∧
      Inv (done ++ [a]) s')
    (h₀ : Inv [] s) : ∃ s', loop body s l = (s', none) ∧ Inv l s' := by
  suffices key : ∀ rest done s, l = done ++ rest → Inv done s →
      ∃ s', loop body s rest = (s', none) ∧ Inv l s' from key l [] s rfl h₀
  intro rest
  induction rest with
  | nil =>
    intro done s hl hinv
    exact ⟨s, rfl, by simpa [hl] using hinv⟩
  | cons a rest ih =>
    intro done s hl hinv
    obtain ⟨s', hbody, hinv'⟩ := hstep done a rest s hl hinv
    obtain ⟨s'', hloop, hfinal⟩ := ih (done ++ [a]) s' (by simp [hl]) hinv'
    exact ⟨s'', by rw [loop_cons_ok hbody, hloop], hfinal⟩

theorem loop_ok_inv (Inv : List α → σ → Prop)
    (hstep : ∀ done a rest s s', l = done ++ a :: rest → Inv done s → body s a = (s', none) →
      Inv (done ++ [a]) s')
    (h₀ : Inv [] s) (hloop : loop body s l = (s', none)) : Inv l s' := by
  suffices key : ∀ rest done s, l = done ++ rest → Inv done s →
      loop body s rest = (s', none) → Inv l s' from key l [] s rfl h₀ hloop
  intro rest
  induction rest with
  | nil =>
    intro done s hl hinv hrun
    cases hrun
    simpa [hl] using hinv
  | cons a rest ih =>
    intro done s hl hinv hrun
    obtain ⟨t, hbody, hrun⟩ := loop_cons_eq_ok.mp hrun
    exact ih (done ++ [a]) t (by simp [hl]) (hstep done a rest s t hl hinv hbody) hrun

/-- A loop follows another one whose rounds it follows. -/
theorem loop_simulates {τ ε' : Type*} {body' : τ → α → τ × Option ε'} (R : σ → τ → Prop)
    (hstep : ∀ s t a s', R s t → body s a = (s', none) → ∃ t', body' t a = (t', none) ∧ R s' t')
    {t : τ} (h : R s t) (hrun : loop body s l = (s', none)) :
    ∃ t', loop body' t l = (t', none) ∧ R s' t' := by
  induction l generalizing s t with
  | nil =>
    cases hrun
    exact ⟨t, rfl, h⟩
  | cons a l ih =>
    obtain ⟨s₁, hbody, hrun⟩ := loop_cons_eq_ok.mp hrun
    obtain ⟨t₁, hbody', h₁⟩ := hstep s t a s₁ h hbody
    rw [loop_cons_ok hbody']
    exact ih h₁ hrun

/-- Run the second part on the state the first part leaves, unless the first part failed. -/
def andThen (r : σ × Option ε) (next : σ → σ × Option ε) : σ × Option ε :=
  match r with
  | (s, some e) => (s, some e)
  | (s, none) => next s

variable {r : σ × Option ε}

theorem andThen_ok (h : r.2 = none) (next : σ → σ × Option ε) : andThen r next = next r.1 := by
  obtain ⟨s, err⟩ := r
  subst h
  rfl

variable {next : σ → σ × Option ε}

theorem andThen_eq_ok :
    andThen r next = (s', none) ↔ ∃ s, r = (s, none) ∧ next s = (s', none) := by
  obtain ⟨s, err⟩ := r
  cases err <;> simp [andThen]

theorem andThen_eq_none (h : (andThen r next).2 = none) : r.2 = none ∧ (next r.1).2 = none := by
  obtain ⟨s, err⟩ := r
  cases err with
  | some e => cases h
  | none => exact ⟨rfl, h⟩

/-! ## Loops over the entries of a map -/

section Maps

variable {κ ν σ ε : Type} [Ord κ] [Std.TransOrd κ] [Std.LawfulEqOrd κ]
  {body : σ → κ × ν → σ × Option ε}

omit [Std.LawfulEqOrd κ] in
theorem nodup_fst_toList (m : Std.ExtTreeMap κ ν) : (m.toList.map Prod.fst).Nodup := by
  rw [Std.ExtTreeMap.map_fst_toList_eq_keys]
  exact Std.ExtTreeMap.nodup_keys

private theorem entry_of_split {m : Std.ExtTreeMap κ ν} {done rest : List (κ × ν)} {k : κ} {v : ν}
    (hl : m.toList = done ++ (k, v) :: rest) :
    m[k]? = some v ∧ k ∉ {k | k ∈ done.map Prod.fst} := by
  have hnodup := nodup_fst_toList m
  refine ⟨Std.ExtTreeMap.mem_toList_iff_getElem?_eq_some.mp (by simp [hl]), ?_⟩
  rw [hl, List.map_append, List.map_cons] at hnodup
  exact fun hin => (List.nodup_append.mp hnodup).2.2 k hin k (by simp) rfl

omit [Ord κ] [Std.TransOrd κ] [Std.LawfulEqOrd κ] in
private theorem visited_append (done : List (κ × ν)) (e : κ × ν) :
    {k | k ∈ (done ++ [e]).map Prod.fst} = insert e.1 {k | k ∈ done.map Prod.fst} := by
  ext k
  rw [List.map_append, Set.mem_insert_iff, Set.mem_ofPred_eq, List.mem_append, or_comm]
  simp

private theorem visited_all (m : Std.ExtTreeMap κ ν) :
    {k | k ∈ m.toList.map Prod.fst} = {k | m[k]? ≠ none} := by
  ext k
  rw [Set.mem_ofPred_eq, Std.ExtTreeMap.map_fst_toList_eq_keys, Std.ExtTreeMap.mem_keys,
    ← Std.ExtTreeMap.contains_iff_mem, Std.ExtTreeMap.contains_eq_isSome_getElem?,
    Option.isSome_iff_ne_none, Set.mem_ofPred_eq]

theorem loop_entries_ok_inv (m : Std.ExtTreeMap κ ν) (Inv : Set κ → σ → Prop)
    (hstep : ∀ visited k v s s', m[k]? = some v → k ∉ visited → Inv visited s →
      body s (k, v) = (s', none) → Inv (insert k visited) s')
    {s s' : σ} (h₀ : Inv ∅ s) (hloop : loop body s m.toList = (s', none)) :
    Inv {k | m[k]? ≠ none} s' := by
  have hrun := loop_ok_inv (fun done s => Inv {k | k ∈ done.map Prod.fst} s)
    (by
      rintro done ⟨k, v⟩ rest s s' hl hinv hbody
      obtain ⟨hentry, hnew⟩ := entry_of_split hl
      rw [visited_append]
      exact hstep _ k v s s' hentry hnew hinv hbody)
    (by simpa using h₀) hloop
  rwa [visited_all] at hrun

theorem loop_entries_total (body : σ → κ × ν → σ × Option ε) (m : Std.ExtTreeMap κ ν)
    (Inv : Set κ → σ → Prop)
    (hstep : ∀ visited k v s, m[k]? = some v → k ∉ visited → Inv visited s →
      ∃ s', body s (k, v) = (s', none) ∧ Inv (insert k visited) s')
    {s : σ} (h₀ : Inv ∅ s) :
    ∃ s', loop body s m.toList = (s', none) ∧ Inv {k | m[k]? ≠ none} s' := by
  rw [← visited_all]
  refine loop_total body (fun done s => Inv {k | k ∈ done.map Prod.fst} s) m.toList ?_
    (by simpa using h₀)
  rintro done ⟨k, v⟩ rest s hl hinv
  obtain ⟨hentry, hnew⟩ := entry_of_split hl
  rw [visited_append]
  exact hstep _ k v s hentry hnew hinv

/-! ## Rebuilding a map -/

theorem getElem?_foldl_insert (l : List (κ × ν)) (hl : (l.map Prod.fst).Nodup)
    (m : Std.ExtTreeMap κ ν) :
    (∀ e ∈ l, (l.foldl (fun m e => m.insert e.1 e.2) m)[e.1]? = some e.2) ∧
      ∀ k, k ∉ l.map Prod.fst → (l.foldl (fun m e => m.insert e.1 e.2) m)[k]? = m[k]? := by
  induction l generalizing m with
  | nil => simp
  | cons e l ih =>
    rw [List.map_cons, List.nodup_cons] at hl
    obtain ⟨hin, hout⟩ := ih hl.2 (m.insert e.1 e.2)
    rw [List.foldl_cons]
    refine ⟨List.forall_mem_cons.mpr ⟨?_, hin⟩, fun k hk => ?_⟩
    · rw [hout e.1 hl.1, Std.ExtTreeMap.getElem?_insert_self]
    · rw [List.map_cons, List.mem_cons, not_or] at hk
      rw [hout k hk.2, Std.ExtTreeMap.getElem?_insert,
        if_neg fun heq => hk.1 (Std.compare_eq_iff_eq.mp heq).symm]

theorem foldl_insert_toList (m : Std.ExtTreeMap κ ν) :
    m.toList.foldl (fun m e => m.insert e.1 e.2) (∅ : Std.ExtTreeMap κ ν) = m := by
  obtain ⟨hin, hout⟩ := getElem?_foldl_insert m.toList (nodup_fst_toList m) ∅
  refine Std.ExtTreeMap.ext_getElem? fun k => ?_
  cases hk : m[k]? with
  | some v => exact hin (k, v) (Std.ExtTreeMap.mem_toList_iff_getElem?_eq_some.mpr hk)
  | none =>
    have hnot : k ∉ m.toList.map Prod.fst := by
      intro hmem
      obtain ⟨e, he, rfl⟩ := List.mem_map.mp hmem
      rw [Std.ExtTreeMap.mem_toList_iff_getElem?_eq_some.mp he] at hk
      cases hk
    rw [hout k hnot, Std.ExtTreeMap.getElem?_empty]

end Maps

end Foundation

import Shunter.Foundation.ListSplit
import Shunter.Foundation.SortedMultimap
import Shunter.Store.IndexKey

/-!
# The paged sorted index

`BTreeIndex` maps index keys to row identifiers.  It stores sorted leaf pages,
splits a page that outgrows its limit and merges a sparse page into a
neighbour.  Under the page invariant every operation acts on the concatenated
pages as the operation of the flat sorted multimap.
-/

namespace Shunter

open Foundation

def btreePageMaxEntries : Nat := 64

abbrev BTreeEntry := Bucket IndexKey RowID

structure BTreeIndex where
  pages : List (List BTreeEntry)
  mappings : Nat

namespace BTreeIndex

def new : BTreeIndex := ⟨[], 0⟩

def compareLastKey (p : List BTreeEntry) (key : IndexKey) : Ordering :=
  match p.getLast? with
  | some e => e.key.compare key
  | none => .lt

/-- `slices.BinarySearchFunc`: the first position that does not compare less, and a hit. -/
def binarySearch {α : Type} (l : List α) (cmp : α → Ordering) : Nat × Bool :=
  let i := l.findIdx fun x => cmp x != .lt
  (i, (l[i]?.map fun x => cmp x == .eq).getD false)

def lowerBound (b : BTreeIndex) (key : IndexKey) : Nat × Nat × Bool :=
  if b.pages.length = 0 then (0, 0, false)
  else
    let pageIdx := (binarySearch b.pages fun p => compareLastKey p key).1
    if pageIdx = b.pages.length then (pageIdx, 0, false)
    else
      (pageIdx, binarySearch (b.pages.getD pageIdx []) fun e => e.key.compare key)

def splitPage (b : BTreeIndex) (pageIdx : Nat) : BTreeIndex :=
  let p := b.pages.getD pageIdx []
  if p.length ≤ btreePageMaxEntries then b
  else
    let mid := p.length / 2
    { b with pages := (b.pages.set pageIdx (p.take mid)).insertIdx (pageIdx + 1) (p.drop mid) }

def mergeSparsePage (b : BTreeIndex) (pageIdx : Nat) : BTreeIndex :=
  if pageIdx ≥ b.pages.length ∨ b.pages.length < 2 then b
  else
    let p := b.pages.getD pageIdx []
    if p.length ≥ btreePageMaxEntries / 4 then b
    else
      let prev := b.pages.getD (pageIdx - 1) []
      let next := b.pages.getD (pageIdx + 1) []
      if pageIdx > 0 ∧ prev.length + p.length ≤ btreePageMaxEntries then
        { b with pages := (b.pages.set (pageIdx - 1) (prev ++ p)).eraseIdx pageIdx }
      else if pageIdx + 1 < b.pages.length ∧ p.length + next.length ≤ btreePageMaxEntries then
        { b with pages := (b.pages.set pageIdx (p ++ next)).eraseIdx (pageIdx + 1) }
      else b

/-- The row identifiers of an entry after an insertion, and whether one was added. -/
def insertRowID (rowIDs : List RowID) (rowID : RowID) : List RowID × Bool :=
  if (rowIDs.getLast?.map fun last => decide (last < rowID)).getD true then
    (rowIDs ++ [rowID], true)
  else
    let pos := rowIDs.findIdx fun id => decide (rowID ≤ id)
    if rowIDs[pos]? = some rowID then (rowIDs, false)
    else (rowIDs.insertIdx pos rowID, true)

def insert (b : BTreeIndex) (key : IndexKey) (rowID : RowID) : BTreeIndex :=
  if b.pages.length = 0 then
    ⟨[[⟨key, [rowID]⟩]], b.mappings + 1⟩
  else
    match b.lowerBound key with
    | (pageIdx, entryIdx, found) =>
      if found then
        let p := b.pages.getD pageIdx []
        let e := p.getD entryIdx ⟨key, []⟩
        match insertRowID e.values rowID with
        | (_, false) => b
        | (rowIDs, true) =>
          ⟨b.pages.set pageIdx (p.set entryIdx ⟨e.key, rowIDs⟩), b.mappings + 1⟩
      else
        let pastEnd := pageIdx = b.pages.length
        let pageIdx := if pastEnd then b.pages.length - 1 else pageIdx
        let p := b.pages.getD pageIdx []
        let entryIdx := if pastEnd then p.length else entryIdx
        splitPage
          ⟨b.pages.set pageIdx (p.insertIdx entryIdx ⟨key, [rowID]⟩), b.mappings + 1⟩ pageIdx

def remove (b : BTreeIndex) (key : IndexKey) (rowID : RowID) : BTreeIndex :=
  match b.lowerBound key with
  | (_, _, false) => b
  | (pageIdx, entryIdx, true) =>
    let p := b.pages.getD pageIdx []
    let e := p.getD entryIdx ⟨key, []⟩
    let pos := e.values.findIdx fun id => decide (rowID ≤ id)
    if e.values[pos]? ≠ some rowID then b
    else
      let rowIDs := e.values.eraseIdx pos
      if rowIDs.length ≠ 0 then
        ⟨b.pages.set pageIdx (p.set entryIdx ⟨e.key, rowIDs⟩), b.mappings - 1⟩
      else
        let p := p.eraseIdx entryIdx
        if p.length = 0 then ⟨b.pages.eraseIdx pageIdx, b.mappings - 1⟩
        else mergeSparsePage ⟨b.pages.set pageIdx p, b.mappings - 1⟩ pageIdx

def rowIDs (b : BTreeIndex) (key : IndexKey) : List RowID :=
  match b.lowerBound key with
  | (_, _, false) => []
  | (pageIdx, entryIdx, true) =>
    ((b.pages.getD pageIdx []).getD entryIdx ⟨key, []⟩).values

def seek (b : BTreeIndex) (key : IndexKey) : List RowID := b.rowIDs key

def len (b : BTreeIndex) : Nat := b.mappings

def seekEntries (low high : Bound) : List BTreeEntry → List RowID
  | [] => []
  | e :: entries =>
    if !matchesLowerBound e.key low then seekEntries low high entries
    else if !matchesUpperBound e.key high then []
    else e.values ++ seekEntries low high entries

/-- `collectBounds`, with the callback of `seekBounds` collecting what it is given. -/
def collectBounds (b : BTreeIndex) (low high : Bound) : List RowID :=
  let start :=
    if low.unbounded then (0, 0)
    else
      match b.lowerBound (indexKeyForBound low) with
      | (startPage, startEntry, _) => (startPage, startEntry)
  match b.pages.drop start.1 with
  | [] => []
  | p :: pages => seekEntries low high (p.drop start.2 ++ pages.flatten)

/-! ## The page invariant -/

def entries (b : BTreeIndex) : List BTreeEntry := b.pages.flatten

structure Inv (b : BTreeIndex) : Prop where
  pages_nonempty : ∀ p ∈ b.pages, p ≠ []
  pages_bounded : ∀ p ∈ b.pages, p.length ≤ btreePageMaxEntries
  wellFormed : WellFormed IndexKey.compare b.entries
  mappings_eq : b.mappings = mappingCount b.entries

variable {b : BTreeIndex} {key : IndexKey} {rowID : RowID}

theorem new_inv : Inv new :=
  ⟨by simp [new], by simp [new], by simpa [new, entries] using WellFormed.nil, rfl⟩

variable {p : List BTreeEntry}

theorem lt_of_compareLastKey_lt (hs : SortedKeys IndexKey.compare p)
    (h : compareLastKey p key = .lt) : ∀ e ∈ p, e.key.compare key = .lt := by
  intro e he
  rcases List.eq_nil_or_concat p with rfl | ⟨front, last, rfl⟩
  · cases he
  · rw [List.concat_eq_append] at hs h he
    have hlast : last.key.compare key = .lt := by
      simpa [compareLastKey] using h
    rcases List.mem_append.mp he with he | he
    · have hel : e.key.compare last.key = .lt :=
        (List.pairwise_append.mp hs).2.2 e he last (by simp)
      exact Std.TransCmp.lt_trans hel hlast
    · rwa [List.mem_singleton.mp he]

theorem exists_not_lt_of_compareLastKey (hne : p ≠ []) (h : compareLastKey p key ≠ .lt) :
    ∃ e ∈ p, e.key.compare key ≠ .lt := by
  rcases List.eq_nil_or_concat p with rfl | ⟨front, last, rfl⟩
  · exact absurd rfl hne
  · exact ⟨last, by simp, by simpa [compareLastKey] using h⟩

theorem Inv.page_sorted (h : b.Inv) (hp : p ∈ b.pages) : SortedKeys IndexKey.compare p :=
  h.wellFormed.sorted.sublist (List.sublist_flatten_of_mem hp)

/--
`lowerBound` splits the pages in front of the first entry whose key is not
less, or reports that every key is less.
-/
theorem lowerBound_cases (h : b.Inv) (key : IndexKey) :
    (∃ P₁ p₁ e p₂ P₂, b.pages = P₁ ++ (p₁ ++ e :: p₂) :: P₂ ∧
      b.entries = (P₁.flatten ++ p₁) ++ e :: (p₂ ++ P₂.flatten) ∧
      b.lowerBound key = (P₁.length, p₁.length, e.key.compare key == .eq) ∧
      (∀ x ∈ P₁.flatten ++ p₁, x.key.compare key = .lt) ∧
      e.key.compare key ≠ .lt) ∨
    ((∀ x ∈ b.entries, x.key.compare key = .lt) ∧
      b.lowerBound key = (b.pages.length, 0, false)) := by
  obtain ⟨P₁, P, hpages, hidx, hbefore, hrest⟩ :=
    exists_split_findIdx (fun p => compareLastKey p key != .lt) b.pages
  have hP₁ : ∀ x ∈ P₁.flatten, x.key.compare key = .lt := by
    intro x hx
    obtain ⟨p, hp, hxp⟩ := List.mem_flatten.mp hx
    have hlast : compareLastKey p key = .lt := by simpa using hbefore p hp
    exact lt_of_compareLastKey_lt (h.page_sorted (by simp [hpages, hp])) hlast x hxp
  cases P with
  | nil =>
    right
    simp only [List.append_nil] at hpages
    refine ⟨by simpa [entries, hpages] using hP₁, ?_⟩
    by_cases hlen : b.pages.length = 0
    · simp [lowerBound, hlen]
    · have heq : b.pages.findIdx (fun p => compareLastKey p key != .lt) = b.pages.length := by
        rw [hidx, hpages]
      simp only [lowerBound, hlen, binarySearch, heq, if_true, if_false]
  | cons p P₂ =>
    left
    have hp : p ∈ b.pages := by simp [hpages]
    have hpage := hrest p P₂ rfl
    obtain ⟨p₁, rest, hsplit, hentry, hp₁, hhead⟩ :=
      exists_split_findIdx (fun e => e.key.compare key != .lt) p
    cases rest with
    | nil =>
      -- the last key of the page is not less, so the search cannot run off its end
      obtain ⟨e, he, hnot⟩ := exists_not_lt_of_compareLastKey
        (h.pages_nonempty p hp) (by simpa using hpage)
      simp only [List.append_nil] at hsplit
      have := hp₁ e (hsplit ▸ he)
      simp [hnot] at this
    | cons e p₂ =>
      subst hsplit
      refine ⟨P₁, p₁, e, p₂, P₂, hpages, by simp [entries, hpages], ?_, ?_,
        by simpa using hhead e p₂ rfl⟩
      · have hlen : b.pages.length ≠ 0 := by simp [hpages]
        have hlt : P₁.length ≠ b.pages.length := by simp [hpages]
        simp only [lowerBound, hlen, binarySearch, hidx, hlt, if_false]
        simp [hpages, hentry]
      · intro x hx
        rcases List.mem_append.mp hx with hx | hx
        · exact hP₁ x hx
        · simpa using hp₁ x hx

theorem rowIDs_eq_lookup (h : b.Inv) (key : IndexKey) :
    b.rowIDs key = lookup IndexKey.compare key b.entries := by
  rcases lowerBound_cases h key with
    ⟨P₁, p₁, e, p₂, P₂, hpages, hentries, hlow, hbelow, hnot⟩ | ⟨hall, hlow⟩
  · rw [hentries, lookup_append hbelow]
    cases hcmp : e.key.compare key with
    | lt => exact absurd hcmp hnot
    | eq => simp [rowIDs, hlow, hcmp, hpages, lookup]
    | gt =>
      have hs : SortedKeys IndexKey.compare (e :: (p₂ ++ P₂.flatten)) :=
        (List.pairwise_append.mp (hentries ▸ h.wellFormed.sorted)).2.1
      rw [lookup_cons_gt hs hcmp]
      simp [rowIDs, hlow, hcmp]
  · rw [lookup_eq_nil fun x hx => by simp [hall x hx]]
    simp [rowIDs, hlow]

/-! ## Insertion -/

theorem insertRowID_eq {l : List RowID} (h : l.Pairwise (· < ·)) (rowID : RowID) :
    insertRowID l rowID = (insertValue rowID l, decide (rowID ∉ l)) := by
  unfold insertRowID
  split
  · next hlast =>
    have hlt : ∀ w ∈ l, w < rowID := by
      intro w hw
      rcases List.eq_nil_or_concat l with rfl | ⟨front, last, rfl⟩
      · cases hw
      · rw [List.concat_eq_append] at h hlast hw
        have hl : last < rowID := by simpa using hlast
        rcases List.mem_append.mp hw with hw | hw
        · exact lt_trans ((List.pairwise_append.mp h).2.2 w hw last (by simp)) hl
        · rwa [List.mem_singleton.mp hw]
    have hnot : rowID ∉ l := fun hmem => lt_irrefl _ (hlt rowID hmem)
    rw [insertValue_of_lt hlt]
    simp [hnot]
  · simp only
    split
    · next hhit =>
      have hmem := (mem_iff_getElem?_findIdx h).mpr hhit
      rw [insertValue_of_mem h hmem]
      simp [hmem]
    · next hmiss =>
      have hnot : rowID ∉ l := fun hmem => hmiss ((mem_iff_getElem?_findIdx h).mp hmem)
      rw [insertIdx_findIdx hnot]
      simp [hnot]

/-- The pages that replace page `p` after an insertion into it. -/
def splitPages (p : List BTreeEntry) : List (List BTreeEntry) :=
  if p.length ≤ btreePageMaxEntries then [p]
  else [p.take (p.length / 2), p.drop (p.length / 2)]

theorem splitPage_append (P₁ P₂ : List (List BTreeEntry)) (p : List BTreeEntry) (m : Nat) :
    splitPage ⟨P₁ ++ p :: P₂, m⟩ P₁.length = ⟨P₁ ++ (splitPages p ++ P₂), m⟩ := by
  simp only [splitPage, splitPages, List.getD_append_right _ _ _ _ (le_refl _), Nat.sub_self,
    List.getD_cons_zero]
  split <;> simp

@[simp] theorem splitPages_flatten (p : List BTreeEntry) : (splitPages p).flatten = p := by
  unfold splitPages
  split <;> simp

theorem splitPages_pages {q : List BTreeEntry} (hne : p ≠ [])
    (hlen : p.length ≤ btreePageMaxEntries + 1) (hq : q ∈ splitPages p) :
    q ≠ [] ∧ q.length ≤ btreePageMaxEntries := by
  unfold splitPages at hq
  split at hq
  · next hle =>
    rw [List.mem_singleton.mp hq]
    exact ⟨hne, hle⟩
  · next hgt =>
    simp only [btreePageMaxEntries] at *
    rw [← List.length_pos_iff_ne_nil]
    rcases List.mem_cons.mp hq with rfl | hq
    · rw [List.length_take]
      omega
    · rw [List.mem_singleton.mp hq, List.length_drop]
      omega

private theorem insert_pages (h : b.Inv) (key : IndexKey) (rowID : RowID) :
    (b.insert key rowID).entries = insertMapping IndexKey.compare key rowID b.entries ∧
    (∀ p ∈ (b.insert key rowID).pages, p ≠ [] ∧ p.length ≤ btreePageMaxEntries) ∧
    (b.insert key rowID).mappings =
      if rowID ∈ b.rowIDs key then b.mappings else b.mappings + 1 := by
  have hold : ∀ p ∈ b.pages, p ≠ [] ∧ p.length ≤ btreePageMaxEntries :=
    fun p hp => ⟨h.pages_nonempty p hp, h.pages_bounded p hp⟩
  by_cases hlen : b.pages.length = 0
  · have hnil : b.pages = [] := List.eq_nil_of_length_eq_zero hlen
    refine ⟨?_, ?_, ?_⟩ <;>
      simp [insert, rowIDs, lowerBound, hnil, entries, insertMapping, btreePageMaxEntries]
  rcases lowerBound_cases h key with
    ⟨P₁, p₁, e, p₂, P₂, hpages, hentries, hlow, hbelow, hnot⟩ | ⟨hall, hlow⟩
  · have hinc : e.values.Pairwise (· < ·) := h.wellFormed.increasing e (by simp [hentries])
    obtain ⟨hP₁, hpage, hP₂⟩ := forall_mem_append_cons.mp (hpages ▸ hold)
    rw [hentries, insertMapping_append hbelow]
    cases hcmp : e.key.compare key with
    | lt => exact absurd hcmp hnot
    | eq =>
      have hids : b.rowIDs key = e.values := by simp [rowIDs, hlow, hcmp, hpages]
      rw [hids]
      by_cases hmem : rowID ∈ e.values
      · have hsame : b.insert key rowID = b := by
          simp [insert, hlow, hcmp, hpages, insertRowID_eq hinc, hmem]
        rw [hsame]
        refine ⟨?_, hold, by simp [hmem]⟩
        rw [hentries]
        simp [insertMapping, hcmp, insertValue_of_mem hinc hmem]
      · have hnew : b.insert key rowID =
            ⟨P₁ ++ (p₁ ++ ⟨e.key, insertValue rowID e.values⟩ :: p₂) :: P₂,
              b.mappings + 1⟩ := by
          simp [insert, hlow, hcmp, hpages, insertRowID_eq hinc, hmem]
        rw [hnew]
        refine ⟨by simp [entries, insertMapping, hcmp], ?_, by simp [hmem]⟩
        exact forall_mem_append_cons.mpr ⟨hP₁, by simpa using hpage.2, hP₂⟩
    | gt =>
      have hids : b.rowIDs key = [] := by simp [rowIDs, hlow, hcmp]
      have hnew : b.insert key rowID =
          ⟨P₁ ++ (splitPages (p₁ ++ ⟨key, [rowID]⟩ :: e :: p₂) ++ P₂), b.mappings + 1⟩ := by
        rw [← splitPage_append]
        simp [insert, hlow, hcmp, hpages]
      rw [hnew, hids]
      refine ⟨by simp [entries, insertMapping, hcmp], ?_, by simp⟩
      rw [List.forall_mem_append, List.forall_mem_append]
      refine ⟨hP₁, fun p => splitPages_pages (by simp) ?_, hP₂⟩
      have := hpage.2
      simp only [List.length_append, List.length_cons] at this ⊢
      omega
  · have hids : b.rowIDs key = [] := by simp [rowIDs, hlow]
    rcases List.eq_nil_or_concat b.pages with hnil | ⟨P₁, p, hpages⟩
    · simp [hnil] at hlen
    rw [List.concat_eq_append] at hpages
    have hnew : b.insert key rowID =
        ⟨P₁ ++ (splitPages (p ++ [⟨key, [rowID]⟩]) ++ []), b.mappings + 1⟩ := by
      rw [← splitPage_append]
      simp [insert, hlow, hpages]
    have hmapping : insertMapping IndexKey.compare key rowID b.entries =
        b.entries ++ [⟨key, [rowID]⟩] := by
      conv_lhs => rw [← List.append_nil b.entries]
      rw [insertMapping_append hall]
      rfl
    rw [hnew, hids, hmapping]
    refine ⟨by simp [entries, hpages], ?_, by simp⟩
    obtain ⟨hP₁, hpage, -⟩ := forall_mem_append_cons.mp (hpages ▸ hold)
    rw [List.append_nil, List.forall_mem_append]
    exact ⟨hP₁, fun q => splitPages_pages (by simp) (by simpa using hpage.2)⟩

theorem insert_entries (h : b.Inv) (key : IndexKey) (rowID : RowID) :
    (b.insert key rowID).entries = insertMapping IndexKey.compare key rowID b.entries :=
  (insert_pages h key rowID).1

theorem insert_inv (h : b.Inv) (key : IndexKey) (rowID : RowID) :
    (b.insert key rowID).Inv := by
  obtain ⟨hentries, hpages, hcount⟩ := insert_pages h key rowID
  refine ⟨fun p hp => (hpages p hp).1, fun p hp => (hpages p hp).2, ?_, ?_⟩
  · rw [hentries]
    exact insertMapping_wellFormed h.wellFormed
  · rw [hcount, hentries, rowIDs_eq_lookup h, h.mappings_eq]
    split
    · next hmem => rw [insertMapping_of_mem h.wellFormed hmem]
    · next hmem => rw [mappingCount_insertMapping hmem]

/-! ## Removal -/

private theorem join_pages {P : List (List BTreeEntry)} {i : Nat} (h : i + 1 < P.length) :
    ((P.set i (P.getD i [] ++ P.getD (i + 1) [])).eraseIdx (i + 1)).flatten = P.flatten ∧
    ∀ p ∈ (P.set i (P.getD i [] ++ P.getD (i + 1) [])).eraseIdx (i + 1),
      p ∈ P ∨ p = P.getD i [] ++ P.getD (i + 1) [] := by
  obtain ⟨A, x, y, B, rfl, rfl⟩ := exists_adjacent_split h
  have hx : (A ++ x :: y :: B).getD A.length [] = x := by simp
  have hy : (A ++ x :: y :: B).getD (A.length + 1) [] = y := by simp
  rw [hx, hy]
  refine ⟨by simp, ?_⟩
  intro p hp
  simp only [List.set_append_right _ _ (le_refl _), Nat.sub_self, List.set_cons_zero,
    eraseIdx_append_length_succ, List.mem_append, List.mem_cons] at hp ⊢
  tauto

theorem mergeSparsePage_pages {P : List (List BTreeEntry)} {m i : Nat}
    (hold : ∀ p ∈ P, p ≠ [] ∧ p.length ≤ btreePageMaxEntries) :
    (mergeSparsePage ⟨P, m⟩ i).entries = P.flatten ∧
    (∀ p ∈ (mergeSparsePage ⟨P, m⟩ i).pages, p ≠ [] ∧ p.length ≤ btreePageMaxEntries) ∧
    (mergeSparsePage ⟨P, m⟩ i).mappings = m := by
  have hmem : ∀ j, j < P.length → P.getD j [] ∈ P := by
    intro j hj
    simp [List.getD_eq_getElem?_getD, hj]
  fun_cases mergeSparsePage ⟨P, m⟩ i
  case case3 hguard p _ prev hprev =>
    dsimp only at hguard
    have hi : i - 1 + 1 = i := by omega
    have hjoin := join_pages (P := P) (i := i - 1) (by omega)
    rw [hi] at hjoin
    refine ⟨hjoin.1, fun p hp => ?_, rfl⟩
    rcases hjoin.2 p hp with hp | rfl
    · exact hold p hp
    · have hne := (hold _ (hmem i (by omega))).1
      exact ⟨List.append_ne_nil_of_right_ne_nil _ hne, List.length_append ▸ hprev.2⟩
  case case4 hguard p _ _ next _ hnext =>
    dsimp only at hguard
    have hjoin := join_pages (P := P) (i := i) hnext.1
    refine ⟨hjoin.1, fun p hp => ?_, rfl⟩
    rcases hjoin.2 p hp with hp | rfl
    · exact hold p hp
    · have hne := (hold _ (hmem i (by omega))).1
      exact ⟨List.append_ne_nil_of_left_ne_nil hne _, List.length_append ▸ hnext.2⟩
  all_goals exact ⟨rfl, hold, rfl⟩

private theorem remove_pages (h : b.Inv) (key : IndexKey) (rowID : RowID) :
    (b.remove key rowID).entries = eraseMapping IndexKey.compare key rowID b.entries ∧
    (∀ p ∈ (b.remove key rowID).pages, p ≠ [] ∧ p.length ≤ btreePageMaxEntries) ∧
    (b.remove key rowID).mappings =
      if rowID ∈ b.rowIDs key then b.mappings - 1 else b.mappings := by
  have hold : ∀ p ∈ b.pages, p ≠ [] ∧ p.length ≤ btreePageMaxEntries :=
    fun p hp => ⟨h.pages_nonempty p hp, h.pages_bounded p hp⟩
  by_cases hmem : rowID ∈ b.rowIDs key
  · rcases lowerBound_cases h key with
      ⟨P₁, p₁, e, p₂, P₂, hpages, hentries, hlow, hbelow, hnot⟩ | ⟨-, hlow⟩
    · have hinc : e.values.Pairwise (· < ·) := h.wellFormed.increasing e (by simp [hentries])
      have hcmp : e.key.compare key = .eq := by
        by_contra hne
        have hmiss : (e.key.compare key == .eq) = false := by simpa using hne
        simp [rowIDs, hlow, hmiss] at hmem
      have hids : b.rowIDs key = e.values := by simp [rowIDs, hlow, hcmp, hpages]
      rw [hids] at hmem
      have hhit := (mem_iff_getElem?_findIdx hinc).mp hmem
      have herase := eraseIdx_findIdx hhit
      obtain ⟨hP₁, hpage, hP₂⟩ := forall_mem_append_cons.mp (hpages ▸ hold)
      rw [hentries, eraseMapping_append hbelow, hids]
      by_cases hlast : e.values.erase rowID = []
      · by_cases hempty : p₁ ++ p₂ = []
        · have hnew : b.remove key rowID = ⟨P₁ ++ P₂, b.mappings - 1⟩ := by
            obtain ⟨rfl, rfl⟩ := List.append_eq_nil_iff.mp hempty
            simp only [List.nil_append] at hpages
            simp [remove, hlow, hcmp, hpages, hhit, herase, hlast]
          rw [hnew]
          obtain ⟨rfl, rfl⟩ := List.append_eq_nil_iff.mp hempty
          refine ⟨by simp [entries, eraseMapping, hcmp, hlast], ?_, by simp [hmem]⟩
          exact List.forall_mem_append.mpr ⟨hP₁, hP₂⟩
        · have hnew : b.remove key rowID =
              mergeSparsePage ⟨P₁ ++ (p₁ ++ p₂) :: P₂, b.mappings - 1⟩ P₁.length := by
            simp [remove, hlow, hcmp, hpages, hhit, herase, hlast]
            intro h₁ h₂
            exact absurd (by simp [h₁, h₂]) hempty
          have hpages' : ∀ p ∈ P₁ ++ (p₁ ++ p₂) :: P₂,
              p ≠ [] ∧ p.length ≤ btreePageMaxEntries := by
            refine forall_mem_append_cons.mpr ⟨hP₁, ⟨hempty, ?_⟩, hP₂⟩
            have := hpage.2
            simp only [List.length_append, List.length_cons] at this ⊢
            omega
          obtain ⟨hent, hpgs, hmap⟩ :=
            mergeSparsePage_pages (m := b.mappings - 1) (i := P₁.length) hpages'
          rw [hnew]
          refine ⟨?_, hpgs, by simp [hmap, hmem]⟩
          rw [hent]
          simp [eraseMapping, hcmp, hlast]
      · have hnew : b.remove key rowID =
            ⟨P₁ ++ (p₁ ++ ⟨e.key, e.values.erase rowID⟩ :: p₂) :: P₂, b.mappings - 1⟩ := by
          simp [remove, hlow, hcmp, hpages, hhit, herase, hlast]
        rw [hnew]
        refine ⟨by simp [entries, eraseMapping, hcmp, hlast], ?_, by simp [hmem]⟩
        exact forall_mem_append_cons.mpr ⟨hP₁, by simpa using hpage.2, hP₂⟩
    · simp [rowIDs, hlow] at hmem
  · have hsame : b.remove key rowID = b := by
      rcases lowerBound_cases h key with
        ⟨P₁, p₁, e, p₂, P₂, hpages, hentries, hlow, -, -⟩ | ⟨-, hlow⟩
      · by_cases hcmp : e.key.compare key = .eq
        · have hinc := h.wellFormed.increasing e (by simp [hentries])
          have hids : b.rowIDs key = e.values := by simp [rowIDs, hlow, hcmp, hpages]
          rw [hids] at hmem
          have hmiss := mt (mem_iff_getElem?_findIdx hinc).mpr hmem
          simp only [remove, hlow, hcmp, beq_self_eq_true]
          rw [if_pos (by simpa [hpages] using hmiss)]
        · have hmiss : (e.key.compare key == .eq) = false := by simpa using hcmp
          simp [remove, hlow, hmiss]
      · simp [remove, hlow]
    rw [hsame, eraseMapping_of_not_mem h.wellFormed (by rwa [← rowIDs_eq_lookup h])]
    exact ⟨rfl, hold, by simp [hmem]⟩

theorem remove_entries (h : b.Inv) (key : IndexKey) (rowID : RowID) :
    (b.remove key rowID).entries = eraseMapping IndexKey.compare key rowID b.entries :=
  (remove_pages h key rowID).1

theorem remove_inv (h : b.Inv) (key : IndexKey) (rowID : RowID) :
    (b.remove key rowID).Inv := by
  obtain ⟨hentries, hpages, hcount⟩ := remove_pages h key rowID
  refine ⟨fun p hp => (hpages p hp).1, fun p hp => (hpages p hp).2, ?_, ?_⟩
  · rw [hentries]
    exact eraseMapping_wellFormed h.wellFormed
  · rw [hcount, hentries, rowIDs_eq_lookup h, h.mappings_eq]
    split
    · next hmem =>
      have := mappingCount_eraseMapping hmem h.wellFormed.sorted
      omega
    · next hmem => rw [eraseMapping_of_not_mem h.wellFormed hmem]

/-! ## Lookup and range reads after updates -/

variable {r : RowID}

theorem mem_rowIDs_insert (h : b.Inv) {k : IndexKey} :
    r ∈ (b.insert key rowID).rowIDs k ↔
      (key.compare k = .eq ∧ r = rowID) ∨ r ∈ b.rowIDs k := by
  rw [rowIDs_eq_lookup (insert_inv h key rowID), rowIDs_eq_lookup h, insert_entries h]
  exact mem_lookup_insertMapping h.wellFormed

theorem mem_rowIDs_remove (h : b.Inv) {k : IndexKey} :
    r ∈ (b.remove key rowID).rowIDs k ↔
      r ∈ b.rowIDs k ∧ ¬ (key.compare k = .eq ∧ r = rowID) := by
  rw [rowIDs_eq_lookup (remove_inv h key rowID), rowIDs_eq_lookup h, remove_entries h]
  exact mem_lookup_eraseMapping h.wellFormed

theorem rowIDs_increasing (h : b.Inv) (key : IndexKey) :
    (b.rowIDs key).Pairwise (· < ·) := by
  rw [rowIDs_eq_lookup h]
  exact lookup_increasing h.wellFormed

@[simp] theorem rowIDs_new (key : IndexKey) : new.rowIDs key = [] := by
  simp [rowIDs, lowerBound, new]

def inBounds (low high : Bound) (e : BTreeEntry) : Bool :=
  matchesLowerBound e.key low && matchesUpperBound e.key high

/-- Stopping at the first key past the upper bound loses nothing: keys increase. -/
theorem seekEntries_eq (low high : Bound) {l : List BTreeEntry}
    (hs : SortedKeys IndexKey.compare l) :
    seekEntries low high l = (l.filter (inBounds low high)).flatMap (·.values) := by
  induction l with
  | nil => rfl
  | cons e l ih =>
    simp only [seekEntries]
    split
    · next hlow =>
      have hout : inBounds low high e = false := by
        simp only [inBounds, Bool.and_eq_false_iff]
        exact .inl (by simpa using hlow)
      rw [List.filter_cons_of_neg (by simp [hout])]
      exact ih hs.tail
    · next hlow =>
      split
      · next hhigh =>
        have hout : ∀ x ∈ e :: l, inBounds low high x = false := by
          intro x hx
          simp only [inBounds, Bool.and_eq_false_iff]
          right
          rcases List.mem_cons.mp hx with rfl | hx
          · simpa using hhigh
          · have hlt := (List.pairwise_cons.mp hs).1 x hx
            by_contra hmatch
            have := matchesUpperBound_mono hlt high (by simpa using hmatch)
            simp [this] at hhigh
        rw [List.filter_eq_nil_iff.mpr fun x hx => by simp [hout x hx]]
        rfl
      · next hhigh =>
        have hin : inBounds low high e = true := by
          simp only [inBounds, Bool.and_eq_true]
          exact ⟨by simpa using hlow, by simpa using hhigh⟩
        rw [List.filter_cons_of_pos hin, List.flatMap_cons, ih hs.tail]

theorem collectBounds_eq (h : b.Inv) (low high : Bound) :
    b.collectBounds low high =
      (b.entries.filter (inBounds low high)).flatMap (·.values) := by
  have hs := h.wellFormed.sorted
  by_cases hlow : low.unbounded = true
  · have hread : b.collectBounds low high = seekEntries low high b.entries := by
      simp only [collectBounds, hlow, if_true, List.drop_zero, entries]
      cases b.pages <;> simp [seekEntries]
    rw [hread, seekEntries_eq low high hs]
  · rw [Bool.not_eq_true] at hlow
    have hout : ∀ x : BTreeEntry, x.key.compare (indexKeyForBound low) = .lt →
        inBounds low high x = false := by
      intro x hx
      simp [inBounds, matchesLowerBound_of_lt hlow hx]
    rcases lowerBound_cases h (indexKeyForBound low) with
      ⟨P₁, p₁, e, p₂, P₂, hpages, hentries, hbound, hbelow, -⟩ | ⟨hall, hbound⟩
    · have hread : b.collectBounds low high =
          seekEntries low high (e :: (p₂ ++ P₂.flatten)) := by
        simp [collectBounds, hlow, hbound, hpages]
      have hskip : (P₁.flatten ++ p₁).filter (inBounds low high) = [] :=
        List.filter_eq_nil_iff.mpr fun x hx => by simp [hout x (hbelow x hx)]
      rw [hentries] at hs
      rw [hread, hentries, List.filter_append, hskip, List.nil_append,
        seekEntries_eq low high (List.pairwise_append.mp hs).2.1]
    · have hskip : b.entries.filter (inBounds low high) = [] :=
        List.filter_eq_nil_iff.mpr fun x hx => by simp [hout x (hall x hx)]
      rw [hskip]
      simp [collectBounds, hlow, hbound]

theorem mem_collectBounds (h : b.Inv) {low high : Bound} :
    r ∈ b.collectBounds low high ↔
      ∃ k, r ∈ b.rowIDs k ∧ matchesLowerBound k low = true ∧
        matchesUpperBound k high = true := by
  rw [collectBounds_eq h]
  simp only [List.mem_flatMap, List.mem_filter, inBounds, Bool.and_eq_true]
  constructor
  · rintro ⟨e, ⟨he, hlow, hhigh⟩, hr⟩
    refine ⟨e.key, ?_, hlow, hhigh⟩
    rw [rowIDs_eq_lookup h, mem_lookup_iff h.wellFormed.sorted]
    exact ⟨e, he, Std.ReflCmp.compare_self, hr⟩
  · rintro ⟨k, hr, hlow, hhigh⟩
    rw [rowIDs_eq_lookup h] at hr
    obtain ⟨e, he, hek, hmem⟩ := exists_bucket_of_mem_lookup hr
    refine ⟨e, ⟨he, ?_, ?_⟩, hmem⟩
    · rwa [matchesLowerBound_congr hek]
    · rwa [matchesUpperBound_congr hek]

end BTreeIndex

end Shunter

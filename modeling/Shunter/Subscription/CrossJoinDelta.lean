import Shunter.Foundation.Tally
import Shunter.Subscription.DeltaView
import Shunter.Subscription.PairRows

/-!
# Deltas of cross joins

Without a filter a row of the projected side occurs once for each row of the
other side, so rows and row counts suffice.  With a filter the difference is
put together from partial products, or, when the two sides are one table, from
the products before and after the commit.
-/

namespace Shunter.Subscription

open Foundation

def CrossJoin.matchesPair (p : CrossJoin) (l r : ProductValue) : Bool :=
  matchJoinPair p.filter p.left p.leftAlias l p.right p.rightAlias r

def crossJoinProjectedRows (p : CrossJoin) (leftRows rightRows : List ProductValue) :
    List ProductValue :=
  leftRows.flatMap fun l => (rightRows.filter (p.matchesPair l)).map fun r =>
    if p.projectRight then r else l

def crossJoinOtherTable (p : CrossJoin) : TableID :=
  if p.projectedTable = p.left then p.right else p.left

/-- The counts are of type `uint64`; a row that cannot be encoded makes the source panic. -/
def countProjectedRowsWithMultiplier (rows : List ProductValue) (multiplier : Nat) :
    Option (List (Tallied Bytes ProductValue)) :=
  if multiplier = 0 then some []
  else (rows.mapM fun row => (encodeRowKey row).map fun key => (key, row)).map
    (tally (2 ^ 64) multiplier)

def diffProjectedRowsWithMultiplicity (beforeRows : List ProductValue) (beforeMultiplier : Nat)
    (afterRows : List ProductValue) (afterMultiplier : Nat) :
    Option (List ProductValue × List ProductValue) := do
  let before ← countProjectedRowsWithMultiplier beforeRows beforeMultiplier
  let after ← countProjectedRowsWithMultiplier afterRows afterMultiplier
  some (surplus after before, surplus before after)

/-- A fragment of a partial product; without rows to start from there is none. -/
def crossJoinFragment (p : CrossJoin) (changed leftRows rightRows : List ProductValue) :
    List (List ProductValue) :=
  if changed = [] then [] else [crossJoinProjectedRows p leftRows rightRows]

def evalFilteredCrossJoinDelta (dv : DeltaView) (p : CrossJoin) :
    List ProductValue × List ProductValue :=
  let leftInserts := dv.inserts p.left
  let rightInserts := dv.inserts p.right
  let leftDeletes := dv.deletes p.left
  let rightDeletes := dv.deletes p.right
  reconcileJoinDelta
    (crossJoinFragment p leftInserts leftInserts (dv.tableRowsAfter p.right) ++
      crossJoinFragment p rightInserts
        (subtractProjectedRowsByKey (dv.tableRowsAfter p.left) leftInserts) rightInserts)
    (crossJoinFragment p leftDeletes leftDeletes (dv.projectedRowsBefore p.right) ++
      crossJoinFragment p rightDeletes
        (subtractProjectedRowsByKey (dv.projectedRowsBefore p.left) leftDeletes) rightDeletes)

def evalCrossJoinDelta (dv : DeltaView) (p : CrossJoin) :
    Option (List ProductValue × List ProductValue) :=
  if p.filter ≠ .missing then
    if p.left ≠ p.right then some (evalFilteredCrossJoinDelta dv p)
    else
      let leftBefore := dv.projectedRowsBefore p.left
      let leftAfter := dv.tableRowsAfter p.left
      diffProjectedRowsWithMultiplicity (crossJoinProjectedRows p leftBefore leftBefore) 1
        (crossJoinProjectedRows p leftAfter leftAfter) 1
  else
    diffProjectedRowsWithMultiplicity
      (dv.projectedRowsBefore p.projectedTable) (dv.rowCountBefore (crossJoinOtherTable p))
      (dv.tableRowsAfter p.projectedTable) (dv.rowCountAfter (crossJoinOtherTable p))

/-! ## The rows of a cross join -/

namespace CrossJoin

def selection (p : CrossJoin) : PairSelection where
  accepts := p.matchesPair
  projectRight := p.projectRight
  congr := fun _ _ _ _ hl hr => matchJoinPair_congr _ _ _ _ _ hl hr

/-- Each row of the projected side, once for every row of the other side with which the pair
passes the filter. -/
def projectedRows (p : CrossJoin) (rows : TableID → List ProductValue) : List ProductValue :=
  p.selection.rows (rows p.left) (rows p.right)

variable (p : CrossJoin)

theorem crossJoinProjectedRows_eq (l r : List ProductValue) :
    crossJoinProjectedRows p l r = p.selection.rows l r := by
  rw [PairSelection.rows_eq_flatMap]
  rfl

theorem rowBag_crossJoinProjectedRows (l r : List ProductValue) :
    rowBag (crossJoinProjectedRows p l r) = p.selection.pairs l r := by
  rw [crossJoinProjectedRows_eq, PairSelection.rowBag_rows]

theorem rowBag_projectedRows (rows : TableID → List ProductValue) :
    rowBag (p.projectedRows rows) = p.selection.pairs (rows p.left) (rows p.right) :=
  p.selection.rowBag_rows _ _

theorem rowBag_crossJoinFragment {changed l r : List ProductValue}
    (h : changed = [] → l = [] ∨ r = []) :
    rowBag (crossJoinFragment p changed l r).flatten = p.selection.pairs l r := by
  unfold crossJoinFragment
  split
  · next hnil => rcases h hnil with rfl | rfl <;> simp
  · rw [List.flatten_singleton, rowBag_crossJoinProjectedRows]

end CrossJoin

variable {dv : DeltaView} {before after : CommittedState} {changeset : Changeset} {p : CrossJoin}

theorem evalFilteredCrossJoinDelta_exact (h : dv.Shows before changeset)
    (hleft : dv.Stored before p.left) (hright : dv.Stored before p.right) :
    ExactDelta (p.projectedRows before.tableRows) (p.projectedRows dv.committed.tableRows)
      (evalFilteredCrossJoinDelta dv p).1 (evalFilteredCrossJoinDelta dv p).2 := by
  obtain ⟨hlb, hla⟩ := h.rowBag_change hleft
  obtain ⟨hrb, hra⟩ := h.rowBag_change hright
  have hlbefore := h.rowBag_projectedRowsBefore hleft
  have hrbefore := h.rowBag_projectedRowsBefore hright
  rw [← hlb] at hlbefore
  rw [← hrb] at hrbefore
  have hstayAfter : rowBag (subtractProjectedRowsByKey (dv.tableRowsAfter p.left)
      (dv.inserts p.left)) = rowBag (tableChange before changeset p.left).stay := by
    apply rowBag_subtractProjectedRowsByKey
    rw [DeltaView.Shows.tableRowsAfter_eq hleft, ← hla, h.inserts]
    exact rowBag_append _ _
  have hstayBefore : rowBag (subtractProjectedRowsByKey (dv.projectedRowsBefore p.left)
      (dv.deletes p.left)) = rowBag (tableChange before changeset p.left).stay := by
    apply rowBag_subtractProjectedRowsByKey
    rw [hlbefore, h.deletes]
    exact rowBag_append _ _
  rw [evalFilteredCrossJoinDelta, reconcileJoinDelta_exact_iff]
  simp only [List.flatten_append, rowBag_append]
  rw [p.rowBag_crossJoinFragment fun hnil => .inl hnil, p.rowBag_crossJoinFragment .inr,
    p.rowBag_crossJoinFragment fun hnil => .inl hnil, p.rowBag_crossJoinFragment .inr,
    p.rowBag_projectedRows, p.rowBag_projectedRows, PairSelection.pairs_congr hlb.symm hrb.symm,
    PairSelection.pairs_congr hla.symm hra.symm, PairSelection.pairs_congr hstayAfter rfl,
    PairSelection.pairs_congr hstayBefore rfl, PairSelection.pairs_congr rfl hrbefore,
    DeltaView.Shows.tableRowsAfter_eq hright, PairSelection.pairs_congr rfl hra.symm, h.inserts,
    h.deletes]
  simp only [Change.before, Change.after, tableChange, PairSelection.pairs_append_left,
    PairSelection.pairs_append_right]
  abel

/-! ## Counting with a multiplier -/

variable {keyed : List (Bytes × ProductValue)} {es : List (Tallied Bytes ProductValue)}

section Multiplicity

def Keyed (rows : List ProductValue) (keyed : List (Bytes × ProductValue)) : Prop :=
  keyed.map Prod.snd = rows ∧ ∀ ka ∈ keyed, encodeRowKey ka.2 = some ka.1

variable {rows : List ProductValue}

theorem keyed_of_mapM
    (h : rows.mapM (fun row => (encodeRowKey row).map fun key => (key, row)) = some keyed) :
    Keyed rows keyed := by
  induction rows generalizing keyed with
  | nil =>
    cases h
    exact ⟨rfl, by simp⟩
  | cons row rows ih =>
    simp only [List.mapM_cons, Option.bind_eq_bind, Option.bind_eq_some_iff, Option.map_eq_some_iff,
      Option.pure_def, Option.some.injEq] at h
    obtain ⟨_, ⟨key, hkey, rfl⟩, rest, hrest, rfl⟩ := h
    obtain ⟨hrows, hkeys⟩ := ih hrest
    exact ⟨by rw [List.map_cons, hrows], List.forall_mem_cons.mpr ⟨hkey, hkeys⟩⟩

theorem Keyed.countP_key (h : Keyed rows keyed) {b : ProductValue} {key : Bytes}
    (hb : encodeRowKey b = some key) :
    (keyed.countP fun ka => ka.1 = key) = (rowBag rows).count b.rowClass := by
  rw [← h.1, rowBag, count_bag, List.countP_map]
  apply List.countP_congr
  intro ka hka
  simp [encodeRowKey_eq_iff (h.2 ka hka) hb]

/-- What the code counts: each row with the multiplier, as long as no count overflows. -/
structure CountsRows (es : List (Tallied Bytes ProductValue)) (rows : List ProductValue)
    (multiplier : Nat) : Prop where
  nodup : (es.map Tallied.key).Nodup
  key : ∀ e ∈ es, encodeRowKey e.item = some e.key
  count : ∀ b key, encodeRowKey b = some key →
    multiplier * (rowBag rows).count b.rowClass < 2 ^ 64 →
    countOf es key = multiplier * (rowBag rows).count b.rowClass
  encoded : ∀ b, encodeRowKey b = none → multiplier * (rowBag rows).count b.rowClass = 0

theorem countsRows {multiplier : Nat}
    (h : countProjectedRowsWithMultiplier rows multiplier = some es) :
    CountsRows es rows multiplier := by
  unfold countProjectedRowsWithMultiplier at h
  split at h
  · next hzero =>
    cases h
    exact ⟨.nil, by simp, by simp [hzero, countOf], by simp [hzero]⟩
  · obtain ⟨keyed, hkeyed, rfl⟩ := Option.map_eq_some_iff.mp h
    have hk := keyed_of_mapM hkeyed
    have ht := tally_isTally (2 ^ 64) multiplier keyed
    refine ⟨ht.nodup, fun e he => hk.2 _ (ht.item e he), fun b key hb hlt => ?_, fun b hb => ?_⟩
    · rw [ht.count, hk.countP_key hb, Nat.mod_eq_of_lt hlt]
    · have hcount : (rowBag rows).count b.rowClass = 0 := by
        rw [Multiset.count_eq_zero, rowBag, mem_bag]
        rintro ⟨row, hrow, heq⟩
        rw [← hk.1] at hrow
        obtain ⟨ka, hka, rfl⟩ := List.mem_map.mp hrow
        have hkey := hk.2 ka hka
        rw [encodeRowKey_congr heq, hb] at hkey
        cases hkey
      rw [hcount, Nat.mul_zero]

theorem CountsRows.count_surplus {es' : List (Tallied Bytes ProductValue)}
    {rows' : List ProductValue} {m m' : Nat} (h : CountsRows es rows m)
    (h' : CountsRows es' rows' m') {b : ProductValue}
    (hlt : m * (rowBag rows).count b.rowClass < 2 ^ 64)
    (hlt' : m' * (rowBag rows').count b.rowClass < 2 ^ 64) :
    (rowBag (surplus es es')).count b.rowClass =
      m * (rowBag rows).count b.rowClass - m' * (rowBag rows').count b.rowClass := by
  cases hb : encodeRowKey b with
  | none =>
    rw [h.encoded b hb, Nat.zero_sub, Multiset.count_eq_zero, rowBag, mem_bag]
    rintro ⟨row, hrow, heq⟩
    obtain ⟨e, he, hrow⟩ := List.mem_flatMap.mp hrow
    have hkey := h.key e he
    rw [← List.eq_of_mem_replicate hrow, encodeRowKey_congr heq, hb] at hkey
    cases hkey
  | some key =>
    rw [← h.count b key hb hlt, ← h'.count b key hb hlt']
    apply Foundation.count_surplus h.nodup
    exact fun e he => encodeRowKey_eq_iff (h.key e he) hb

theorem countProjectedRowsWithMultiplier_isSome
    (h : ∀ row ∈ rows, (encodeRowKey row).isSome = true) (multiplier : Nat) :
    (countProjectedRowsWithMultiplier rows multiplier).isSome = true := by
  have hmap : (rows.mapM fun row => (encodeRowKey row).map fun key => (key, row)).isSome = true := by
    apply isSome_mapM
    intro row hrow
    simpa using h row hrow
  unfold countProjectedRowsWithMultiplier
  split
  · rfl
  · simpa using hmap

end Multiplicity

namespace CrossJoin

variable (p : CrossJoin) (rows : TableID → List ProductValue)

theorem projectedSide_rows :
    p.selection.projectedSide (rows p.left) (rows p.right) = rows p.projectedTable := by
  unfold PairSelection.projectedSide projectedTable
  exact (apply_ite rows _ _ _).symm

theorem otherSide_rows :
    p.selection.otherSide (rows p.left) (rows p.right) = rows (crossJoinOtherTable p) := by
  unfold PairSelection.otherSide crossJoinOtherTable projectedTable selection
  cases p.projectRight with
  | false => simp
  | true =>
    by_cases h : p.right = p.left
    · simp [h]
    · simp [h]

end CrossJoin

/-! ## The delta -/

theorem CrossJoin.projectedTable_eq (p : CrossJoin) :
    p.projectedTable = p.left ∨ p.projectedTable = p.right := by
  unfold CrossJoin.projectedTable
  cases p.projectRight <;> simp

theorem crossJoinOtherTable_eq (p : CrossJoin) :
    crossJoinOtherTable p = p.left ∨ crossJoinOtherTable p = p.right := by
  unfold crossJoinOtherTable
  split <;> simp

theorem CrossJoin.count_projectedRows_lt {cs : CommittedState} (hcs : cs.Inv)
    (k : List (List (List Int))) : (rowBag (p.projectedRows cs.tableRows)).count k < 2 ^ 64 := by
  have hle := p.selection.count_pairs_le (cs.tableRows p.left) (cs.tableRows p.right) k
  rw [p.projectedSide_rows, p.otherSide_rows, CommittedState.length_tableRows] at hle
  have hone := count_rowBag_tableRows_le hcs p.projectedTable k
  have hlt := CommittedState.rowCount_lt hcs (crossJoinOtherTable p)
  rw [rowBag_projectedRows]
  calc (p.selection.pairs (cs.tableRows p.left) (cs.tableRows p.right)).count k
      ≤ cs.rowCount (crossJoinOtherTable p) *
          (rowBag (cs.tableRows p.projectedTable)).count k := hle
    _ ≤ cs.rowCount (crossJoinOtherTable p) * 1 := Nat.mul_le_mul_left _ hone
    _ < 2 ^ 64 := by rwa [Nat.mul_one]

theorem CrossJoin.count_projectedRows_of_missing (hfilter : p.filter = .missing)
    (cs : CommittedState) (k : List (List (List Int))) :
    (rowBag (p.projectedRows cs.tableRows)).count k =
      (cs.tableRows (crossJoinOtherTable p)).length *
        (rowBag (cs.tableRows p.projectedTable)).count k := by
  have hall : ∀ a b, p.selection.accepts a b = true := by
    intro a b
    simp [selection, matchesPair, hfilter, matchJoinPair, matchRows]
  rw [rowBag_projectedRows, PairSelection.count_pairs_of_all _ _ _ hall, p.projectedSide_rows,
    p.otherSide_rows]

variable {result : List ProductValue × List ProductValue}

/-- Counting with multipliers gives the difference of the bags that the multiplied rows are. -/
theorem diffProjectedRowsWithMultiplicity_exact
    {beforeRows afterRows before after : List ProductValue} {m m' : Nat}
    (h : diffProjectedRowsWithMultiplicity beforeRows m afterRows m' = some result)
    (hbefore : ∀ b : ProductValue, m * (rowBag beforeRows).count b.rowClass =
      (rowBag before).count b.rowClass ∧ (rowBag before).count b.rowClass < 2 ^ 64)
    (hafter : ∀ b : ProductValue, m' * (rowBag afterRows).count b.rowClass =
      (rowBag after).count b.rowClass ∧ (rowBag after).count b.rowClass < 2 ^ 64) :
    ExactDelta before after result.1 result.2 := by
  simp only [diffProjectedRowsWithMultiplicity, Option.bind_eq_bind, Option.bind_eq_some_iff,
    Option.some.injEq] at h
  obtain ⟨es, hes, es', hes', rfl⟩ := h
  have hcount := countsRows hes
  have hcount' := countsRows hes'
  apply exactDelta_of_counts
  intro b
  obtain ⟨hb, hlt⟩ := hbefore b
  obtain ⟨ha, hlt'⟩ := hafter b
  rw [hcount'.count_surplus hcount (ha ▸ hlt') (hb ▸ hlt),
    hcount.count_surplus hcount' (hb ▸ hlt) (ha ▸ hlt'), hb, ha]
  exact ⟨rfl, rfl⟩

/-- The delta of a self cross join with a filter: the products before and after are compared. -/
theorem selfCrossJoinDelta_exact (h : dv.Shows before changeset) (hself : p.left = p.right)
    (hstored : dv.Stored before p.left)
    (hresult :
      diffProjectedRowsWithMultiplicity
      (crossJoinProjectedRows p (dv.projectedRowsBefore p.left) (dv.projectedRowsBefore p.left)) 1
      (crossJoinProjectedRows p (dv.tableRowsAfter p.left) (dv.tableRowsAfter p.left)) 1 =
        some result) :
    ExactDelta (p.projectedRows before.tableRows) (p.projectedRows dv.committed.tableRows)
      result.1 result.2 := by
  have hbefore := h.rowBag_projectedRowsBefore hstored
  apply diffProjectedRowsWithMultiplicity_exact hresult
  · intro b
    refine ⟨?_, CrossJoin.count_projectedRows_lt h.inv _⟩
    rw [Nat.one_mul, CrossJoin.rowBag_crossJoinProjectedRows, CrossJoin.rowBag_projectedRows,
      ← hself, PairSelection.pairs_congr hbefore hbefore]
  · intro b
    refine ⟨?_, CrossJoin.count_projectedRows_lt (h.committed.inv h.inv) _⟩
    rw [Nat.one_mul, CrossJoin.rowBag_crossJoinProjectedRows, CrossJoin.rowBag_projectedRows,
      ← hself, DeltaView.Shows.tableRowsAfter_eq hstored]

theorem unfilteredCrossJoinDelta_exact (h : dv.Shows before changeset)
    (hfilter : p.filter = .missing) (hleft : dv.Stored before p.left)
    (hright : dv.Stored before p.right)
    (hresult :
      diffProjectedRowsWithMultiplicity (dv.projectedRowsBefore p.projectedTable)
      (dv.rowCountBefore (crossJoinOtherTable p)) (dv.tableRowsAfter p.projectedTable)
      (dv.rowCountAfter (crossJoinOtherTable p)) = some result) :
    ExactDelta (p.projectedRows before.tableRows) (p.projectedRows dv.committed.tableRows)
      result.1 result.2 := by
  have hprojected : dv.Stored before p.projectedTable := by
    rcases p.projectedTable_eq with heq | heq <;> rw [heq] <;> assumption
  have hother : dv.Stored before (crossJoinOtherTable p) := by
    rcases crossJoinOtherTable_eq p with heq | heq <;> rw [heq] <;> assumption
  apply diffProjectedRowsWithMultiplicity_exact hresult
  · intro b
    refine ⟨?_, CrossJoin.count_projectedRows_lt h.inv _⟩
    rw [CrossJoin.count_projectedRows_of_missing hfilter, h.rowCountBefore_eq hother,
      h.rowBag_projectedRowsBefore hprojected]
  · intro b
    refine ⟨?_, CrossJoin.count_projectedRows_lt (h.committed.inv h.inv) _⟩
    rw [CrossJoin.count_projectedRows_of_missing hfilter,
      DeltaView.Shows.rowCountAfter_eq hother, DeltaView.Shows.tableRowsAfter_eq hprojected]

theorem mem_of_mem_crossJoinProjectedRows {l r : List ProductValue} {row : ProductValue}
    (h : row ∈ crossJoinProjectedRows p l r) : row ∈ l ∨ row ∈ r := by
  obtain ⟨a, ha, h⟩ := List.mem_flatMap.mp h
  obtain ⟨b, hb, rfl⟩ := List.mem_map.mp h
  split
  · exact .inr (List.mem_of_mem_filter hb)
  · exact .inl ha

theorem evalCrossJoinDelta_isSome (h : dv.Shows before changeset)
    (hstored : dv.Stored before p.projectedTable)
    (hkeys : ∀ row, row ∈ before.tableRows p.projectedTable ∨
      row ∈ dv.committed.tableRows p.projectedTable → (encodeRowKey row).isSome = true) :
    (evalCrossJoinDelta dv p).isSome = true := by
  have hdiff : ∀ {rows rows' : List ProductValue} (m m' : Nat),
      (∀ row ∈ rows, (encodeRowKey row).isSome = true) →
      (∀ row ∈ rows', (encodeRowKey row).isSome = true) →
      (diffProjectedRowsWithMultiplicity rows m rows' m').isSome = true := by
    intro rows rows' m m' hrows hrows'
    obtain ⟨es, hes⟩ := Option.isSome_iff_exists.mp
      (countProjectedRowsWithMultiplier_isSome hrows m)
    obtain ⟨es', hes'⟩ := Option.isSome_iff_exists.mp
      (countProjectedRowsWithMultiplier_isSome hrows' m')
    simp [diffProjectedRowsWithMultiplicity, hes, hes']
  have hbefore : ∀ row ∈ dv.projectedRowsBefore p.projectedTable,
      (encodeRowKey row).isSome = true :=
    fun row hrow => hkeys row (h.mem_projectedRowsBefore hstored hrow)
  have hafter : ∀ row ∈ dv.tableRowsAfter p.projectedTable, (encodeRowKey row).isSome = true := by
    intro row hrow
    rw [DeltaView.Shows.tableRowsAfter_eq hstored] at hrow
    exact hkeys row (.inr hrow)
  unfold evalCrossJoinDelta
  split
  · split
    · rfl
    · next hself =>
      have htable : p.projectedTable = p.left := by
        rcases p.projectedTable_eq with heq | heq
        · exact heq
        · exact heq.trans (not_not.mp hself).symm
      rw [htable] at hbefore hafter
      apply hdiff
      · exact fun row hrow => (mem_of_mem_crossJoinProjectedRows hrow).elim (hbefore row)
          (hbefore row)
      · exact fun row hrow => (mem_of_mem_crossJoinProjectedRows hrow).elim (hafter row)
          (hafter row)
  · exact hdiff _ _ hbefore hafter

/-- The delta of a cross join is the exact difference of the products. -/
theorem crossJoin_delta_exact (hinv : before.Inv)
    (hcommit : StateCommitted before after changeset) {cols : List (TableID × List Nat)}
    {events : TableID → Bool} (hnew : DeltaView.new after changeset cols events = some dv)
    (p : CrossJoin) (hleft : dv.Stored before p.left) (hright : dv.Stored before p.right) :
    (∀ inserts deletes, evalCrossJoinDelta dv p = some (inserts, deletes) →
      ExactDelta (p.projectedRows before.tableRows) (p.projectedRows after.tableRows) inserts
        deletes) ∧
      ((∀ row, row ∈ before.tableRows p.projectedTable ∨ row ∈ after.tableRows p.projectedTable →
        (encodeRowKey row).isSome = true) → (evalCrossJoinDelta dv p).isSome = true) := by
  obtain ⟨rfl, hshows⟩ := DeltaView.shows_of_new hinv hcommit hnew
  constructor
  · intro inserts deletes heval
    unfold evalCrossJoinDelta at heval
    split at heval
    · split at heval
      · have hexact := evalFilteredCrossJoinDelta_exact hshows hleft hright
        rwa [Option.some.inj heval] at hexact
      · next hself => exact selfCrossJoinDelta_exact hshows (not_not.mp hself) hleft heval
    · next hfilter =>
      exact unfilteredCrossJoinDelta_exact hshows (not_not.mp hfilter) hleft hright heval
  · apply evalCrossJoinDelta_isSome hshows
    rcases p.projectedTable_eq with heq | heq <;> rw [heq] <;> assumption

def teamPairs : CrossJoin := ⟨0, 0, 0, 1, false, .missing⟩

theorem teamPairs_delta :
    ∃ inserts deletes, evalCrossJoinDelta teamsView teamPairs = some (inserts, deletes) ∧
      inserts = [member 2 7] ∧
      ExactDelta (teamPairs.projectedRows teamsBefore.tableRows)
        (teamPairs.projectedRows teamsAfter.tableRows) inserts deletes := by
  have heval : evalCrossJoinDelta teamsView teamPairs = some ([member 2 7], [member 1 7]) := by
    decide +kernel
  exact ⟨_, _, heval, rfl, (crossJoin_delta_exact teamsBefore_inv teams_committed teamsView_new
    teamPairs teamsView_stored teamsView_stored).1 _ _ heval⟩

end Shunter.Subscription

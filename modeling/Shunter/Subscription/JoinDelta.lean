import Shunter.Subscription.DeltaView
import Shunter.Subscription.PairRows

/-!
# Deltas of joins of two tables

Four added and four removed fragments make up the difference.  Each joins the
changed rows of one side with the changed rows of the other or with the rows
after the commit, through a committed index, an index over the changed rows or
a nested scan.
-/

namespace Shunter.Subscription

open Foundation

abbrev IndexResolver := TableID → Nat → Option IndexID

namespace Join

variable (join : Join)

def pairMatches (l r : ProductValue) : Bool :=
  matchJoinPair join.filter join.left join.leftAlias l join.right join.rightAlias r

def tryJoinFilter (l r : ProductValue) : Option ProductValue :=
  if join.pairMatches l r then some (l ++ r) else none

def tryJoinFilterFromDrive (driveIsLeft : Bool) (drive probe : ProductValue) :
    Option ProductValue :=
  if driveIsLeft then join.tryJoinFilter drive probe else join.tryJoinFilter probe drive

end Join

/-- The side from which a fragment starts and the side it looks up. -/
structure JoinDrive where
  driveTable : TableID
  driveCol : Nat
  probeTable : TableID
  probeCol : Nat
  driveIsLeft : Bool

def Join.fromLeft (join : Join) : JoinDrive :=
  ⟨join.left, join.leftCol, join.right, join.rightCol, true⟩

def Join.fromRight (join : Join) : JoinDrive :=
  ⟨join.right, join.rightCol, join.left, join.leftCol, false⟩

section Fragments

variable (dv : DeltaView) (join : Join) (drive : JoinDrive)

def joinWithEqual (row : ProductValue) (value : Value) (probeRows : List ProductValue) :
    List ProductValue :=
  (probeRows.filter fun probe => matchColumn probe drive.probeCol fun w => value.equal w).filterMap
    (join.tryJoinFilterFromDrive drive.driveIsLeft row)

def joinDriveCommittedByIndex (driving : List ProductValue) (probeIdx : IndexID) :
    List ProductValue :=
  driving.flatMap fun row =>
    match rowValue row drive.driveCol with
    | none => []
    | some value =>
      (dv.committed.seekRows drive.probeTable probeIdx [value]).filterMap
        (join.tryJoinFilterFromDrive drive.driveIsLeft row) ++
      if dv.events drive.probeTable then
        joinWithEqual join drive row value (dv.inserts drive.probeTable)
      else []

/-- What a row of the looked up side finds in the index over the changed rows, with their
positions. -/
def deltaIndexHits (driving : List ProductValue) (driveInserted : Bool) (probe : ProductValue) :
    Option (List (Nat × ProductValue)) :=
  match rowValue probe drive.probeCol with
  | none => some []
  | some value => do
    let positions ← dv.deltaIndexPositions drive.driveTable drive.driveCol value driveInserted
    some (positions.filterMap fun pos => do
      let row ← driving[pos]?
      let _ ← rowValue row drive.driveCol
      let joined ← join.tryJoinFilterFromDrive drive.driveIsLeft row probe
      some (pos, joined))

/-- The matches are put together in the order of the changed rows. -/
def joinDriveCommittedByDeltaIndex (driving : List ProductValue) (driveInserted : Bool) :
    Option (List ProductValue) := do
  let hits ← (dv.tableRowsAfter drive.probeTable).mapM
    (deltaIndexHits dv join drive driving driveInserted)
  some ((List.range driving.length).flatMap fun pos =>
    (hits.flatten.filter fun hit => hit.1 = pos).map Prod.snd)

def joinDriveCommittedByNestedScan (driving : List ProductValue) : List ProductValue :=
  driving.flatMap fun row =>
    match rowValue row drive.driveCol with
    | none => []
    | some value => joinWithEqual join drive row value (dv.tableRowsAfter drive.probeTable)

def joinDriveCommittedRows (resolver : IndexResolver) (driveInserted : Bool) :
    Option (List ProductValue) :=
  let driving := dv.deltaRows drive.driveTable driveInserted
  if driving = [] then some []
  else
    match resolver drive.probeTable drive.probeCol with
    | some probeIdx => some (joinDriveCommittedByIndex dv join drive driving probeIdx)
    | none =>
      if dv.hasDeltaIndex drive.driveTable drive.driveCol driveInserted then
        joinDriveCommittedByDeltaIndex dv join drive driving driveInserted
      else some (joinDriveCommittedByNestedScan dv join drive driving)

/-- Changed rows of the left side with changed rows of the right side; `none` is a panic of the
index read. -/
def joinDriveDelta (driveInserted probeInserts : Bool) : Option (List ProductValue) := do
  let rows ← (dv.deltaRows join.left driveInserted).mapM fun row =>
    match rowValue row join.leftCol with
    | none => some []
    | some value =>
      (dv.deltaIndexScan join.right join.rightCol value probeInserts).map
        (·.filterMap (join.tryJoinFilter row))
  some rows.flatten

structure JoinFragments where
  inserts : List (List ProductValue)
  deletes : List (List ProductValue)

def evalJoinDeltaFragments (resolver : IndexResolver) : Option JoinFragments := do
  let i₁ ← joinDriveCommittedRows dv join join.fromLeft resolver true
  let i₂ ← joinDriveCommittedRows dv join join.fromRight resolver true
  let i₃ ← joinDriveDelta dv join true false
  let i₄ ← joinDriveDelta dv join false true
  let d₁ ← joinDriveCommittedRows dv join join.fromLeft resolver false
  let d₂ ← joinDriveCommittedRows dv join join.fromRight resolver false
  let d₃ ← joinDriveDelta dv join true true
  let d₄ ← joinDriveDelta dv join false false
  some ⟨[i₁, i₂, i₃, i₄], [d₁, d₂, d₃, d₄]⟩

end Fragments

/-! ## Projection -/

/-- One side of each joined row; a row that is too short is skipped. -/
def projectJoinedRows (lhsWidth : Nat) (projectRight : Bool) (rows : List ProductValue) :
    List ProductValue :=
  (rows.filter fun row => 0 < lhsWidth && lhsWidth ≤ row.length).map fun row =>
    if projectRight then row.drop lhsWidth else row.take lhsWidth

/-- Projecting can make rows equal, so the projected rows are reconciled once more. -/
def projectDeltaRows (inserts deletes : List ProductValue) (projection : List ProjectionColumn) :
    List ProductValue × List ProductValue :=
  let inserts := projectRows inserts projection
  let deletes := projectRows deletes projection
  if projection = [] ∨ inserts = [] ∨ deletes = [] then (inserts, deletes)
  else reconcileJoinDelta [inserts] [deletes]

def evalJoinQuery (dv : DeltaView) (join : Join) (resolver : IndexResolver) (lhsWidth : Nat)
    (projection : List ProjectionColumn) : Option (List ProductValue × List ProductValue) := do
  let frags ← evalJoinDeltaFragments dv join resolver
  let (inserts, deletes) := reconcileJoinDelta
    (frags.inserts.map (projectJoinedRows lhsWidth join.projectRight))
    (frags.deletes.map (projectJoinedRows lhsWidth join.projectRight))
  some (projectDeltaRows inserts deletes projection)

/-! ## The pairs of a join -/

theorem value_equal_comm (v w : Value) : v.equal w = w.equal v := by
  rw [Bool.eq_iff_iff, Value.equal_iff_rank, Value.equal_iff_rank, eq_comm]

theorem matchColumns_comm (l r : ProductValue) (leftCol rightCol : Nat) :
    matchColumns l leftCol r rightCol = matchColumns r rightCol l leftCol := by
  unfold matchColumns matchColumn
  cases rowValue l leftCol <;> cases rowValue r rightCol <;> simp [value_equal_comm]

namespace Join

variable (join : Join)

def accepts (l r : ProductValue) : Bool :=
  matchColumns l join.leftCol r join.rightCol && join.pairMatches l r

def selection : PairSelection where
  accepts := join.accepts
  projectRight := join.projectRight
  congr := by
    intro l l' r r' hl hr
    rw [accepts, accepts, matchColumns_congr hl hr]
    exact congrArg _ (matchJoinPair_congr _ _ _ _ _ hl hr)

def projectedRows (rows : TableID → List ProductValue) : List ProductValue :=
  join.selection.rows (rows join.left) (rows join.right)

def joined (l r : ProductValue) : Multiset ProductValue := if join.accepts l r then {l ++ r} else 0

def joinedRows (left right : List ProductValue) : Multiset ProductValue :=
  total (fun l => total (join.joined l) right) left

theorem joinedRows_comm (left right : List ProductValue) :
    join.joinedRows left right = total (fun r => total (fun l => join.joined l r) left) right :=
  total_comm _ left right

/-- A pair with the changed row on the side from which the fragment starts. -/
def joinedFrom (driveIsLeft : Bool) (row probe : ProductValue) : Multiset ProductValue :=
  if driveIsLeft then join.joined row probe else join.joined probe row

def drive (driveIsLeft : Bool) : JoinDrive := if driveIsLeft then join.fromLeft else join.fromRight

@[simp] theorem drive_driveIsLeft (side : Bool) : (join.drive side).driveIsLeft = side := by
  cases side <;> rfl

/-- The pairs of some rows of one side with all rows of the other after the commit. -/
def joinedAfter (dv : DeltaView) (side : Bool) (driving : List ProductValue) :
    Multiset ProductValue :=
  total (fun row => total (join.joinedFrom side row)
    (dv.tableRowsAfter (join.drive side).probeTable)) driving

theorem joinedFrom_eq (side : Bool) (row probe : ProductValue) :
    join.joinedFrom side row probe =
      if matchColumns row (join.drive side).driveCol probe (join.drive side).probeCol
      then bag id (join.tryJoinFilterFromDrive side row probe).toList else 0 := by
  cases side with
  | true =>
    cases hcols : matchColumns row join.leftCol probe join.rightCol <;>
      cases hpair : join.pairMatches row probe <;>
      simp [joinedFrom, joined, accepts, drive, fromLeft, tryJoinFilterFromDrive, tryJoinFilter,
        hcols, hpair, bag]
  | false =>
    cases hcols : matchColumns probe join.leftCol row join.rightCol <;>
      cases hpair : join.pairMatches probe row <;>
      simp [joinedFrom, joined, accepts, drive, fromRight, tryJoinFilterFromDrive,
        tryJoinFilter, matchColumns_comm row, hcols, hpair, bag]

theorem bag_joinWithEqual (side : Bool) {row : ProductValue} {value : Value}
    (hvalue : rowValue row (join.drive side).driveCol = some value)
    (probes : List ProductValue) :
    bag id (joinWithEqual join (join.drive side) row value probes) =
      total (join.joinedFrom side row) probes := by
  rw [joinWithEqual, bag_filterMap_filter, drive_driveIsLeft]
  apply total_congr
  intro probe _
  have hcols : matchColumns row (join.drive side).driveCol probe
      (join.drive side).probeCol =
      matchColumn probe (join.drive side).probeCol fun w => value.equal w := by
    simp [matchColumns, matchColumn, hvalue]
  rw [joinedFrom_eq, hcols]

theorem total_joinedFrom_of_none (side : Bool) {row : ProductValue}
    (hvalue : rowValue row (join.drive side).driveCol = none)
    (probes : List ProductValue) : total (join.joinedFrom side row) probes = 0 := by
  rw [← total_zero probes]
  apply total_congr
  intro probe _
  rw [joinedFrom_eq]
  simp [matchColumns, matchColumn, hvalue]

end Join

/-! ## The three ways to look up the other side -/

variable {rows : List ProductValue} {driveInserted side : Bool} {col : Nat} {dv : DeltaView}
  {join : Join} {before after : CommittedState} {changeset : Changeset} {resolver : IndexResolver}
  {lhsWidth : Nat}

theorem bag_joinDriveCommittedByNestedScan (driving : List ProductValue) :
    bag id (joinDriveCommittedByNestedScan dv join (join.drive side) driving) =
      join.joinedAfter dv side driving := by
  rw [joinDriveCommittedByNestedScan, bag_flatMap]
  apply total_congr
  intro row _
  split
  · next hvalue => rw [join.total_joinedFrom_of_none side hvalue, bag_nil]
  · next value hvalue => rw [join.bag_joinWithEqual side hvalue]

def Resolves (resolver : IndexResolver) (cs : CommittedState) : Prop :=
  ∀ table col indexID, resolver table col = some indexID → ∃ t idx,
    StateView.lookupIndex cs table indexID = some (t, idx) ∧ idx.schema.columns = [col] ∧
      col < t.schema.columns.length

theorem seekRows_of_resolves {cs : CommittedState} (hcs : cs.Inv) (hres : Resolves resolver cs)
    {table : TableID} {indexID : IndexID} (h : resolver table col = some indexID)
    (value : Value) :
    (cs.seekRows table indexID [value]).Perm
      ((cs.tableRows table).filter fun row => matchColumn row col fun w => value.equal w) := by
  obtain ⟨t, idx, hidx, hcols, hcol⟩ := hres table col indexID h
  have htable := (StateView.of_lookupIndex hidx).1
  refine (CommittedState.seekRows_perm hcs hidx [value]).trans (.of_eq ?_)
  apply List.filter_congr
  intro row hrow
  obtain ⟨rid, hrow⟩ := (CommittedState.mem_tableRows htable).mp hrow
  have hvalid := (hcs table t htable).1.rowsOK.valid rid row hrow
  have hlen : col < row.length := by rwa [length_of_validateRow hvalid]
  have hvalue : rowValue row col = some row[col] := List.getElem?_eq_getElem hlen
  have hkey : idx.extractKey row = [row[col]] := by
    simp [Index.extractKey, extractKey, hcols, hlen]
  rw [hkey, matchColumn, hvalue, Option.any_some, Bool.eq_iff_iff, IndexKey.equal_iff,
    Value.equal_iff_rank]
  simp [ProductValue.rowClass, eq_comm]

theorem bag_joinDriveCommittedByIndex (hcs : dv.committed.Inv)
    (hres : Resolves resolver dv.committed) {probeIdx : IndexID}
    (hidx : resolver (join.drive side).probeTable (join.drive side).probeCol = some probeIdx)
    (driving : List ProductValue) :
    bag id (joinDriveCommittedByIndex dv join (join.drive side) driving probeIdx) =
      join.joinedAfter dv side driving := by
  rw [joinDriveCommittedByIndex, bag_flatMap]
  apply total_congr
  intro row _
  split
  · next hvalue => rw [join.total_joinedFrom_of_none side hvalue, bag_nil]
  · next value hvalue =>
    have hseek := seekRows_of_resolves hcs hres hidx value
    have hstored : bag id ((dv.committed.seekRows (join.drive side).probeTable probeIdx
        [value]).filterMap (join.tryJoinFilterFromDrive (join.drive side).driveIsLeft row)) =
        total (join.joinedFrom side row)
          (dv.committed.tableRows (join.drive side).probeTable) := by
      rw [bag_perm id (hseek.filterMap _)]
      exact join.bag_joinWithEqual side hvalue _
    rw [bag_append, hstored, DeltaView.tableRowsAfter, total_append]
    congr 1
    split
    · exact join.bag_joinWithEqual side hvalue _
    · rfl

section Driving

variable {driving : List ProductValue}
  (hdriving : dv.deltaRows (join.drive side).driveTable driveInserted = driving)
include hdriving

theorem bag_deltaIndexHits {probe : ProductValue} {hits : List (Nat × ProductValue)}
    (h : deltaIndexHits dv join (join.drive side) driving driveInserted probe = some hits) :
    bag (id ∘ Prod.snd) hits = total (fun row => join.joinedFrom side row probe) driving ∧
      ∀ hit ∈ hits, hit.1 < driving.length := by
  unfold deltaIndexHits at h
  split at h
  · next hvalue =>
    cases h
    refine ⟨?_, by simp⟩
    rw [bag_nil, ← total_zero driving]
    apply total_congr
    intro row _
    rw [Join.joinedFrom_eq, matchColumns_comm]
    simp [matchColumns, matchColumn, hvalue]
  · next value hvalue =>
    simp only [Option.bind_eq_bind, Option.bind_eq_some_iff, Option.some.injEq] at h
    obtain ⟨positions, hpositions, rfl⟩ := h
    have hscan : positions.filterMap (fun pos => driving[pos]?) =
        driving.filter fun row =>
          matchColumn row (join.drive side).driveCol fun w => w.equal value := by
      rw [← hdriving]
      apply DeltaView.deltaIndexScan_eq
      rw [DeltaView.deltaIndexScan, hpositions, Option.map_some]
    constructor
    · -- The hits in terms of the rows at the positions.
      have hmap : (positions.filterMap fun pos => driving[pos]?.bind fun row =>
          (rowValue row (join.drive side).driveCol).bind fun _ =>
          (join.tryJoinFilterFromDrive (join.drive side).driveIsLeft row probe).bind
            fun joined => some (pos, joined)).map Prod.snd =
          (positions.filterMap (fun pos => driving[pos]?)).filterMap fun row =>
            (rowValue row (join.drive side).driveCol).bind fun _ =>
              join.tryJoinFilterFromDrive side row probe := by
        rw [List.map_filterMap, List.filterMap_filterMap, join.drive_driveIsLeft]
        congr 1
        funext pos
        simp [Option.map_bind]
      rw [← bag_map, hmap, hscan, bag_filterMap_filter]
      apply total_congr
      intro row _
      have hcols : matchColumns row (join.drive side).driveCol probe
          (join.drive side).probeCol =
          matchColumn row (join.drive side).driveCol fun w => w.equal value := by
        simp [matchColumns, matchColumn, hvalue]
      rw [Join.joinedFrom_eq, hcols]
      split
      · next hmatch =>
        unfold matchColumn at hmatch
        cases hrow : rowValue row (join.drive side).driveCol with
        | none => simp [hrow] at hmatch
        | some w => rfl
      · rfl
    · rintro ⟨pos, joined⟩ hmem
      obtain ⟨pos', -, hpos'⟩ := List.mem_filterMap.mp hmem
      simp only [Option.bind_eq_some_iff, Option.some.injEq, Prod.mk.injEq] at hpos'
      obtain ⟨row, hrow, _, _, _, _, rfl, -⟩ := hpos'
      exact (List.getElem?_eq_some_iff.mp hrow).1

theorem bag_joinDriveCommittedByDeltaIndex
    (h : joinDriveCommittedByDeltaIndex dv join (join.drive side) driving driveInserted =
      some rows) : bag id rows = join.joinedAfter dv side driving := by
  simp only [joinDriveCommittedByDeltaIndex, Option.bind_eq_bind, Option.bind_eq_some_iff,
    Option.some.injEq] at h
  obtain ⟨hits, hhits, rfl⟩ := h
  have hbound : ∀ hit ∈ hits.flatten, hit.1 < driving.length := by
    intro hit hmem
    obtain ⟨part, hpart, hmem⟩ := List.mem_flatten.mp hmem
    obtain ⟨probe, -, hprobe⟩ := exists_of_mem_mapM hhits hpart
    exact (bag_deltaIndexHits hdriving hprobe).2 hit hmem
  rw [bag_by_number hbound, Join.joinedAfter, total_comm]
  exact bag_flatten_of_mapM hhits fun probe _ y hy => (bag_deltaIndexHits hdriving hy).1

end Driving

theorem bag_joinDriveCommittedRows (hcs : dv.committed.Inv)
    (hres : Resolves resolver dv.committed)
    (h : joinDriveCommittedRows dv join (join.drive side) resolver driveInserted = some rows) :
    bag id rows = join.joinedAfter dv side
      (dv.deltaRows (join.drive side).driveTable driveInserted) := by
  revert h
  fun_cases joinDriveCommittedRows dv join (join.drive side) resolver driveInserted
  · next driving hnil =>
    rintro ⟨⟩
    rw [show dv.deltaRows _ driveInserted = [] from hnil]
    rfl
  · next probeIdx hidx =>
    rintro ⟨⟩
    exact bag_joinDriveCommittedByIndex hcs hres hidx _
  · exact bag_joinDriveCommittedByDeltaIndex rfl
  · rintro ⟨⟩
    exact bag_joinDriveCommittedByNestedScan _

theorem bag_joinDriveDelta {probeInserts : Bool}
    (h : joinDriveDelta dv join driveInserted probeInserts = some rows) :
    bag id rows = join.joinedRows (dv.deltaRows join.left driveInserted)
      (dv.deltaRows join.right probeInserts) := by
  simp only [joinDriveDelta, Option.bind_eq_bind, Option.bind_eq_some_iff, Option.some.injEq] at h
  obtain ⟨parts, hparts, rfl⟩ := h
  apply bag_flatten_of_mapM hparts
  intro row _ part hpart
  split at hpart
  · next hvalue =>
    cases hpart
    exact (join.total_joinedFrom_of_none true hvalue _).symm
  · next value hvalue =>
    obtain ⟨found, hfound, rfl⟩ := Option.map_eq_some_iff.mp hpart
    rw [DeltaView.deltaIndexScan_eq hfound]
    have hwith := join.bag_joinWithEqual true hvalue (dv.deltaRows join.right probeInserts)
    simp only [joinWithEqual, value_equal_comm value] at hwith
    exact hwith

/-! ## Projected rows -/

theorem rowBag_projectJoinedRows (lhsWidth : Nat) (projectRight : Bool)
    (rows : List ProductValue) :
    rowBag (projectJoinedRows lhsWidth projectRight rows) =
      total (fun row => if 0 < lhsWidth && lhsWidth ≤ row.length then
        {ProductValue.rowClass (if projectRight then row.drop lhsWidth else row.take lhsWidth)}
        else 0) rows := by
  rw [projectJoinedRows]
  induction rows with
  | nil => rfl
  | cons row rows ih =>
    rw [total_cons, ← ih]
    by_cases hrow : (0 < lhsWidth && lhsWidth ≤ row.length) = true
    · simp [hrow, rowBag]
    · simp [hrow]

theorem Join.length_pos_of_accepts (join : Join) {l r : ProductValue}
    (h : join.accepts l r = true) : 0 < l.length := by
  cases l with
  | nil => simp [Join.accepts, matchColumns, matchColumn, rowValue] at h
  | cons v l => exact Nat.succ_pos _

theorem rowBag_project_joined {left right : List ProductValue}
    (hwidth : ∀ l ∈ left, l.length = lhsWidth) (h : bag id rows = join.joinedRows left right) :
    rowBag (projectJoinedRows lhsWidth join.projectRight rows) =
      join.selection.pairs left right := by
  rw [rowBag_projectJoinedRows, total_eq_sum_map, h, Join.joinedRows, sum_map_total]
  apply total_congr
  intro l hl
  rw [sum_map_total]
  apply total_congr
  intro r _
  unfold Join.joined PairSelection.weight
  change _ = if join.accepts l r then _ else 0
  by_cases haccepts : join.accepts l r = true
  · have hpos : 0 < l.length := join.length_pos_of_accepts haccepts
    rw [if_pos haccepts, if_pos haccepts, Multiset.map_singleton, Multiset.sum_singleton,
      ← hwidth l hl]
    simp only [hpos, List.length_append, Nat.le_add_right, List.drop_left, List.take_left,
      decide_true, Bool.and_self, if_true]
    rfl
  · rw [if_neg haccepts, if_neg haccepts]
    rfl

theorem rowClass_projectRow (projection : List ProjectionColumn) :
    (ProductValue.rowClass ∘ (projectRow · projection)).FactorsThrough ProductValue.rowClass := by
  intro r r' h
  simp only [Function.comp_apply, projectRow, ProductValue.rowClass, List.map_filterMap]
  congr 1
  funext col
  exact rank_of_rowValue h col.column

theorem rowBag_projectRows_congr (projection : List ProjectionColumn)
    {rows' : List ProductValue} (h : rowBag rows = rowBag rows') :
    rowBag (projectRows rows projection) = rowBag (projectRows rows' projection) := by
  unfold projectRows
  split
  · exact h
  · exact bag_map_of_bag_eq (rowClass_projectRow projection) h

theorem projectRows_append (rows rows' : List ProductValue) (projection : List ProjectionColumn) :
    projectRows (rows ++ rows') projection =
      projectRows rows projection ++ projectRows rows' projection := by
  unfold projectRows
  split
  · rfl
  · rw [List.map_append]

theorem projectRows_balance {before after inserts deletes : List ProductValue}
    (h : rowBag before + rowBag inserts = rowBag after + rowBag deletes)
    (projection : List ProjectionColumn) :
    rowBag (projectRows before projection) + rowBag (projectRows inserts projection) =
      rowBag (projectRows after projection) + rowBag (projectRows deletes projection) := by
  rw [← rowBag_append, ← rowBag_append, ← projectRows_append, ← projectRows_append]
  apply rowBag_projectRows_congr
  rw [rowBag_append, rowBag_append, h]

theorem projectDeltaRows_exact {before after inserts deletes : List ProductValue}
    (h : ExactDelta before after inserts deletes) (projection : List ProjectionColumn) :
    ExactDelta (projectRows before projection) (projectRows after projection)
      (projectDeltaRows inserts deletes projection).1
      (projectDeltaRows inserts deletes projection).2 := by
  have hbalance := projectRows_balance h.balance projection
  unfold projectDeltaRows
  dsimp only
  split
  · next hcases =>
    refine ⟨hbalance, ?_⟩
    rcases hcases with hnil | hnil | hnil
    · simpa [projectRows, hnil] using h.disjoint
    · simp [hnil]
    · simp [hnil]
  · rw [reconcileJoinDelta_exact_iff, List.flatten_singleton, List.flatten_singleton]
    exact hbalance

/-! ## The delta of a join -/

theorem bag_fromLeft (hcs : dv.committed.Inv) (hres : Resolves resolver dv.committed)
    (h : joinDriveCommittedRows dv join (join.drive true) resolver driveInserted = some rows) :
    bag id rows = join.joinedRows (dv.deltaRows join.left driveInserted)
      (dv.tableRowsAfter join.right) :=
  bag_joinDriveCommittedRows hcs hres h

theorem bag_fromRight (hcs : dv.committed.Inv) (hres : Resolves resolver dv.committed)
    (h : joinDriveCommittedRows dv join (join.drive false) resolver driveInserted = some rows) :
    bag id rows = join.joinedRows (dv.tableRowsAfter join.left)
      (dv.deltaRows join.right driveInserted) := by
  rw [join.joinedRows_comm]
  exact bag_joinDriveCommittedRows hcs hres h

/-- The pairs of the added fragments, or of the removed ones. -/
def Join.changedPairs (join : Join) (dv : DeltaView) (inserted : Bool) :
    Multiset (List (List (List Int))) :=
  join.selection.pairs (dv.deltaRows join.left inserted) (dv.tableRowsAfter join.right) +
    join.selection.pairs (dv.tableRowsAfter join.left) (dv.deltaRows join.right inserted) +
    join.selection.pairs (dv.inserts join.left) (dv.deltaRows join.right !inserted) +
    join.selection.pairs (dv.deletes join.left) (dv.deltaRows join.right inserted)

theorem rowBag_evalJoinDeltaFragments (h : dv.Shows before changeset)
    (hres : Resolves resolver dv.committed) (hleft : dv.Stored before join.left)
    (hwidth : ∀ t, before.table join.left = some t → t.schema.columns.length = lhsWidth)
    {frags : JoinFragments} (hfrags : evalJoinDeltaFragments dv join resolver = some frags) :
    rowBag (frags.inserts.map (projectJoinedRows lhsWidth join.projectRight)).flatten =
        join.changedPairs dv true ∧
      rowBag (frags.deletes.map (projectJoinedRows lhsWidth join.projectRight)).flatten =
        join.changedPairs dv false := by
  have hcs := h.committed.inv h.inv
  have hdelta : ∀ inserted, ∀ l ∈ dv.deltaRows join.left inserted, l.length = lhsWidth :=
    fun _ l hl => h.row_length hleft hwidth (h.mem_deltaRows hleft hl)
  have hafter : ∀ l ∈ dv.tableRowsAfter join.left, l.length = lhsWidth := by
    rw [DeltaView.Shows.tableRowsAfter_eq hleft]
    exact fun l hl => h.row_length hleft hwidth (.inr hl)
  simp only [evalJoinDeltaFragments, Option.bind_eq_bind, Option.bind_eq_some_iff,
    Option.some.injEq] at hfrags
  obtain ⟨i₁, hi₁, i₂, hi₂, i₃, hi₃, i₄, hi₄, d₁, hd₁, d₂, hd₂, d₃, hd₃, d₄, hd₄, rfl⟩ := hfrags
  simp only [List.map_cons, List.map_nil, List.flatten_cons, List.flatten_nil, List.append_nil,
    rowBag_append, ← add_assoc]
  rw [rowBag_project_joined (hdelta true) (bag_fromLeft hcs hres hi₁),
    rowBag_project_joined hafter (bag_fromRight hcs hres hi₂),
    rowBag_project_joined (hdelta true) (bag_joinDriveDelta hi₃),
    rowBag_project_joined (hdelta false) (bag_joinDriveDelta hi₄),
    rowBag_project_joined (hdelta false) (bag_fromLeft hcs hres hd₁),
    rowBag_project_joined hafter (bag_fromRight hcs hres hd₂),
    rowBag_project_joined (hdelta true) (bag_joinDriveDelta hd₃),
    rowBag_project_joined (hdelta false) (bag_joinDriveDelta hd₄)]
  exact ⟨rfl, rfl⟩

theorem joinFragments_balance (h : dv.Shows before changeset) (hleft : dv.Stored before join.left)
    (hright : dv.Stored before join.right) :
    rowBag (join.projectedRows before.tableRows) + join.changedPairs dv true =
      rowBag (join.projectedRows dv.committed.tableRows) + join.changedPairs dv false := by
  obtain ⟨hbeforeL, hafterL⟩ := h.rowBag_change hleft
  obtain ⟨hbeforeR, hafterR⟩ := h.rowBag_change hright
  have hpairs : ∀ {l l' r r' : List ProductValue}, rowBag l' = rowBag l → rowBag r' = rowBag r →
      join.selection.pairs l r = join.selection.pairs l' r' :=
    fun hl hr => PairSelection.pairs_congr hl.symm hr.symm
  unfold Join.projectedRows Join.changedPairs DeltaView.deltaRows
  rw [PairSelection.rowBag_rows, PairSelection.rowBag_rows,
    DeltaView.Shows.tableRowsAfter_eq hleft, DeltaView.Shows.tableRowsAfter_eq hright,
    h.inserts, h.deletes, hpairs hbeforeL hbeforeR, hpairs hafterL hafterR, hpairs rfl hafterR,
    hpairs hafterL rfl, hpairs rfl hafterR, hpairs hafterL rfl]
  simp only [Change.before, Change.after, tableChange, PairSelection.pairs_append_left,
    PairSelection.pairs_append_right, Bool.not_true, Bool.not_false, Bool.false_eq_true, if_true,
    if_false]
  abel

theorem isSome_deltaIndexPositions {table : TableID} {value : Value}
    (hindex : col ∈ dv.indexed table) (hkey : (encodeValueKey value).isSome = true)
    (inserted : Bool) : (dv.deltaIndexPositions table col value inserted).isSome = true := by
  unfold DeltaView.deltaIndexPositions
  split
  · rfl
  · next hrows =>
    have hhas : dv.hasDeltaIndex table col inserted = true := by
      simp [DeltaView.hasDeltaIndex, hrows, hindex]
    simpa [hhas] using hkey

theorem isSome_of_keyable (h : keyable rows col = true) {row : ProductValue} (hrow : row ∈ rows)
    {value : Value} (hvalue : rowValue row col = some value) :
    (encodeValueKey value).isSome = true := by
  have hall := List.all_eq_true.mp h row hrow
  rwa [hvalue] at hall

theorem isSome_joinDriveCommittedRows (side : Bool)
    (hkeys : keyable (dv.tableRowsAfter (join.drive side).probeTable)
      (join.drive side).probeCol = true) (driveInserted : Bool) :
    (joinDriveCommittedRows dv join (join.drive side) resolver driveInserted).isSome =
      true := by
  fun_cases joinDriveCommittedRows dv join (join.drive side) resolver driveInserted
  case case3 driving _ _ hindex =>
    simp only [DeltaView.hasDeltaIndex, Bool.and_eq_true, List.contains_iff_mem] at hindex
    have hhits : ((dv.tableRowsAfter (join.drive side).probeTable).mapM
        (deltaIndexHits dv join (join.drive side) driving driveInserted)).isSome = true := by
      apply isSome_mapM
      intro probe hprobe
      unfold deltaIndexHits
      split
      · rfl
      · next value hvalue =>
        have hkey := isSome_of_keyable hkeys hprobe hvalue
        obtain ⟨positions, hpositions⟩ := Option.isSome_iff_exists.mp
          (isSome_deltaIndexPositions hindex.2 hkey driveInserted)
        simp [hpositions]
    obtain ⟨hits, hhits⟩ := Option.isSome_iff_exists.mp hhits
    simp [joinDriveCommittedByDeltaIndex, hhits]
  all_goals rfl

theorem isSome_joinDriveDelta (hindex : join.rightCol ∈ dv.indexed join.right)
    (driveInserted probeInserts : Bool)
    (hkeys : keyable (dv.deltaRows join.left driveInserted) join.leftCol = true) :
    (joinDriveDelta dv join driveInserted probeInserts).isSome = true := by
  have hrows : ((dv.deltaRows join.left driveInserted).mapM fun row =>
      (match rowValue row join.leftCol with
      | none => some []
      | some value =>
        (dv.deltaIndexScan join.right join.rightCol value probeInserts).map
          fun found => found.filterMap (join.tryJoinFilter row) :
      Option (List ProductValue))).isSome = true := by
    apply isSome_mapM
    intro row hrow
    split
    · rfl
    · next value hvalue =>
      have hkey := isSome_of_keyable hkeys hrow hvalue
      simpa [DeltaView.deltaIndexScan] using isSome_deltaIndexPositions hindex hkey probeInserts
  obtain ⟨rows, hrows⟩ := Option.isSome_iff_exists.mp hrows
  simp only [joinDriveDelta]
  rw [hrows]
  rfl

theorem keyable_of_subset {rows' : List ProductValue} (h : keyable rows col = true)
    (hsub : rows' ⊆ rows) : keyable rows' col = true :=
  List.all_eq_true.mpr fun row hrow => List.all_eq_true.mp h row (hsub hrow)

/-- The right join column has a delta index and the join columns have keys, so nothing panics. -/
theorem isSome_evalJoinQuery (h : dv.Shows before changeset) (hleft : dv.Stored before join.left)
    (hright : dv.Stored before join.right) (hindex : join.rightCol ∈ dv.indexed join.right)
    (hleftKeys : keyable (before.tableRows join.left ++ dv.committed.tableRows join.left)
      join.leftCol = true)
    (hrightKeys : keyable (dv.committed.tableRows join.right) join.rightCol = true)
    (projection : List ProjectionColumn) :
    (evalJoinQuery dv join resolver lhsWidth projection).isSome = true := by
  have hprobeRight : keyable (dv.tableRowsAfter join.right) join.rightCol = true := by
    rwa [DeltaView.Shows.tableRowsAfter_eq hright]
  have hprobeLeft : keyable (dv.tableRowsAfter join.left) join.leftCol = true := by
    rw [DeltaView.Shows.tableRowsAfter_eq hleft]
    exact keyable_of_subset hleftKeys (List.subset_append_right _ _)
  have hdelta : ∀ inserted, keyable (dv.deltaRows join.left inserted) join.leftCol = true := by
    intro inserted
    apply keyable_of_subset hleftKeys
    intro row hrow
    exact List.mem_append.mpr (h.mem_deltaRows hleft hrow)
  have hfromLeft : ∀ inserted,
      ∃ rows, joinDriveCommittedRows dv join join.fromLeft resolver inserted = some rows :=
    fun inserted => Option.isSome_iff_exists.mp
      (isSome_joinDriveCommittedRows true hprobeRight inserted)
  have hfromRight : ∀ inserted,
      ∃ rows, joinDriveCommittedRows dv join join.fromRight resolver inserted = some rows :=
    fun inserted => Option.isSome_iff_exists.mp
      (isSome_joinDriveCommittedRows false hprobeLeft inserted)
  have hboth : ∀ inserted inserts, ∃ rows, joinDriveDelta dv join inserted inserts = some rows :=
    fun inserted inserts => Option.isSome_iff_exists.mp
      (isSome_joinDriveDelta hindex inserted inserts (hdelta inserted))
  obtain ⟨i₁, hi₁⟩ := hfromLeft true
  obtain ⟨i₂, hi₂⟩ := hfromRight true
  obtain ⟨i₃, hi₃⟩ := hboth true false
  obtain ⟨i₄, hi₄⟩ := hboth false true
  obtain ⟨d₁, hd₁⟩ := hfromLeft false
  obtain ⟨d₂, hd₂⟩ := hfromRight false
  obtain ⟨d₃, hd₃⟩ := hboth true true
  obtain ⟨d₄, hd₄⟩ := hboth false false
  simp [evalJoinQuery, evalJoinDeltaFragments, hi₁, hi₂, hi₃, hi₄, hd₁, hd₂, hd₃, hd₄]

/-- The delta of a join is the exact difference of the joins before and after the commit. -/
theorem join_delta_exact (hinv : before.Inv) (hcommit : StateCommitted before after changeset)
    {cols : List (TableID × List Nat)} {events : TableID → Bool}
    (hnew : DeltaView.new after changeset cols events = some dv) (join : Join)
    (hleft : dv.Stored before join.left) (hright : dv.Stored before join.right)
    (hres : Resolves resolver after)
    (hwidth : ∀ t, before.table join.left = some t → t.schema.columns.length = lhsWidth)
    (projection : List ProjectionColumn) :
    (∀ inserts deletes,
      evalJoinQuery dv join resolver lhsWidth projection = some (inserts, deletes) →
      ExactDelta (projectRows (join.projectedRows before.tableRows) projection)
        (projectRows (join.projectedRows after.tableRows) projection) inserts deletes) ∧
      (join.rightCol ∈ dv.indexed join.right →
        keyable (before.tableRows join.left ++ after.tableRows join.left) join.leftCol = true →
        keyable (after.tableRows join.right) join.rightCol = true →
        (evalJoinQuery dv join resolver lhsWidth projection).isSome = true) := by
  obtain ⟨rfl, hshows⟩ := DeltaView.shows_of_new hinv hcommit hnew
  constructor
  · intro inserts deletes heval
    simp only [evalJoinQuery, Option.bind_eq_bind, Option.bind_eq_some_iff,
      Option.some.injEq] at heval
    obtain ⟨frags, hfrags, heval⟩ := heval
    obtain ⟨hins, hdel⟩ := rowBag_evalJoinDeltaFragments hshows hres hleft hwidth hfrags
    have hexact : ExactDelta (join.projectedRows before.tableRows)
        (join.projectedRows dv.committed.tableRows)
        (reconcileJoinDelta (frags.inserts.map (projectJoinedRows lhsWidth join.projectRight))
          (frags.deletes.map (projectJoinedRows lhsWidth join.projectRight))).1
        (reconcileJoinDelta (frags.inserts.map (projectJoinedRows lhsWidth join.projectRight))
          (frags.deletes.map (projectJoinedRows lhsWidth join.projectRight))).2 := by
      rw [reconcileJoinDelta_exact_iff, hins, hdel]
      exact joinFragments_balance hshows hleft hright
    have hprojected := projectDeltaRows_exact hexact projection
    rwa [heval] at hprojected
  · intro hindex hleftKeys hrightKeys
    exact isSome_evalJoinQuery hshows hleft hright hindex hleftKeys hrightKeys projection

def teamMates : Join := ⟨0, 0, 1, 1, 0, 1, false, .missing⟩

theorem teamMates_delta :
    ∃ inserts deletes,
      evalJoinQuery teamsView teamMates (fun _ _ => none) 2 [] = some (inserts, deletes) ∧
      inserts = [member 2 7] ∧
      ExactDelta (projectRows (teamMates.projectedRows teamsBefore.tableRows) [])
        (projectRows (teamMates.projectedRows teamsAfter.tableRows) []) inserts deletes := by
  have heval : evalJoinQuery teamsView teamMates (fun _ _ => none) 2 [] =
      some ([member 2 7], [member 1 7]) := by
    decide +kernel
  have hwidth : (teamsBefore.table 0).all (fun t => t.schema.columns.length = 2) = true := by
    decide +kernel
  have hres : Resolves (fun _ _ => none) teamsAfter := by
    intro table col indexID h
    cases h
  refine ⟨_, _, heval, rfl, ?_⟩
  refine (join_delta_exact teamsBefore_inv teams_committed teamsView_new teamMates
    teamsView_stored teamsView_stored hres ?_ []).1 _ _ heval
  intro t ht
  change teamsBefore.table 0 = some t at ht
  simpa [ht] using hwidth

end Shunter.Subscription

import Shunter.Subscription.DeltaView
import Shunter.Subscription.MultiJoin

/-!
# Deltas of joins of several relations

With a column projection the rows before and after the commit are both
collected and compared.  Without one, the difference is put together from
fragments in which one relation is restricted to its inserted or deleted rows.
The inserted fragments take the earlier relations after the commit and the
later ones before it, the deleted fragments the other way round.
-/

namespace Shunter.Subscription

open Foundation

def multiJoinDeltaRowsByRelation (beforeRows afterRows : List (List ProductValue))
    (relation : Nat) (deltaRows : List ProductValue) (insert : Bool) : List (List ProductValue) :=
  (beforeRows.zip afterRows).mapIdx fun i rows =>
    if i = relation then deltaRows
    else if insert && i < relation then rows.2
    else if insert then rows.1
    else if i < relation then rows.1
    else rows.2

def multiJoinRowsByRelationBefore (dv : DeltaView) (p : MultiJoin) : List (List ProductValue) :=
  p.relations.map fun rel => dv.projectedRowsBefore rel.table

def multiJoinRowsByRelationAfter (dv : DeltaView) (p : MultiJoin) : List (List ProductValue) :=
  p.relations.map fun rel => dv.tableRowsAfter rel.table

/-- The fragments of one kind; a relation without changed rows has none. -/
def multiJoinFragments (dv : DeltaView) (p : MultiJoin) (insert : Bool) :
    List (List ProductValue) :=
  p.relations.zipIdx.flatMap fun (rel, i) =>
    let rows := dv.deltaRows rel.table insert
    if rows = [] then []
    else
      [collectMultiJoinProjectedRows p
        (multiJoinDeltaRowsByRelation (multiJoinRowsByRelationBefore dv p)
          (multiJoinRowsByRelationAfter dv p) i rows insert) []]

def evalMultiJoinDelta (dv : DeltaView) (p : MultiJoin) (projection : List ProjectionColumn) :
    List ProductValue × List ProductValue :=
  if projection = [] then
    reconcileJoinDelta (multiJoinFragments dv p true) (multiJoinFragments dv p false)
  else
    reconcileJoinDelta
      [collectMultiJoinProjectedRows p (multiJoinRowsByRelationAfter dv p) projection]
      [collectMultiJoinProjectedRows p (multiJoinRowsByRelationBefore dv p) projection]

/-! ## Fragments -/

theorem multiJoinDeltaRowsByRelation_eq {beforeRows afterRows : List (List ProductValue)}
    (hlen : beforeRows.length = afterRows.length) {relation : Nat}
    (hrel : relation < beforeRows.length) (deltaRows : List ProductValue) (insert : Bool) :
    multiJoinDeltaRowsByRelation beforeRows afterRows relation deltaRows insert =
      (if insert then afterRows else beforeRows).take relation ++
        deltaRows :: (if insert then beforeRows else afterRows).drop (relation + 1) := by
  induction beforeRows generalizing afterRows relation with
  | nil => cases hrel
  | cons b bs ih =>
    cases afterRows with
    | nil => cases hlen
    | cons a as =>
      have hlen' : bs.length = as.length := Nat.succ_injective hlen
      cases relation with
      | zero =>
        -- All relations behind the changed one are on the same side.
        have htail : ∀ g : List ProductValue × List ProductValue → List ProductValue,
            (bs.zip as).mapIdx (fun _ rows => g rows) = (bs.zip as).map g := by
          intro g
          apply List.ext_getElem?
          simp
        cases insert with
        | true => simp [multiJoinDeltaRowsByRelation, htail, List.map_fst_zip hlen'.le]
        | false => simp [multiJoinDeltaRowsByRelation, htail, List.map_snd_zip hlen'.ge]
      | succ relation =>
        have htail := ih hlen' (Nat.lt_of_succ_lt_succ hrel)
        cases insert <;> simpa [multiJoinDeltaRowsByRelation] using htail

def MultiJoin.changes (p : MultiJoin) (before : CommittedState) (changeset : Changeset) :
    List (Change ProductValue) :=
  p.relations.map fun rel => tableChange before changeset rel.table

section Fragments

variable {dv : DeltaView} {before : CommittedState} {changeset : Changeset} {p : MultiJoin}

def SameRows (rows rows' : List (List ProductValue)) : Prop :=
  List.Forall₂ (fun l l' => bag ProductValue.rowClass l = bag ProductValue.rowClass l') rows rows'

theorem sameRows_map {f g : MultiJoinRelation → List ProductValue}
    (h : ∀ rel ∈ p.relations, rowBag (f rel) = rowBag (g rel)) :
    SameRows (p.relations.map f) (p.relations.map g) := by
  rw [SameRows, List.forall₂_map_left_iff, List.forall₂_map_right_iff, List.forall₂_same]
  exact h

theorem rowBag_fragment (hprojected : p.projectedRelation < p.relations.length)
    {beforeRows afterRows firsts rests : List (List ProductValue)}
    (hbefore : beforeRows.length = p.relations.length)
    (hafter : afterRows.length = p.relations.length) {i : Nat} (hi : i < p.relations.length)
    (insert : Bool) (hfirsts : SameRows (if insert then afterRows else beforeRows) firsts)
    (hrests : SameRows (if insert then beforeRows else afterRows) rests)
    (rows : List ProductValue) :
    rowBag (if rows = [] then [] else [collectMultiJoinProjectedRows p
        (multiJoinDeltaRowsByRelation beforeRows afterRows i rows insert) []]).flatten =
      total (p.weight []) (tuples (firsts.take i ++ rows :: rests.drop (i + 1))) := by
  split
  · next hnil =>
    rw [hnil, tuples_of_nil]
    rfl
  · have hlists := multiJoinDeltaRowsByRelation_eq (hbefore.trans hafter.symm)
      (hi.trans_eq hbefore.symm) rows insert
    have hlen : (multiJoinDeltaRowsByRelation beforeRows afterRows i rows insert).length =
        p.relations.length := by
      simp [multiJoinDeltaRowsByRelation, hbefore, hafter]
    rw [List.flatten_cons, List.flatten_nil, List.append_nil,
      MultiJoin.rowBag_collectMultiJoinProjectedRows hprojected hlen, hlists]
    apply total_tuples_congr (p.weight_congr [])
    exact List.rel_append (List.forall₂_take i hfirsts)
      (List.Forall₂.cons rfl (List.forall₂_drop (i + 1) hrests))

section

variable (h : dv.Shows before changeset)
  (hstored : ∀ rel ∈ p.relations, dv.Stored before rel.table)
include h hstored

theorem sameRows_before :
    SameRows (multiJoinRowsByRelationBefore dv p)
      ((p.changes before changeset).map Change.before) := by
  rw [MultiJoin.changes, List.map_map]
  apply sameRows_map
  intro rel hrel
  rw [h.rowBag_projectedRowsBefore (hstored rel hrel)]
  exact (h.rowBag_change (hstored rel hrel)).1.symm

theorem sameRows_after :
    SameRows (multiJoinRowsByRelationAfter dv p)
      ((p.changes before changeset).map Change.after) := by
  rw [MultiJoin.changes, List.map_map]
  apply sameRows_map
  intro rel hrel
  rw [DeltaView.Shows.tableRowsAfter_eq (hstored rel hrel)]
  exact (h.rowBag_change (hstored rel hrel)).2.symm

theorem rowBag_multiJoinFragments (hprojected : p.projectedRelation < p.relations.length)
    (insert : Bool) :
    rowBag (multiJoinFragments dv p insert).flatten =
      total (p.weight []) (insertFragments
        ((p.changes before changeset).map fun c => if insert then c else c.swap)) := by
  have hbefore := sameRows_before h hstored
  have hafter := sameRows_after h hstored
  have hfirsts : SameRows (if insert then multiJoinRowsByRelationAfter dv p
      else multiJoinRowsByRelationBefore dv p)
      (((p.changes before changeset).map fun c => if insert then c else c.swap).map
        Change.after) := by
    cases insert
    · simpa [Function.comp_def] using hbefore
    · simpa [Function.comp_def] using hafter
  have hrests : SameRows (if insert then multiJoinRowsByRelationBefore dv p
      else multiJoinRowsByRelationAfter dv p)
      (((p.changes before changeset).map fun c => if insert then c else c.swap).map
        Change.before) := by
    cases insert
    · simpa [Function.comp_def] using hafter
    · simpa [Function.comp_def] using hbefore
  have hrows : ∀ rel : MultiJoinRelation,
      (if insert then tableChange before changeset rel.table
        else (tableChange before changeset rel.table).swap).ins = dv.deltaRows rel.table insert := by
    intro rel
    cases insert
    · simp [tableChange, Change.swap, DeltaView.deltaRows, h.deletes]
    · simp [tableChange, DeltaView.deltaRows, h.inserts]
  rw [total_insertFragments, multiJoinFragments, List.flatten_eq_flatMap, List.flatMap_assoc,
    rowBag, bag_flatMap]
  have hzip : ((p.changes before changeset).map fun c => if insert then c else c.swap).zipIdx =
      p.relations.zipIdx.map (Prod.map (fun rel => if insert then
        tableChange before changeset rel.table
        else (tableChange before changeset rel.table).swap) id) := by
    rw [MultiJoin.changes, List.map_map, List.zipIdx_map]
    rfl
  rw [hzip, total_map]
  apply total_congr
  rintro ⟨rel, i⟩ hmem
  have hi : i < p.relations.length := by simpa using (List.mem_zipIdx hmem).2.1
  have hfragment := rowBag_fragment hprojected (by simp [multiJoinRowsByRelationBefore])
    (by simp [multiJoinRowsByRelationAfter]) hi insert hfirsts hrests (dv.deltaRows rel.table insert)
  simp only [Function.comp_apply, Prod.map_apply, id_eq, hrows, List.map_take, List.map_drop,
    List.flatMap_id]
  exact hfragment

theorem rowBag_rows_before (projection : List ProjectionColumn) :
    rowBag (p.projectedRows projection before.tableRows) =
      total (p.weight projection) (befores (p.changes before changeset)) := by
  rw [MultiJoin.projectedRows, MultiJoin.rowBag_projected]
  apply total_tuples_congr (p.weight_congr projection)
  rw [MultiJoin.changes, List.map_map]
  exact sameRows_map fun rel hrel => (h.rowBag_change (hstored rel hrel)).1.symm

theorem rowBag_rows_after (projection : List ProjectionColumn) :
    rowBag (p.projectedRows projection dv.committed.tableRows) =
      total (p.weight projection) (afters (p.changes before changeset)) := by
  rw [MultiJoin.projectedRows, MultiJoin.rowBag_projected]
  apply total_tuples_congr (p.weight_congr projection)
  rw [MultiJoin.changes, List.map_map]
  exact sameRows_map fun rel hrel => (h.rowBag_change (hstored rel hrel)).2.symm

end

end Fragments

/-! ## The delta -/

section Delta

variable {dv : DeltaView} {before after : CommittedState} {changeset : Changeset}

/-- The rows of the accepted tuples in which rows that the commit inserts stand in front of rows
that it deletes; all other rows stay, and each tuple has rows of both kinds. -/
def MultiJoin.insertedBeforeDeleted (p : MultiJoin) (before : CommittedState)
    (changeset : Changeset) : List ProductValue :=
  ((insertsThenRemovals (p.changes before changeset)).filter p.accepts).map
    (projectMultiJoinTuple · p.relations p.projectedRelation [])

/-- The same with the deleted rows in front of the inserted ones. -/
def MultiJoin.deletedBeforeInserted (p : MultiJoin) (before : CommittedState)
    (changeset : Changeset) : List ProductValue :=
  ((insertsThenRemovals ((p.changes before changeset).map Change.swap)).filter p.accepts).map
    (projectMultiJoinTuple · p.relations p.projectedRelation [])

theorem multiJoin_delta_exact_iff (hinv : before.Inv)
    (hcommit : StateCommitted before after changeset) {cols : List (TableID × List Nat)}
    {events : TableID → Bool} (hnew : DeltaView.new after changeset cols events = some dv)
    (p : MultiJoin) (hprojected : p.projectedRelation < p.relations.length)
    (hstored : ∀ rel ∈ p.relations, dv.Stored before rel.table)
    (projection : List ProjectionColumn) :
    ExactDelta (p.projectedRows projection before.tableRows)
        (p.projectedRows projection after.tableRows) (evalMultiJoinDelta dv p projection).1
        (evalMultiJoinDelta dv p projection).2 ↔
      projection ≠ [] ∨ rowBag (p.insertedBeforeDeleted before changeset) =
        rowBag (p.deletedBeforeInserted before changeset) := by
  obtain ⟨rfl, hshows⟩ := DeltaView.shows_of_new hinv hcommit hnew
  have hbefore := rowBag_rows_before hshows hstored projection
  have hafter := rowBag_rows_after hshows hstored projection
  by_cases hprojection : projection = []
  · subst hprojection
    simp only [evalMultiJoinDelta, if_true]
    rw [reconcileJoinDelta_exact_iff, hbefore, hafter,
      rowBag_multiJoinFragments hshows hstored hprojected true,
      rowBag_multiJoinFragments hshows hstored hprojected false]
    simp only [if_true, Bool.false_eq_true, if_false, List.map_id', ne_eq, not_true_eq_false,
      false_or]
    rw [before_add_inserts_iff, MultiJoin.insertedBeforeDeleted, MultiJoin.deletedBeforeInserted,
      MultiJoin.rowBag_projected, MultiJoin.rowBag_projected]
  · have hcollectBefore : rowBag (collectMultiJoinProjectedRows p
        (multiJoinRowsByRelationBefore dv p) projection) =
        rowBag (p.projectedRows projection before.tableRows) := by
      rw [hbefore, MultiJoin.rowBag_collectMultiJoinProjectedRows hprojected
        (by simp [multiJoinRowsByRelationBefore])]
      exact total_tuples_congr (p.weight_congr projection) (sameRows_before hshows hstored)
    have hcollectAfter : rowBag (collectMultiJoinProjectedRows p
        (multiJoinRowsByRelationAfter dv p) projection) =
        rowBag (p.projectedRows projection dv.committed.tableRows) := by
      rw [hafter, MultiJoin.rowBag_collectMultiJoinProjectedRows hprojected
        (by simp [multiJoinRowsByRelationAfter])]
      exact total_tuples_congr (p.weight_congr projection) (sameRows_after hshows hstored)
    simp only [evalMultiJoinDelta, if_neg hprojection]
    rw [reconcileJoinDelta_exact_iff, List.flatten_singleton, List.flatten_singleton,
      hcollectBefore, hcollectAfter]
    simp only [hprojection, ne_eq, not_false_eq_true, true_or, iff_true]
    exact add_comm _ _

end Delta

def teamTriples : MultiJoin where
  relations := [⟨0, 0⟩, ⟨0, 1⟩, ⟨0, 2⟩]
  conditions := [⟨⟨0, 0, 1, 0⟩, ⟨1, 0, 1, 1⟩⟩, ⟨⟨1, 0, 1, 1⟩, ⟨2, 0, 1, 2⟩⟩]
  projectedRelation := 0
  filter := .missing

def teamMemberID : ProjectionColumn := ⟨⟨0, nameBytes "id", .uint64, false, false⟩, 0, 0, 0⟩

theorem teamTriples_projected_exact :
    ExactDelta (teamTriples.projectedRows [teamMemberID] teamsBefore.tableRows)
      (teamTriples.projectedRows [teamMemberID] teamsAfter.tableRows)
      (evalMultiJoinDelta teamsView teamTriples [teamMemberID]).1
      (evalMultiJoinDelta teamsView teamTriples [teamMemberID]).2 := by
  refine (multiJoin_delta_exact_iff teamsBefore_inv teams_committed teamsView_new teamTriples
    (by decide) ?_ _).mpr (.inl (by simp))
  intro rel hrel
  have htable : rel.table = 0 := by
    simp [teamTriples] at hrel
    rcases hrel with rfl | rfl | rfl <;> rfl
  rw [htable]
  exact teamsView_stored

/-- Without a projection the member that left is taken away three times, though it was there
once, and the one that came is added three times. -/
theorem teamTriples_not_exact :
    StateCommitted teamsBefore teamsAfter teamsChangeset ∧
      DeltaView.new teamsAfter teamsChangeset [(0, [1])] (fun _ => false) = some teamsView ∧
      teamTriples.projectedRows [] teamsBefore.tableRows = [member 1 7] ∧
      teamTriples.projectedRows [] teamsAfter.tableRows = [member 2 7] ∧
      evalMultiJoinDelta teamsView teamTriples [] =
        (List.replicate 3 (member 2 7), List.replicate 3 (member 1 7)) ∧
      ¬ ExactDelta (teamTriples.projectedRows [] teamsBefore.tableRows)
        (teamTriples.projectedRows [] teamsAfter.tableRows)
        (evalMultiJoinDelta teamsView teamTriples []).1
        (evalMultiJoinDelta teamsView teamTriples []).2 := by
  have hbefore : teamTriples.projectedRows [] teamsBefore.tableRows = [member 1 7] := by
    decide +kernel
  have hafter : teamTriples.projectedRows [] teamsAfter.tableRows = [member 2 7] := by
    decide +kernel
  have hdelta : evalMultiJoinDelta teamsView teamTriples [] =
      (List.replicate 3 (member 2 7), List.replicate 3 (member 1 7)) := by
    decide +kernel
  refine ⟨teams_committed, teamsView_new, hbefore, hafter, hdelta, fun h => ?_⟩
  have hbalance := h.balance
  rw [hbefore, hafter, hdelta] at hbalance
  revert hbalance
  decide +kernel

end Shunter.Subscription

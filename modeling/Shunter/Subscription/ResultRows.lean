import Shunter.Bsatn.RowCodec

/-!
# The rows and columns of a live query

A query emits the rows of one table, projected or whole, a projection of tuples
of rows, or one aggregate value.  Which rows or tuples it selects is left open
here: their shape does not depend on it.
-/

namespace Shunter.Subscription

open Bsatn

/-- The column keeps the position, the kind and the nullability of its source. -/
structure ProjectionColumn where
  schema : ColumnSchema
  table : TableID
  column : Nat
  aliasTag : Nat
  deriving DecidableEq

structure MultiJoinRelation where
  table : TableID
  aliasTag : Nat
  deriving DecidableEq

def projectionUpdateColumns (fallback : List ColumnSchema) (projection : List ProjectionColumn) :
    List ColumnSchema :=
  if projection = [] then fallback else projection.map (·.schema)

/-- One row of `projectRows`; a position behind the end of the row is skipped. -/
def projectRow (row : ProductValue) (columns : List ProjectionColumn) : ProductValue :=
  columns.filterMap fun col => row[col.column]?

def projectRows (rows : List ProductValue) (columns : List ProjectionColumn) :
    List ProductValue :=
  if columns = [] then rows else rows.map (projectRow · columns)

def multiJoinProjectionRelation (relations : List MultiJoinRelation) (col : ProjectionColumn) :
    Option Nat :=
  relations.findIdx? fun rel => col.table = rel.table ∧ col.aliasTag = rel.aliasTag

def projectMultiJoinTuple (tuple : List ProductValue) (relations : List MultiJoinRelation)
    (projected : Nat) (projection : List ProjectionColumn) : ProductValue :=
  if projection = [] then tuple[projected]?.getD []
  else projection.filterMap fun col => do
    let relation ← multiJoinProjectionRelation relations col
    let row ← tuple[relation]?
    row[col.column]?

/-- `valueagg.Sum`; nothing here depends on how the total was added up. -/
structure Sum where
  kind : ValueKind
  nullable : Bool
  seen : Bool
  total : Payload kind

def Sum.value (a : Sum) : Value :=
  if a.nullable && !a.seen then .newNull a.kind else ⟨a.kind, some a.total⟩

/-! ## Results -/

/-- The compiler copies the kind and the nullability of the column it names. -/
def ProjectionColumn.CompiledFrom (col : ProjectionColumn) (ts : TableSchema) : Prop :=
  ∃ source, ts.columns[col.column]? = some source ∧
    source.type = col.schema.type ∧ source.nullable = col.schema.nullable

inductive QueryResult where
  /-- A single table or a join of two: the rows of the emitted table. -/
  | emitted (ts : TableSchema) (projection : List ProjectionColumn)
  /-- A join of three or more relations, with the schema of each. -/
  | joined (relations : List (MultiJoinRelation × TableSchema)) (projected : Nat)
      (projection : List ProjectionColumn)
  | aggregate (result : ColumnSchema)

def QueryResult.columns : QueryResult → List ColumnSchema
  | .emitted ts projection => projectionUpdateColumns ts.columns projection
  | .joined relations projected projection =>
    projectionUpdateColumns ((relations[projected]?.map (·.2.columns)).getD []) projection
  | .aggregate result => [result]

inductive QueryResult.Emits : QueryResult → ProductValue → Prop where
  | row {ts : TableSchema} {projection : List ProjectionColumn} {stored row : ProductValue}
      (hcompiled : ∀ col ∈ projection, col.CompiledFrom ts) (hstored : RowShaped ts.columns stored)
      (hrow : row ∈ projectRows [stored] projection) : Emits (.emitted ts projection) row
  | tuple {relations : List (MultiJoinRelation × TableSchema)} {projected : Nat}
      {projection : List ProjectionColumn} {tuple : List ProductValue}
      (hcompiled : ∀ col ∈ projection, ∃ i rel ts,
        multiJoinProjectionRelation (relations.map Prod.fst) col = some i ∧
          relations[i]? = some (rel, ts) ∧ col.CompiledFrom ts)
      (hprojected : projected < relations.length)
      (hstored : List.Forall₂ (fun rel row => RowShaped rel.2.columns row) relations tuple) :
      Emits (.joined relations projected projection)
        (projectMultiJoinTuple tuple (relations.map Prod.fst) projected projection)
  | count {result : ColumnSchema} (n : BitVec 64) (htype : result.type = .uint64) :
      Emits (.aggregate result) [⟨.uint64, some n⟩]
  | sum {result : ColumnSchema} (a : Sum) (htype : a.kind = result.type)
      (hnullable : a.nullable = result.nullable) : Emits (.aggregate result) [a.value]

/-! ## Every emitted row has the shape of the result columns -/

theorem columnShaped_of_source {source col : ColumnSchema} {v : Value}
    (htype : source.type = col.type) (hnull : source.nullable = col.nullable)
    (h : ColumnShaped source v) : ColumnShaped col v :=
  ⟨h.kind.trans htype, fun hv => hnull ▸ h.null hv⟩

theorem rowShaped_filterMap {projection : List ProjectionColumn}
    {find : ProjectionColumn → Option Value}
    (h : ∀ col ∈ projection, ∃ v, find col = some v ∧ ColumnShaped col.schema v) :
    RowShaped (projection.map (·.schema)) (projection.filterMap find) := by
  induction projection with
  | nil => exact .nil
  | cons col projection ih =>
    obtain ⟨⟨v, hv, hshaped⟩, hrest⟩ := List.forall_mem_cons.mp h
    rw [List.map_cons, List.filterMap_cons_some hv]
    exact .cons hshaped (ih hrest)

theorem ProjectionColumn.CompiledFrom.value {col : ProjectionColumn} {ts : TableSchema}
    {stored : ProductValue} (h : col.CompiledFrom ts) (hstored : RowShaped ts.columns stored) :
    ∃ v, stored[col.column]? = some v ∧ ColumnShaped col.schema v := by
  obtain ⟨source, hsource, htype, hnull⟩ := h
  obtain ⟨hlt, hget⟩ := List.getElem?_eq_some_iff.mp hsource
  have hlen : col.column < stored.length := hstored.length_eq ▸ hlt
  refine ⟨_, List.getElem?_eq_getElem hlen, ?_⟩
  have hshaped := hstored.get hlt hlen
  simp only [List.get_eq_getElem, hget] at hshaped
  exact columnShaped_of_source htype hnull hshaped

theorem QueryResult.Emits.shaped {q : QueryResult} {row : ProductValue} (h : q.Emits row) :
    RowShaped q.columns row := by
  cases h with
  | row hcompiled hstored hrow =>
    rw [QueryResult.columns, projectionUpdateColumns]
    rw [projectRows] at hrow
    split at hrow
    · next hnil =>
      rw [if_pos hnil, List.mem_singleton.mp hrow]
      exact hstored
    · next hne =>
      obtain rfl : row = projectRow _ _ := by simpa using hrow
      rw [if_neg hne]
      exact rowShaped_filterMap fun col hcol => (hcompiled col hcol).value hstored
  | tuple hcompiled hprojected hstored =>
    rw [QueryResult.columns, projectionUpdateColumns, projectMultiJoinTuple]
    split
    · have hlen := hstored.length_eq ▸ hprojected
      have hshaped := hstored.get hprojected hlen
      simpa [List.getElem?_eq_getElem, hprojected, hlen] using hshaped
    · refine rowShaped_filterMap fun col hcol => ?_
      obtain ⟨i, rel, ts, hrel, hts, hfrom⟩ := hcompiled col hcol
      obtain ⟨hlt, hget⟩ := List.getElem?_eq_some_iff.mp hts
      have hlen := hstored.length_eq ▸ hlt
      have hshaped := hstored.get hlt hlen
      simp only [List.get_eq_getElem, hget] at hshaped
      obtain ⟨v, hv, hcol⟩ := hfrom.value hshaped
      exact ⟨v, by simp [hrel, List.getElem?_eq_getElem hlen, hv], hcol⟩
  | count n htype => exact .cons ⟨htype.symm, nofun⟩ .nil
  | sum a htype hnullable =>
    refine .cons ?_ .nil
    rw [Sum.value]
    split
    · next hnull =>
      rw [Bool.and_eq_true] at hnull
      exact ⟨htype, fun _ => hnullable ▸ hnull.1⟩
    · exact ⟨htype, nofun⟩

end Shunter.Subscription

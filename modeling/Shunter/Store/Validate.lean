import Shunter.Schema.Types
import Shunter.Store.IndexKey

/-!
# Store errors and row validation
-/

namespace Shunter

/-- The errors of the store, with the data their messages carry. -/
inductive StoreError where
  | tableNotFound (id : TableID)
  | rowNotFound (id : RowID)
  | rowAlreadyDeleted (id : RowID)
  | replayRowNotFound (table : Bytes)
  | rowShapeMismatch (expected got : Nat)
  | typeMismatch (column : Bytes) (expected got : ValueKind)
  | nullNotAllowed (column : Bytes)
  | invalidUTF8 (column : Bytes)
  | invalidUTF8Element (column : Bytes) (element : Nat)
  | primaryKeyViolation (table index : Bytes) (key : IndexKey)
  | uniqueConstraintViolation (table index : Bytes) (key : IndexKey)
  | duplicateRow
  | duplicateRowID (id : RowID)
  | rowIDOverflow
  | transactionRolledBack
  | transactionClosed
  | autoIncrementType
  | sequenceOverflow
  | recoveryBatchClosed
  | cloneReplayTable (table : Bytes) (cause : StoreError)
  | rejected (reason : Bytes)
  deriving DecidableEq

def validateColumn (col : ColumnSchema) (value : Value) : Option StoreError :=
  if value.kind ≠ col.type then some (.typeMismatch col.name col.type value.kind)
  else
    match value with
    | ⟨_, none⟩ => if col.nullable then none else some (.nullNotAllowed col.name)
    | ⟨.string, some s⟩ => if validUTF8 s then none else some (.invalidUTF8 col.name)
    | ⟨.arrayString, some xs⟩ =>
      (xs.findIdx? fun s => !validUTF8 s).map (.invalidUTF8Element col.name)
    | _ => none

def validateColumns : List ColumnSchema → ProductValue → Option StoreError
  | col :: cols, value :: row =>
    match validateColumn col value with
    | some e => some e
    | none => validateColumns cols row
  | _, _ => none

def validateRow (ts : TableSchema) (row : ProductValue) : Option StoreError :=
  if row.length ≠ ts.columns.length then
    some (.rowShapeMismatch ts.columns.length row.length)
  else validateColumns ts.columns row

variable {row : ProductValue} {col : ColumnSchema} {value : Value}

theorem length_of_validateRow {ts : TableSchema} (h : validateRow ts row = none) :
    row.length = ts.columns.length := by
  by_contra hne
  simp [validateRow, hne] at h

private theorem validateColumn_of_validateColumns {cols : List ColumnSchema}
    (h : validateColumns cols row = none) (i : Nat) (hcol : cols[i]? = some col)
    (hval : row[i]? = some value) : validateColumn col value = none := by
  induction cols generalizing row i with
  | nil => simp at hcol
  | cons c cols ih =>
    cases row with
    | nil => simp at hval
    | cons v row =>
      simp only [validateColumns] at h
      cases hv : validateColumn c v with
      | some e => simp [hv] at h
      | none =>
        rw [hv] at h
        cases i with
        | zero =>
          simp only [List.getElem?_cons_zero, Option.some.injEq] at hcol hval
          rwa [← hcol, ← hval]
        | succ i => exact ih h i (by simpa using hcol) (by simpa using hval)

theorem validateColumn_of_validateRow {ts : TableSchema} (h : validateRow ts row = none)
    {i : Nat} (hcol : ts.columns[i]? = some col) (hval : row[i]? = some value) :
    validateColumn col value = none := by
  have hlen := length_of_validateRow h
  simp only [validateRow, hlen, ne_eq, not_true, if_false] at h
  exact validateColumn_of_validateColumns h i hcol hval

theorem kind_of_validateColumn (h : validateColumn col value = none) : value.kind = col.type := by
  by_contra hne
  simp [validateColumn, hne] at h

theorem valueAsUint64_congr {v w : Value} (h : v.rank = w.rank) (kind : ValueKind) :
    valueAsUint64 v kind = valueAsUint64 w kind := by
  by_cases hf : v.kind = .float32 ∨ v.kind = .float64
  · obtain ⟨k, p⟩ := v
    obtain ⟨k', q⟩ := w
    cases Value.kind_eq_of_rank_eq h
    rcases hf with rfl | rfl <;> cases kind <;> rfl
  · rw [Value.eq_of_rank_eq h (fun e => hf (.inl e)) (fun e => hf (.inr e))]

end Shunter

import Shunter.Store.Transaction

/-!
# Autoincrement assignment

What `applyAutoIncrement` is for: a row whose autoincrement column is zero
takes the next sequence value, if one is available for the kind of the column.
-/

namespace Shunter

namespace TableSchema

def autoIncrementKind (ts : TableSchema) : Option ValueKind :=
  match ts.autoIncrementCol with
  | none => none
  | some c => (ts.columns[c]?).map (·.type)

/-- The value fits the column and is neither the exhausted sentinel nor the largest `uint64`. -/
def SequenceAvailable (ts : TableSchema) (next : Nat) : Prop :=
  next ≠ 0 ∧ next ≠ maxUint64 ∧
    ∃ kind max, ts.autoIncrementKind = some kind ∧ autoIncrementMax kind = some max ∧ next ≤ max

def assign (ts : TableSchema) (next : Nat) (row : ProductValue) : ProductValue :=
  if ts.autoValue row = some 0 then
    match ts.autoIncrementCol, ts.autoIncrementKind with
    | some c, some kind =>
      row.set c (Transaction.newAutoIncrementValue next kind (row.getD c ⟨.bool, some false⟩))
    | _, _ => row
  else row

end TableSchema

variable {ts : TableSchema} {row : ProductValue} {n : Nat} {kind : ValueKind} {col : ColumnSchema}
  {max : Nat} {v : Value}

theorem autoIncrementMax_le (h : autoIncrementMax kind = some max) : max ≤ maxUint64 := by
  cases kind <;> simp [autoIncrementMax] at h <;> subst h <;> decide

theorem autoIncrementMax_of_valueAsUint64 (h : valueAsUint64 v kind = some n) :
    ∃ max, autoIncrementMax kind = some max := by
  cases kind <;> simp [valueAsUint64, autoIncrementMax] at h ⊢

private theorem signed_ofNat {w : Nat} (hn : n < 2 ^ (w - 1)) (hw : 0 < w) :
    valueAsUint64.signed (BitVec.ofNat w n) = some n := by
  have hpow : 2 ^ w = 2 * 2 ^ (w - 1) := by
    rw [← Nat.pow_succ']
    congr 1
    omega
  have hint : (BitVec.ofNat w n).toInt = n := by
    rw [BitVec.toInt_eq_toNat_cond, BitVec.toNat_ofNat, Nat.mod_eq_of_lt (by omega)]
    rw [if_pos (by omega)]
  simp [valueAsUint64.signed, hint]

theorem valueAsUint64_newAutoIncrementValue (old : Value)
    (hmax : autoIncrementMax kind = some max) (hn : n ≤ max) :
    valueAsUint64 (Transaction.newAutoIncrementValue n kind old) kind = some n := by
  cases kind <;> simp only [autoIncrementMax, Option.some.injEq, reduceCtorEq] at hmax <;>
    subst hmax <;> simp only [Transaction.newAutoIncrementValue, valueAsUint64]
  case int8 | int16 | int32 | int64 => exact signed_ofNat (by omega) (by decide)
  all_goals
    rw [BitVec.toNat_ofNat, Nat.mod_eq_of_lt (by omega)]

theorem validateColumn_newAutoIncrementValue (n : Nat) (old : Value)
    (hmax : autoIncrementMax col.type = some max) :
    validateColumn col (Transaction.newAutoIncrementValue n col.type old) = none := by
  unfold validateColumn
  cases hk : col.type <;> rw [hk] at hmax <;>
    simp [autoIncrementMax, Transaction.newAutoIncrementValue] at hmax ⊢

private theorem validateColumns_set {cols : List ColumnSchema} {c : Nat}
    (h : validateColumns cols row = none) (hcol : cols[c]? = some col)
    (hv : validateColumn col v = none) : validateColumns cols (row.set c v) = none := by
  induction cols generalizing row c with
  | nil => simp at hcol
  | cons c₀ cols ih =>
    cases row with
    | nil => exact h
    | cons w row =>
      simp only [validateColumns] at h
      cases hw : validateColumn c₀ w with
      | some e => simp [hw] at h
      | none =>
        rw [hw] at h
        cases c with
        | zero =>
          simp only [List.getElem?_cons_zero, Option.some.injEq] at hcol
          subst hcol
          simp only [List.set_cons_zero, validateColumns, hv]
          exact h
        | succ c =>
          simp only [List.set_cons_succ, validateColumns, hw]
          exact ih h (by simpa using hcol)

theorem validateRow_set {c : Nat} (h : validateRow ts row = none)
    (hcol : ts.columns[c]? = some col) (hv : validateColumn col v = none) :
    validateRow ts (row.set c v) = none := by
  have hlen := length_of_validateRow h
  simp only [validateRow, hlen, List.length_set, ne_eq, not_true, if_false] at h ⊢
  exact validateColumns_set h hcol hv

namespace TableSchema

theorem autoValue_eq_some (h : ts.autoValue row = some n) :
    ∃ c col, ts.autoIncrementCol = some c ∧ ts.columns[c]? = some col ∧
      valueAsUint64 (row.getD c ⟨.bool, some false⟩) col.type = some n := by
  revert h
  fun_cases autoValue ts row
  case case3 c hc col hcol => exact fun h => ⟨c, col, hc, hcol, h⟩
  all_goals rintro ⟨⟩

theorem assign_of_ne (next : Nat) (h : ts.autoValue row ≠ some 0) : ts.assign next row = row := by
  simp [assign, h]

theorem assign_of_zero {c : Nat} (next : Nat) (h : ts.autoValue row = some 0)
    (hc : ts.autoIncrementCol = some c) (hcol : ts.columns[c]? = some col) :
    ts.assign next row = row.set c (Transaction.newAutoIncrementValue next col.type
      (row.getD c ⟨.bool, some false⟩)) := by
  simp [assign, h, autoIncrementKind, hc, hcol]

theorem autoValue_assign {next : Nat} (hv : validateRow ts row = none)
    (h : ts.autoValue row = some 0) (hav : ts.SequenceAvailable next) :
    ts.autoValue (ts.assign next row) = some next := by
  obtain ⟨c, col, hc, hcol, -⟩ := autoValue_eq_some h
  obtain ⟨-, -, kind, max, hkind, hmax, hle⟩ := hav
  have hkind' : col.type = kind := by simpa [autoIncrementKind, hc, hcol] using hkind
  subst hkind'
  have hlt : c < row.length := by
    rw [length_of_validateRow hv]
    exact (List.getElem?_eq_some_iff.mp hcol).1
  rw [assign_of_zero next h hc hcol]
  simp only [autoValue, hc, hcol, List.getD_eq_getElem?_getD, List.getElem?_set, if_pos, hlt,
    Option.getD_some]
  exact valueAsUint64_newAutoIncrementValue _ hmax hle

theorem validateRow_assign (next : Nat) (hv : validateRow ts row = none) :
    validateRow ts (ts.assign next row) = none := by
  by_cases h : ts.autoValue row = some 0
  · obtain ⟨c, col, hc, hcol, hval⟩ := autoValue_eq_some h
    obtain ⟨max, hmax⟩ := autoIncrementMax_of_valueAsUint64 hval
    rw [assign_of_zero next h hc hcol]
    exact validateRow_set hv hcol (validateColumn_newAutoIncrementValue next _ hmax)
  · rwa [assign_of_ne next h]

end TableSchema

namespace Transaction

variable {t : Transaction} {tableID : TableID} {table : Table}

theorem applyAutoIncrement_ok (hind : table.Indexed) (hv : validateRow table.schema row = none)
    (h : table.schema.autoValue row = some 0 →
      table.schema.SequenceAvailable (t.nextSequenceValue tableID table)) :
    t.applyAutoIncrement tableID table row =
      .ok (table.schema.assign (t.nextSequenceValue tableID table) row,
        table.schema.autoValue (table.schema.assign (t.nextSequenceValue tableID table) row)) := by
  generalize hnext : t.nextSequenceValue tableID table = next at *
  have hcol_eq := hind.sequenceCol_eq
  have hseq := hind.sequence_isSome
  unfold applyAutoIncrement
  cases hc : table.schema.autoIncrementCol with
  | none =>
    rw [hc] at hcol_eq
    have hval : table.schema.autoValue row = none := by simp [TableSchema.autoValue, hc]
    rw [TableSchema.assign_of_ne next (by simp [hval]), hval]
    cases table.sequence <;> simp [hcol_eq]
  | some c =>
    rw [hc] at hcol_eq hseq
    obtain ⟨s, hs⟩ := Option.isSome_iff_exists.mp (hseq.trans rfl)
    simp only [hs, hcol_eq]
    cases hcol : table.schema.columns[c]? with
    | none =>
      have hval : table.schema.autoValue row = none := by
        simp [TableSchema.autoValue, hc, hcol]
      rw [TableSchema.assign_of_ne next (by simp [hval]), hval]
    | some col =>
      have hval : table.schema.autoValue row =
          valueAsUint64 (row.getD c ⟨.bool, some false⟩) col.type := by
        simp [TableSchema.autoValue, hc, hcol]
      by_cases hzero : table.schema.autoValue row = some 0
      · have hzero' := hzero
        rw [hval] at hzero'
        rw [TableSchema.autoValue_assign hv hzero (h hzero),
          TableSchema.assign_of_zero next hzero hc hcol]
        obtain ⟨hne, hmaxne, kind, max, hkind, hmax, hle⟩ := h hzero
        have hkind' : col.type = kind := by
          simpa [TableSchema.autoIncrementKind, hc, hcol] using hkind
        subst hkind'
        have hno : ¬ (next = 0 ∨ next > max ∨ (next = max ∧ max = maxUint64)) := by omega
        simp [isZeroAutoIncrementValue, hzero', hmax, hnext, hno,
          -List.getD_eq_getElem?_getD]
      · rw [TableSchema.assign_of_ne next hzero, hval]
        rw [hval] at hzero
        simp [isZeroAutoIncrementValue, hzero, -List.getD_eq_getElem?_getD]

theorem applyAutoIncrement_error (hind : table.Indexed)
    (hzero : table.schema.autoValue row = some 0)
    (h : ¬ table.schema.SequenceAvailable (t.nextSequenceValue tableID table)) :
    ∃ e, t.applyAutoIncrement tableID table row = .error e := by
  obtain ⟨c, col, hc, hcol, hval⟩ := TableSchema.autoValue_eq_some hzero
  obtain ⟨max, hmax⟩ := autoIncrementMax_of_valueAsUint64 hval
  have hmaxle := autoIncrementMax_le hmax
  have hseq := hind.sequence_isSome
  rw [hc] at hseq
  obtain ⟨s, hs⟩ := Option.isSome_iff_exists.mp (hseq.trans rfl)
  have hbad : t.nextSequenceValue tableID table = 0 ∨ t.nextSequenceValue tableID table > max ∨
      (t.nextSequenceValue tableID table = max ∧ max = maxUint64) := by
    by_contra hgood
    refine h ⟨by omega, by omega, col.type, max, ?_, hmax, by omega⟩
    simp [TableSchema.autoIncrementKind, hc, hcol]
  refine ⟨.sequenceOverflow, ?_⟩
  simp only [applyAutoIncrement, hs, hind.sequenceCol_eq, hc, hcol, isZeroAutoIncrementValue,
    hval, hmax, beq_self_eq_true, Bool.not_true, Bool.false_eq_true, if_false]
  rw [if_pos hbad]

end Transaction

end Shunter

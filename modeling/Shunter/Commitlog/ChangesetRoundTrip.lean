import Shunter.Commitlog.ChangesetCodec
import Shunter.Commitlog.StateRuns

/-!
# Validated changesets can be encoded and decoded

A changeset within the size limits is encoded unless an array of strings in it
has more items than the row encoder allows.  What is encoded is decoded again
under the same registry.
-/

namespace Shunter

open Foundation Reader Bsatn

/-! ## Valid rows -/

variable {col : ColumnSchema}

theorem columnShaped_of_validate {v : Value} (h : validateColumn col v = none) :
    ColumnShaped col v := by
  unfold validateColumn at h
  split at h
  · cases h
  · next hk =>
    refine ⟨not_not.mp hk, fun hnone => ?_⟩
    obtain ⟨k, p⟩ := v
    simp only at hnone
    subst hnone
    simpa using h

/-- The values of an array are the only ones with a rule that sizes do not show. -/
def SmallArrays (row : ProductValue) : Prop :=
  ∀ xs : List Bytes, (⟨.arrayString, some xs⟩ : Value) ∈ row → xs.length ≤ maxArrayStringItems

theorem payloadFits_of_validate {k : ValueKind} {p : Payload k}
    (h : validateColumn col ⟨k, some p⟩ = none)
    (hlen : (payloadText p).length ≤ formatMaxRowBytes)
    (hsmall : ∀ xs : List Bytes, (⟨k, some p⟩ : Value) = ⟨.arrayString, some xs⟩ →
      xs.length ≤ maxArrayStringItems)
: PayloadFits p := by
  have hmax : formatMaxRowBytes ≤ maxValuePayloadBytes := by decide
  unfold validateColumn at h
  split at h
  · cases h
  · cases k
    case string =>
      simp only [payloadText, length_lengthPrefixed] at hlen
      exact ⟨by simpa using h, by omega⟩
    case bytes =>
      simp only [payloadText, length_lengthPrefixed] at hlen
      exact le_trans (by omega) hmax
    case json =>
      simp only [payloadText, length_lengthPrefixed] at hlen
      exact le_trans (by omega) hmax
    case arrayString =>
      simp only [payloadText, List.length_append, length_littleEndian] at hlen
      refine ⟨hsmall p rfl, ?_, by omega⟩
      simpa using h
    all_goals trivial

variable {row : ProductValue}

theorem validateColumns_forall₂ {columns : List ColumnSchema}
    (hlen : row.length = columns.length) (h : validateColumns columns row = none) :
    List.Forall₂ (fun col v => validateColumn col v = none) columns row := by
  induction columns generalizing row with
  | nil =>
    rw [List.length_nil, List.length_eq_zero_iff] at hlen
    subst hlen
    exact .nil
  | cons col columns ih =>
    cases row with
    | nil => simp at hlen
    | cons v row =>
      rw [validateColumns] at h
      split at h
      · cases h
      · next hv => exact .cons hv (ih (by simpa using hlen) h)

variable {ts : TableSchema}

theorem validateRow_forall₂ (h : validateRow ts row = none) :
    List.Forall₂ (fun col v => validateColumn col v = none) ts.columns row := by
  have hlen := length_of_validateRow h
  unfold validateRow at h
  rw [if_neg (by simpa using hlen)] at h
  exact validateColumns_forall₂ hlen h

theorem rowShaped_of_validate (h : validateRow ts row = none) : RowShaped ts.columns row :=
  (validateRow_forall₂ h).imp fun _ _ => columnShaped_of_validate

private theorem length_payloadText_le {k : ValueKind} (p : Payload k) :
    (payloadText p).length ≤ (columnText col ⟨k, some p⟩).length := by
  rw [columnText]
  dsimp only
  split
  · simp only [List.length_cons]
    omega
  · simp only [List.length_cons]
    omega

theorem columnFits_iff {v : Value} (h : validateColumn col v = none)
    (hlen : (columnText col v).length ≤ formatMaxRowBytes) :
    ColumnFits col v ↔
      ∀ xs : List Bytes, v = ⟨.arrayString, some xs⟩ → xs.length ≤ maxArrayStringItems := by
  constructor
  · rintro hfits xs rfl
    exact (hfits.payload xs rfl).1
  · intro hsmall
    refine ⟨columnShaped_of_validate h, ?_⟩
    obtain ⟨k, _ | p⟩ := v
    · nofun
    · rintro _ ⟨⟩
      exact payloadFits_of_validate h ((length_payloadText_le p).trans hlen) hsmall

theorem rowFits_iff (h : validateRow ts row = none)
    (hlen : (rowText ts.columns row).length ≤ formatMaxRowBytes) :
    RowFits ts.columns row ↔ SmallArrays row := by
  have hvalid := validateRow_forall₂ h
  clear h
  generalize ts.columns = columns at hvalid hlen ⊢
  induction hvalid with
  | nil => exact ⟨fun _ => nofun, fun _ => .nil⟩
  | cons hv _ ih =>
    rw [rowText, List.length_append] at hlen
    refine List.forall₂_cons.trans ((and_congr (columnFits_iff hv (by omega))
      (ih (by omega))).trans ?_)
    simp only [SmallArrays, List.mem_cons, or_imp, forall_and, eq_comm]

/-! ## Sizes -/

def rowsBody (columns : List ColumnSchema) (rows : List ProductValue) : Bytes :=
  rows.flatMap fun row => lengthPrefixed (rowText columns row).length (rowText columns row)

def rowsText (columns : List ColumnSchema) (rows : List ProductValue) : Bytes :=
  littleEndian 4 rows.length ++ rowsBody columns rows

def tableText (e : TableID × TableChangeset) : Bytes :=
  littleEndian 4 e.1 ++
    (rowsText e.2.schema.columns e.2.inserts ++ rowsText e.2.schema.columns e.2.deletes)

def changesetText (c : Changeset) : Bytes :=
  changesetVersion :: (littleEndian 4 c.tables.toList.length ++ c.tables.toList.flatMap tableText)

structure RowsWithin (columns : List ColumnSchema) (maxRowBytes : Nat)
    (rows : List ProductValue) : Prop where
  count : rows.length ≤ 2 ^ 32 - 1
  row : ∀ r ∈ rows, (rowText columns r).length ≤ maxRowBytes

structure TableWithin (maxRowBytes : Nat) (tc : TableChangeset) : Prop where
  inserts : RowsWithin tc.schema.columns maxRowBytes tc.inserts
  deletes : RowsWithin tc.schema.columns maxRowBytes tc.deletes

def TableChangeset.RowsValid (tc : TableChangeset) : Prop :=
  ∀ row, row ∈ tc.inserts ∨ row ∈ tc.deletes → validateRow tc.schema row = none

variable {n : Nat} {c : Changeset} {entries : List (TableID × TableChangeset)}

theorem checkedChangesetCount_ok {label : String} {m : Nat} :
    checkedChangesetCount label n = .ok m ↔ n ≤ 2 ^ 32 - 1 ∧ m = n := by
  unfold checkedChangesetCount
  split
  · simp only [reduceCtorEq, false_iff, not_and]
    omega
  · simp only [Except.ok.injEq]
    omega

section

variable {limits : CodecLimits} (haccepted : limits.accepted = true)
include haccepted

theorem CodecLimits.bounds :
    0 < limits.maxRowBytes ∧ limits.maxRowBytes ≤ formatMaxRowBytes ∧
      0 < limits.maxRecordPayloadBytes ∧
      limits.maxRecordPayloadBytes ≤ formatMaxRecordPayloadBytes := by
  simp only [CodecLimits.accepted, Bool.and_eq_true, decide_eq_true_eq] at haccepted
  omega

omit haccepted in
private theorem limit_ok {e e' : ChangesetError} {max : Nat} (hpos : 0 < max)
    (hmax : max < 2 ^ 32) :
    (if n > 2 ^ 32 - 1 then .error e else if max > 0 ∧ n > max then .error e' else .ok ()) =
      (.ok () : Except ChangesetError Unit) ↔ n ≤ max := by
  split
  · simp only [reduceCtorEq, false_iff]
    omega
  · split
    · simp only [reduceCtorEq, false_iff]
      omega
    · simp only [true_iff]
      omega

theorem validateRowPayloadLen_ok :
    validateRowPayloadLen n limits.maxRowBytes = .ok () ↔ n ≤ limits.maxRowBytes := by
  obtain ⟨hpos, hmax, -⟩ := CodecLimits.bounds haccepted
  exact limit_ok hpos (hmax.trans_lt (by decide))

theorem validateRecordPayloadLen_ok :
    validateRecordPayloadLen n limits.maxRecordPayloadBytes = .ok () ↔
      n ≤ limits.maxRecordPayloadBytes := by
  obtain ⟨-, -, hpos, hmax⟩ := CodecLimits.bounds haccepted
  exact limit_ok hpos (hmax.trans_lt (by decide))

variable {ts : TableSchema}

theorem encodedRowSize_ok (h : validateRow ts row = none) :
    encodedRowSize row ts limits.maxRowBytes = .ok n ↔
      (rowText ts.columns row).length ≤ limits.maxRowBytes ∧
        n = (rowText ts.columns row).length := by
  have hsize := encodedProductValueSizeForColumns_ok (rowShaped_of_validate h)
  simp only [encodedRowSize, hsize, liftRow, except_bind_eq_ok, Except.ok.injEq]
  constructor
  · rintro ⟨_, rfl, _, hlen, rfl⟩
    exact ⟨(validateRowPayloadLen_ok haccepted).mp hlen, rfl⟩
  · rintro ⟨hlen, rfl⟩
    exact ⟨_, rfl, (), (validateRowPayloadLen_ok haccepted).mpr hlen, rfl⟩

variable {rows : List ProductValue}

theorem rowsSizeLoop_ok (h : ∀ row ∈ rows, validateRow ts row = none) (size n : Nat) :
    rowsSizeLoop ts limits.maxRowBytes size rows = .ok n ↔
      (∀ r ∈ rows, (rowText ts.columns r).length ≤ limits.maxRowBytes) ∧
        n = size + (rowsBody ts.columns rows).length := by
  induction rows generalizing size with
  | nil => simp [rowsSizeLoop, rowsBody, eq_comm]
  | cons row rows ih =>
    have ih' := ih fun r hr => h r (by simp [hr])
    simp only [rowsSizeLoop, except_bind_eq_ok, encodedRowSize_ok haccepted (h row (by simp)),
      ih', List.forall_mem_cons, rowsBody, List.flatMap_cons, List.length_append,
      length_lengthPrefixed]
    constructor
    · rintro ⟨_, ⟨hrow, rfl⟩, hrows, rfl⟩
      exact ⟨⟨hrow, hrows⟩, by omega⟩
    · rintro ⟨⟨hrow, hrows⟩, rfl⟩
      exact ⟨_, ⟨hrow, rfl⟩, hrows, by omega⟩

theorem encodedChangesetRowsSize_ok (h : ∀ row ∈ rows, validateRow ts row = none) (n : Nat) :
    encodedChangesetRowsSize rows ts limits.maxRowBytes = .ok n ↔
      RowsWithin ts.columns limits.maxRowBytes rows ∧ n = (rowsText ts.columns rows).length := by
  simp only [encodedChangesetRowsSize, except_bind_eq_ok, checkedChangesetCount_ok,
    rowsSizeLoop_ok haccepted h, rowsText, List.length_append, length_littleEndian]
  constructor
  · rintro ⟨_, ⟨hcount, rfl⟩, hrows, rfl⟩
    exact ⟨⟨hcount, hrows⟩, rfl⟩
  · rintro ⟨⟨hcount, hrows⟩, rfl⟩
    exact ⟨_, ⟨hcount, rfl⟩, hrows, rfl⟩

theorem tablesSizeLoop_ok (h : ∀ e ∈ entries, e.2.RowsValid) (size n : Nat) :
    tablesSizeLoop limits size entries = .ok n ↔
      (∀ e ∈ entries, TableWithin limits.maxRowBytes e.2) ∧
        n = size + (entries.flatMap tableText).length ∧
        (entries ≠ [] → n ≤ limits.maxRecordPayloadBytes) := by
  induction entries generalizing size with
  | nil => simp [tablesSizeLoop, eq_comm]
  | cons e entries ih =>
    obtain ⟨id, tc⟩ := e
    have hrows : tc.RowsValid := h (id, tc) (by simp)
    have hins := encodedChangesetRowsSize_ok haccepted fun row hrow => hrows row (.inl hrow)
    have hdels := encodedChangesetRowsSize_ok haccepted fun row hrow => hrows row (.inr hrow)
    have ih' := ih fun e he => h e (by simp [he])
    have hlen : (tableText (id, tc)).length =
        4 + ((rowsText tc.schema.columns tc.inserts).length +
          (rowsText tc.schema.columns tc.deletes).length) := by
      simp [tableText]
    simp only [tablesSizeLoop, except_bind_eq_ok, hins, hdels, ih', List.forall_mem_cons,
      List.flatMap_cons, List.length_append, hlen]
    constructor
    · rintro ⟨_, ⟨hi, rfl⟩, _, ⟨hd, rfl⟩, ⟨⟩, hcheck, hrest, rfl, hlimit⟩
      have hcheck := (validateRecordPayloadLen_ok haccepted).mp hcheck
      refine ⟨⟨⟨hi, hd⟩, hrest⟩, by omega, fun _ => ?_⟩
      cases entries with
      | nil => simpa using hcheck
      | cons e entries => exact hlimit (by simp)
    · rintro ⟨⟨⟨hi, hd⟩, hrest⟩, rfl, hlimit⟩
      have hlimit := hlimit (by simp)
      refine ⟨_, ⟨hi, rfl⟩, _, ⟨hd, rfl⟩, (), ?_, hrest, by omega, fun _ => hlimit⟩
      exact (validateRecordPayloadLen_ok haccepted).mpr (by omega)

structure WithinLimits (limits : CodecLimits) (c : Changeset) : Prop where
  count : c.tables.toList.length ≤ 2 ^ 32 - 1
  tables : ∀ e ∈ c.tables.toList, TableWithin limits.maxRowBytes e.2
  record : c.tables.toList ≠ [] → (changesetText c).length ≤ limits.maxRecordPayloadBytes

omit haccepted in
theorem length_changesetText (c : Changeset) :
    (changesetText c).length = 1 + 4 + (c.tables.toList.flatMap tableText).length := by
  simp only [changesetText, List.length_cons, List.length_append, length_littleEndian]
  omega

theorem encodedChangesetSizeWithLimits_ok (h : ∀ e ∈ c.tables.toList, e.2.RowsValid) :
    (∃ n, encodedChangesetSizeWithLimits c limits = .ok n) ↔ WithinLimits limits c := by
  obtain ⟨-, -, -, hmax⟩ := CodecLimits.bounds haccepted
  unfold formatMaxRecordPayloadBytes at hmax
  have hlen := length_changesetText c
  simp only [encodedChangesetSizeWithLimits, except_bind_eq_ok, checkedChangesetCount_ok,
    tablesSizeLoop_ok haccepted h]
  constructor
  · rintro ⟨_, _, ⟨hcount, rfl⟩, _, ⟨htables, rfl, hlimit⟩, -⟩
    exact ⟨hcount, htables, fun hne => by have := hlimit hne; omega⟩
  · rintro ⟨hcount, htables, hrecord⟩
    refine ⟨_, _, ⟨hcount, rfl⟩, _, ⟨htables, rfl, fun hne => by have := hrecord hne; omega⟩,
      if_neg ?_⟩
    by_cases hne : c.tables.toList = []
    · simp [hne]
    · have := hrecord hne
      omega

theorem validateChangeset_iff (h : ∀ e ∈ c.tables.toList, e.2.RowsValid) :
    validateChangeset limits c = none ↔ WithinLimits limits c := by
  rw [← encodedChangesetSizeWithLimits_ok haccepted h, validateChangeset]
  split
  · next e he => simp [he]
  · next n hn => simp [hn]

/-! ## Encoding -/

theorem appendRowsLoop_ok (h : ∀ row ∈ rows, validateRow ts row = none) (out out' : Bytes) :
    appendRowsLoop ts limits.maxRowBytes out rows = .ok out' ↔
      (∀ r ∈ rows, (rowText ts.columns r).length ≤ limits.maxRowBytes ∧ RowFits ts.columns r) ∧
        out' = out ++ rowsBody ts.columns rows := by
  induction rows generalizing out with
  | nil => simp [appendRowsLoop, rowsBody, eq_comm]
  | cons row rows ih =>
    have ih' := ih fun r hr => h r (by simp [hr])
    have hlift : ∀ (before out₁ : Bytes),
        liftRow (appendProductValueForColumns before row ts.columns) = .ok out₁ ↔
          RowFits ts.columns row ∧ out₁ = before ++ rowText ts.columns row := by
      intro before out₁
      rw [← appendProductValueForColumns_ok]
      cases appendProductValueForColumns before row ts.columns <;> simp [liftRow]
    simp only [appendRowsLoop, except_bind_eq_ok, encodedRowSize_ok haccepted (h row (by simp)),
      hlift, List.forall_mem_cons, rowsBody, List.flatMap_cons]
    constructor
    · rintro ⟨_, ⟨hrow, rfl⟩, _, ⟨hfits, rfl⟩, hloop⟩
      rw [if_neg (by simp), ih'] at hloop
      obtain ⟨hrows, rfl⟩ := hloop
      refine ⟨⟨⟨hrow, hfits⟩, hrows⟩, ?_⟩
      simp only [appendUint32LE, lengthPrefixed, rowsBody, List.append_assoc]
    · rintro ⟨⟨⟨hrow, hfits⟩, hrows⟩, rfl⟩
      refine ⟨_, ⟨hrow, rfl⟩, _, ⟨hfits, rfl⟩, ?_⟩
      rw [if_neg (by simp), ih']
      refine ⟨hrows, ?_⟩
      simp only [appendUint32LE, lengthPrefixed, rowsBody, List.append_assoc]

/-- Rows that are within the limits and that the row encoder writes. -/
structure RowsEncodable (columns : List ColumnSchema) (maxRowBytes : Nat)
    (rows : List ProductValue) : Prop extends RowsWithin columns maxRowBytes rows where
  fits : ∀ r ∈ rows, RowFits columns r

theorem appendChangesetRows_ok (h : ∀ row ∈ rows, validateRow ts row = none) (out out' : Bytes) :
    appendChangesetRows out rows ts limits.maxRowBytes = .ok out' ↔
      RowsEncodable ts.columns limits.maxRowBytes rows ∧ out' = out ++ rowsText ts.columns rows := by
  simp only [appendChangesetRows, except_bind_eq_ok, checkedChangesetCount_ok,
    appendRowsLoop_ok haccepted h, rowsText, appendUint32LE, List.append_assoc]
  constructor
  · rintro ⟨_, ⟨hcount, rfl⟩, hrows, rfl⟩
    exact ⟨⟨⟨hcount, fun r hr => (hrows r hr).1⟩, fun r hr => (hrows r hr).2⟩, rfl⟩
  · rintro ⟨⟨⟨hcount, hlen⟩, hfits⟩, rfl⟩
    exact ⟨_, ⟨hcount, rfl⟩, fun r hr => ⟨hlen r hr, hfits r hr⟩, rfl⟩

structure TableEncodable (maxRowBytes : Nat) (tc : TableChangeset) : Prop where
  inserts : RowsEncodable tc.schema.columns maxRowBytes tc.inserts
  deletes : RowsEncodable tc.schema.columns maxRowBytes tc.deletes

theorem appendTablesLoop_ok (h : ∀ e ∈ entries, e.2.RowsValid) (out out' : Bytes) :
    appendTablesLoop limits out entries = .ok out' ↔
      (∀ e ∈ entries, TableEncodable limits.maxRowBytes e.2) ∧
        out' = out ++ entries.flatMap tableText ∧
        (entries ≠ [] → out'.length ≤ limits.maxRecordPayloadBytes) := by
  induction entries generalizing out with
  | nil => simp [appendTablesLoop, eq_comm]
  | cons e entries ih =>
    obtain ⟨id, tc⟩ := e
    have hrows : tc.RowsValid := h (id, tc) (by simp)
    have hins := appendChangesetRows_ok haccepted fun row hrow => hrows row (.inl hrow)
    have hdels := appendChangesetRows_ok haccepted fun row hrow => hrows row (.inr hrow)
    have ih' := ih fun e he => h e (by simp [he])
    simp only [appendTablesLoop, except_bind_eq_ok, hins, hdels, ih', List.forall_mem_cons,
      List.flatMap_cons]
    constructor
    · rintro ⟨_, ⟨hi, rfl⟩, ⟨⟩, -, _, ⟨hd, rfl⟩, ⟨⟩, hcheck, hrest, rfl, hlimit⟩
      have hcheck := (validateRecordPayloadLen_ok haccepted).mp hcheck
      refine ⟨⟨⟨hi, hd⟩, hrest⟩, ?_, fun _ => ?_⟩
      · simp only [appendUint32LE, tableText, List.append_assoc]
      · cases entries with
        | nil => simpa using hcheck
        | cons e entries => exact hlimit (by simp)
    · rintro ⟨⟨⟨hi, hd⟩, hrest⟩, rfl, hlimit⟩
      have hlimit := hlimit (by simp)
      simp only [tableText, List.length_append] at hlimit
      refine ⟨_, ⟨hi, rfl⟩, (), ?_, _, ⟨hd, rfl⟩, (), ?_, hrest, ?_, fun _ => ?_⟩
      · refine (validateRecordPayloadLen_ok haccepted).mpr ?_
        simp only [appendUint32LE, List.length_append]
        omega
      · refine (validateRecordPayloadLen_ok haccepted).mpr ?_
        simp only [appendUint32LE, List.length_append]
        omega
      · simp only [appendUint32LE, tableText, List.append_assoc]
      · simp only [tableText, List.length_append]
        omega

theorem encodeChangesetWithLimits_ok (h : ∀ e ∈ c.tables.toList, e.2.RowsValid) (out : Bytes) :
    encodeChangesetWithLimits c limits = .ok out ↔
      WithinLimits limits c ∧ (∀ e ∈ c.tables.toList, TableEncodable limits.maxRowBytes e.2) ∧
        out = changesetText c := by
  have hsize := encodedChangesetSizeWithLimits_ok haccepted h
  have hlen := length_changesetText c
  simp only [encodeChangesetWithLimits, except_bind_eq_ok, checkedChangesetCount_ok,
    appendTablesLoop_ok haccepted h]
  constructor
  · rintro ⟨n, hn, _, ⟨hcount, rfl⟩, htables, rfl, -⟩
    exact ⟨hsize.mp ⟨n, hn⟩, htables, rfl⟩
  · rintro ⟨hwithin, htables, rfl⟩
    obtain ⟨n, hn⟩ := hsize.mpr hwithin
    exact ⟨n, hn, _, ⟨hwithin.count, rfl⟩, htables, rfl, hwithin.record⟩

end

/-! ## Decoding -/

theorem readUint32_reads (short : ChangesetError) {v : Nat} (h : v < 2 ^ 32) :
    Reads (readUint32 short) (littleEndian 4 v) v := by
  have hread := (takeBytes_reads (fun _ => short) (length_littleEndian 4 v)).map littleEndianValue
  rwa [littleEndianValue_littleEndian (by omega)] at hread

theorem requireFits_apply {name : String} {count width : Nat} {x : Bytes}
    (h : count * width ≤ x.length) :
    requireChangesetCountFitsRemaining name count width x = .ok ((), x) := by
  rw [requireChangesetCountFitsRemaining, if_neg (by omega)]

variable {maxRowBytes : Nat}

theorem decodeRow_reads (label : String) (id : TableID) (hfits : RowFits ts.columns row)
    (hlen : (rowText ts.columns row).length ≤ maxRowBytes) (hmax : maxRowBytes < 2 ^ 32) :
    Reads (decodeRow label ts id maxRowBytes)
      (lengthPrefixed (rowText ts.columns row).length (rowText ts.columns row)) row := by
  refine (readUint32_reads _ (by omega)).bind ?_
  rw [if_neg (by omega)]
  refine (takeBytes_reads _ rfl).andThen ?_
  rw [decodeProductValueFromBytes_rowText hfits]
  exact reads_pure _

theorem length_rowsBody_ge (columns : List ColumnSchema) (rows : List ProductValue) :
    rows.length * 4 ≤ (rowsBody columns rows).length := by
  simp [rowsBody, List.length_flatMap]

theorem decodeRows_reads (label : String) (id : TableID) {rows : List ProductValue}
    (h : RowsEncodable ts.columns maxRowBytes rows) (hmax : maxRowBytes < 2 ^ 32) :
    Reads (decodeRows label ts id maxRowBytes) (rowsText ts.columns rows) rows := by
  have hcount := h.count
  have hmany : Reads (many (decodeRow label ts id maxRowBytes) rows.length)
      (rowsBody ts.columns rows) rows :=
    many_reads fun row hrow => decodeRow_reads label id (h.fits row hrow) (h.row row hrow) hmax
  have hlen := length_rowsBody_ge ts.columns rows
  intro rest
  rw [rowsText, List.append_assoc, decodeRows,
    bind_of_ok (readUint32_reads _ (by omega) _),
    bind_of_ok (requireFits_apply (by rw [List.length_append, changesetUint32Bytes]; omega))]
  exact hmany rest

structure EntryOf (reg : SchemaRegistry) (id : TableID) (tc : TableChangeset) : Prop where
  tableID : tc.tableID = id
  tableName : tc.tableName = tc.schema.name
  schema : reg.table id = some tc.schema
  idRange : id < 2 ^ 32
  valid : tc.RowsValid

variable {reg : SchemaRegistry}

theorem decodeTableChangeset_reads {tables : GoMap TableID TableChangeset} {id : TableID}
    {tc : TableChangeset} (hentry : EntryOf reg id tc) (h : TableEncodable maxRowBytes tc)
    (hmax : maxRowBytes < 2 ^ 32) (hnew : tables.contains id = false) :
    Reads (decodeTableChangeset reg maxRowBytes tables) (tableText (id, tc)) tc := by
  refine (readUint32_reads _ hentry.idRange).bind ?_
  rw [hnew, if_neg Bool.false_ne_true, hentry.schema]
  refine (decodeRows_reads _ id h.inserts hmax).bind ?_
  have hdels := (decodeRows_reads "delete" id h.deletes hmax).map fun deletes =>
    (⟨id, tc.schema.name, tc.schema, tc.inserts, deletes⟩ : TableChangeset)
  obtain ⟨tableID, tableName, schema, inserts, deletes⟩ := tc
  obtain ⟨rfl, hname, -⟩ := hentry
  simp only at hname
  subst hname
  exact hdels

theorem decodeTablesLoop_reads (hmax : maxRowBytes < 2 ^ 32)
    (hentries : ∀ e ∈ entries, EntryOf reg e.1 e.2)
    (h : ∀ e ∈ entries, TableEncodable maxRowBytes e.2) (hnodup : (entries.map Prod.fst).Nodup)
    (tables : GoMap TableID TableChangeset) (hnew : ∀ e ∈ entries, tables.contains e.1 = false) :
    Reads (decodeTablesLoop reg maxRowBytes entries.length tables) (entries.flatMap tableText)
      (entries.foldl (fun m e => m.insert e.1 e.2) tables) := by
  induction entries generalizing tables with
  | nil => exact reads_pure _
  | cons e entries ih =>
    obtain ⟨id, tc⟩ := e
    rw [List.map_cons, List.nodup_cons] at hnodup
    have hentry : EntryOf reg id tc := hentries (id, tc) (by simp)
    have hread := decodeTableChangeset_reads hentry (h (id, tc) (by simp)) hmax
      (hnew (id, tc) (by simp))
    rw [List.flatMap_cons, List.length_cons]
    refine hread.bind ?_
    rw [hentry.tableID, List.foldl_cons]
    refine ih (fun e he => hentries e (by simp [he])) (fun e he => h e (by simp [he])) hnodup.2 _ ?_
    intro e he
    rw [Std.ExtTreeMap.contains_insert, hnew e (by simp [he]), Bool.or_false]
    have hne : id ≠ e.1 := by
      intro heq
      exact hnodup.1 (List.mem_map.mpr ⟨e, he, heq.symm⟩)
    simpa using hne

theorem length_tableText_ge (entries : List (TableID × TableChangeset)) :
    entries.length * 4 ≤ (entries.flatMap tableText).length := by
  have hle := List.card_nsmul_le_sum (entries.map fun e => (tableText e).length) 4
    (List.forall_mem_map.mpr fun e _ => by simp [tableText])
  simpa [List.length_flatMap] using hle

theorem decodeChangesetWithMax_text (hmax : maxRowBytes < 2 ^ 32)
    (hcount : c.tables.toList.length ≤ 2 ^ 32 - 1)
    (hentries : ∀ e ∈ c.tables.toList, EntryOf reg e.1 e.2)
    (h : ∀ e ∈ c.tables.toList, TableEncodable maxRowBytes e.2) :
    decodeChangesetWithMax (changesetText c) reg maxRowBytes = .ok ⟨0, c.tables⟩ := by
  have hloop := decodeTablesLoop_reads hmax hentries h (nodup_fst_toList c.tables) ∅ (by simp)
  have hlen := length_tableText_ge c.tables.toList
  have hread : decodeTables reg maxRowBytes
      (littleEndian 4 c.tables.toList.length ++ c.tables.toList.flatMap tableText) =
        .ok (c.tables, []) := by
    rw [decodeTables, bind_of_ok (readUint32_reads _ (by omega) _),
      bind_of_ok (requireFits_apply (by rw [changesetUint32Bytes]; omega)), hloop.apply,
      foldl_insert_toList]
  have hshort := length_changesetText c
  rw [changesetText] at hshort
  rw [changesetText, decodeChangesetWithMax, if_neg (by omega), if_neg (by simp), hread]

end Shunter

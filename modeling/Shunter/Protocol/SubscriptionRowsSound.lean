import Shunter.Protocol.PlainRows
import Shunter.Protocol.SubscriptionRows

/-!
# Row lists decode to the rows they stand for

The encoder that knows the columns is sound for every list.  The one that does
not is sound exactly for the empty list and for columns that are never null.
-/

namespace Shunter.Protocol

open Foundation Bsatn Subscription

def resultSchema (columns : List ColumnSchema) : TableSchema := ⟨0, [], false, columns, []⟩

def DecodesTo (columns : List ColumnSchema) (out : Bytes) (rows : List ProductValue) : Prop :=
  ∃ texts, decodeRowList out = .ok texts ∧
    List.Forall₂ (fun text row => decodeProductValueFromBytes text (resultSchema columns) = .ok row)
      texts rows

/-- The error that a null value causes where no column allows it. -/
def ProtocolError.isNull : ProtocolError → Bool
  | .row (.nullWithoutSchema _) => true
  | _ => false

structure RowsSound (columns : List ColumnSchema) (rows : List ProductValue)
    (sent : Except ProtocolError Bytes) : Prop where
  null : ∀ e, sent = .error e → e.isNull = false
  decodes : ∀ out, sent = .ok out → DecodesTo columns out rows

theorem decodesTo_rowListText {columns : List ColumnSchema} {rows : List ProductValue}
    {text : ProductValue → Bytes} (hcounts : RowListCounts (rows.map text))
    (h : ∀ row ∈ rows, decodeProductValueFromBytes (text row) (resultSchema columns) = .ok row) :
    DecodesTo columns (rowListText (rows.map text)) rows := by
  refine ⟨_, decodeRowList_ok.mpr ⟨hcounts, rfl⟩, ?_⟩
  rw [List.forall₂_map_left_iff]
  exact List.forall₂_same.mpr h

variable {row : ProductValue} {columns : List ColumnSchema} {rows : List ProductValue}
  {memory : RowRef → ProductValue}

theorem decodes_of_rowFits (h : RowFits columns row) :
    decodeProductValueFromBytes (rowText columns row) (resultSchema columns) = .ok row :=
  @decodeProductValueFromBytes_rowText (resultSchema columns) row h

/-! ## Errors that null values cause -/

def NotNull (e : BsatnError) : Prop := (ProtocolError.row e).isNull = false

variable {n : Nat}

theorem checkedValuePayloadLen_notNull {label : String} :
    Foundation.Outcome NotNull (fun _ => True) (checkedValuePayloadLen label n) := by
  unfold checkedValuePayloadLen
  split
  · rfl
  · trivial

theorem arrayStringPayloadLoop_notNull {used : Nat} {xs : List Bytes} :
    Foundation.Outcome NotNull (fun _ => True) (arrayStringPayloadLoop used xs) := by
  induction xs generalizing used with
  | nil => trivial
  | cons s xs ih =>
    rw [arrayStringPayloadLoop]
    split
    · rfl
    · exact ih

variable {dst : Bytes}

theorem appendPayload_notNull {k : ValueKind} {p : Payload k} :
    Foundation.Outcome NotNull (fun _ => True) (appendPayload dst p) := by
  cases k with
  | string =>
    rw [appendPayload]
    split
    · exact checkedValuePayloadLen_notNull.bind fun _ _ => trivial
    · rfl
  | bytes | json => exact checkedValuePayloadLen_notNull.bind fun _ _ => trivial
  | arrayString =>
    have hcount : Foundation.Outcome NotNull (fun _ => True) (checkedArrayStringCount p.length) := by
      unfold checkedArrayStringCount
      split
      · rfl
      · trivial
    have hutf8 : Foundation.Outcome NotNull (fun _ => True) (validateUTF8StringArray p) := by
      unfold validateUTF8StringArray
      split
      · rfl
      · trivial
    refine hcount.bind fun _ _ => hutf8.bind fun _ _ => ?_
    exact arrayStringPayloadLoop_notNull.bind fun _ _ => trivial
  | _ => trivial

variable {v : Value}

theorem appendValue_notNull (h : v.payload ≠ none) :
    Foundation.Outcome NotNull (fun _ => True) (appendValue dst v) := by
  unfold appendValue
  split
  · contradiction
  · exact appendPayload_notNull

theorem appendColumnValue_notNull {col : ColumnSchema} (h : ColumnShaped col v) :
    Foundation.Outcome NotNull (fun _ => True) (appendColumnValue dst v col) := by
  unfold appendColumnValue
  rw [if_neg (by simp [h.kind])]
  cases hp : v.payload with
  | none => simp [h.null hp, Value.isNull, hp, Foundation.Outcome]
  | some p =>
    have hvalue {dst : Bytes} : Foundation.Outcome NotNull (fun _ => True) (appendValue dst v) :=
      appendValue_notNull (by simp [hp])
    split
    · rw [if_neg (by simp [Value.isNull, hp])]
      exact hvalue
    · rw [if_neg (by simp [Value.isNull, hp])]
      exact hvalue.bind fun _ _ => trivial

theorem appendColumns_notNull (h : RowShaped columns row) :
    Foundation.Outcome NotNull (fun _ => True) (appendColumns dst row columns) := by
  induction h generalizing dst with
  | nil => trivial
  | cons hv _ ih => exact (appendColumnValue_notNull hv).bind fun _ _ => ih

theorem appendProductValue_notNull (h : ∀ v ∈ row, v.payload ≠ none) :
    Foundation.Outcome NotNull (fun _ => True) (appendProductValue dst row) := by
  induction row generalizing dst with
  | nil => trivial
  | cons v row ih =>
    obtain ⟨hv, hrow⟩ := List.forall_mem_cons.mp h
    exact (appendValue_notNull hv).bind fun _ _ => ih hrow

theorem notNull_other (e : ProtocolError) (h : ∀ c, e ≠ .row c) : e.isNull = false := by
  cases e with
  | row c => exact absurd rfl (h c)
  | _ => rfl

/-! ## The two encoders -/

theorem rowsSound_forColumns (h : ∀ row ∈ rows, RowShaped columns row) :
    RowsSound columns rows (encodeProductRowsForColumns rows columns) where
  null := by
    refine (outcome_iff.mp (encodeProductRowsWith_errors ⟨?_, ?_, notNull_other⟩)).1
    · intro row hrow
      rw [encodedProductValueSizeForColumns_ok (h row hrow)]
      trivial
    · intro row hrow dst
      rw [appendProductValueForColumns, if_neg (by simp [(h row hrow).length_eq])]
      exact appendColumns_notNull (h row hrow)
  decodes out hout := by
    obtain ⟨hfits, hlist, rfl⟩ := (encodeProductRowsForColumns_ok h).mp hout
    exact decodesTo_rowListText hlist.toRowListCounts fun row hrow =>
      decodes_of_rowFits (hfits row hrow)

theorem shaped_not_null (h : RowShaped columns row)
    (hcols : ∀ col ∈ columns, col.nullable = false) : ∀ v ∈ row, v.payload ≠ none := by
  induction h with
  | nil => simp
  | cons hv _ ih =>
    obtain ⟨hcol, hcols⟩ := List.forall_mem_cons.mp hcols
    refine List.forall_mem_cons.mpr ⟨fun hnull => ?_, ih hcols⟩
    simp [hv.null hnull] at hcol

theorem rowFits_of_plain (h : RowShaped columns row) (hplain : ∀ v ∈ row, PlainFits v) :
    RowFits columns row := by
  induction h with
  | nil => exact .nil
  | cons hv _ ih =>
    obtain ⟨⟨p, hp, hfits⟩, hrest⟩ := List.forall_mem_cons.mp hplain
    refine .cons ⟨hv, fun q hq => ?_⟩ (ih hrest)
    rw [hp] at hq
    cases hq
    exact hfits

theorem rowsSound_plain (h : ∀ row ∈ rows, RowShaped columns row)
    (hcols : rows = [] ∨ ∀ col ∈ columns, col.nullable = false) :
    RowsSound columns rows (encodeProductRows rows) := by
  have hcols : ∀ row ∈ rows, ∀ col ∈ columns, col.nullable = false := by
    rcases hcols with rfl | hcols
    · simp
    · exact fun _ _ => hcols
  refine ⟨?_, fun out hout => ?_⟩
  · refine (outcome_iff.mp (encodeProductRowsWith_errors ⟨?_, ?_, notNull_other⟩)).1
    · exact fun _ _ => trivial
    · intro row hrow dst
      exact appendProductValue_notNull (shaped_not_null (h row hrow) (hcols row hrow))
  · obtain ⟨hfits, hlist, rfl⟩ := encodeProductRows_ok.mp hout
    refine decodesTo_rowListText hlist.toRowListCounts fun row hrow => ?_
    rw [← rowText_eq_plainText (h row hrow) (hcols row hrow)]
    exact decodes_of_rowFits (rowFits_of_plain (h row hrow) (hfits row hrow))

/-- `encodeProtocolProductRows` falls back on the plain encoder only for rows without columns. -/
theorem rowsSound_protocol (h : ∀ row ∈ rows, RowShaped columns row) :
    RowsSound columns rows (encodeProtocolProductRows rows columns) := by
  rw [encodeProtocolProductRows]
  split
  · next hnil => exact rowsSound_plain h (.inr (by simp [hnil]))
  · exact rowsSound_forColumns h

theorem length_itemsText_le {texts shorter : ProductValue → Bytes}
    (h : ∀ row ∈ rows, (shorter row).length ≤ (texts row).length) :
    (itemsText (rows.map shorter)).length ≤ (itemsText (rows.map texts)).length := by
  induction rows with
  | nil => simp
  | cons row rows ih =>
    obtain ⟨hrow, hrows⟩ := List.forall_mem_cons.mp h
    have := ih hrows
    rw [List.map_cons, List.map_cons, length_itemsText_cons, length_itemsText_cons]
    omega

theorem rowListFits_plain (h : ∀ row ∈ rows, RowShaped columns row)
    (hlist : RowListFits (rows.map (rowText columns))) : RowListFits (rows.map plainText) := by
  have hle : ∀ row ∈ rows, (plainText row).length ≤ (rowText columns row).length :=
    fun row hrow => length_plainText_le (h row hrow)
  refine ⟨⟨by simpa using hlist.count, ?_⟩, ?_⟩
  · intro text htext
    obtain ⟨row, hrow, rfl⟩ := List.mem_map.mp htext
    exact (hle row hrow).trans_lt (hlist.row _ (List.mem_map_of_mem hrow))
  · have hsize := hlist.size
    have := length_itemsText_le hle
    rw [length_rowListText] at hsize ⊢
    omega

theorem appendProductValue_error (h : RowFits columns row) {c : BsatnError}
    (herr : appendProductValue dst row = .error c) : c = .nullWithoutSchema none := by
  induction h generalizing dst with
  | nil => cases herr
  | @cons _ v _ _ hv _ ih =>
    rw [appendProductValue] at herr
    obtain herr | ⟨_, -, herr⟩ := except_bind_eq_error.mp herr
    · cases hp : v.payload with
      | none =>
        unfold appendValue at herr
        split at herr
        · cases herr
          rfl
        · next p hsome => simp [hp] at hsome
      | some p =>
        have hok : appendValue dst v = .ok (dst ++ tag v.kind :: payloadText p) :=
          appendValue_ok.mpr ⟨p, hp, hv.payload p hp, rfl⟩
        rw [hok] at herr
        cases herr
    · exact ih herr

theorem encodeProductRows_error (h : ∀ row ∈ rows, RowFits columns row)
    (hlist : RowListFits (rows.map (rowText columns))) {e : ProtocolError}
    (herr : encodeProductRows rows = .error e) : e = .row (.nullWithoutSchema none) := by
  have hplain := rowListFits_plain (fun row hrow => (h row hrow).shaped) hlist
  have hlens : ∀ row ∈ rows, (plainText row).length < 2 ^ 32 := fun row hrow =>
    hplain.row _ (List.mem_map_of_mem hrow)
  have hsizes : productRowSizes (fun row => .ok (encodedProductValueSize row)) 0 4 rows =
      .ok (rows.map fun row => (plainText row).length) :=
    (productRowSizes_ok (fun row _ => by rw [encodedProductValueSize_eq]) (by decide)).mpr
      ⟨hlens, by simpa using hplain.size, rfl⟩
  have hcount : checkedProtocolLen "product row count" rows.length = .ok rows.length :=
    checkedProtocolLen_ok.mpr ⟨by simpa using hplain.count, rfl⟩
  rw [encodeProductRows, encodeProductRowsWith, hcount] at herr
  obtain herr | ⟨_, -, herr⟩ := except_bind_eq_error.mp herr
  · cases herr
  obtain herr | ⟨_, -, herr⟩ := except_bind_eq_error.mp herr
  · cases herr
  obtain herr | ⟨sizes, hsome, herr⟩ := except_bind_eq_error.mp herr
  · rw [hsizes] at herr
    cases herr
  rw [hsizes] at hsome
  cases hsome
  have htext : ∀ dst row next, appendProductValue dst row = .ok next →
      next = dst ++ plainText row := fun _ _ _ hok => (appendProductValue_ok.mp hok).2
  obtain ⟨row, hrow, dst, c, happend, rfl⟩ := appendProductRows_error htext herr
  rw [appendProductValue_error (h row hrow) happend]

theorem not_rowsSound_plain (hrows : rows ≠ []) (h : ∀ row ∈ rows, RowFits columns row)
    (hlist : RowListFits (rows.map (rowText columns)))
    (hnull : ∃ col ∈ columns, col.nullable = true) :
    ¬ RowsSound columns rows (encodeProductRows rows) := by
  intro hsound
  cases hsent : encodeProductRows rows with
  | error e =>
    have hnot := hsound.null e hsent
    rw [encodeProductRows_error h hlist hsent] at hnot
    cases hnot
  | ok out =>
    obtain ⟨hfits, -, hout⟩ := encodeProductRows_ok.mp hsent
    obtain ⟨texts, htexts, hdecode⟩ := hsound.decodes out hsent
    have hplain := rowListFits_plain (fun row hrow => (h row hrow).shaped) hlist
    rw [hout, decodeRowList_ok.mpr ⟨hplain.toRowListCounts, rfl⟩] at htexts
    cases htexts
    obtain ⟨row, rest, rfl⟩ := List.exists_cons_of_ne_nil hrows
    rw [List.map_cons, List.forall₂_cons] at hdecode
    have hcolumns : decodeColumns (resultSchema columns) 0 columns (plainText row) =
        .ok (row, []) := by
      have hrow := hdecode.1
      rw [decodeProductValueFromBytes] at hrow
      split at hrow
      · cases hrow
      · next hread =>
        cases hrow
        exact hread
      · cases hrow
    obtain ⟨col, hcol, htrue⟩ := hnull
    have hahead := decodeColumns_ahead (h row List.mem_cons_self) (hfits row List.mem_cons_self)
      (a := 0) rfl hcolumns
    simp [hahead.2 col hcol] at htrue

/-! ## The memo -/

def bareColumn (col : ColumnSchema) : ColumnSchema :=
  ⟨col.index, [], col.type, col.nullable, false⟩

theorem rowFits_bare : RowFits (columns.map bareColumn) row ↔ RowFits columns row := by
  rw [RowFits, List.forall₂_map_left_iff]
  exact ⟨fun h => h.imp fun _ _ hv => ⟨⟨hv.kind, hv.null⟩, hv.payload⟩,
    fun h => h.imp fun _ _ hv => ⟨⟨hv.kind, hv.null⟩, hv.payload⟩⟩

theorem rowText_bare (columns : List ColumnSchema) (row : ProductValue) :
    rowText (columns.map bareColumn) row = rowText columns row := by
  induction columns generalizing row with
  | nil => rfl
  | cons col columns ih =>
    cases row with
    | nil => rfl
    | cons v row =>
      rw [List.map_cons, rowText, rowText, ih]
      rfl

theorem bare_of_key {rows rows' : List RowRef} {columns' : List ColumnSchema}
    (h : memoizedRowListKey rows columns = memoizedRowListKey rows' columns') :
    rows = rows' ∧ columns.map bareColumn = columns'.map bareColumn := by
  simp only [memoizedRowListKey, RowListKey.mk.injEq] at h
  refine ⟨h.2, ?_⟩
  have hbare := congrArg (List.map fun k : Nat × ValueKind × Bool =>
    (⟨k.1, [], k.2.1, k.2.2, false⟩ : ColumnSchema)) h.1
  simp only [List.map_map, Function.comp_def] at hbare
  exact hbare

theorem columnShaped_of_sized {col : ColumnSchema} (h : encodedColumnSize v col = .ok n) :
    ColumnShaped col v := by
  unfold encodedColumnSize at h
  split at h
  · cases h
  · next hkind =>
    refine ⟨not_not.mp hkind, fun hnull => ?_⟩
    split at h
    · assumption
    · rw [if_pos (by simp [Value.isNull, hnull])] at h
      cases h

theorem rowShaped_of_sized {m : Nat} (hlen : row.length = columns.length)
    (h : encodedColumnsSize n row columns = .ok m) : RowShaped columns row := by
  induction columns generalizing row n with
  | nil =>
    rw [List.length_nil, List.length_eq_zero_iff] at hlen
    rw [hlen]
    exact .nil
  | cons col columns ih =>
    cases row with
    | nil => cases hlen
    | cons v row =>
      obtain ⟨size, hsize, h⟩ := except_bind_eq_ok.mp h
      exact .cons (columnShaped_of_sized hsize) (ih (Nat.succ.inj hlen) h)

theorem productRowSizes_shaped {maxBytes size : Nat} {sizes : List Nat}
    (h : productRowSizes (encodedProductValueSizeForColumns · columns) maxBytes size rows =
      .ok sizes) : ∀ row ∈ rows, RowShaped columns row := by
  induction rows generalizing size sizes with
  | nil => simp
  | cons row rows ih =>
    obtain ⟨n, hrow, h⟩ := except_bind_eq_ok.mp h
    obtain ⟨_, -, h⟩ := except_bind_eq_ok.mp h
    obtain ⟨_, -, h⟩ := except_bind_eq_ok.mp h
    split at h
    · cases h
    · obtain ⟨_, hrest, -⟩ := except_bind_eq_ok.mp h
      refine List.forall_mem_cons.mpr ⟨?_, ih hrest⟩
      have hsized : encodedProductValueSizeForColumns row columns = .ok n := except_mapError_eq_ok.mp hrow
      unfold encodedProductValueSizeForColumns at hsized
      split at hsized
      · cases hsized
      · next hlen => exact rowShaped_of_sized (not_not.mp hlen) hsized

variable {out : Bytes}

theorem shaped_of_encoded (h : encodeProductRowsForColumns rows columns = .ok out) :
    ∀ row ∈ rows, RowShaped columns row := by
  obtain ⟨_, -, h⟩ := except_bind_eq_ok.mp h
  obtain ⟨_, -, h⟩ := except_bind_eq_ok.mp h
  obtain ⟨_, hsizes, -⟩ := except_bind_eq_ok.mp h
  exact productRowSizes_shaped hsizes

theorem encodeProductRowsForColumns_iff :
    encodeProductRowsForColumns rows columns = .ok out ↔
      (∀ row ∈ rows, RowFits columns row) ∧ RowListFits (rows.map (rowText columns)) ∧
        out = rowListText (rows.map (rowText columns)) :=
  ⟨fun h => (encodeProductRowsForColumns_ok (shaped_of_encoded h)).mp h, fun h =>
    (encodeProductRowsForColumns_ok fun row hrow => (h.1 row hrow).shaped).mpr h⟩

/-- Every cached list is what the encoder would write for the rows of its key. -/
def MemoSound (memory : RowRef → ProductValue) (memo : EncodingMemo) : Prop :=
  ∀ rows columns cached, memo (memoizedRowListKey rows columns) = some cached →
    encodeProtocolProductRows (rows.map memory) columns = .ok cached

theorem encodeProtocolProductRows_of_bare {columns' : List ColumnSchema}
    (hbare : columns'.map bareColumn = columns.map bareColumn)
    (h : encodeProtocolProductRows rows columns = .ok out) :
    encodeProtocolProductRows rows columns' = .ok out := by
  by_cases hnil : columns = []
  · have hnil' : columns' = [] := by
      rw [hnil, List.map_nil, List.map_eq_nil_iff] at hbare
      exact hbare
    rwa [hnil, ← hnil'] at h
  · have hnil' : columns' ≠ [] := by
      rintro rfl
      exact hnil (List.map_eq_nil_iff.mp hbare.symm)
    have htext : rowText columns' = rowText columns := by
      funext row
      rw [← rowText_bare, hbare, rowText_bare]
    have hfits : ∀ row, RowFits columns' row ↔ RowFits columns row := by
      intro row
      rw [← rowFits_bare, hbare, rowFits_bare]
    rw [encodeProtocolProductRows, if_neg hnil, encodeProductRowsForColumns_iff] at h
    rw [encodeProtocolProductRows, if_neg hnil', encodeProductRowsForColumns_iff, htext]
    simpa only [hfits] using h

theorem MemoSound.put {memo : EncodingMemo} (h : MemoSound memory memo) {rows : List RowRef}
    {encoded : Bytes}
    (hencoded : encodeProtocolProductRows (rows.map memory) columns = .ok encoded) :
    MemoSound memory (memo.put (memoizedRowListKey rows columns) encoded) := by
  intro rows' columns' cached hget
  by_cases hkey : memoizedRowListKey rows' columns' = memoizedRowListKey rows columns
  · rw [hkey, EncodingMemo.put, Function.update_self] at hget
    cases hget
    obtain ⟨rfl, hbare⟩ := bare_of_key hkey
    exact encodeProtocolProductRows_of_bare hbare hencoded
  · rw [EncodingMemo.put, Function.update_of_ne hkey] at hget
    exact h rows' columns' cached hget

theorem encodeProtocolProductRows_nil (columns : List ColumnSchema) :
    encodeProtocolProductRows [] columns = .ok emptyEncodedRowList := by
  rw [encodeProtocolProductRows]
  split <;> rfl

theorem encodeRowsMemoized_spec {memo : EncodingMemo} (h : MemoSound memory memo)
    {rows : List RowRef} {columns : List ColumnSchema} :
    (encodeRowsMemoized memory rows columns memo).1 =
        encodeProtocolProductRows (rows.map memory) columns ∧
      MemoSound memory (encodeRowsMemoized memory rows columns memo).2 := by
  rw [encodeRowsMemoized]
  split
  · next hnil =>
    rw [hnil, List.map_nil, encodeProtocolProductRows_nil]
    exact ⟨rfl, h⟩
  · split
    · next cached hget => exact ⟨(h rows columns cached hget).symm, h⟩
    · split
      · next herr => exact ⟨herr.symm, h⟩
      · next hok => exact ⟨hok.symm, h.put hok⟩

def SubscriptionUpdate.Shaped (memory : RowRef → ProductValue) (u : SubscriptionUpdate RowRef) :
    Prop :=
  ∀ row ∈ u.inserts ++ u.deletes, RowShaped u.columns (memory row)

theorem encodeSubscriptionUpdateMemoized_spec {memo : EncodingMemo} (h : MemoSound memory memo)
    {u : SubscriptionUpdate RowRef} :
    (encodeSubscriptionUpdateMemoized memory u memo).1 =
        encodeProtocolSubscriptionUpdate (u.map memory) ∧
      MemoSound memory (encodeSubscriptionUpdateMemoized memory u memo).2 := by
  obtain ⟨hinserts, hmemo⟩ := @encodeRowsMemoized_spec _ _ h u.inserts u.columns
  obtain ⟨hdeletes, hmemo'⟩ := @encodeRowsMemoized_spec _ _ hmemo u.deletes u.columns
  rw [encodeSubscriptionUpdateMemoized, encodeProtocolSubscriptionUpdate]
  simp only [SubscriptionUpdate.map]
  rw [← hinserts, ← hdeletes]
  revert hmemo hmemo'
  cases encodeRowsMemoized memory u.inserts u.columns memo with
  | mk first memo₁ =>
    cases first with
    | error e => exact fun hmemo _ => ⟨rfl, hmemo⟩
    | ok inserts =>
      cases hsecond : encodeRowsMemoized memory u.deletes u.columns memo₁ with
      | mk second memo₂ =>
        dsimp only
        rw [hsecond]
        cases second <;> exact fun _ hmemo' => ⟨rfl, hmemo'⟩

theorem encodeSubscriptionUpdatesMemoized_spec {us : List (SubscriptionUpdate RowRef)}
    {memo : EncodingMemo} (h : MemoSound memory memo) :
    (encodeSubscriptionUpdatesMemoized memory us memo).1 =
        encodeProtocolSubscriptionUpdates (us.map (·.map memory)) ∧
      MemoSound memory (encodeSubscriptionUpdatesMemoized memory us memo).2 := by
  induction us generalizing memo with
  | nil => exact ⟨rfl, h⟩
  | cons u us ih =>
    obtain ⟨hfirst, hmemo⟩ := @encodeSubscriptionUpdateMemoized_spec _ _ h u
    rw [List.map_cons, encodeSubscriptionUpdatesMemoized, encodeProtocolSubscriptionUpdates,
      ← hfirst]
    revert hmemo
    cases encodeSubscriptionUpdateMemoized memory u memo with
    | mk first memo₁ =>
      cases first with
      | error e => exact fun hmemo => ⟨rfl, hmemo⟩
      | ok wire =>
        intro hmemo
        obtain ⟨hrest, hmemo'⟩ := ih hmemo
        dsimp only at hrest hmemo' ⊢
        rw [← hrest]
        revert hmemo'
        cases encodeSubscriptionUpdatesMemoized memory us memo₁ with
        | mk rest memo₂ => cases rest <;> exact fun hmemo' => ⟨rfl, hmemo'⟩

theorem memoSound_after (served : List (List (SubscriptionUpdate RowRef))) :
    MemoSound memory (memoAfter memory served) := by
  have hfold : ∀ memo, MemoSound memory memo → MemoSound memory
      (served.foldl (fun memo us => (encodeSubscriptionUpdatesMemoized memory us memo).2) memo) := by
    induction served with
    | nil => exact fun _ h => h
    | cons us served ih =>
      exact fun memo h => ih _ (encodeSubscriptionUpdatesMemoized_spec h).2
  exact hfold _ fun _ _ _ hget => by cases hget

/-! ## Messages -/

structure MessageSound (meant : List (List ColumnSchema × List ProductValue))
    (sent : Except UpdateError (List Bytes)) : Prop where
  null : ∀ e, sent = .error e → e.cause.isNull = false
  decodes : ∀ lists, sent = .ok lists →
    List.Forall₂ (fun rows out => DecodesTo rows.1 out rows.2) meant lists

def RowMessage.single : RowMessage → Bool
  | .subscribeSingleApplied | .declaredViewApplied | .unsubscribeSingleApplied => true
  | _ => false

def RowMessage.columnBlind : RowMessage → Bool
  | .subscribeSingleApplied | .unsubscribeSingleApplied => true
  | _ => false

/-- The rows are those of some query, and the columns are its result columns. -/
def SubscriptionUpdate.EmittedBy (memory : RowRef → ProductValue)
    (u : SubscriptionUpdate RowRef) (q : QueryResult) : Prop :=
  u.columns = q.columns ∧ ∀ row ∈ u.inserts ++ u.deletes, q.Emits (memory row)

variable {u : SubscriptionUpdate RowRef}

theorem SubscriptionUpdate.EmittedBy.shaped {q : QueryResult} (h : u.EmittedBy memory q) :
    u.Shaped memory := fun row hrow => h.1 ▸ (h.2 row hrow).shaped

/-- The values and the list keep to the limits of the encoders. -/
def ListFits (columns : List ColumnSchema) (rows : List ProductValue) : Prop :=
  (∀ row ∈ rows, RowFits columns row) ∧ RowListFits (rows.map (rowText columns))

variable {us : List (SubscriptionUpdate RowRef)} {sent : Except ProtocolError Bytes}

theorem rowsSound_iff :
    RowsSound columns rows sent ↔
      Foundation.Outcome (fun e => e.isNull = false) (DecodesTo columns · rows) sent := by
  rw [outcome_iff]
  exact ⟨fun h => ⟨h.null, h.decodes⟩, fun h => ⟨h.1, h.2⟩⟩

theorem messageSound_iff {meant : List (List ColumnSchema × List ProductValue)}
    {sent : Except UpdateError (List Bytes)} :
    MessageSound meant sent ↔ Foundation.Outcome (fun e => e.cause.isNull = false)
      (List.Forall₂ (fun rows out => DecodesTo rows.1 out rows.2) meant) sent := by
  rw [outcome_iff]
  exact ⟨fun h => ⟨h.null, h.decodes⟩, fun h => ⟨h.1, h.2⟩⟩

theorem messageSound_single {wrap : ProtocolError → UpdateError}
    (hwrap : ∀ e, (wrap e).cause = e) :
    MessageSound [(columns, rows)] ((sent.mapError wrap).map ([·])) ↔
      RowsSound columns rows sent := by
  rw [messageSound_iff, rowsSound_iff, outcome_map, outcome_mapError]
  simp only [hwrap, List.forall₂_cons, List.forall₂_nil_left_iff, and_true]

theorem encodeProtocolSubscriptionUpdate_sound (h : u.Shaped memory) :
    MessageSound [(u.columns, u.inserts.map memory), (u.columns, u.deletes.map memory)]
      ((encodeProtocolSubscriptionUpdate (u.map memory)).map (·.rowLists)) := by
  have hinserts : RowsSound u.columns (u.inserts.map memory) _ := rowsSound_protocol
    (by simpa using fun row hrow => h row (List.mem_append_left _ hrow))
  have hdeletes : RowsSound u.columns (u.deletes.map memory) _ := rowsSound_protocol
    (by simpa using fun row hrow => h row (List.mem_append_right _ hrow))
  rw [messageSound_iff, outcome_map]
  refine .bind (outcome_mapError.mpr (rowsSound_iff.mp hinserts)) fun inserts hi => ?_
  refine .bind (outcome_mapError.mpr (rowsSound_iff.mp hdeletes)) fun deletes hd => ?_
  exact .cons hi (.cons hd .nil)

theorem encodeProtocolSubscriptionUpdates_sound (h : ∀ u ∈ us, u.Shaped memory) :
    MessageSound (us.flatMap fun u =>
        [(u.columns, u.inserts.map memory), (u.columns, u.deletes.map memory)])
      ((encodeProtocolSubscriptionUpdates (us.map (·.map memory))).map
        (·.flatMap (·.rowLists))) := by
  rw [messageSound_iff, outcome_map]
  induction us with
  | nil => exact .nil
  | cons u us ih =>
    obtain ⟨hu, hus⟩ := List.forall_mem_cons.mp h
    have hfirst := encodeProtocolSubscriptionUpdate_sound hu
    rw [messageSound_iff, outcome_map] at hfirst
    exact hfirst.bind fun wire hwire => (ih hus).bind fun wires hwires =>
      List.rel_append hwire hwires

theorem collected_shaped {rowsOf : SubscriptionUpdate ProductValue → List ProductValue}
    (h : ∀ u ∈ us, ∀ row ∈ rowsOf (u.map memory), RowShaped u.columns row)
    (hone : ∀ u ∈ us, u.columns = columns) :
    ∀ row ∈ (us.map (·.map memory)).flatMap rowsOf, RowShaped columns row := by
  intro row hrow
  obtain ⟨_, hu, hrow⟩ := List.mem_flatMap.mp hrow
  obtain ⟨u, hmem, rfl⟩ := List.mem_map.mp hu
  exact hone u hmem ▸ h u hmem row hrow

theorem declaredViewColumns_eq (hone : ∀ u ∈ us, u.columns = columns) :
    declaredViewColumns columns (us.map (·.map memory)) = columns := by
  rw [declaredViewColumns]
  split
  · next u hfind =>
    obtain ⟨v, hv, rfl⟩ := List.mem_map.mp (List.mem_of_find?_eq_some hfind)
    exact hone v hv
  · rfl

theorem encodeProtocolSubscriptionUpdates_total
    (h : ∀ u ∈ us, ListFits u.columns (u.inserts.map memory) ∧
      ListFits u.columns (u.deletes.map memory)) :
    ∃ wires, encodeProtocolSubscriptionUpdates (us.map (·.map memory)) = .ok wires := by
  have hlist : ∀ {columns : List ColumnSchema} {rows : List ProductValue}, ListFits columns rows →
      ∃ out, encodeProtocolProductRows rows columns = .ok out := by
    intro columns rows hfits
    have hshaped : ∀ row ∈ rows, RowShaped columns row := fun row hrow => (hfits.1 row hrow).shaped
    rw [encodeProtocolProductRows]
    split
    · next hnil =>
      subst hnil
      refine ⟨_, encodeProductRows_ok.mpr ⟨fun row hrow => ?_, rowListFits_plain hshaped hfits.2,
        rfl⟩⟩
      rw [List.forall₂_nil_left_iff.mp (hshaped row hrow)]
      simp
    · exact ⟨_, (encodeProductRowsForColumns_ok hshaped).mpr ⟨hfits.1, hfits.2, rfl⟩⟩
  induction us with
  | nil => exact ⟨_, rfl⟩
  | cons u us ih =>
    obtain ⟨⟨hinserts, hdeletes⟩, hrest⟩ := List.forall_mem_cons.mp h
    obtain ⟨inserts, hi⟩ := hlist hinserts
    obtain ⟨deletes, hd⟩ := hlist hdeletes
    obtain ⟨wires, hw⟩ := ih hrest
    have hu : encodeProtocolSubscriptionUpdate (u.map memory) =
        .ok ⟨u.queryID, u.tableName, inserts, deletes⟩ :=
      except_bind_eq_ok.mpr ⟨inserts, except_mapError_eq_ok.mpr hi,
        except_bind_eq_ok.mpr ⟨deletes, except_mapError_eq_ok.mpr hd, rfl⟩⟩
    rw [List.map_cons, encodeProtocolSubscriptionUpdates, hu, hw]
    exact ⟨_, rfl⟩

/-- A message that drops the columns has no rows, or no column is nullable. -/
def ColumnsKept (m : RowMessage) (columns : List ColumnSchema)
    (meant : List (List ColumnSchema × List ProductValue)) : Prop :=
  m.columnBlind = true → (∀ list ∈ meant, list.2 = []) ∨ ∀ col ∈ columns, col.nullable = false

theorem columnsKept_single {m : RowMessage} (hblind : m.columnBlind = true) :
    ColumnsKept m columns [(columns, rows)] ↔
      rows = [] ∨ ∀ col ∈ columns, col.nullable = false := by
  simp [ColumnsKept, hblind]

theorem rowsSound_plain_iff (hshaped : ∀ row ∈ rows, RowShaped columns row) :
    ((rows = [] ∨ ∀ col ∈ columns, col.nullable = false) →
        RowsSound columns rows (encodeProductRows rows)) ∧
      (ListFits columns rows → RowsSound columns rows (encodeProductRows rows) →
        rows = [] ∨ ∀ col ∈ columns, col.nullable = false) := by
  refine ⟨rowsSound_plain hshaped, fun hfits hsound => ?_⟩
  by_contra hnot
  push Not at hnot
  obtain ⟨hrows, col, hcol, hnull⟩ := hnot
  exact not_rowsSound_plain hrows hfits.1 hfits.2 ⟨col, hcol, by simpa using hnull⟩ hsound

theorem unsubscribeSingle_sound (hshaped : ∀ u ∈ us, u.Shaped memory)
    (hrows : RowsSound columns (collectDeleteRows (us.map (·.map memory)))
      (encodeProductRows (collectDeleteRows (us.map (·.map memory))))) :
    MessageSound [(columns, collectDeleteRows (us.map (·.map memory)))]
      ((unsubscribeSingleRows (us.map (·.map memory))).map ([·])) := by
  have hupdates := encodeProtocolSubscriptionUpdates_sound hshaped
  have hplain : MessageSound _ (((encodeProductRows _).mapError UpdateError.rows).map ([·])) :=
    (messageSound_single fun _ => rfl).mpr hrows
  rw [messageSound_iff, outcome_map] at hupdates hplain ⊢
  exact hupdates.bind fun _ _ => hplain

theorem unsubscribeSingle_eq (hfits : ∀ u ∈ us, ListFits u.columns (u.inserts.map memory) ∧
      ListFits u.columns (u.deletes.map memory)) :
    unsubscribeSingleRows (us.map (·.map memory)) =
      (encodeProductRows (collectDeleteRows (us.map (·.map memory)))).mapError .rows := by
  obtain ⟨wires, hwires⟩ := encodeProtocolSubscriptionUpdates_total hfits
  rw [unsubscribeSingleRows, hwires]
  rfl

/--
The row lists of a message are free of errors from null values and decode to
their rows whenever the message keeps the columns, or has no rows, or no column
is nullable; within the limits of the encoders, only then.
-/
theorem row_lists_decode (memory : RowRef → ProductValue) (q : QueryResult)
    (served : List (List (SubscriptionUpdate RowRef))) (us : List (SubscriptionUpdate RowRef))
    (m : RowMessage) (hserved : ∀ sent ∈ served, ∀ u ∈ sent, ∃ q', u.EmittedBy memory q')
    (hus : ∀ u ∈ us, ∃ q', u.EmittedBy memory q')
    (hone : m.single = true → ∀ u ∈ us, u.EmittedBy memory q) :
    (ColumnsKept m q.columns (meantRows memory q.columns us m) →
        MessageSound (meantRows memory q.columns us m)
          (sentRowLists memory q.columns served us m)) ∧
      ((∀ list ∈ meantRows memory q.columns us m ++
            meantRows memory q.columns us .unsubscribeMultiApplied, ListFits list.1 list.2) →
        MessageSound (meantRows memory q.columns us m)
            (sentRowLists memory q.columns served us m) →
          ColumnsKept m q.columns (meantRows memory q.columns us m)) := by
  have hshaped : ∀ u ∈ us, u.Shaped memory := fun u hu => (hus u hu).choose_spec.shaped
  have hupdates := encodeProtocolSubscriptionUpdates_sound hshaped
  have hinserts : ∀ u ∈ us, ∀ row ∈ (u.map memory).inserts, RowShaped u.columns row := by
    intro u hu row hrow
    obtain ⟨ref, href, rfl⟩ := List.mem_map.mp hrow
    exact hshaped u hu ref (List.mem_append_left _ href)
  have hdeletes : ∀ u ∈ us, ∀ row ∈ (u.map memory).deletes, RowShaped u.columns row := by
    intro u hu row hrow
    obtain ⟨ref, href, rfl⟩ := List.mem_map.mp hrow
    exact hshaped u hu ref (List.mem_append_right _ href)
  cases m with
  | subscribeSingleApplied =>
    have hcolumns : ∀ u ∈ us, u.columns = q.columns := fun u hu => (hone rfl u hu).1
    obtain ⟨hsound, honly⟩ := rowsSound_plain_iff (collected_shaped hinserts hcolumns)
    simp only [meantRows, sentRowLists, subscribeSingleRows]
    rw [columnsKept_single rfl, messageSound_single fun _ => rfl]
    exact ⟨hsound, fun hfits => honly (hfits _ (List.mem_append_left _ List.mem_cons_self))⟩
  | unsubscribeSingleApplied =>
    have hcolumns : ∀ u ∈ us, u.columns = q.columns := fun u hu => (hone rfl u hu).1
    obtain ⟨hsound, honly⟩ := rowsSound_plain_iff (collected_shaped hdeletes hcolumns)
    simp only [meantRows, sentRowLists]
    rw [columnsKept_single rfl]
    refine ⟨fun hkept => unsubscribeSingle_sound hshaped (hsound hkept), fun hfits h => ?_⟩
    have hlists : ∀ u ∈ us, ListFits u.columns (u.inserts.map memory) ∧
        ListFits u.columns (u.deletes.map memory) := fun u hu =>
      ⟨hfits (u.columns, u.inserts.map memory)
          (List.mem_append_right _ (List.mem_flatMap.mpr ⟨u, hu, by simp⟩)),
        hfits (u.columns, u.deletes.map memory)
          (List.mem_append_right _ (List.mem_flatMap.mpr ⟨u, hu, by simp⟩))⟩
    rw [unsubscribeSingle_eq hlists, messageSound_single fun _ => rfl] at h
    exact honly (hfits _ (List.mem_append_left _ List.mem_cons_self)) h
  | declaredViewApplied =>
    have hcolumns : ∀ u ∈ us, u.columns = q.columns := fun u hu => (hone rfl u hu).1
    refine ⟨fun _ => ?_, fun _ _ => nofun⟩
    simp only [meantRows, sentRowLists, declaredViewRows]
    rw [messageSound_single fun _ => rfl, declaredViewColumns_eq hcolumns]
    exact rowsSound_protocol (collected_shaped hinserts hcolumns)
  | subscribeMultiApplied => exact ⟨fun _ => hupdates, fun _ _ => nofun⟩
  | unsubscribeMultiApplied => exact ⟨fun _ => hupdates, fun _ _ => nofun⟩
  | transactionUpdate =>
    refine ⟨fun _ => ?_, fun _ _ => nofun⟩
    simp only [sentRowLists]
    rw [(encodeSubscriptionUpdatesMemoized_spec (memoSound_after served)).1]
    exact hupdates

/-! ## A nullable column -/

def nicknames : TableSchema := ⟨0, [], false, [⟨0, [], .string, true, false⟩], []⟩

def nicknameUpdate : SubscriptionUpdate RowRef := ⟨1, [], nicknames.columns, [⟨0, 1⟩], []⟩

theorem nicknameUpdate_emitted :
    nicknameUpdate.EmittedBy (fun _ => [.newNull .string]) (.emitted nicknames []) := by
  refine ⟨rfl, fun row hrow => ?_⟩
  exact .row (by simp) (.cons ⟨rfl, fun _ => rfl⟩ .nil) List.mem_cons_self

theorem row_lists_decode_multi :
    MessageSound [(nicknames.columns, [[.newNull .string]]), (nicknames.columns, [])]
      (sentRowLists (fun _ => [.newNull .string]) nicknames.columns [] [nicknameUpdate]
        .subscribeMultiApplied) :=
  (row_lists_decode (fun _ => [.newNull .string]) (.emitted nicknames []) [] [nicknameUpdate]
    .subscribeMultiApplied (by simp) (by simpa using ⟨_, nicknameUpdate_emitted⟩) nofun).1 nofun

/-- A single reply fails at the same row. -/
theorem nickname_not_sent :
    nicknameUpdate.EmittedBy (fun _ => [.newNull .string]) (.emitted nicknames []) ∧
      ¬ MessageSound (meantRows (fun _ => [.newNull .string]) nicknames.columns [nicknameUpdate]
          .subscribeSingleApplied)
        (sentRowLists (fun _ => [.newNull .string]) nicknames.columns [] [nicknameUpdate]
          .subscribeSingleApplied) := by
  refine ⟨nicknameUpdate_emitted, fun h => ?_⟩
  have hnull := h.null (.rows (.row (.nullWithoutSchema none))) rfl
  cases hnull

end Shunter.Protocol

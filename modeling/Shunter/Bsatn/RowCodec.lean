import Shunter.Bsatn.RoundTrip

/-!
# The row codec

Columns and rows: what the encoder writes for them, that the decoder reads it
back, and which byte strings it accepts.
-/

namespace Shunter.Bsatn

open Foundation Reader

/-! ## Columns -/

def columnText (col : ColumnSchema) (v : Value) : Bytes :=
  match v.payload with
  | none => [tag col.type, 0]
  | some p => if col.nullable then tag col.type :: 1 :: payloadText p
      else tag col.type :: payloadText p

/-- The value has the column's kind, and is null only where the column allows it. -/
structure ColumnShaped (col : ColumnSchema) (v : Value) : Prop where
  kind : v.kind = col.type
  null : v.payload = none → col.nullable = true

/-- A value of the column's shape that keeps to the limits of the encoder. -/
structure ColumnFits (col : ColumnSchema) (v : Value) : Prop extends ColumnShaped col v where
  payload : ∀ p, v.payload = some p → PayloadFits p

variable {v : Value} {dst out : Bytes}

theorem appendValue_ok :
    appendValue dst v = .ok out ↔
      ∃ p, v.payload = some p ∧ PayloadFits p ∧ out = dst ++ tag v.kind :: payloadText p := by
  unfold appendValue
  split
  · next h => simp [h]
  · next p h =>
    rw [appendPayload_ok, h]
    simp

variable {col : ColumnSchema}

theorem appendColumnValue_ok :
    appendColumnValue dst v col = .ok out ↔
      ColumnFits col v ∧ out = dst ++ columnText col v := by
  obtain ⟨k, p⟩ := v
  unfold appendColumnValue
  by_cases hk : k = col.type
  · subst hk
    cases p with
    | none =>
      cases hn : col.nullable with
      | true =>
        have hfits : ColumnFits col ⟨col.type, none⟩ := ⟨⟨rfl, fun _ => hn⟩, nofun⟩
        simp [Value.isNull, columnText, hfits, eq_comm]
      | false =>
        have hfits : ¬ ColumnFits col ⟨col.type, none⟩ :=
          fun h => Bool.false_ne_true (hn.symm.trans (h.null rfl))
        simp [Value.isNull, hfits]
    | some p =>
      have hfits : ColumnFits col ⟨col.type, some p⟩ ↔ PayloadFits p :=
        ⟨fun h => h.payload p rfl, fun h => ⟨⟨rfl, nofun⟩, by rintro q ⟨⟩; exact h⟩⟩
      cases hn : col.nullable with
      | true =>
        -- the tag that the value encoder wrote is the byte after the column tag
        have hset : ∀ t : Bytes,
            ((dst ++ [tag col.type]) ++ tag col.type :: t).set (dst ++ [tag col.type]).length 1 =
              dst ++ tag col.type :: 1 :: t := by
          intro t
          rw [List.set_append_right _ _ le_rfl, Nat.sub_self, List.set_cons_zero,
            List.append_assoc]
          rfl
        simp only [ne_eq, not_true, if_false, Bool.not_true, Bool.false_eq_true, Value.isNull,
          Option.isNone_some, except_bind_eq_ok, appendValue_ok, Option.some.injEq,
          Except.ok.injEq, hfits, columnText, hn, if_true]
        constructor
        · rintro ⟨_, ⟨_, rfl, hp, rfl⟩, rfl⟩
          exact ⟨hp, hset _⟩
        · rintro ⟨hp, rfl⟩
          exact ⟨_, ⟨p, rfl, hp, rfl⟩, hset _⟩
      | false =>
        simp only [ne_eq, not_true, if_false, Bool.not_false, if_true, Value.isNull,
          Option.isNone_some, Bool.false_eq_true, appendValue_ok, Option.some.injEq, hfits,
          columnText, hn]
        constructor
        · rintro ⟨_, rfl, hp, rfl⟩
          exact ⟨hp, rfl⟩
        · rintro ⟨hp, rfl⟩
          exact ⟨p, rfl, hp, rfl⟩
  · have hfits : ¬ ColumnFits col ⟨k, p⟩ := fun h => hk h.kind
    simp [hk, hfits]

variable {t : Bytes}

theorem decodeColumnValue_reads_payload (col : ColumnSchema) {p : Payload col.type}
    (hp : Reads (decodePayload col.type) t p) :
    Reads (decodeColumnValue col) (if col.nullable then tag col.type :: 1 :: t else tag col.type :: t)
      ⟨col.type, some p⟩ := by
  have htag : Reads (readFull 1) [tag col.type] [tag col.type] := readFull_reads rfl
  have hpresence : Reads (readFull 1) [1] [1] := readFull_reads rfl
  cases hn : col.nullable with
  | false =>
    refine htag.bind ?_
    rw [if_neg (by simp), hn, if_pos (by simp)]
    exact hp.map _
  | true =>
    refine htag.bind ?_
    rw [if_neg (by simp), hn, if_neg (by simp)]
    refine hpresence.bind (s := [1]) ?_
    rw [if_neg (by decide), if_pos rfl]
    exact hp.map _

theorem decodeColumnValue_reads (h : ColumnFits col v) :
    Reads (decodeColumnValue col) (columnText col v) v := by
  obtain ⟨k, p⟩ := v
  obtain ⟨⟨rfl, hnull⟩, hpayload⟩ := h
  cases p with
  | none =>
    have htag : Reads (readFull 1) [tag col.type] [tag col.type] := readFull_reads rfl
    have hpresence : Reads (readFull 1) [0] [0] := readFull_reads rfl
    refine htag.bind (t := [0]) ?_
    rw [if_neg (by simp), hnull rfl, if_neg (by simp)]
    refine hpresence.andThen ?_
    rw [if_pos rfl]
    exact reads_pure _
  | some p => exact decodeColumnValue_reads_payload col (decodePayload_reads (hpayload p rfl))

/--
The text of a JSON column as it stands in the input, which the decoder
replaces by its canonical form.
-/
def columnRaw (col : ColumnSchema) (raw : Bytes) : Bytes :=
  if col.nullable then tag col.type :: 1 :: lengthPrefixed raw.length raw
  else tag col.type :: lengthPrefixed raw.length raw

inductive ColumnRead (col : ColumnSchema) : Bytes → Value → Prop where
  | exact {v : Value} (h : ColumnFits col v) (hjson : col.type = .json → v.payload = none) :
      ColumnRead col (columnText col v) v
  | json {raw : Bytes} {v : Value} {j : JSONText} (hcol : col.type = .json)
      (hv : v = ⟨.json, some j⟩) (hlen : raw.length ≤ maxValuePayloadBytes)
      (h : canonicalizeJSON raw = .ok j.text) : ColumnRead col (columnRaw col raw) v

variable {x rest : Bytes}

private theorem columnRead_payload (lead : Bytes) {y : Bytes} {p : Payload col.type}
    (hx : x = tag col.type :: (lead ++ y)) (hlead : lead = if col.nullable then [1] else [])
    (h : decodePayload col.type y = .ok (p, rest)) :
    ∃ t, x = t ++ rest ∧ ColumnRead col t ⟨col.type, some p⟩ := by
  by_cases hk : col.type = .json
  · obtain ⟨index, name, type, nullable, autoIncrement⟩ := col
    simp only at hk
    subst hk
    obtain ⟨raw, hy, hlen, hraw⟩ := decodePayload_json_ok h
    refine ⟨_, ?_, .json rfl rfl hlen hraw⟩
    rw [hx, hlead, hy, columnRaw]
    cases nullable <;> simp
  · obtain ⟨hfits, hy⟩ := (decodePayload_codes hk).exact _ _ _ h
    have hcol : ColumnFits col ⟨col.type, some p⟩ :=
      ⟨⟨rfl, nofun⟩, by rintro q ⟨⟩; exact hfits⟩
    refine ⟨_, ?_, .exact hcol fun hj => absurd hj hk⟩
    rw [hx, hlead, hy, columnText]
    cases hn : col.nullable <;> simp

theorem decodeColumnValue_ok (h : decodeColumnValue col x = .ok (v, rest)) :
    ∃ t, x = t ++ rest ∧ ColumnRead col t v := by
  obtain ⟨got, y, hgot, h⟩ := bind_ok h
  obtain ⟨hx, -⟩ := takeBytes_ok hgot
  split at h
  · cases h
  · next htag =>
    rw [ne_eq, not_not] at htag
    rw [htag] at hx
    split at h
    · next hn =>
      obtain ⟨p, z, hp, h⟩ := bind_ok h
      cases h
      rw [Bool.not_eq_true'] at hn
      exact columnRead_payload [] (by simpa using hx) (by simp [hn]) hp
    · next hn =>
      rw [Bool.not_eq_true', Bool.not_eq_false] at hn
      obtain ⟨presence, z, hpresence, h⟩ := bind_ok h
      obtain ⟨hy, -⟩ := takeBytes_ok hpresence
      split at h
      · next hzero =>
        cases h
        have hcol : ColumnFits col (.newNull col.type) := ⟨⟨rfl, fun _ => hn⟩, nofun⟩
        refine ⟨_, ?_, .exact hcol fun _ => rfl⟩
        rw [hx, hy, hzero]
        rfl
      · split at h
        · next hone =>
          obtain ⟨p, z', hp, h⟩ := bind_ok h
          cases h
          exact columnRead_payload [1] (by simp [hx, hy, hone]) (by simp [hn]) hp
        · cases h

/-! ## Rows -/

def rowText : List ColumnSchema → ProductValue → Bytes
  | col :: cols, v :: pv => columnText col v ++ rowText cols pv
  | _, _ => []

def RowShaped (columns : List ColumnSchema) (pv : ProductValue) : Prop :=
  List.Forall₂ ColumnShaped columns pv

def RowFits (columns : List ColumnSchema) (pv : ProductValue) : Prop :=
  List.Forall₂ ColumnFits columns pv

variable {columns : List ColumnSchema} {pv : ProductValue}

theorem RowFits.shaped (h : RowFits columns pv) : RowShaped columns pv :=
  h.imp fun _ _ hv => hv.toColumnShaped

theorem appendColumns_ok (hlen : pv.length = columns.length) :
    appendColumns dst pv columns = .ok out ↔
      RowFits columns pv ∧ out = dst ++ rowText columns pv := by
  induction columns generalizing dst pv with
  | nil =>
    rw [List.length_nil, List.length_eq_zero_iff] at hlen
    subst hlen
    simp [appendColumns, RowFits, rowText, eq_comm]
  | cons col cols ih =>
    cases pv with
    | nil => simp at hlen
    | cons v pv =>
      have hlen' : pv.length = cols.length := by simpa using hlen
      simp only [appendColumns, except_bind_eq_ok, appendColumnValue_ok, ih hlen', RowFits,
        List.forall₂_cons, rowText]
      constructor
      · rintro ⟨_, ⟨hv, rfl⟩, hrow, rfl⟩
        exact ⟨⟨hv, hrow⟩, by rw [List.append_assoc]⟩
      · rintro ⟨⟨hv, hrow⟩, rfl⟩
        exact ⟨_, ⟨hv, rfl⟩, hrow, by rw [List.append_assoc]⟩

theorem appendProductValueForColumns_ok :
    appendProductValueForColumns dst pv columns = .ok out ↔
      RowFits columns pv ∧ out = dst ++ rowText columns pv := by
  unfold appendProductValueForColumns
  split
  · next hlen =>
    simp only [reduceCtorEq, false_iff, not_and]
    exact fun h => absurd h.length_eq.symm hlen
  · next hlen => exact appendColumns_ok (not_not.mp hlen)

theorem encodedColumnSize_ok (h : ColumnShaped col v) :
    encodedColumnSize v col = .ok (columnText col v).length := by
  obtain ⟨k, p⟩ := v
  obtain ⟨rfl, hnull⟩ := h
  cases p with
  | none => simp [encodedColumnSize, columnText, Value.isNull, hnull rfl]
  | some p =>
    cases hn : col.nullable <;>
      simp [encodedColumnSize, columnText, Value.isNull, hn, encodedValueSize,
        encodedPayloadSize_eq, Nat.add_comm]

theorem encodedColumnsSize_ok (n : Nat) (h : RowShaped columns pv) :
    encodedColumnsSize n pv columns = .ok (n + (rowText columns pv).length) := by
  induction h generalizing n with
  | nil => rfl
  | cons hv _ ih =>
    rw [encodedColumnsSize, encodedColumnSize_ok hv, rowText, List.length_append, ← Nat.add_assoc]
    exact ih _

theorem encodedProductValueSizeForColumns_ok (h : RowShaped columns pv) :
    encodedProductValueSizeForColumns pv columns = .ok (rowText columns pv).length := by
  rw [encodedProductValueSizeForColumns, if_neg (by simpa using h.length_eq.symm),
    encodedColumnsSize_ok 0 h, Nat.zero_add]

theorem decodeColumns_reads (ts : TableSchema) (h : RowFits columns pv) (i : Nat) :
    Reads (decodeColumns ts i columns) (rowText columns pv) pv := by
  induction h generalizing i with
  | nil => exact reads_pure []
  | cons hv _ ih =>
    rw [rowText, decodeColumns]
    refine Reads.bind ?_ ((ih (i + 1)).map _)
    intro rest
    dsimp only
    rw [decodeColumnValue_reads hv rest]
    rfl

theorem decodeProductValueFromBytes_rowText {ts : TableSchema} {pv : ProductValue}
    (h : RowFits ts.columns pv) :
    decodeProductValueFromBytes (rowText ts.columns pv) ts = .ok pv := by
  have hread : decodeProductValueColumns ts (rowText ts.columns pv) = .ok (pv, []) :=
    (decodeColumns_reads ts h 0).apply
  rw [decodeProductValueFromBytes, hread]

/-! ## The JSON texts of an input -/

def itemsWidth : Nat → Bytes → Nat
  | 0, _ => 0
  | count + 1, x =>
    let width := 4 + littleEndianValue (x.take 4)
    width + itemsWidth count (x.drop width)

def payloadWidth : ValueKind → Bytes → Nat
  | .bool, _ | .int8, _ | .uint8, _ => 1
  | .int16, _ | .uint16, _ => 2
  | .int32, _ | .uint32, _ | .float32, _ => 4
  | .int64, _ | .uint64, _ | .float64, _ | .timestamp, _ | .duration, _ => 8
  | .int128, _ | .uint128, _ | .uuid, _ => 16
  | .int256, _ | .uint256, _ => 32
  | .string, x | .bytes, x | .json, x => 4 + littleEndianValue (x.take 4)
  | .arrayString, x => 4 + itemsWidth (littleEndianValue (x.take 4)) (x.drop 4)

def columnWidth (col : ColumnSchema) (x : Bytes) : Nat :=
  if col.nullable then
    if x[1]? = some 0 then 2 else 2 + payloadWidth col.type (x.drop 2)
  else 1 + payloadWidth col.type (x.drop 1)

def prefixedText (x : Bytes) : Bytes := (x.drop 4).take (littleEndianValue (x.take 4))

/-- The JSON text of the column at the front of the input, if the column has one. -/
def columnJSON (col : ColumnSchema) (x : Bytes) : List Bytes :=
  if col.type ≠ .json then []
  else if col.nullable then
    if x[1]? = some 0 then [] else [prefixedText (x.drop 2)]
  else [prefixedText (x.drop 1)]

def jsonTexts : List ColumnSchema → Bytes → List Bytes
  | [], _ => []
  | col :: cols, x => columnJSON col x ++ jsonTexts cols (x.drop (columnWidth col x))

private theorem take_littleEndian (n v : Nat) (x : Bytes) :
    (littleEndian n v ++ x).take n = littleEndian n v := by
  rw [List.take_append_of_le_length (by simp), List.take_of_length_le (by simp)]

private theorem drop_littleEndian (n v : Nat) (x : Bytes) :
    (littleEndian n v ++ x).drop n = x := by
  rw [List.drop_append_of_le_length (by simp), List.drop_of_length_le (by simp),
    List.nil_append]

variable {s : Bytes}

section

variable (h : s.length ≤ maxValuePayloadBytes)
include h

private theorem length_value : littleEndianValue (littleEndian 4 s.length) = s.length :=
  littleEndianValue_littleEndian (by unfold maxValuePayloadBytes at h; omega)

theorem prefixedText_lengthPrefixed (rest : Bytes) :
    prefixedText (lengthPrefixed s.length s ++ rest) = s := by
  rw [prefixedText, lengthPrefixed, List.append_assoc, take_littleEndian, drop_littleEndian,
    length_value h, List.take_append_of_le_length le_rfl, List.take_of_length_le le_rfl]

theorem prefixedWidth (rest : Bytes) :
    4 + littleEndianValue ((lengthPrefixed s.length s ++ rest).take 4) =
      (lengthPrefixed s.length s).length := by
  rw [length_lengthPrefixed, lengthPrefixed, List.append_assoc, take_littleEndian, length_value h]

end

theorem itemsWidth_itemsText {xs : List Bytes} (h : (itemsText xs).length ≤ maxValuePayloadBytes)
    (rest : Bytes) : itemsWidth xs.length (itemsText xs ++ rest) = (itemsText xs).length := by
  induction xs with
  | nil => rfl
  | cons s xs ih =>
    rw [itemsText_cons, List.length_append, length_lengthPrefixed] at h
    rw [List.length_cons, itemsWidth, itemsText_cons, List.append_assoc]
    rw [prefixedWidth (by omega), List.drop_append_of_le_length le_rfl,
      List.drop_of_length_le le_rfl, List.nil_append, ih (by omega), List.length_append]

theorem payloadWidth_payloadText {k : ValueKind} {p : Payload k} (h : PayloadFits p)
    (rest : Bytes) : payloadWidth k (payloadText p ++ rest) = (payloadText p).length := by
  cases k
  case string => exact prefixedWidth h.2 rest
  case bytes => exact prefixedWidth h rest
  case json => exact prefixedWidth h rest
  case arrayString =>
    obtain ⟨hcount, -, hsize⟩ := h
    have hvalue : littleEndianValue (littleEndian 4 p.length) = p.length :=
      littleEndianValue_littleEndian (by unfold maxArrayStringItems at hcount; omega)
    rw [payloadWidth, payloadText, List.append_assoc, take_littleEndian, drop_littleEndian,
      hvalue, itemsWidth_itemsText (by omega), List.length_append, length_littleEndian]
  all_goals simp [payloadWidth, payloadText]

theorem ColumnRead.width (h : ColumnRead col t v) (rest : Bytes) :
    columnWidth col (t ++ rest) = t.length := by
  cases h with
  | exact hfits hjson =>
    obtain ⟨k, p⟩ := v
    obtain ⟨⟨rfl, hnull⟩, hpayload⟩ := hfits
    cases p with
    | none => simp [columnWidth, columnText, hnull rfl]
    | some p =>
      have hwidth := payloadWidth_payloadText (hpayload p rfl) rest
      cases hn : col.nullable
      · simp [columnWidth, columnText, hn, hwidth, Nat.add_comm]
      · simp only [columnWidth, columnText, hn, if_true, List.cons_append, List.drop_succ_cons,
          List.drop_zero, List.length_cons, hwidth]
        simp only [List.getElem?_cons_succ, List.getElem?_cons_zero, Option.some.injEq]
        rw [if_neg (by decide)]
        omega
  | @json raw v j hcol hv hlen hraw =>
    have hwidth := prefixedWidth hlen rest
    rw [length_lengthPrefixed] at hwidth
    cases hn : col.nullable
    · simp [columnWidth, columnRaw, hn, hcol, payloadWidth, hwidth, Nat.add_comm]
    · simp only [columnWidth, columnRaw, hn, hcol, if_true, List.cons_append, List.drop_succ_cons,
        List.drop_zero, List.length_cons, payloadWidth, hwidth, length_lengthPrefixed]
      simp only [List.getElem?_cons_succ, List.getElem?_cons_zero, Option.some.injEq]
      rw [if_neg (by decide)]
      omega

theorem ColumnRead.fits_iff (h : ColumnRead col t v) (rest : Bytes) :
    ColumnFits col v ↔ ∀ raw ∈ columnJSON col (t ++ rest), ∀ c, canonicalizeJSON raw = .ok c →
      c.length ≤ maxValuePayloadBytes := by
  cases h with
  | exact hfits hjson =>
    refine iff_of_true hfits ?_
    intro raw hraw
    have hnil : columnJSON col (columnText col v ++ rest) = [] := by
      by_cases hk : col.type = .json
      · have hnone := hjson hk
        have hn := hfits.null hnone
        simp [columnJSON, columnText, hk, hn, hnone]
      · simp [columnJSON, hk]
    rw [hnil] at hraw
    cases hraw
  | @json raw v j hcol hv hlen hraw =>
    have htext : columnJSON col (columnRaw col raw ++ rest) = [raw] := by
      have hprefixed := prefixedText_lengthPrefixed hlen rest
      cases hn : col.nullable
      · simp [columnJSON, columnRaw, hn, hcol, hprefixed]
      · simp [columnJSON, columnRaw, hn, hcol, hprefixed]
    rw [htext]
    subst hv
    constructor
    · intro hfits raw' hmem c hc
      rw [List.mem_singleton] at hmem
      subst hmem
      rw [hraw] at hc
      cases hc
      exact hfits.payload j rfl
    · intro hall
      refine ⟨⟨hcol.symm, nofun⟩, ?_⟩
      rintro q ⟨⟩
      exact hall raw (by simp) _ hraw

/-! ## Accepted rows -/

inductive RowRead : List ColumnSchema → Bytes → ProductValue → Prop where
  | nil : RowRead [] [] []
  | cons {col : ColumnSchema} {cols : List ColumnSchema} {t x : Bytes} {v : Value}
      {pv : ProductValue} (hv : ColumnRead col t v) (h : RowRead cols x pv) :
      RowRead (col :: cols) (t ++ x) (v :: pv)

variable {ts : TableSchema}

theorem decodeColumns_ok {i : Nat} (h : decodeColumns ts i columns x = .ok (pv, rest)) :
    ∃ t, x = t ++ rest ∧ RowRead columns t pv := by
  induction columns generalizing i x pv with
  | nil =>
    cases h
    exact ⟨[], rfl, .nil⟩
  | cons col cols ih =>
    obtain ⟨v, y, hv, h⟩ := bind_ok h
    obtain ⟨pv', z, hpv, h⟩ := bind_ok h
    cases h
    have hcol : decodeColumnValue col x = .ok (v, y) := by
      cases hd : decodeColumnValue col x with
      | error e =>
        rw [hd] at hv
        cases hv
      | ok p =>
        rw [hd] at hv
        exact hv
    obtain ⟨t, rfl, hread⟩ := decodeColumnValue_ok hcol
    obtain ⟨t', rfl, hrest⟩ := ih hpv
    exact ⟨t ++ t', by rw [List.append_assoc], .cons hread hrest⟩

theorem decodeProductValueFromBytes_ok {data : Bytes}
    (h : decodeProductValueFromBytes data ts = .ok pv) : RowRead ts.columns data pv := by
  unfold decodeProductValueFromBytes at h
  split at h
  · cases h
  · next pv' hread =>
    cases h
    obtain ⟨t, ht, hrow⟩ := decodeColumns_ok hread
    rw [List.append_nil] at ht
    rwa [ht]
  · cases h

theorem RowRead.fits_iff (h : RowRead columns x pv) :
    RowFits columns pv ↔ ∀ raw ∈ jsonTexts columns x, ∀ c, canonicalizeJSON raw = .ok c →
      c.length ≤ maxValuePayloadBytes := by
  induction h with
  | nil => exact iff_of_true .nil (by simp [jsonTexts])
  | @cons col cols t x v pv hv h ih =>
    have hdrop : (t ++ x).drop (columnWidth col (t ++ x)) = x := by
      rw [hv.width, List.drop_append_of_le_length le_rfl, List.drop_of_length_le le_rfl,
        List.nil_append]
    have hcol := hv.fits_iff x
    unfold RowFits at ih ⊢
    rw [List.forall₂_cons, hcol, ih, jsonTexts, hdrop]
    exact List.forall_mem_append.symm

theorem RowRead.rowText_eq (h : RowRead columns x pv)
    (hjson : ∀ col ∈ columns, col.type ≠ .json) : x = rowText columns pv := by
  induction h with
  | nil => rfl
  | cons hv h ih =>
    rw [ih fun col hcol => hjson col (by simp [hcol]), rowText]
    cases hv with
    | exact _ _ => rfl
    | json hcol _ _ _ => exact absurd hcol (hjson _ (by simp))

/-- An accepted byte string is encoded again: the same bytes, or with JSON the same row. -/
def Reencodes (ts : TableSchema) (data : Bytes) (row : ProductValue) : Prop :=
  ((∀ col ∈ ts.columns, col.type ≠ .json) →
    appendProductValueForColumns [] row ts.columns = .ok data) ∧
  ∃ out row', appendProductValueForColumns [] row ts.columns = .ok out ∧
    decodeProductValueFromBytes out ts = .ok row' ∧ ProductValue.equal row' row = true

theorem reencodes_iff_fits {data : Bytes} {row : ProductValue} (h : RowRead ts.columns data row) :
    Reencodes ts data row ↔ RowFits ts.columns row := by
  constructor
  · rintro ⟨-, out, row', hout, -⟩
    exact (appendProductValueForColumns_ok.mp hout).1
  · intro hfits
    have hout : appendProductValueForColumns [] row ts.columns = .ok (rowText ts.columns row) :=
      appendProductValueForColumns_ok.mpr ⟨hfits, rfl⟩
    refine ⟨fun hjson => ?_, rowText ts.columns row, row, hout,
      decodeProductValueFromBytes_rowText hfits, ProductValue.equal_refl row⟩
    rw [h.rowText_eq hjson]
    exact hout

/-- The encoded row: decoded to an equal row, of the announced size, and self-delimiting. -/
structure Inverted (ts : TableSchema) (row : ProductValue) (text : Bytes) : Prop where
  decodes : ∃ row', decodeProductValueFromBytes text ts = .ok row' ∧
    ProductValue.equal row' row = true
  size : encodedProductValueSizeForColumns row ts.columns = .ok text.length
  stream : ∀ rest, decodeProductValueColumns ts (text ++ rest) = .ok (row, rest)

/--
Encoded rows are read back exactly; an accepted byte string is encoded again if
and only if no JSON text in it grows beyond the payload limit when it is made
canonical.
-/
theorem row_codec_inverts_itself (ts : TableSchema) :
    (∀ dst row out, appendProductValueForColumns dst row ts.columns = .ok out →
      ∃ text, out = dst ++ text ∧ Inverted ts row text) ∧
    (∀ col dst v out, appendColumnValue dst v col = .ok out →
      ∃ text, out = dst ++ text ∧
        ∀ rest, decodeColumnValue col (text ++ rest) = .ok (v, rest)) ∧
    (∀ data row, decodeProductValueFromBytes data ts = .ok row →
      (Reencodes ts data row ↔ ∀ raw ∈ jsonTexts ts.columns data, ∀ c,
        canonicalizeJSON raw = .ok c → c.length ≤ maxValuePayloadBytes)) := by
  refine ⟨?_, ?_, ?_⟩
  · intro dst row out h
    obtain ⟨hfits, rfl⟩ := appendProductValueForColumns_ok.mp h
    exact ⟨_, rfl, ⟨row, decodeProductValueFromBytes_rowText hfits, ProductValue.equal_refl row⟩,
      encodedProductValueSizeForColumns_ok hfits.shaped, decodeColumns_reads ts hfits 0⟩
  · intro col dst v out h
    obtain ⟨hfits, rfl⟩ := appendColumnValue_ok.mp h
    exact ⟨_, rfl, decodeColumnValue_reads hfits⟩
  · intro data row h
    have hread := decodeProductValueFromBytes_ok h
    rw [reencodes_iff_fits hread, hread.fits_iff]

def flagTable : TableSchema :=
  ⟨0, [0x66], false, [⟨0, [0x61], .bool, true, false⟩, ⟨1, [0x62], .json, false, false⟩], []⟩

def flagBytes : Bytes := [0, 1, 1, 21, 3, 0, 0, 0, 0x20, 0x37, 0x20]

def flagRow : ProductValue := [⟨.bool, some true⟩, ⟨.json, some ⟨[0x37], by decide +kernel⟩⟩]

theorem row_codec_inverts_itself_flags :
    decodeProductValueFromBytes flagBytes flagTable = .ok flagRow ∧
      Reencodes flagTable flagBytes flagRow ∧
      ∃ text, [0, 1, 1, 21, 1, 0, 0, 0, 0x37] = [] ++ text ∧ Inverted flagTable flagRow text := by
  have hdecode : decodeProductValueFromBytes flagBytes flagTable = .ok flagRow := by
    decide +kernel
  refine ⟨hdecode, ((row_codec_inverts_itself flagTable).2.2 _ _ hdecode).mpr ?_,
    (row_codec_inverts_itself flagTable).1 _ _ _ (by decide +kernel)⟩
  have htexts : jsonTexts flagTable.columns flagBytes = [[0x20, 0x37, 0x20]] := by decide +kernel
  have hcanonical : canonicalizeJSON [0x20, 0x37, 0x20] = .ok [0x37] := by decide +kernel
  intro raw hraw c hc
  rw [htexts, List.mem_singleton] at hraw
  rw [hraw, hcanonical] at hc
  cases hc
  decide

/-! ### A JSON text that grows -/

def jsonTable : TableSchema := ⟨0, [0x64], false, [⟨0, [0x6A], .json, false, false⟩], []⟩

/-- A string of 16 Mi less-than signs: one byte each here, six in canonical form. -/
def growingJSON : Bytes := 0x22 :: (List.replicate (2 ^ 24) 0x3C ++ [0x22])

def growingRow : Bytes := tag .json :: lengthPrefixed growingJSON.length growingJSON

theorem length_escapeString_lt (n : Nat) :
    (escapeString (List.replicate n 0x3C)).length = 6 * n := by
  induction n with
  | zero => rfl
  | succ n ih =>
    rw [List.replicate_succ, escapeString_cons (by decide), List.length_append, ih]
    simp only [escapeByte]
    simp
    omega

theorem canonicalizeJSON_growing :
    canonicalizeJSON growingJSON =
      .ok (appendCanonicalJSONString (List.replicate (2 ^ 24) 0x3C)) := by
  refine canonicalizeJSON_plain (validUTF8_of_ascii ?_) ?_
  · intro b hb
    rw [List.eq_of_mem_replicate hb]
    decide
  · intro b hb
    rw [List.eq_of_mem_replicate hb]
    decide

theorem length_growingJSON : growingJSON.length = 2 ^ 24 + 2 := by
  rw [growingJSON, List.length_cons, List.length_append, List.length_replicate]
  rfl

theorem length_canonical_growing :
    (appendCanonicalJSONString (List.replicate (2 ^ 24) 0x3C)).length = 6 * 2 ^ 24 + 2 := by
  rw [appendCanonicalJSONString, List.cons_append, List.length_cons, List.length_append,
    length_escapeString_lt]
  rfl

private theorem append_growing_error (j : JSONText) (hlen : j.text.length = 6 * 2 ^ 24 + 2) :
    appendProductValueForColumns [] [⟨.json, some j⟩] jsonTable.columns =
      .error (.valueTooLarge "json" (some (6 * 2 ^ 24 + 2)) maxValuePayloadBytes) := by
  simp only [appendProductValueForColumns, jsonTable, List.length_cons, List.length_nil, ne_eq,
    not_true, if_false, appendColumns, appendColumnValue, Bool.not_false, if_true,
    Value.isNull, Option.isNone_some, Bool.false_eq_true, appendValue, appendPayload,
    checkedValuePayloadLen, hlen]
  rw [if_pos (by decide)]
  rfl

private theorem decode_growing {j : JSONText} (h : canonicalizeJSON growingJSON = .ok j.text) :
    decodeProductValueFromBytes growingRow jsonTable = .ok [⟨.json, some j⟩] := by
  have hpayload := decodePayload_json_reads (by rw [length_growingJSON]; decide)
    (newJSON_of_canonical h)
  have hcol : decodeColumnValue ⟨0, [0x6A], .json, false, false⟩ growingRow =
      .ok (⟨.json, some j⟩, []) := by
    have hread := decodeColumnValue_reads_payload ⟨0, [0x6A], .json, false, false⟩ hpayload
    rw [if_neg Bool.false_ne_true] at hread
    rw [growingRow]
    exact hread.apply
  have hrow : decodeProductValueColumns jsonTable growingRow = .ok ([⟨.json, some j⟩], []) := by
    rw [decodeProductValueColumns, jsonTable, decodeColumns]
    refine bind_of_ok ?_
    rw [hcol]
    rfl
  rw [decodeProductValueFromBytes, hrow]

/-- The decoder accepts the row, and the encoder refuses the value it returned. -/
theorem decoded_json_not_encodable :
    ∃ row, decodeProductValueFromBytes growingRow jsonTable = .ok row ∧
      appendProductValueForColumns [] row jsonTable.columns =
        .error (.valueTooLarge "json" (some (6 * 2 ^ 24 + 2)) maxValuePayloadBytes) ∧
      ¬ Reencodes jsonTable growingRow row := by
  have hidem := canonicalizeJSON_idem canonicalizeJSON_growing
  have herror := append_growing_error ⟨_, hidem⟩ length_canonical_growing
  refine ⟨_, decode_growing (j := ⟨_, hidem⟩) canonicalizeJSON_growing, herror, ?_⟩
  rintro ⟨-, out, row', hout, -⟩
  rw [herror] at hout
  cases hout

end Shunter.Bsatn

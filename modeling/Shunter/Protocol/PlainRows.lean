import Shunter.Protocol.RowListCodec

/-!
# Rows without a column list

`AppendProductValue` writes no presence bytes.  Under columns that are never
null this is the text that the row decoder expects.  Under a nullable column
the decoder takes a byte too many; to find the same values from there on,
every further byte would have to be 1, and the last one is missing.
-/

namespace Shunter.Protocol

open Foundation Bsatn Reader

def valueText (v : Value) : Bytes :=
  match v.payload with
  | none => []
  | some p => tag v.kind :: payloadText p

def plainText (pv : ProductValue) : Bytes := pv.flatMap valueText

@[simp] theorem plainText_nil : plainText [] = [] := rfl

@[simp] theorem plainText_cons (v : Value) (pv : ProductValue) :
    plainText (v :: pv) = valueText v ++ plainText pv := rfl

def PlainFits (v : Value) : Prop := ∃ p, v.payload = some p ∧ PayloadFits p

variable {pv : ProductValue} {out : Bytes}

theorem appendProductValue_ok {dst : Bytes} :
    appendProductValue dst pv = .ok out ↔
      (∀ v ∈ pv, PlainFits v) ∧ out = dst ++ plainText pv := by
  induction pv generalizing dst with
  | nil => simp [appendProductValue, eq_comm]
  | cons v pv ih =>
    simp only [appendProductValue, except_bind_eq_ok, appendValue_ok, ih, List.forall_mem_cons,
      plainText_cons, PlainFits, valueText]
    constructor
    · rintro ⟨_, ⟨p, hp, hfits, rfl⟩, hpv, rfl⟩
      exact ⟨⟨⟨p, hp, hfits⟩, hpv⟩, by simp [hp]⟩
    · rintro ⟨⟨⟨p, hp, hfits⟩, hpv⟩, rfl⟩
      exact ⟨_, ⟨p, hp, hfits, rfl⟩, hpv, by simp [hp]⟩

theorem encodedProductValueSize_eq (pv : ProductValue) :
    encodedProductValueSize pv = (plainText pv).length := by
  have hvalue : ∀ v : Value, encodedValueSize v = (valueText v).length := by
    rintro ⟨k, p⟩
    cases p <;> simp [encodedValueSize, valueText, encodedPayloadSize_eq, Nat.add_comm]
  have hfold : ∀ n, pv.foldl (fun n v => n + encodedValueSize v) n = n + (plainText pv).length := by
    induction pv with
    | nil => simp
    | cons v pv ih =>
      intro n
      rw [List.foldl_cons, ih, plainText_cons, List.length_append, hvalue, Nat.add_assoc]
  rw [encodedProductValueSize, hfold, Nat.zero_add]

theorem encodeProductRows_ok {rows : List ProductValue} :
    encodeProductRows rows = .ok out ↔
      (∀ row ∈ rows, ∀ v ∈ row, PlainFits v) ∧ RowListFits (rows.map plainText) ∧
        out = rowListText (rows.map plainText) :=
  encodeProductRowsWith_ok (fun row _ => by rw [encodedProductValueSize_eq])
    fun _ _ _ => appendProductValue_ok

variable {columns : List ColumnSchema}

theorem encodeProductRowsForColumns_ok {rows : List ProductValue}
    (h : ∀ row ∈ rows, RowShaped columns row) :
    encodeProductRowsForColumns rows columns = .ok out ↔
      (∀ row ∈ rows, RowFits columns row) ∧ RowListFits (rows.map (rowText columns)) ∧
        out = rowListText (rows.map (rowText columns)) :=
  encodeProductRowsWith_ok (fun row hrow => encodedProductValueSizeForColumns_ok (h row hrow))
    fun _ _ _ => appendProductValueForColumns_ok

/-! ## The two texts of a row -/

variable {col : ColumnSchema} {v : Value} {a : Nat} {s : Bytes}

theorem columnText_eq_valueText (h : ColumnShaped col v) (hcol : col.nullable = false) :
    columnText col v = valueText v := by
  obtain ⟨k, p⟩ := v
  obtain ⟨rfl, hnull⟩ := h
  cases p with
  | none => simp [hnull rfl] at hcol
  | some p => simp [columnText, valueText, hcol]

theorem rowText_eq_plainText (h : RowShaped columns pv)
    (hcols : ∀ col ∈ columns, col.nullable = false) : rowText columns pv = plainText pv := by
  induction h with
  | nil => rfl
  | cons hv _ ih =>
    obtain ⟨hcol, hcols⟩ := List.forall_mem_cons.mp hcols
    rw [rowText, plainText_cons, columnText_eq_valueText hv hcol, ih hcols]

theorem length_plainText_le (h : RowShaped columns pv) :
    (plainText pv).length ≤ (rowText columns pv).length := by
  induction h with
  | nil => simp
  | @cons col v _ _ hv _ ih =>
    have hle : (valueText v).length ≤ (columnText col v).length := by
      obtain ⟨k, p⟩ := v
      obtain ⟨rfl, -⟩ := hv
      cases p with
      | none => simp [valueText]
      | some p => cases hn : col.nullable <;> simp [valueText, columnText, hn]
    rw [plainText_cons, rowText, List.length_append, List.length_append]
    omega

theorem ahead_of_append {α : Type} {c : α} {y r s : List α}
    (h : List.replicate a c ++ (y ++ r) = y ++ s) : List.replicate a c ++ r = s := by
  induction y generalizing a with
  | nil => simpa using h
  | cons b y ih =>
    cases a with
    | zero => simpa using h
    | succ a =>
      rw [List.replicate_succ, List.cons_append, List.cons_append] at h
      obtain ⟨rfl, h⟩ := List.cons.inj h
      refine ih (Eq.trans ?_ h)
      rw [List.replicate_succ', List.append_assoc]
      rfl

/-! ## The row decoder on the plain text -/

theorem json_presence_ne {j : JSONText} {raw rest more : Bytes}
    (hlen : raw.length ≤ maxValuePayloadBytes) :
    1 :: (lengthPrefixed raw.length raw ++ rest) ≠
      lengthPrefixed j.text.length j.text ++ more := by
  obtain ⟨c, x, htext, hc⟩ := canonicalizeJSON_head j.canonical
  intro h
  simp only [lengthPrefixed, htext, littleEndian, List.cons_append, List.nil_append,
    List.cons.injEq] at h
  obtain ⟨-, -, -, -, hfourth, -⟩ := h
  have hsmall : raw.length / 256 / 256 / 256 ≤ 4 := by
    unfold maxValuePayloadBytes at hlen
    omega
  have hle : c.toNat ≤ 4 := by
    rw [← hfourth, UInt8.toNat_ofNat']
    omega
  have hge : (0x20 : UInt8).toNat ≤ c.toNat := UInt8.le_iff_toNat_le.mp hc.printable
  simp at hge
  omega

theorem decodeColumns_cons {ts : TableSchema} {i : Nat} {cols : List ColumnSchema}
    {rest : Bytes} (h : decodeColumns ts i (col :: cols) s = .ok (v :: pv, rest)) :
    ∃ y, decodeColumnValue col s = .ok (v, y) ∧
      decodeColumns ts (i + 1) cols y = .ok (pv, rest) := by
  rw [decodeColumns] at h
  obtain ⟨w, y, hw, h⟩ := bind_ok h
  obtain ⟨tail, z, htail, h⟩ := bind_ok h
  cases h
  refine ⟨y, ?_, htail⟩
  revert hw
  cases decodeColumnValue col s <;> simp [Except.mapError]

/-- One column: the decoder is as far ahead behind it, and one further if it is nullable. -/
theorem decodeColumnValue_ahead {y plain : Bytes} (hfits : ColumnFits col v)
    (hplain : PlainFits v) (hs : List.replicate a 1 ++ s = valueText v ++ plain)
    (h : decodeColumnValue col s = .ok (v, y)) :
    List.replicate (if col.nullable then a + 1 else a) 1 ++ y = plain := by
  obtain ⟨t, rfl, hread⟩ := decodeColumnValue_ok h
  obtain ⟨p, hp, -⟩ := hplain
  cases hread with
  | exact _ hjson =>
    cases hcol : col.nullable with
    | false =>
      rw [columnText_eq_valueText hfits.toColumnShaped hcol] at hs
      exact ahead_of_append hs
    | true =>
      have hvalue : valueText v = tag v.kind :: payloadText p := by rw [valueText, hp]
      have hcolumn : columnText col v = tag v.kind :: 1 :: payloadText p := by
        have htag : tag v.kind = tag col.type := congrArg tag hfits.kind
        rw [columnText, hp, htag]
        simp [hcol]
      rw [hvalue, hcolumn] at hs
      have htag := ahead_of_append (y := [tag v.kind]) (r := 1 :: (payloadText p ++ y))
        (s := payloadText p ++ plain) hs
      have hmore : List.replicate (a + 1) 1 ++ (payloadText p ++ y) = payloadText p ++ plain := by
        rw [← htag, List.replicate_succ', List.append_assoc]
        rfl
      exact ahead_of_append hmore
  | @json raw _ j hcol hv hlen _ =>
    subst hv
    have hvalue : valueText ⟨.json, some j⟩ =
        tag .json :: lengthPrefixed j.text.length j.text := rfl
    rw [hvalue] at hs
    cases a with
    | succ a =>
      -- the tag of a JSON column is not 1
      exact absurd (List.cons.inj hs).1 (by decide)
    | zero =>
      cases hnull : col.nullable with
      | true =>
        rw [columnRaw, if_pos hnull, hcol] at hs
        exact absurd (List.cons.inj hs).2 (json_presence_ne hlen)
      | false =>
        rw [List.replicate_zero, List.nil_append] at hs
        have htext := columnText_eq_valueText hfits.toColumnShaped hnull
        have hsame := decodeColumnValue_reads hfits plain
        rw [htext, hvalue, ← hs, h] at hsame
        cases hsame
        rfl

theorem decodeColumns_ahead {ts : TableSchema} (hfits : RowFits columns pv)
    (hplain : ∀ v ∈ pv, PlainFits v) {i : Nat} (hs : List.replicate a 1 ++ s = plainText pv)
    (h : decodeColumns ts i columns s = .ok (pv, [])) :
    a = 0 ∧ ∀ col ∈ columns, col.nullable = false := by
  induction hfits generalizing a i s with
  | nil =>
    refine ⟨?_, by simp⟩
    have := congrArg List.length hs
    simp at this
    omega
  | cons hv _ ih =>
    obtain ⟨hvalue, hrest⟩ := List.forall_mem_cons.mp hplain
    obtain ⟨y, hcol, htail⟩ := decodeColumns_cons h
    have hahead := decodeColumnValue_ahead hv hvalue hs hcol
    obtain ⟨hzero, hcols⟩ := ih hrest hahead htail
    split at hzero
    · omega
    · next hnull => exact ⟨hzero, List.forall_mem_cons.mpr ⟨by simpa using hnull, hcols⟩⟩

end Shunter.Protocol

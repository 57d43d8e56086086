import Shunter.Protocol.RowList
import Shunter.Protocol.WireCodec

/-!
# Row lists are read back

What the writers put out, and which byte strings the reader accepts.
-/

namespace Shunter.Protocol

open Foundation Bsatn Reader

def rowListText (rows : List Bytes) : Bytes := littleEndian 4 rows.length ++ itemsText rows

structure RowListCounts (rows : List Bytes) : Prop where
  count : rows.length < 2 ^ 32
  row : ∀ r ∈ rows, r.length < 2 ^ 32

structure RowListFits (rows : List Bytes) : Prop extends RowListCounts rows where
  size : (rowListText rows).length ≤ maxProtocolAlloc

theorem itemsText_cons_eq (r : Bytes) (rows : List Bytes) :
    itemsText (r :: rows) = littleEndian 4 r.length ++ (r ++ itemsText rows) := by
  simp [itemsText, lengthPrefixed]

theorem length_itemsText_cons (r : Bytes) (rows : List Bytes) :
    (itemsText (r :: rows)).length = 4 + r.length + (itemsText rows).length := by
  simp [Nat.add_assoc]

@[simp] theorem length_rowListText (rows : List Bytes) :
    (rowListText rows).length = 4 + (itemsText rows).length := by
  simp [rowListText]

/-! ## Encoded rows -/

variable {rows : List Bytes} {size : Nat} {out : Bytes}

theorem rowListSize_ok {m : Nat} (hsize : size ≤ maxProtocolAlloc) :
    rowListSize size rows = .ok m ↔ (∀ r ∈ rows, r.length < 2 ^ 32) ∧
      size + (itemsText rows).length ≤ maxProtocolAlloc ∧ m = size + (itemsText rows).length := by
  induction rows generalizing size with
  | nil =>
    simp only [rowListSize, Except.ok.injEq, List.not_mem_nil, false_imp_iff, implies_true,
      itemsText_nil, List.length_nil, true_and]
    omega
  | cons r rows ih =>
    rw [rowListSize, checkedProtocolLen_bind_ok, List.forall_mem_cons, length_itemsText_cons,
      and_assoc]
    refine and_congr Iff.rfl ?_
    dsimp only
    split
    · simp only [reduceCtorEq, false_iff]
      omega
    · rw [ih (by omega)]
      simp only [Nat.add_assoc]

theorem encodeRowListChecked_ok :
    encodeRowListChecked rows = .ok out ↔ RowListFits rows ∧ out = rowListText rows := by
  have hsmall : 4 ≤ maxProtocolAlloc := by decide
  simp only [encodeRowListChecked, except_bind_eq_ok, checkedProtocolLen_ok,
    rowListSize_ok hsmall, Except.ok.injEq]
  constructor
  · rintro ⟨_, ⟨hcount, rfl⟩, _, ⟨hrows, hfit, -⟩, rfl⟩
    exact ⟨⟨⟨hcount, hrows⟩, by simpa using hfit⟩, by
      rw [rowListText, flatMap_wrapped hrows]⟩
  · rintro ⟨⟨⟨hcount, hrows⟩, hfit⟩, rfl⟩
    refine ⟨_, ⟨hcount, rfl⟩, _, ⟨hrows, by simpa using hfit, rfl⟩, ?_⟩
    rw [rowListText, flatMap_wrapped hrows]

/-! ## Reading -/

def rowBytes (rows : List Bytes) : Nat := (rows.map List.length).sum

@[simp] theorem rowBytes_cons (r : Bytes) (rows : List Bytes) :
    rowBytes (r :: rows) = r.length + rowBytes rows := by
  simp [rowBytes]

private def lengthVector (n : Nat) : List.Vector UInt8 4 :=
  ⟨littleEndian 4 n, length_littleEndian 4 _⟩

private theorem lengthVector_value {n : Nat} (hn : n < 2 ^ 32) :
    littleEndianValue (lengthVector n).toList = n :=
  littleEndianValue_littleEndian (by simpa using hn)

private theorem itemsText_cons_append (r : Bytes) (rows : List Bytes) (rest : Bytes) :
    itemsText (r :: rows) ++ rest =
      (lengthVector r.length).toList ++ (r ++ (itemsText rows ++ rest)) := by
  rw [itemsText_cons_eq, List.append_assoc, List.append_assoc]
  rfl

theorem skipRow_apply (i n : Nat) (x : Bytes) :
    skipRow i n x = if n > x.length then .error (.rowExceedsRemaining i n x.length)
      else .ok ((), x.drop n) := by
  unfold skipRow
  rw [get_bind_apply]
  split <;> rfl

theorem scanRowList_itemsText (i total : Nat) (rest : Bytes) (h : ∀ r ∈ rows, r.length < 2 ^ 32) :
    scanRowList i rows.length total (itemsText rows ++ rest) =
      .ok (total + rowBytes rows, rest) := by
  induction rows generalizing i total with
  | nil => rfl
  | cons r rows ih =>
    obtain ⟨hr, hrows⟩ := List.forall_mem_cons.mp h
    have hprefix := (readFixed_codes 4 (fun _ => .rowPrefixTruncated i) (by simp)).reads
      (lengthVector r.length) trivial (r ++ (itemsText rows ++ rest))
    have hskip : skipRow i r.length (r ++ (itemsText rows ++ rest)) =
        .ok ((), itemsText rows ++ rest) := by
      rw [skipRow_apply, if_neg (by simp), List.drop_left]
    rw [itemsText_cons_append, List.length_cons, scanRowList, bind_of_ok hprefix,
      lengthVector_value hr, bind_of_ok hskip, ih (i + 1) _ hrows, rowBytes_cons, Nat.add_assoc]

variable {data rest : Bytes} {maxBytes : Nat}

theorem scanRowList_ok {i count total sum : Nat}
    (h : scanRowList i count total data = .ok (sum, rest)) :
    ∃ rows, data = itemsText rows ++ rest ∧ rows.length = count ∧
      (∀ r ∈ rows, r.length < 2 ^ 32) ∧ sum = total + rowBytes rows := by
  induction count generalizing i total data with
  | zero =>
    cases h
    exact ⟨[], by simp [rowBytes]⟩
  | succ count ih =>
    obtain ⟨raw, body, hraw, h⟩ := bind_ok h
    obtain ⟨_, more, hskip, h⟩ := bind_ok h
    obtain ⟨-, rfl⟩ := (readFixed_codes 4 _ (by simp)).exact data raw body hraw
    rw [skipRow_apply] at hskip
    split at hskip
    · cases hskip
    · next hle =>
      cases hskip
      obtain ⟨rows, hmore, hcount, hrows, hsum⟩ := ih h
      obtain ⟨hlt, hprefix⟩ := littleEndian_vector raw
      have hrow : (body.take (littleEndianValue raw.toList)).length =
          littleEndianValue raw.toList := by
        rw [List.length_take]
        omega
      refine ⟨body.take (littleEndianValue raw.toList) :: rows, ?_, ?_, ?_, ?_⟩
      · rw [itemsText_cons_eq, hrow, hprefix, List.append_assoc, List.append_assoc, ← hmore,
          List.take_append_drop]
      · rw [List.length_cons, hcount]
      · exact List.forall_mem_cons.mpr ⟨by rw [hrow]; exact hlt, hrows⟩
      · rw [hsum, rowBytes_cons, hrow, Nat.add_assoc]

theorem scanRowList_safe {i count total : Nat} :
    scanRowList i count total data ≠ .error .outOfRange := by
  induction count generalizing i total data with
  | zero => exact nofun
  | succ count ih =>
    intro h
    obtain h | ⟨raw, body, -, h⟩ := bind_error h
    · exact (readFixed_codes 4 _ (by simp)).safe data _ h rfl
    obtain h | ⟨_, more, -, h⟩ := bind_error h
    · rw [skipRow_apply] at h
      split at h <;> cases h
    · exact ih h

theorem copyRows_itemsText (left : Nat) (rest : Bytes) (h : ∀ r ∈ rows, r.length < 2 ^ 32)
    (hleft : rowBytes rows ≤ left) :
    copyRows rows.length left (itemsText rows ++ rest) = .ok (rows, rest) := by
  induction rows generalizing left with
  | nil => rfl
  | cons r rows ih =>
    obtain ⟨hr, hrows⟩ := List.forall_mem_cons.mp h
    rw [rowBytes_cons] at hleft
    have hprefix := (slice_codes 4).reads (lengthVector r.length) trivial (r ++ (itemsText rows ++ rest))
    have hpayload : slicePayload r.length left = pure () := by
      rw [slicePayload, if_neg (by omega)]
    have hrow : slice r.length (r ++ (itemsText rows ++ rest)) =
        .ok (⟨r, rfl⟩, itemsText rows ++ rest) :=
      (slice_codes r.length).reads ⟨r, rfl⟩ trivial _
    rw [itemsText_cons_append, List.length_cons, copyRows, bind_of_ok hprefix,
      lengthVector_value hr, hpayload, pure_bind, bind_of_ok hrow,
      bind_of_ok (ih (left - r.length) hrows (by omega))]
    rfl

theorem length_le_itemsText_mul (rows : List Bytes) :
    4 * rows.length ≤ (itemsText rows).length := by
  induction rows with
  | nil => simp
  | cons r rows ih =>
    rw [List.length_cons, length_itemsText_cons]
    omega

theorem requireRowListConsumed_ok : requireRowListConsumed data rest = .ok () ↔ rest = [] := by
  unfold requireRowListConsumed
  split <;> simp_all

private theorem scanned_rowListText {raw : List.Vector UInt8 4} {body : Bytes} {total : Nat}
    (hscan : scanRowList 0 (littleEndianValue raw.toList) 0 body = .ok (total, rest))
    (hrest : rest = []) :
    ∃ rows, RowListCounts rows ∧ raw.toList ++ body = rowListText rows ∧
      copyRows (littleEndianValue raw.toList) total body = .ok (rows, []) := by
  obtain ⟨rows, hbody, hcount, hrows, htotal⟩ := scanRowList_ok hscan
  obtain ⟨hlt, hprefix⟩ := littleEndian_vector raw
  subst hrest
  refine ⟨rows, ⟨by rw [hcount]; exact hlt, hrows⟩, ?_, ?_⟩
  · rw [rowListText, hcount, hprefix, hbody, List.append_nil]
  · rw [← hcount, hbody]
    exact copyRows_itemsText total [] hrows (by omega)

theorem decodeRowList_ok :
    decodeRowList data = .ok rows ↔ RowListCounts rows ∧ data = rowListText rows := by
  constructor
  · intro h
    obtain ⟨⟨raw, body⟩, hraw, h⟩ := except_bind_eq_ok.mp h
    obtain ⟨_, -, h⟩ := except_bind_eq_ok.mp h
    obtain ⟨⟨total, rest⟩, hscan, h⟩ := except_bind_eq_ok.mp h
    obtain ⟨_, hrest, h⟩ := except_bind_eq_ok.mp h
    obtain ⟨⟨found, _⟩, hcopy, h⟩ := except_bind_eq_ok.mp h
    obtain ⟨rows', hcounts, htext, hcopy'⟩ :=
      scanned_rowListText hscan (requireRowListConsumed_ok.mp hrest)
    obtain ⟨-, hdata⟩ := (readFixed_codes 4 _ (by simp)).exact data raw body hraw
    cases h
    rw [hcopy'] at hcopy
    cases hcopy
    exact ⟨hcounts, hdata.trans htext⟩
  · rintro ⟨⟨hcount, hrows⟩, rfl⟩
    have hvalue := lengthVector_value hcount
    have hraw := (readFixed_codes 4 (fun x => .rowListTruncated x.length) (by simp)).reads
      (lengthVector rows.length) trivial (itemsText rows)
    have hfits : requireCountFitsRemaining "rowlist rows" rows.length (itemsText rows).length 4 =
        .ok () := by
      have := length_le_itemsText_mul rows
      rw [requireCountFitsRemaining, if_neg (by omega)]
    have hscan := scanRowList_itemsText 0 0 [] hrows
    have hcopy := copyRows_itemsText (0 + rowBytes rows) [] hrows (by omega)
    rw [List.append_nil] at hscan hcopy
    rw [← hvalue] at hfits hscan hcopy
    refine except_bind_eq_ok.mpr ⟨_, hraw, except_bind_eq_ok.mpr ⟨_, hfits, ?_⟩⟩
    refine except_bind_eq_ok.mpr ⟨_, hscan, except_bind_eq_ok.mpr ⟨(), ?_, ?_⟩⟩
    · exact requireRowListConsumed_ok.mpr rfl
    · exact except_bind_eq_ok.mpr ⟨_, hcopy, rfl⟩

theorem decodeRowList_safe (data : Bytes) : decodeRowList data ≠ .error .outOfRange := by
  intro h
  obtain h | ⟨⟨raw, body⟩, -, h⟩ := except_bind_eq_error.mp h
  · exact (readFixed_codes 4 _ (by simp)).safe data _ h rfl
  obtain h | ⟨_, -, h⟩ := except_bind_eq_error.mp h
  · unfold requireCountFitsRemaining at h
    split at h <;> cases h
  obtain h | ⟨⟨total, rest⟩, hscan, h⟩ := except_bind_eq_error.mp h
  · exact scanRowList_safe h
  obtain h | ⟨_, hrest, h⟩ := except_bind_eq_error.mp h
  · unfold requireRowListConsumed at h
    split at h <;> cases h
  obtain ⟨rows, -, -, hcopy⟩ := scanned_rowListText hscan (requireRowListConsumed_ok.mp hrest)
  obtain h | ⟨_, -, h⟩ := except_bind_eq_error.mp h
  · rw [hcopy] at h
    cases h
  · cases h

/-! ## Rows that are encoded on the way -/

section Rows

variable {rowSize : ProductValue → Except BsatnError Nat}
  {appendRow : Bytes → ProductValue → Except BsatnError Bytes}
  {text : ProductValue → Bytes} {Fits : ProductValue → Prop}

variable {rows : List ProductValue}

theorem productRowSizes_ok {sizes : List Nat}
    (hsize : ∀ row ∈ rows, rowSize row = .ok (text row).length) (hle : size ≤ maxProtocolAlloc) :
    productRowSizes rowSize 0 size rows = .ok sizes ↔
      (∀ row ∈ rows, (text row).length < 2 ^ 32) ∧
        size + (itemsText (rows.map text)).length ≤ maxProtocolAlloc ∧
        sizes = rows.map fun row => (text row).length := by
  induction rows generalizing size sizes with
  | nil =>
    simp only [productRowSizes, Except.ok.injEq, List.map_nil, itemsText_nil, List.length_nil,
      List.not_mem_nil, false_imp_iff, implies_true, true_and, Nat.add_zero, hle, eq_comm]
  | cons row rows ih =>
    obtain ⟨hrow, hrows⟩ := List.forall_mem_cons.mp hsize
    simp only [productRowSizes, hrow, Except.mapError, except_bind_eq_ok, Except.ok.injEq,
      checkedProtocolLen_ok, List.forall_mem_cons, List.map_cons, length_itemsText_cons]
    constructor
    · rintro ⟨_, rfl, _, ⟨hlen, rfl⟩, _, -, h⟩
      split at h
      · cases h
      · next hfit =>
        obtain ⟨tail, htail, h⟩ := except_bind_eq_ok.mp h
        cases h
        obtain ⟨hlens, hrest, rfl⟩ := (ih hrows (by omega)).mp htail
        exact ⟨⟨hlen, hlens⟩, by omega, rfl⟩
    · rintro ⟨⟨hlen, hlens⟩, hfit, rfl⟩
      refine ⟨_, rfl, _, ⟨hlen, rfl⟩, (), rfl, ?_⟩
      rw [if_neg (by omega)]
      refine except_bind_eq_ok.mpr ⟨_, (ih hrows (by omega)).mpr ⟨hlens, by omega, rfl⟩, rfl⟩

theorem appendProductRows_ok {final : Bytes}
    (happend : ∀ dst row next, appendRow dst row = .ok next ↔ Fits row ∧ next = dst ++ text row) :
    appendProductRows appendRow out rows (rows.map fun row => (text row).length) = .ok final ↔
      (∀ row ∈ rows, Fits row) ∧ final = out ++ itemsText (rows.map text) := by
  induction rows generalizing out with
  | nil => simp [appendProductRows, eq_comm]
  | cons row rows ih =>
    have happended : ∀ n m : Nat, n + (4 + m) - (n + 4) = m := by omega
    rw [List.map_cons, appendProductRows, List.forall_mem_cons, List.map_cons, itemsText_cons_eq]
    constructor
    · intro h
      obtain ⟨next, hnext, h⟩ := except_bind_eq_ok.mp h
      have hnext : appendRow (out ++ littleEndian 4 (text row).length) row = .ok next := by
        revert hnext
        cases appendRow (out ++ littleEndian 4 (text row).length) row <;> simp [Except.mapError]
      obtain ⟨hfits, rfl⟩ := (happend _ _ _).mp hnext
      rw [if_neg (by simp [happended])] at h
      obtain ⟨hrows, rfl⟩ := ih.mp h
      exact ⟨⟨hfits, hrows⟩, by simp only [List.append_assoc]⟩
    · rintro ⟨⟨hfits, hrows⟩, rfl⟩
      have hnext := (happend (out ++ littleEndian 4 (text row).length) row _).mpr ⟨hfits, rfl⟩
      refine except_bind_eq_ok.mpr ⟨_, by rw [hnext]; rfl, ?_⟩
      rw [if_neg (by simp [happended])]
      exact ih.mpr ⟨hrows, by simp only [List.append_assoc]⟩

theorem appendProductRows_error {e : ProtocolError}
    (happend : ∀ dst row next, appendRow dst row = .ok next → next = dst ++ text row)
    (h : appendProductRows appendRow out rows (rows.map fun row => (text row).length) = .error e) :
    ∃ row ∈ rows, ∃ dst c, appendRow dst row = .error c ∧ e = .row c := by
  induction rows generalizing out with
  | nil => cases h
  | cons row rows ih =>
    rw [List.map_cons, appendProductRows] at h
    cases hnext : appendRow (out ++ littleEndian 4 (text row).length) row with
    | error c =>
      rw [hnext] at h
      cases h
      exact ⟨row, List.mem_cons_self, _, c, hnext, rfl⟩
    | ok next =>
      have happended : ∀ n m : Nat, n + (4 + m) - (n + 4) = m := by omega
      obtain rfl := happend _ _ _ hnext
      obtain h | ⟨_, hok, h⟩ := except_bind_eq_error.mp h
      · rw [hnext] at h
        cases h
      · rw [hnext] at hok
        cases hok
        rw [if_neg (by simp [happended])] at h
        obtain ⟨other, hmem, herr⟩ := ih h
        exact ⟨other, List.mem_cons_of_mem _ hmem, herr⟩

/-- A writer whose size function agrees with what it appends writes the list of the texts. -/
theorem encodeProductRowsWith_ok (hsize : ∀ row ∈ rows, rowSize row = .ok (text row).length)
    (happend : ∀ dst row next, appendRow dst row = .ok next ↔ Fits row ∧ next = dst ++ text row) :
    encodeProductRowsWith rows rowSize appendRow 0 = .ok out ↔
      (∀ row ∈ rows, Fits row) ∧ RowListFits (rows.map text) ∧
        out = rowListText (rows.map text) := by
  have hsmall : 4 ≤ maxProtocolAlloc := by decide
  have hlens : (∀ r ∈ rows.map text, r.length < 2 ^ 32) ↔
      ∀ row ∈ rows, (text row).length < 2 ^ 32 := by simp
  simp only [encodeProductRowsWith, except_bind_eq_ok, checkedProtocolLen_ok,
    productRowSizes_ok hsize hsmall]
  constructor
  · rintro ⟨_, ⟨hcount, rfl⟩, _, -, _, ⟨hrows, hfit, rfl⟩, h⟩
    obtain ⟨hfits, rfl⟩ := (appendProductRows_ok happend).mp h
    refine ⟨hfits, ⟨⟨by simpa using hcount, hlens.mpr hrows⟩, by simpa using hfit⟩, ?_⟩
    rw [rowListText, List.length_map]
  · rintro ⟨hfits, ⟨⟨hcount, hrows⟩, hfit⟩, rfl⟩
    refine ⟨_, ⟨by simpa using hcount, rfl⟩, (), rfl, _,
      ⟨hlens.mp hrows, by simpa using hfit, rfl⟩, ?_⟩
    rw [appendProductRows_ok happend]
    exact ⟨hfits, by rw [rowListText, List.length_map]⟩

theorem checkedProtocolLen_errors {E : ProtocolError → Prop} (h : ∀ e, (∀ c, e ≠ .row c) → E e)
    {label : String} {n : Nat} :
    Foundation.Outcome E (fun _ => True) (checkedProtocolLen label n) := by
  unfold checkedProtocolLen
  split
  · exact h _ nofun
  · trivial

theorem checkResultLimit_errors {E : ProtocolError → Prop} (h : ∀ e, (∀ c, e ≠ .row c) → E e) :
    Foundation.Outcome E (fun _ => True) (checkResultLimit maxBytes size) := by
  unfold checkResultLimit
  split
  · exact h _ nofun
  · trivial

/-- Errors with a property: those of the rows have it, and so has every other error. -/
structure RowErrors (E : ProtocolError → Prop) (rows : List ProductValue)
    (rowSize : ProductValue → Except BsatnError Nat)
    (appendRow : Bytes → ProductValue → Except BsatnError Bytes) : Prop where
  size : ∀ row ∈ rows, Foundation.Outcome (fun e => E (.row e)) (fun _ => True) (rowSize row)
  append : ∀ row ∈ rows, ∀ dst,
    Foundation.Outcome (fun e => E (.row e)) (fun _ => True) (appendRow dst row)
  other : ∀ e, (∀ c, e ≠ .row c) → E e

variable {E : ProtocolError → Prop}

section

variable (h : RowErrors E rows rowSize appendRow)
include h

theorem productRowSizes_errors :
    Foundation.Outcome E (fun _ => True) (productRowSizes rowSize maxBytes size rows) := by
  obtain ⟨hsize, -, hother⟩ := h
  induction rows generalizing size with
  | nil => trivial
  | cons row rows ih =>
    obtain ⟨hrow, hrows⟩ := List.forall_mem_cons.mp hsize
    refine .bind (outcome_mapError.mpr hrow) fun n _ => ?_
    refine .bind (checkedProtocolLen_errors hother) fun _ _ => ?_
    refine .bind (checkResultLimit_errors hother) fun _ _ => ?_
    split
    · exact hother _ nofun
    · exact .bind (ih hrows) fun _ _ => trivial

theorem appendProductRows_errors {sizes : List Nat} :
    Foundation.Outcome E (fun _ => True) (appendProductRows appendRow out rows sizes) := by
  obtain ⟨-, happend, hother⟩ := h
  induction rows generalizing out sizes with
  | nil => trivial
  | cons row rows ih =>
    cases sizes with
    | nil => trivial
    | cons size sizes =>
      obtain ⟨hrow, hrows⟩ := List.forall_mem_cons.mp happend
      refine .bind (outcome_mapError.mpr (hrow _)) fun next _ => ?_
      split
      · exact hother _ nofun
      · exact ih hrows

theorem encodeProductRowsWith_errors :
    Foundation.Outcome E (fun _ => True) (encodeProductRowsWith rows rowSize appendRow maxBytes) := by
  refine .bind (checkedProtocolLen_errors h.other) fun _ _ => ?_
  refine .bind (checkResultLimit_errors h.other) fun _ _ => ?_
  exact .bind (productRowSizes_errors h) fun _ _ => appendProductRows_errors h

end

end Rows

end Shunter.Protocol

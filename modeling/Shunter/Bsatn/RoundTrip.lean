import Shunter.Bsatn.Decode
import Shunter.Foundation.Format

/-!
# The BSATN codec inverts itself

`payloadText` is what the encoder writes and `PayloadFits` when it writes it.
The decoder reads that text back in front of any rest and accepts no other,
apart from JSON, whose text it canonicalizes.
-/

namespace Shunter.Bsatn

open Foundation

/-! ## What the encoder writes -/

def itemsText (xs : List Bytes) : Bytes := xs.flatMap fun s => lengthPrefixed s.length s

def payloadText : {k : ValueKind} → Payload k → Bytes
  | .bool, b => [if b then 1 else 0]
  | .int8, x => littleEndian 1 x.toNat
  | .uint8, x => littleEndian 1 x.toNat
  | .int16, x => littleEndian 2 x.toNat
  | .uint16, x => littleEndian 2 x.toNat
  | .int32, x => littleEndian 4 x.toNat
  | .uint32, x => littleEndian 4 x.toNat
  | .int64, x => littleEndian 8 x.toNat
  | .uint64, x => littleEndian 8 x.toNat
  | .float32, x => littleEndian 4 x.bits.toNat
  | .float64, x => littleEndian 8 x.bits.toNat
  | .string, s => lengthPrefixed s.length s
  | .bytes, b => lengthPrefixed b.length b
  | .int128, (hi, lo) => littleEndian 8 lo.toNat ++ littleEndian 8 hi.toNat
  | .uint128, (hi, lo) => littleEndian 8 lo.toNat ++ littleEndian 8 hi.toNat
  | .int256, (w₀, w₁, w₂, w₃) =>
    littleEndian 8 w₃.toNat ++ (littleEndian 8 w₂.toNat ++
      (littleEndian 8 w₁.toNat ++ littleEndian 8 w₀.toNat))
  | .uint256, (w₀, w₁, w₂, w₃) =>
    littleEndian 8 w₃.toNat ++ (littleEndian 8 w₂.toNat ++
      (littleEndian 8 w₁.toNat ++ littleEndian 8 w₀.toNat))
  | .timestamp, x => littleEndian 8 x.toNat
  | .duration, x => littleEndian 8 x.toNat
  | .arrayString, xs => littleEndian 4 xs.length ++ itemsText xs
  | .uuid, u => u.toList
  | .json, j => lengthPrefixed j.text.length j.text

def PayloadFits : {k : ValueKind} → Payload k → Prop
  | .string, s => validUTF8 s = true ∧ s.length ≤ maxValuePayloadBytes
  | .bytes, b => b.length ≤ maxValuePayloadBytes
  | .json, j => j.text.length ≤ maxValuePayloadBytes
  | .arrayString, xs =>
    xs.length ≤ maxArrayStringItems ∧ (∀ s ∈ xs, validUTF8 s = true) ∧
      4 + (itemsText xs).length ≤ maxValuePayloadBytes
  | .bool, _ | .int8, _ | .uint8, _ | .int16, _ | .uint16, _ | .int32, _ | .uint32, _
  | .int64, _ | .uint64, _ | .float32, _ | .float64, _ | .int128, _ | .uint128, _
  | .int256, _ | .uint256, _ | .timestamp, _ | .duration, _ | .uuid, _ => True

@[simp] theorem itemsText_nil : itemsText [] = [] := rfl

@[simp] theorem itemsText_cons (s : Bytes) (xs : List Bytes) :
    itemsText (s :: xs) = lengthPrefixed s.length s ++ itemsText xs := rfl

@[simp] theorem length_lengthPrefixed (n : Nat) (s : Bytes) :
    (lengthPrefixed n s).length = 4 + s.length := by
  simp [lengthPrefixed]

variable {n : Nat} {xs : List Bytes} {k : ValueKind}

theorem checkedValuePayloadLen_ok {label : String} {m : Nat} :
    checkedValuePayloadLen label n = .ok m ↔ n ≤ maxValuePayloadBytes ∧ m = n :=
  checkedLength_ok (by decide)

theorem checkedArrayStringCount_ok {m : Nat} :
    checkedArrayStringCount n = .ok m ↔ n ≤ maxArrayStringItems ∧ m = n :=
  checkedLength_ok (by decide)

theorem validateUTF8StringArray_ok :
    validateUTF8StringArray xs = .ok () ↔ ∀ s ∈ xs, validUTF8 s = true := by
  unfold validateUTF8StringArray
  split
  · next i h =>
    obtain ⟨hlt, hinvalid, -⟩ := List.findIdx?_eq_some_iff_getElem.mp h
    simp only [reduceCtorEq, false_iff, not_forall]
    exact ⟨xs[i], List.getElem_mem hlt, by simpa using hinvalid⟩
  · next h => simpa using h

theorem arrayStringPayloadLoop_ok (used : Nat) (xs : List Bytes)
    (hused : used ≤ maxValuePayloadBytes) :
    arrayStringPayloadLoop used xs = .ok () ↔
      used + (itemsText xs).length ≤ maxValuePayloadBytes := by
  induction xs generalizing used with
  | nil => simpa [arrayStringPayloadLoop] using hused
  | cons s xs ih =>
    unfold arrayStringPayloadLoop
    rw [itemsText_cons, List.length_append, length_lengthPrefixed]
    split
    · next h =>
      simp only [reduceCtorEq, false_iff, not_le]
      unfold maxValuePayloadBytes at h ⊢
      omega
    · next h =>
      have hle : used + (4 + s.length) ≤ maxValuePayloadBytes := by
        unfold maxValuePayloadBytes at h hused ⊢
        omega
      rw [ih _ hle, Nat.add_assoc]

theorem flatMap_wrapped (h : ∀ s ∈ xs, s.length < 2 ^ 32) :
    (xs.flatMap fun s => lengthPrefixed (s.length % 2 ^ 32) s) = itemsText xs := by
  induction xs with
  | nil => rfl
  | cons s xs ih =>
    rw [List.flatMap_cons, Nat.mod_eq_of_lt (h s (by simp)), itemsText_cons,
      ih fun t ht => h t (by simp [ht])]

theorem length_le_itemsText {s : Bytes} (h : s ∈ xs) : s.length ≤ (itemsText xs).length := by
  induction xs with
  | nil => cases h
  | cons t xs ih =>
    rw [itemsText_cons, List.length_append, length_lengthPrefixed]
    rcases List.mem_cons.mp h with rfl | h
    · omega
    · have := ih h
      omega

theorem appendPayload_ok {p : Payload k} {dst out : Bytes} :
    appendPayload dst p = .ok out ↔ PayloadFits p ∧ out = dst ++ payloadText p := by
  cases k
  case string =>
    simp only [appendPayload, PayloadFits, payloadText]
    split
    · next h =>
      simp only [except_bind_eq_ok, checkedValuePayloadLen_ok, Except.ok.injEq, h, true_and]
      grind
    · next h => simp [h]
  case bytes =>
    simp only [appendPayload, PayloadFits, payloadText, except_bind_eq_ok,
      checkedValuePayloadLen_ok, Except.ok.injEq]
    grind
  case json =>
    simp only [appendPayload, PayloadFits, payloadText, except_bind_eq_ok,
      checkedValuePayloadLen_ok, Except.ok.injEq]
    grind
  case arrayString =>
    have hloop := arrayStringPayloadLoop_ok 4 p (by decide)
    simp only [appendPayload, PayloadFits, payloadText, except_bind_eq_ok,
      checkedArrayStringCount_ok, Except.ok.injEq, validateArrayStringPayloadSize]
    constructor
    · rintro ⟨count, ⟨hcount, rfl⟩, ⟨⟩, hvalid, ⟨⟩, hsize, rfl⟩
      have hsize := hloop.mp hsize
      refine ⟨⟨hcount, validateUTF8StringArray_ok.mp hvalid, hsize⟩, ?_⟩
      rw [flatMap_wrapped]
      intro s hs
      have := length_le_itemsText hs
      unfold maxValuePayloadBytes at hsize
      omega
    · rintro ⟨⟨hcount, hvalid, hsize⟩, rfl⟩
      refine ⟨_, ⟨hcount, rfl⟩, ⟨⟩, validateUTF8StringArray_ok.mpr hvalid, ⟨⟩,
        hloop.mpr hsize, ?_⟩
      rw [flatMap_wrapped]
      intro s hs
      have := length_le_itemsText hs
      unfold maxValuePayloadBytes at hsize
      omega
  all_goals simp [appendPayload, PayloadFits, payloadText, eq_comm]

theorem encodedPayloadSize_eq (p : Payload k) :
    encodedPayloadSize p = 1 + (payloadText p).length := by
  cases k
  case arrayString =>
    have hfold : ∀ (n : Nat) (xs : List Bytes),
        xs.foldl (fun n s => n + (4 + s.length)) n = n + (itemsText xs).length := by
      intro n xs
      induction xs generalizing n with
      | nil => rfl
      | cons s xs ih =>
        rw [List.foldl_cons, ih, itemsText_cons, List.length_append, length_lengthPrefixed,
          Nat.add_assoc]
    simp only [encodedPayloadSize, payloadText, hfold, List.length_append, length_littleEndian]
    omega
  case string => simp only [encodedPayloadSize, payloadText, length_lengthPrefixed]; omega
  case bytes => simp only [encodedPayloadSize, payloadText, length_lengthPrefixed]; omega
  case json => simp only [encodedPayloadSize, payloadText, length_lengthPrefixed]; omega
  all_goals simp [encodedPayloadSize, payloadText]

/-! ## Reading a payload back -/

open Reader

/-- Every error of the row decoders is allowed here. -/
abbrev RowCodes {α : Type} (r : RowReader α) (text : α → Bytes) (Valid : α → Prop) : Prop :=
  Codes (fun _ => False) r text Valid

theorem readFull_reads {s : Bytes} (h : s.length = n) : Reads (readFull n) s s :=
  takeBytes_reads _ h

theorem readFull_codes (n : Nat) : RowCodes (readFull n) id (·.length = n) where
  reads _ := readFull_reads
  exact _ _ _ h := (takeBytes_ok h).symm
  safe _ _ _ := id

theorem readUint_codes (n : Nat) : RowCodes (readUint n) (littleEndian n) (· < 256 ^ n) where
  reads v h := by
    have hread := (readFull_reads (length_littleEndian n v)).map littleEndianValue
    rwa [littleEndianValue_littleEndian h] at hread
  exact x v rest h := by
    obtain ⟨buf, y, hbuf, h⟩ := bind_ok h
    cases h
    obtain ⟨rfl, rfl⟩ := takeBytes_ok hbuf
    exact ⟨littleEndianValue_lt buf, by rw [littleEndian_littleEndianValue]⟩
  safe _ _ _ := id

theorem readBits_codes (w n : Nat) (hw : w = 8 * n) :
    RowCodes (readBits w) (fun x => littleEndian n x.toNat) fun _ => True := by
  have hn : w / 8 = n := by omega
  have hpow : 2 ^ w = 256 ^ n := by rw [hw, pow_mul]; norm_num
  rw [readBits, hn]
  refine ⟨fun x _ => ?_, fun x v rest h => ?_, fun _ _ _ => id⟩
  · have hread := ((readUint_codes n).reads _ (lt_of_lt_of_eq x.isLt hpow)).map (BitVec.ofNat w)
    rwa [BitVec.ofNat_toNat, BitVec.setWidth_eq] at hread
  · obtain ⟨m, y, hm, h⟩ := bind_ok h
    cases h
    obtain ⟨hlt, hx⟩ := (readUint_codes n).exact x m rest hm
    rw [BitVec.toNat_ofNat, Nat.mod_eq_of_lt (hpow ▸ hlt)]
    exact ⟨trivial, hx⟩

theorem readLengthPrefixedPayload_codes (n : Nat) :
    RowCodes (readLengthPrefixedPayload n) id fun s => s.length = n ∧ n ≤ maxValuePayloadBytes := by
  unfold readLengthPrefixedPayload
  split
  · next hn =>
    refine (codes_pure []).congr (fun s => ?_) fun s hs => hs.symm
    rw [← List.length_eq_zero_iff, hn]
    exact ⟨fun h => ⟨h, Nat.zero_le _⟩, And.left⟩
  · split
    · next hle =>
      exact (codes_throw id id).congr (fun s => by simp; omega) nofun
    · next hle =>
      refine ⟨fun s hs => takeBytes_reads _ hs.1, fun x s rest h => ?_, fun _ _ _ => id⟩
      obtain ⟨hx, hlen⟩ := takeBytes_ok h
      exact ⟨⟨hlen, by omega⟩, hx⟩

theorem lengthPrefixed_codes :
    RowCodes (readUint 4 >>= readLengthPrefixedPayload) (fun s => lengthPrefixed s.length s)
      fun s => s.length ≤ maxValuePayloadBytes := by
  refine ((readUint_codes 4).field List.length (fun n _ => readLengthPrefixedPayload_codes n)
    fun n s hs => hs.1).congr (fun s => ?_) fun _ _ => rfl
  unfold maxValuePayloadBytes
  omega

theorem decodeArrayItems_reads (xs : List Bytes) (remaining : Nat)
    (hvalid : ∀ s ∈ xs, validUTF8 s = true) (hsize : (itemsText xs).length ≤ remaining)
    (hmax : remaining ≤ maxValuePayloadBytes) :
    Reads (decodeArrayItems xs.length remaining) (itemsText xs) xs := by
  induction xs generalizing remaining with
  | nil => exact reads_pure []
  | cons s xs ih =>
    rw [itemsText_cons, List.length_append, length_lengthPrefixed] at hsize
    have hlen : s.length ≤ maxValuePayloadBytes := by omega
    have hrest := ih (remaining - 4 - s.length) (fun t ht => hvalid t (by simp [ht])) (by omega)
      (by omega)
    rw [List.length_cons, decodeArrayItems, if_neg (by omega), itemsText_cons, lengthPrefixed,
      List.append_assoc]
    have hlt : s.length < 256 ^ 4 := by
      unfold maxValuePayloadBytes at hlen
      omega
    refine ((readUint_codes 4).reads _ hlt).bind ?_
    rw [if_neg (by omega)]
    refine ((readLengthPrefixedPayload_codes s.length).reads s ⟨rfl, hlen⟩).bind ?_
    rw [if_pos (hvalid s (by simp))]
    exact hrest.map _

theorem decodeArrayItems_ok {count remaining : Nat} {x rest : Bytes}
    (h : decodeArrayItems count remaining x = .ok (xs, rest)) :
    x = itemsText xs ++ rest ∧ xs.length = count ∧ (∀ s ∈ xs, validUTF8 s = true) ∧
      (itemsText xs).length ≤ remaining := by
  induction count generalizing remaining x xs with
  | zero =>
    cases h
    simp
  | succ count ih =>
    rw [decodeArrayItems] at h
    split at h
    · cases h
    · obtain ⟨n, y, hn, h⟩ := bind_ok h
      split at h
      · cases h
      · obtain ⟨data, z, hdata, h⟩ := bind_ok h
        split at h
        · next hvalid =>
          obtain ⟨xs', z', hxs, h⟩ := bind_ok h
          cases h
          obtain ⟨-, rfl⟩ := (readUint_codes 4).exact _ _ _ hn
          obtain ⟨⟨rfl, hle⟩, rfl⟩ := (readLengthPrefixedPayload_codes n).exact _ _ _ hdata
          obtain ⟨rfl, hlen, hall, hsize⟩ := ih hxs
          refine ⟨?_, by rw [List.length_cons, hlen], List.forall_mem_cons.mpr ⟨hvalid, hall⟩, ?_⟩
          · rw [itemsText_cons, lengthPrefixed, id]
            simp only [List.append_assoc]
          · rw [itemsText_cons, List.length_append, length_lengthPrefixed]
            omega
        · cases h

variable {b : Bytes} {j : JSONText}

private theorem wideWord_append {a : Bytes} {i : Nat} (ha : a.length = 8) :
    wideWord (a ++ b) (i + 1) = wideWord b i := by
  have hdrop : (a ++ b).drop (8 * (i + 1)) = b.drop (8 * i) := by
    rw [List.drop_append, List.drop_eq_nil_of_le (by omega), List.nil_append, ha]
    congr 1
  rw [wideWord, wideWord, hdrop]

private theorem wideWord_zero (x : BitVec 64) (b : Bytes) :
    wideWord (littleEndian 8 x.toNat ++ b) 0 = x := by
  have htake : (littleEndian 8 x.toNat ++ b).take 8 = littleEndian 8 x.toNat := by
    rw [List.take_append_of_le_length (by simp), List.take_of_length_le (by simp)]
  rw [wideWord, Nat.mul_zero, List.drop_zero, htake,
    littleEndianValue_littleEndian (by have := x.isLt; omega), BitVec.ofNat_toNat,
    BitVec.setWidth_eq]

@[simp] private theorem wideWord_littleEndian (x : BitVec 64) :
    wideWord (littleEndian 8 x.toNat) 0 = x := by
  simpa using wideWord_zero x []

private theorem wideWord_bytes {i : Nat} (h : 8 * (i + 1) ≤ b.length) :
    littleEndian 8 (wideWord b i).toNat = (b.drop (8 * i)).take 8 := by
  have hlen : ((b.drop (8 * i)).take 8).length = 8 := by
    rw [List.length_take, List.length_drop]
    omega
  have hlt := littleEndianValue_lt ((b.drop (8 * i)).take 8)
  have hbytes := littleEndian_littleEndianValue ((b.drop (8 * i)).take 8)
  rw [hlen] at hlt hbytes
  rw [wideWord, BitVec.toNat_ofNat, Nat.mod_eq_of_lt (by omega), hbytes]

theorem newJSON_of_canonical {data : Bytes} (h : canonicalizeJSON data = .ok j.text) :
    newJSON data = .ok j := by
  unfold newJSON
  split
  · next e he =>
    rw [h] at he
    cases he
  · next text htext =>
    rw [h] at htext
    cases htext
    rfl

theorem decodePayload_json_reads {raw : Bytes} (hlen : raw.length ≤ maxValuePayloadBytes)
    (h : newJSON raw = .ok j) :
    Reads (decodePayload .json) (lengthPrefixed raw.length raw) j := by
  rw [decodePayload, ← bind_assoc]
  refine (lengthPrefixed_codes.reads raw hlen).andThen ?_
  rw [decodeJSON, h]
  exact reads_pure _

private theorem wide128 (h : b.length = 16) :
    b = littleEndian 8 (wideWord b 0).toNat ++ littleEndian 8 (wideWord b 1).toNat := by
  rw [wideWord_bytes (by omega), wideWord_bytes (by omega), Nat.mul_zero, List.drop_zero,
    List.take_of_length_le (l := b.drop (8 * 1)) (by simp [h])]
  exact (List.take_append_drop 8 b).symm

private theorem wide256 (h : b.length = 32) :
    b = littleEndian 8 (wideWord b 0).toNat ++ (littleEndian 8 (wideWord b 1).toNat ++
      (littleEndian 8 (wideWord b 2).toNat ++ littleEndian 8 (wideWord b 3).toNat)) := by
  rw [wideWord_bytes (by omega), wideWord_bytes (by omega), wideWord_bytes (by omega),
    wideWord_bytes (by omega), List.take_of_length_le (l := b.drop (8 * 3)) (by simp [h])]
  have hsplit : ∀ i, b.drop (8 * i) = (b.drop (8 * i)).take 8 ++ b.drop (8 * (i + 1)) := by
    intro i
    rw [show 8 * (i + 1) = 8 * i + 8 by omega, ← List.drop_drop]
    exact (List.take_append_drop 8 _).symm
  calc b = b.drop (8 * 0) := by simp
    _ = (b.drop (8 * 0)).take 8 ++ b.drop (8 * 1) := hsplit 0
    _ = (b.drop (8 * 0)).take 8 ++ ((b.drop (8 * 1)).take 8 ++ b.drop (8 * 2)) :=
        congrArg _ (hsplit 1)
    _ = _ := congrArg _ (congrArg _ (hsplit 2))

private theorem wide_codes {α : Type} {words : Bytes → α} {text : α → Bytes}
    (hlen : ∀ p, (text p).length = n) (hwords : ∀ p, words (text p) = p)
    (htext : ∀ b : Bytes, b.length = n → b = text (words b)) :
    RowCodes (do let wide ← readFull n; pure (words wide)) text fun _ => True where
  reads p _ := by
    refine (readFull_reads (hlen p)).andThen ?_
    rw [hwords]
    exact reads_pure _
  exact x p rest h := by
    obtain ⟨b, y, hb, hp⟩ := bind_ok h
    obtain ⟨hx, hlen⟩ := takeBytes_ok hb
    cases hp
    exact ⟨trivial, hx.trans (congrArg (· ++ rest) (htext b hlen))⟩
  safe _ _ _ := id

private theorem wide128_codes : RowCodes
    (do let wide ← readFull 16; pure (wideWord wide 1, wideWord wide 0))
    (fun p => littleEndian 8 p.2.toNat ++ littleEndian 8 p.1.toNat) fun _ => True :=
  wide_codes (by simp) (by simp [wideWord_append, wideWord_zero]) fun _ => wide128

private theorem wide256_codes : RowCodes
    (do let wide ← readFull 32
        pure (wideWord wide 3, wideWord wide 2, wideWord wide 1, wideWord wide 0))
    (fun p => littleEndian 8 p.2.2.2.toNat ++ (littleEndian 8 p.2.2.1.toNat ++
      (littleEndian 8 p.2.1.toNat ++ littleEndian 8 p.1.toNat))) fun _ => True :=
  wide_codes (by simp) (by simp [wideWord_append, wideWord_zero]) fun _ => wide256

private theorem decodeFloat_codes {w inf : Nat} (hw : w = 8 * n) :
    RowCodes (do newFloat w inf (← readBits w)) (fun p => littleEndian n p.bits.toNat)
      fun _ => True where
  reads p _ := by
    refine ((readBits_codes w n hw).reads p.bits trivial).andThen ?_
    rw [newFloat, dif_pos p.notNaN]
    exact reads_pure _
  exact x p rest h := by
    obtain ⟨bits, y, hbits, h⟩ := bind_ok h
    unfold newFloat at h
    split at h
    · cases h
      exact (readBits_codes w n hw).exact _ _ _ hbits
    · cases h
  safe _ _ _ := id

theorem newJSON_ok {data : Bytes} (h : newJSON data = .ok j) :
    canonicalizeJSON data = .ok j.text := by
  unfold newJSON at h
  split at h
  · cases h
  · next text htext =>
    cases h
    exact htext

theorem decodePayload_json_ok {x rest : Bytes} (h : decodePayload .json x = .ok (j, rest)) :
    ∃ raw, x = lengthPrefixed raw.length raw ++ rest ∧ raw.length ≤ maxValuePayloadBytes ∧
      canonicalizeJSON raw = .ok j.text := by
  rw [decodePayload, ← bind_assoc] at h
  obtain ⟨raw, y, hraw, h⟩ := bind_ok h
  obtain ⟨hle, hx⟩ := lengthPrefixed_codes.exact _ _ _ hraw
  unfold decodeJSON at h
  cases hnew : newJSON raw with
  | error e =>
    rw [hnew] at h
    cases h
  | ok text =>
    rw [hnew] at h
    cases h
    exact ⟨raw, hx, hle, newJSON_ok hnew⟩

/-- JSON apart, the decoder reads the text of a payload back and accepts no other text. -/
theorem decodePayload_codes (hk : k ≠ .json) :
    RowCodes (decodePayload k) payloadText PayloadFits := by
  cases k with
  | json => exact absurd rfl hk
  | bool =>
    refine ⟨fun p _ => ?_, fun x p rest h => ?_, fun _ _ _ => id⟩
    · refine ((readFull_codes 1).reads (payloadText p) rfl).andThen ?_
      cases p <;> exact reads_pure _
    · obtain ⟨b, y, hb, hp⟩ := bind_ok h
      obtain ⟨hx, -⟩ := takeBytes_ok hb
      unfold decodeBoolByte at hp
      split at hp
      · next hbyte =>
        cases hp
        exact ⟨trivial, by rw [hx, hbyte]; rfl⟩
      split at hp
      · next hbyte =>
        cases hp
        exact ⟨trivial, by rw [hx, hbyte]; rfl⟩
      · cases hp
  | string =>
    have h : RowCodes _ _ fun data => _ ∧ validUTF8 data = true :=
      lengthPrefixed_codes.check (f := fun data =>
        if validUTF8 data then pure data else throw (.invalidUTF8 none))
        (fun data y hv => by rw [if_pos hv]; rfl)
        fun data y hv => ⟨_, by rw [if_neg hv]; rfl, id⟩
    rw [bind_assoc] at h
    exact h.congr (fun s => and_comm) fun _ _ => rfl
  | bytes => exact lengthPrefixed_codes
  | arrayString =>
    refine ⟨fun p hp => ?_, fun x p rest h => ?_, fun _ _ _ => id⟩
    · obtain ⟨hcount, hvalid, hsize⟩ := hp
      have hlt : p.length < 256 ^ 4 := by
        unfold maxArrayStringItems at hcount
        omega
      refine ((readUint_codes 4).reads _ hlt).bind ?_
      rw [if_neg (by omega)]
      exact decodeArrayItems_reads p _ hvalid (by omega) (by omega)
    · obtain ⟨count, y, hcount, h⟩ := bind_ok h
      obtain ⟨-, hx⟩ := (readUint_codes 4).exact _ _ _ hcount
      split at h
      · cases h
      · next hle =>
        obtain ⟨hy, hlen, hvalid, hsize⟩ := decodeArrayItems_ok h
        refine ⟨⟨by omega, hvalid, ?_⟩, ?_⟩
        · unfold maxValuePayloadBytes at hsize ⊢
          omega
        · rw [payloadText, hx, hy, hlen, List.append_assoc]
  | uuid =>
    refine ⟨fun p _ => ?_, fun x p rest h => ?_, fun _ _ _ => id⟩
    · refine (readFull_reads p.2).andThen ?_
      rw [dif_pos p.2]
      exact reads_pure _
    · obtain ⟨u, y, hu, hp⟩ := bind_ok h
      obtain ⟨hx, hlen⟩ := takeBytes_ok hu
      rw [dif_pos hlen] at hp
      cases hp
      exact ⟨trivial, hx⟩
  | float32 => exact decodeFloat_codes (n := 4) rfl
  | float64 => exact decodeFloat_codes (n := 8) rfl
  | int128 | uint128 => exact wide128_codes
  | int256 | uint256 => exact wide256_codes
  | int8 | uint8 => exact readBits_codes 8 1 rfl
  | int16 | uint16 => exact readBits_codes 16 2 rfl
  | int32 | uint32 => exact readBits_codes 32 4 rfl
  | int64 | uint64 | timestamp | duration => exact readBits_codes 64 8 rfl

theorem decodePayload_reads {p : Payload k} (h : PayloadFits p) :
    Reads (decodePayload k) (payloadText p) p := by
  by_cases hk : k = .json
  · subst hk
    exact decodePayload_json_reads h (newJSON_of_canonical p.canonical)
  · exact (decodePayload_codes hk).reads p h

end Shunter.Bsatn

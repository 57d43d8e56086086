import Shunter.Protocol.Wire

/-!
# The primitives of the wire format are exact

Each reader accepts the texts of its values and nothing else, and never slices
beyond the end; each writer puts out that text; each sizer adds its length.
-/

namespace Shunter.Protocol

open Foundation Bsatn Reader

variable {n : Nat} {label : String} {α : Type} {text : α → Bytes}

theorem checkedProtocolLen_ok {m : Nat} :
    checkedProtocolLen label n = .ok m ↔ n < 2 ^ 32 ∧ m = n :=
  (checkedLength_ok (by decide)).trans (by omega)

/-! ## Readers -/

abbrev WireCodes {α : Type} (r : Reader ProtocolError α) (text : α → Bytes) (Valid : α → Prop) :
    Prop :=
  Codes (· = .outOfRange) r text Valid

theorem get_bind_apply (f : Bytes → Reader ProtocolError α) (x : Bytes) :
    ((get : Reader ProtocolError Bytes) >>= f) x = f x x := rfl

theorem slice_apply {x : Bytes} (h : n ≤ x.length) :
    slice n x = .ok (⟨x.take n, by rw [List.length_take]; omega⟩, x.drop n) := by
  rw [slice, dif_pos h]

theorem slice_codes (n : Nat) :
    Codes (fun _ => False) (slice n) List.Vector.toList fun _ => True where
  reads v _ rest := by
    obtain ⟨l, rfl⟩ := v
    rw [slice_apply (by simp [List.Vector.toList])]
    simp [List.Vector.toList]
  exact x v rest h := by
    unfold slice at h
    split at h
    · cases h
      exact ⟨trivial, (List.take_append_drop n x).symm⟩
    · cases h
  safe _ _ _ := id

theorem readFixed_codes (n : Nat) (short : Bytes → ProtocolError)
    (hshort : ∀ x, short x ≠ .outOfRange) :
    WireCodes (readFixed n short) List.Vector.toList fun _ => True := by
  refine (slice_codes n).guard hshort (by simp) fun x e hlong h => ?_
  rw [slice_apply (by omega)] at h
  cases h

theorem littleEndian_vector (raw : List.Vector UInt8 n) :
    littleEndianValue raw.toList < 256 ^ n ∧
      littleEndian n (littleEndianValue raw.toList) = raw.toList := by
  have hlt := littleEndianValue_lt raw.toList
  have hprefix := littleEndian_littleEndianValue raw.toList
  rw [raw.toList_length] at hlt hprefix
  exact ⟨hlt, hprefix⟩

private theorem readNumber_codes {r : Reader ProtocolError (List.Vector UInt8 n)}
    {toNat : α → Nat} {ofNat : Nat → α} (h : WireCodes r List.Vector.toList fun _ => True)
    (hlt : ∀ a, toNat a < 256 ^ n) (hof : ∀ a, ofNat (toNat a) = a)
    (hto : ∀ k, k < 256 ^ n → toNat (ofNat k) = k) :
    WireCodes (r >>= fun raw => pure (ofNat (littleEndianValue raw.toList)))
      (fun a => littleEndian n (toNat a)) fun _ => True where
  reads a _ := by
    have hread := h.reads ⟨littleEndian n (toNat a), length_littleEndian n _⟩ trivial
    have hvalue : ofNat (littleEndianValue (littleEndian n (toNat a))) = a := by
      rw [littleEndianValue_littleEndian (hlt a), hof]
    have hmap := hread.map fun raw => ofNat (littleEndianValue raw.toList)
    rw [List.Vector.toList_mk, hvalue] at hmap
    exact hmap
  exact x a rest hr := by
    obtain ⟨raw, y, hraw, hr⟩ := bind_ok hr
    cases hr
    obtain ⟨-, hx⟩ := h.exact x raw rest hraw
    obtain ⟨hvalue, hprefix⟩ := littleEndian_vector raw
    exact ⟨trivial, by rw [hto _ hvalue, hprefix, hx]⟩
  safe x e hr := by
    obtain hr | ⟨raw, y, -, hr⟩ := bind_error hr
    · exact h.safe x e hr
    · cases hr

theorem readUint32_codes (size : Nat) : WireCodes (readUint32 size) writeUint32 fun _ => True :=
  readNumber_codes (readFixed_codes 4 _ fun _ => by simp) (fun a => a.toNat_lt)
    (fun a => UInt32.ofNat_toNat) fun k hk => UInt32.toNat_ofNat_of_lt' hk

theorem readUint64_codes (size : Nat) : WireCodes (readUint64 size) writeUint64 fun _ => True :=
  readNumber_codes (readFixed_codes 8 _ fun _ => by simp) (fun a => a.toNat_lt)
    (fun a => UInt64.ofNat_toNat) fun k hk => UInt64.toNat_ofNat_of_lt' hk

@[simp] theorem length_writeUint32 (v : UInt32) : (writeUint32 v).length = 4 :=
  length_littleEndian 4 _

theorem readInt64_codes (size : Nat) : WireCodes (readInt64 size) writeInt64 fun _ => True := by
  refine ((readUint64_codes size).bind fun v => parses_pure v.toInt64).codes fun i t => ?_
  constructor
  · rintro ⟨v, -, _, ⟨rfl, rfl⟩, rfl⟩
    simp [writeInt64]
  · rintro ⟨-, rfl⟩
    exact ⟨i.toUInt64, trivial, [], ⟨rfl, i.toInt64_toUInt64.symm⟩, (List.append_nil _).symm⟩

/-! ### Strings and bytes -/

def prefixed (b : Bytes) : Bytes := lengthPrefixed b.length b

@[simp] theorem length_prefixed (b : Bytes) : (prefixed b).length = 4 + b.length :=
  length_lengthPrefixed _ _

abbrev WireBytes (b : Bytes) : Prop := b.length < 2 ^ 32

structure WireString (s : Bytes) : Prop where
  length : s.length < 2 ^ 32
  valid : validUTF8 s = true

instance (s : Bytes) : Decidable (WireString s) :=
  decidable_of_iff (s.length < 2 ^ 32 ∧ validUTF8 s = true)
    ⟨fun h => ⟨h.1, h.2⟩, fun h => ⟨h.length, h.valid⟩⟩

variable {s : Bytes}

theorem wireString_iff : WireString s ↔ validUTF8 s = true ∧ WireBytes s :=
  ⟨fun h => ⟨h.valid, h.length⟩, fun h => ⟨h.2, h.1⟩⟩

theorem readPayload_codes (exceeds : Nat → Nat → ProtocolError)
    (hexceeds : ∀ n k, exceeds n k ≠ .outOfRange) (n : Nat) :
    WireCodes (readPayload exceeds n) id (·.length = n) := by
  have h := ((slice_codes n).bind fun raw => parses_pure raw.toList).codes
    fun b t => show _ ↔ b.length = n ∧ t = id b by
      constructor
      · rintro ⟨raw, -, _, ⟨rfl, rfl⟩, rfl⟩
        simp
      · rintro ⟨hb, ht⟩
        exact ⟨⟨b, hb⟩, trivial, [], ⟨rfl, rfl⟩, by simpa using ht⟩
  refine h.guard (fun x => hexceeds n x.length) (by simp; omega) fun x e hlong h => ?_
  rw [bind_of_ok (slice_apply (by omega))] at h
  cases h

/-- What follows its own size. -/
theorem sized_codes {items : UInt32 → Reader ProtocolError α} {Passes : α → Prop}
    (length : α → Nat) (size : Nat)
    (h : ∀ n, WireCodes (items n) text fun a => length a = n.toNat ∧ Passes a) :
    WireCodes (readUint32 size >>= items) (fun a => littleEndian 4 (length a) ++ text a)
      fun a => length a < 2 ^ 32 ∧ Passes a := by
  refine ((readUint32_codes size).bind fun n => codes_iff_parses.mp (h n)).codes fun a t => ?_
  constructor
  · rintro ⟨n, -, _, ⟨⟨hn, ha⟩, rfl⟩, rfl⟩
    rw [hn]
    exact ⟨⟨n.toNat_lt, ha⟩, rfl⟩
  · rintro ⟨⟨hlt, ha⟩, rfl⟩
    have hn := UInt32.toNat_ofNat_of_lt' hlt
    exact ⟨.ofNat (length a), trivial, text a, ⟨⟨hn.symm, ha⟩, rfl⟩, by rw [writeUint32, hn]⟩

theorem readBytes_codes (size : Nat) : WireCodes (readBytes size) prefixed WireBytes := by
  have h := sized_codes List.length size fun n =>
    (readPayload_codes .bytesExceedsRemaining (by simp) n.toNat).congr
      (fun b => (and_true (b.length = n.toNat)).to_iff.symm) fun _ _ => rfl
  exact h.congr (by simp) fun _ _ => rfl

theorem readString_codes (size : Nat) : WireCodes (readString size) prefixed WireString := by
  have hchecked : ∀ n : UInt32, WireCodes
      (readPayload .stringExceedsRemaining n.toNat >>= checkUTF8 size) id
      fun s => s.length = n.toNat ∧ validUTF8 s = true := by
    intro n
    refine (readPayload_codes .stringExceedsRemaining (by simp) n.toNat).check ?_ ?_
    · intro s y hs
      simp only [checkUTF8, hs]
      rfl
    · intro s y hs
      simp only [checkUTF8, hs]
      exact ⟨_, rfl, by simp⟩
  exact (sized_codes List.length size hchecked).congr
    (fun s => ⟨fun h => ⟨h.1, h.2⟩, fun h => ⟨h.length, h.valid⟩⟩) fun _ _ => rfl

/-! ### Counted lists -/

def countedText {α : Type} (text : α → Bytes) (l : List α) : Bytes :=
  littleEndian 4 l.length ++ l.flatMap text

@[simp] theorem length_countedText (text : α → Bytes) (l : List α) :
    (countedText text l).length = 4 + (l.flatMap text).length := by
  simp [countedText]

variable {l : List α}

theorem length_mul_le_flatMap {k : Nat} (h : ∀ a ∈ l, k ≤ (text a).length) :
    l.length * k ≤ (l.flatMap text).length := by
  induction l with
  | nil => simp
  | cons a l ih =>
    obtain ⟨ha, hl⟩ := List.forall_mem_cons.mp h
    have := ih hl
    rw [List.flatMap_cons, List.length_append, List.length_cons, Nat.add_mul]
    omega

variable {read : Reader ProtocolError α} {Valid : α → Prop}

theorem readItems_apply {name : String} {k : Nat} (count : UInt32) (x : Bytes) :
    readItems name k read count x =
      if count.toNat > x.length / k then .error (.countExceedsRemaining name count.toNat x.length)
      else many read count.toNat x := by
  unfold readItems
  rw [get_bind_apply, requireCountFitsRemaining]
  split <;> rfl

theorem readItems_codes (name : String) (k : Nat) (h : WireCodes read text Valid) (hk : 0 < k)
    (hmin : ∀ a, Valid a → k ≤ (text a).length) (count : UInt32) :
    WireCodes (readItems name k read count) (·.flatMap text)
      fun l => l.length = count.toNat ∧ ∀ a ∈ l, Valid a where
  reads l hl rest := by
    have hlen := length_mul_le_flatMap fun a ha => hmin a (hl.2 a ha)
    have hfits : ¬ count.toNat > (l.flatMap text ++ rest).length / k := by
      rw [← hl.1, not_lt, Nat.le_div_iff_mul_le hk, List.length_append]
      omega
    rw [readItems_apply, if_neg hfits]
    exact (h.many count.toNat).reads l hl rest
  exact x l rest hr := by
    rw [readItems_apply] at hr
    split at hr
    · cases hr
    · exact (h.many count.toNat).exact x l rest hr
  safe x e hr := by
    rw [readItems_apply] at hr
    split at hr
    · cases hr
      simp
    · exact (h.many count.toNat).safe x e hr

theorem counted_codes {items : UInt32 → Reader ProtocolError (List α)} {Passes : List α → Prop}
    (size : Nat) (h : ∀ count, WireCodes (items count) (·.flatMap text)
      fun l => l.length = count.toNat ∧ Passes l) :
    WireCodes (readUint32 size >>= items) (countedText text)
      fun l => l.length < 2 ^ 32 ∧ Passes l :=
  sized_codes List.length size h

/-! ### Tags and optional values -/

theorem head_toList (raw : List.Vector UInt8 1) : [raw.head] = raw.toList := by
  rw [← List.Vector.cons_head_tail raw]
  simp

theorem readByte_codes (short : Bytes → ProtocolError) (hshort : ∀ x, short x ≠ .outOfRange) :
    WireCodes (readByte short) ([·]) fun _ => True := by
  have h := (readFixed_codes 1 short hshort).map List.Vector.head ([·]) head_toList
  refine h.congr (fun b => ?_) fun _ _ => rfl
  exact ⟨fun _ => trivial, fun _ => ⟨⟨[b], rfl⟩, trivial, rfl⟩⟩

def presenceTag : Bool → UInt8
  | false => 0
  | true => 1

theorem presenceOfTag_codes (label : String) (tag : UInt8) :
    WireCodes (presenceOfTag label tag) (fun _ => []) fun b => tag = presenceTag b := by
  unfold presenceOfTag
  split
  · exact (codes_pure false).congr (by decide) fun _ _ => rfl
  · exact (codes_pure true).congr (by decide) fun _ _ => rfl
  · next hzero hone =>
    refine (codes_throw (by simp) _).congr (fun b => ?_) fun _ _ => rfl
    cases b with
    | false => exact ⟨False.elim, hzero⟩
    | true => exact ⟨False.elim, hone⟩

theorem readOptionalPresenceTag_codes (label : String) (size : Nat) :
    WireCodes (readOptionalPresenceTag label size) (fun b => [presenceTag b]) fun _ => True := by
  have h := (readByte_codes (fun x => .tagTruncated label (size - x.length))
    fun _ => by simp).field presenceTag
    (fun tag _ => presenceOfTag_codes label tag) fun _ _ htag => htag.symm
  exact h.congr (fun _ => by simp) fun _ _ => rfl

def optionalText {α : Type} (text : α → Bytes) : Option α → Bytes
  | none => [0]
  | some v => 1 :: text v

def presentText {α : Type} (text : α → Bytes) : Option α → Bytes
  | none => []
  | some v => text v

theorem readPresent_codes (h : WireCodes read text Valid) (present : Bool) :
    WireCodes (readPresent read present) (presentText text)
      fun o => o.isSome = present ∧ ∀ v ∈ o, Valid v := by
  cases present with
  | false =>
    refine (codes_pure none).congr (fun o => ?_) fun o ho => ?_
    · cases o <;> simp
    · rw [ho]
      rfl
  | true =>
    refine (h.map some (presentText text) fun _ => rfl).congr (fun o => ?_) fun _ _ => rfl
    cases o <;> simp

theorem readOptional_codes {read : WireReader α} {size : Nat} (label : String)
    (h : WireCodes (read size) text Valid) :
    WireCodes (readOptional label read size) (optionalText text) fun o => ∀ v ∈ o, Valid v := by
  have hpresent := (readOptionalPresenceTag_codes label size).field Option.isSome
    (fun present _ => readPresent_codes h present) fun _ _ ho => ho.1
  refine hpresent.congr (fun o => by simp) fun o _ => ?_
  cases o <;> rfl

theorem readOptionalUint32_codes (size : Nat) :
    WireCodes (readOptionalUint32 size) (optionalText writeUint32) fun _ => True :=
  (readOptional_codes _ (readUint32_codes size)).congr (by simp) fun _ _ => rfl

theorem readOptionalString_codes (size : Nat) :
    WireCodes (readOptionalString size) (optionalText prefixed) fun o => ∀ s ∈ o, WireString s :=
  readOptional_codes _ (readString_codes size)

/-! ### Whole bodies -/

section Body

variable {fields : WireReader α} {name : String}

theorem requireFullyConsumed_ok {size : Nat} {rest : Bytes} :
    requireFullyConsumed name size rest = .ok () ↔ rest = [] := by
  unfold requireFullyConsumed
  split <;> simp_all

/-- A decoder of whole bodies that accepts the texts of valid values and nothing else, of which
no one begins another, and never slices out of range. -/
structure BodyCodes (decode : Bytes → Except ProtocolError α) (text : α → Bytes)
    (Valid : α → Prop) : Prop where
  ok : ∀ body m, decode body = .ok m ↔ Valid m ∧ body = text m
  stops : ∀ m m' more, Valid m → Valid m' → text m' = text m ++ more → more = []
  safe : ∀ body, decode body ≠ .error .outOfRange

theorem decodeBody_codes {G : Bytes → α → Prop}
    (hfields : ∀ size, Parses (· = .outOfRange) (fields size) G)
    (hG : ∀ m t, G t m ↔ Valid m ∧ t = text m) : BodyCodes (decodeBody name fields) text Valid := by
  have h : ∀ size, WireCodes (fields size) text Valid := fun size => (hfields size).codes hG
  refine ⟨fun body m => ?_, fun m m' more hm hm' htext => ?_, fun body hm => ?_⟩
  · unfold decodeBody
    constructor
    · intro hm
      obtain ⟨⟨m', rest⟩, hfields, hm⟩ := except_bind_eq_ok.mp hm
      obtain ⟨_, hrest, hm⟩ := except_bind_eq_ok.mp hm
      cases hm
      have hexact := (h body.length).exact body m rest hfields
      rwa [requireFullyConsumed_ok.mp hrest, List.append_nil] at hexact
    · rintro ⟨hvalid, rfl⟩
      rw [((h _).reads m hvalid).apply]
      rfl
  · have hread := (h 0).reads m' hm' []
    rw [List.append_nil, htext] at hread
    exact ((h 0).rest_eq ((h 0).reads m hm).apply hread).2
  · unfold decodeBody at hm
    obtain hfields | ⟨⟨m, rest⟩, -, hm⟩ := except_bind_eq_error.mp hm
    · exact (h body.length).safe body _ hfields rfl
    · unfold requireFullyConsumed at hm
      dsimp only at hm
      split at hm <;> cases hm

section Wrap

variable {β : Type} {decode : Bytes → Except ProtocolError α}

theorem BodyCodes.wrap_ok (h : BodyCodes decode text Valid) (wrap : α → β) {body : Bytes} {w : β} :
    wrap <$> decode body = .ok w ↔ ∃ m, w = wrap m ∧ Valid m ∧ body = text m := by
  cases hd : decode body with
  | error e =>
    simp only [Functor.map, Except.map, reduceCtorEq, false_iff, not_exists, not_and]
    rintro m - hvalid hbody
    rw [(h.ok body m).mpr ⟨hvalid, hbody⟩] at hd
    cases hd
  | ok m =>
    simp only [Functor.map, Except.map, Except.ok.injEq]
    constructor
    · rintro rfl
      exact ⟨m, rfl, (h.ok body m).mp hd⟩
    · rintro ⟨m', rfl, hvalid, hbody⟩
      rw [(h.ok body m').mpr ⟨hvalid, hbody⟩] at hd
      cases hd
      rfl

theorem BodyCodes.congr {Valid' : α → Prop} (h : BodyCodes decode text Valid)
    (hv : ∀ m, Valid m ↔ Valid' m) : BodyCodes decode text Valid' := by
  rwa [← funext fun m => propext (hv m)]

/-- The bodies of one constructor are those of the messages with its tag. -/
theorem BodyCodes.wrap {wrap : α → β} {text : β → Bytes} {Valid : β → Prop} {tagOf : β → UInt8}
    {tag : UInt8} (h : BodyCodes decode (fun m => text (wrap m)) fun m => Valid (wrap m))
    (htag : ∀ w, tagOf w = tag ↔ ∃ m, w = wrap m) :
    BodyCodes (fun body => wrap <$> decode body) text fun w => tagOf w = tag ∧ Valid w where
  ok body w := by
    rw [h.wrap_ok, htag]
    constructor
    · rintro ⟨m, rfl, hvalid, rfl⟩
      exact ⟨⟨⟨m, rfl⟩, hvalid⟩, rfl⟩
    · rintro ⟨⟨⟨m, rfl⟩, hvalid⟩, rfl⟩
      exact ⟨m, rfl, hvalid, rfl⟩
  stops w w' more hw hw' ht := by
    obtain ⟨m, rfl⟩ := (htag w).mp hw.1
    obtain ⟨m', rfl⟩ := (htag w').mp hw'.1
    exact h.stops m m' more hw.2 hw'.2 ht
  safe body hw := by
    cases hd : decode body with
    | error e =>
      rw [hd] at hw
      cases hw
      exact h.safe body hd
    | ok m =>
      rw [hd] at hw
      cases hw

theorem BodyCodes.gated (h : BodyCodes decode text Valid) {gate : Except ProtocolError Unit}
    (hgate : gate ≠ .error .outOfRange) :
    BodyCodes (fun body => do gate; decode body) text fun m => gate = .ok () ∧ Valid m where
  ok body m := by
    rw [except_bind_eq_ok, and_assoc, ← h.ok]
    exact ⟨fun ⟨_, hm⟩ => hm, fun hm => ⟨(), hm⟩⟩
  stops m m' more hm hm' := h.stops m m' more hm.2 hm'.2
  safe body hm := by
    obtain hm | ⟨_, -, hm⟩ := except_bind_eq_error.mp hm
    · exact hgate hm
    · exact h.safe body hm

theorem bodyCodes_error {e : ProtocolError} (he : e ≠ .outOfRange) (hv : ∀ m, ¬ Valid m) :
    BodyCodes (fun _ => .error e) text Valid where
  ok body m := by simp [hv m]
  stops m m' more hm := (hv m hm).elim
  safe body := by simpa using he

end Wrap

end Body

/-! ## Writers -/

theorem requireValidWireString_ok {field : String} {u : Unit} :
    requireValidWireString field s = .ok u ↔ validUTF8 s = true := by
  unfold requireValidWireString
  split <;> simp_all

theorem requireValidWireStrings_ok {field : Nat → String} {i : Nat} {l : List Bytes}
    {u : Unit} : requireValidWireStrings field i l = .ok u ↔ ∀ s ∈ l, validUTF8 s = true := by
  induction l generalizing i with
  | nil => simp [requireValidWireStrings]
  | cons s l ih =>
    simp [requireValidWireStrings, except_bind_eq_ok, requireValidWireString_ok, ih]

theorem checkedProtocolLen_bind_ok {f : Nat → Except ProtocolError α} {a : α} :
    (checkedProtocolLen label n >>= f) = .ok a ↔ n < 2 ^ 32 ∧ f n = .ok a := by
  simp only [except_bind_eq_ok, checkedProtocolLen_ok, and_assoc, exists_and_left,
    exists_eq_left]

variable {out : Bytes}

theorem writeString_ok : writeString s = .ok out ↔ WireBytes s ∧ out = prefixed s := by
  rw [writeString, checkedProtocolLen_bind_ok, Except.ok.injEq, eq_comm]
  rfl

theorem writeBytes_ok {b : Bytes} : writeBytes b = .ok out ↔ WireBytes b ∧ out = prefixed b := by
  rw [writeBytes, checkedProtocolLen_bind_ok, Except.ok.injEq, eq_comm]
  rfl

def OptionalFits (o : Option Bytes) : Prop := ∀ s ∈ o, WireBytes s

theorem writeOptionalString_ok {o : Option Bytes} :
    writeOptionalString o = .ok out ↔ OptionalFits o ∧ out = optionalText prefixed o := by
  cases o with
  | none => simp [writeOptionalString, optionalText, OptionalFits, eq_comm]
  | some s =>
    simp only [writeOptionalString, OptionalFits, except_bind_eq_ok, writeString_ok, Except.ok.injEq,
      Option.mem_def, Option.some.injEq, forall_eq', optionalText]
    constructor
    · rintro ⟨_, ⟨hs, rfl⟩, rfl⟩
      exact ⟨hs, rfl⟩
    · rintro ⟨hs, rfl⟩
      exact ⟨_, ⟨hs, rfl⟩, rfl⟩

theorem writeOptionalUint32_eq (o : Option UInt32) :
    writeOptionalUint32 o = optionalText writeUint32 o := by
  cases o <;> rfl

variable {write : α → Except ProtocolError Bytes} {Fits : α → Prop}

theorem writeItems_ok (h : ∀ a out, write a = .ok out ↔ Fits a ∧ out = text a) :
    writeItems write l = .ok out ↔ (∀ a ∈ l, Fits a) ∧ out = l.flatMap text := by
  induction l generalizing out with
  | nil => simp [writeItems, eq_comm]
  | cons a l ih =>
    simp only [writeItems, except_bind_eq_ok, h, ih, Except.ok.injEq, List.forall_mem_cons,
      List.flatMap_cons]
    constructor
    · rintro ⟨_, ⟨ha, rfl⟩, _, ⟨hl, rfl⟩, rfl⟩
      exact ⟨⟨ha, hl⟩, rfl⟩
    · rintro ⟨⟨ha, hl⟩, rfl⟩
      exact ⟨_, ⟨ha, rfl⟩, _, ⟨hl, rfl⟩, rfl⟩

theorem writeCounted_ok (h : ∀ a out, write a = .ok out ↔ Fits a ∧ out = text a) :
    writeCounted label write l = .ok out ↔
      (l.length < 2 ^ 32 ∧ ∀ a ∈ l, Fits a) ∧ out = countedText text l := by
  rw [writeCounted, checkedProtocolLen_bind_ok, and_assoc]
  simp only [except_bind_eq_ok, writeItems_ok h, Except.ok.injEq, and_assoc]
  refine and_congr Iff.rfl ⟨?_, ?_⟩
  · rintro ⟨_, hl, rfl, rfl⟩
    exact ⟨hl, rfl⟩
  · rintro ⟨hl, rfl⟩
    exact ⟨_, hl, rfl, rfl⟩

theorem writeStrings_ok {l : List Bytes} :
    writeCounted label writeString l = .ok out ↔
      (l.length < 2 ^ 32 ∧ ∀ s ∈ l, WireBytes s) ∧ out = countedText prefixed l :=
  writeCounted_ok fun _ _ => writeString_ok

/-! ## Sizes -/

/-- The step adds `k` when `Fits` holds and the sum is an `int`, and fails otherwise. -/
structure Sizer.Adds (f : Sizer → Sizer) (Fits : Prop) (k : Nat) : Prop where
  err : ∀ s, (f s).err = none ↔ s.err = none ∧ Fits ∧ s.n + k ≤ maxProtocolAlloc
  sum : ∀ s, (f s).err = none → (f s).n = s.n + k

namespace Sizer

variable {f : Sizer → Sizer} {k : Nat}

theorem Adds.comp {g : Sizer → Sizer} {P Q : Prop} {l : Nat} (hf : Adds f P k) (hg : Adds g Q l) :
    Adds (fun s => g (f s)) (P ∧ Q) (k + l) where
  err s := by
    rw [hg.err]
    constructor
    · rintro ⟨hs, hQ, hle⟩
      rw [hf.sum s hs] at hle
      obtain ⟨hs, hP, -⟩ := (hf.err s).mp hs
      exact ⟨hs, ⟨hP, hQ⟩, by omega⟩
    · rintro ⟨hs, ⟨hP, hQ⟩, hle⟩
      have hs' := (hf.err s).mpr ⟨hs, hP, by omega⟩
      exact ⟨hs', hQ, by rw [hf.sum s hs']; omega⟩
  sum s hs := by
    rw [hg.sum _ hs, hf.sum s ((hg.err _).mp hs).1, Nat.add_assoc]

theorem Adds.congr {P Q : Prop} {l : Nat} (h : Adds f P k) (hPQ : P ↔ Q) (hkl : k = l) :
    Adds f Q l := by
  subst hkl
  rwa [← propext hPQ]

theorem adds_id : Adds id True 0 :=
  ⟨fun s => by simp [s.bound], fun _ _ => rfl⟩

theorem add_adds (n : Nat) : Adds (add n) True n := by
  constructor
  · intro s
    unfold add
    cases herr : s.err with
    | some e => simp [herr]
    | none =>
      dsimp only
      split <;> simp_all
  · intro s hs
    unfold add at hs ⊢
    cases herr : s.err with
    | some e => simp [herr] at hs
    | none =>
      rw [herr] at hs
      dsimp only at hs ⊢
      split at hs
      · next hle => rw [dif_pos hle]
      · cases hs

theorem addChecked_adds (label : String) (length share : Nat) :
    Adds (addChecked label length share) (length < 2 ^ 32) share := by
  by_cases hlen : length < 2 ^ 32
  · have heq : addChecked label length share = add share := by
      funext s
      rw [addChecked, checkedProtocolLen_ok.mpr ⟨hlen, rfl⟩]
    rw [heq]
    exact (add_adds share).congr (iff_of_true trivial hlen) rfl
  · have herr : ∀ s, (addChecked label length share s).err ≠ none := by
      intro s
      rw [addChecked, checkedProtocolLen, if_pos (by omega)]
      simp
    exact ⟨fun s => iff_of_false (herr s) fun h => hlen h.2.1, fun s hs => absurd hs (herr s)⟩

theorem string_adds (v : Bytes) : Adds (string v) (WireBytes v) (prefixed v).length := by
  rw [length_prefixed]
  exact addChecked_adds _ _ _

theorem bytes_adds (v : Bytes) : Adds (bytes v) (WireBytes v) (prefixed v).length := by
  rw [length_prefixed]
  exact addChecked_adds _ _ _

theorem count_adds (label : String) (n : Nat) : Adds (count label n) (n < 2 ^ 32) 4 :=
  addChecked_adds _ _ _

theorem optionalString_adds (o : Option Bytes) :
    Adds (optionalString o) (OptionalFits o) (optionalText prefixed o).length := by
  cases o with
  | none => exact (add_adds 1).congr (by simp [OptionalFits]) rfl
  | some v =>
    refine ((add_adds 1).comp (string_adds v)).congr (by simp [OptionalFits]) ?_
    rw [optionalText, List.length_cons, Nat.add_comm]

theorem optionalUint32_adds (o : Option UInt32) :
    Adds (optionalUint32 o) True (optionalText writeUint32 o).length := by
  cases o with
  | none => exact (add_adds 1).congr Iff.rfl rfl
  | some v =>
    exact ((add_adds 1).comp (add_adds 4)).congr (by simp)
      (by simp [optionalText, writeUint32])

theorem foldl_adds {step : α → Sizer → Sizer} (h : ∀ a, Adds (step a) (Fits a) (text a).length)
    (l : List α) :
    Adds (fun s => l.foldl (fun s a => step a s) s) (∀ a ∈ l, Fits a)
      (l.flatMap text).length := by
  induction l with
  | nil => exact adds_id.congr (by simp) rfl
  | cons a l ih =>
    refine ((h a).comp ih).congr List.forall_mem_cons.symm ?_
    rw [List.flatMap_cons, List.length_append]

theorem size_ok {Fits : Prop} (h : Adds f Fits k) :
    (f start).size = .ok n ↔ (Fits ∧ k ≤ maxProtocolAlloc) ∧ n = k := by
  have herr : (f start).err = none ↔ Fits ∧ k ≤ maxProtocolAlloc := by
    rw [h.err start, show start.n + k = k from Nat.zero_add k]
    exact and_iff_right rfl
  unfold size
  cases hs : (f start).err with
  | none =>
    have hsum : (f start).n = k := (h.sum start hs).trans (Nat.zero_add k)
    rw [and_iff_right (herr.mp hs), hsum, Except.ok.injEq]
    exact eq_comm
  | some e =>
    have hnot : ¬ (Fits ∧ k ≤ maxProtocolAlloc) := by
      rw [← herr, hs]
      simp
    exact iff_of_false (by simp) fun hn => hnot hn.1

end Sizer

end Shunter.Protocol

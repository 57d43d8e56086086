import Shunter.Types.JSONDocument

/-!
# Canonical JSON text

The canonicalizer accepts a text exactly when the text denotes a document
without repeated names, and then prints that document with its members sorted.
-/

namespace Shunter

/-! ## Documents read by the decoder -/

inductive JSONPart where
  | value (v : JSONDocument)
  | items (items : List JSONDocument)
  | members (members : List (Bytes × JSONDocument))

def Token.scalar : Token → Option JSONDocument
  | .delim _ => none
  | .string s => some (.string s)
  | .number literal => some (.number literal)
  | .bool b => some (.bool b)
  | .null => some .null

/-- Reading a part of a text token by token moves the decoder to the end of the part. -/
inductive Decodes : JSONDecoder → JSONPart → JSONDecoder → Prop
  | scalar {d d' : JSONDecoder} {tok : Token} {v : JSONDocument} (htok : d.token = .ok (tok, d'))
      (hv : tok.scalar = some v) : Decodes d (.value v) d'
  | array {d d₁ d₂ d' : JSONDecoder} {items : List JSONDocument}
      (hopen : d.token = .ok (.delim 0x5B, d₁)) (hitems : Decodes d₁ (.items items) d₂)
      (hclose : d₂.token = .ok (.delim 0x5D, d')) : Decodes d (.value (.array items)) d'
  | object {d d₁ d₂ d' : JSONDecoder} {members : List (Bytes × JSONDocument)}
      (hopen : d.token = .ok (.delim 0x7B, d₁)) (hmembers : Decodes d₁ (.members members) d₂)
      (hclose : d₂.token = .ok (.delim 0x7D, d')) : Decodes d (.value (.object members)) d'
  | noItems {d : JSONDecoder} (hmore : d.more = false) : Decodes d (.items []) d
  | item {d d₁ d' : JSONDecoder} {v : JSONDocument} {items : List JSONDocument}
      (hmore : d.more = true) (hv : Decodes d (.value v) d₁)
      (hitems : Decodes d₁ (.items items) d') : Decodes d (.items (v :: items)) d'
  | noMembers {d : JSONDecoder} (hmore : d.more = false) : Decodes d (.members []) d
  | member {d d₁ d₂ d' : JSONDecoder} {name : Bytes} {v : JSONDocument}
      {members : List (Bytes × JSONDocument)} (hmore : d.more = true)
      (hname : d.token = .ok (.string name, d₁)) (hv : Decodes d₁ (.value v) d₂)
      (hmembers : Decodes d₂ (.members members) d') :
      Decodes d (.members ((name, v) :: members)) d'

/-- The document a whole text stands for. -/
def Denotes (x : Bytes) (v : JSONDocument) : Prop :=
  validUTF8 x = true ∧ ∃ d, Decodes (.new x) (.value v) d ∧ d.token = .error .eof

/-! ## Marks and scalars of a printed document -/

def tailText (items : List Bytes) : Bytes := items.flatMap fun i => 0x2C :: i

@[simp] theorem tailText_nil : tailText [] = [] := rfl

@[simp] theorem tailText_cons (i : Bytes) (items : List Bytes) :
    tailText (i :: items) = 0x2C :: (i ++ tailText items) := rfl

theorem joinComma_cons (i : Bytes) (items : List Bytes) :
    joinComma (i :: items) = i ++ tailText items := by
  induction items generalizing i with
  | nil => simp [joinComma]
  | cons j items ih => rw [joinComma, ih, tailText_cons]

def memberText (m : Bytes × Bytes) : Bytes := appendCanonicalJSONString m.1 ++ 0x3A :: m.2

theorem objectText_eq (members : List (Bytes × Bytes)) :
    objectText members = 0x7B :: joinComma (members.map memberText) ++ [0x7D] := rfl

/-! ## The decoder on canonical text -/

/-- A byte that starts a value: no space, and no mark that the decoder skips or closes with. -/
structure StartsValue (c : UInt8) : Prop where
  printable : 0x20 ≤ c
  space : isJSONSpace c = false
  closeArray : c ≠ 0x5D
  closeObject : c ≠ 0x7D
  colon : c ≠ 0x3A
  comma : c ≠ 0x2C

variable {c : UInt8}

theorem isDecimalDigit_startsValue (h : isDecimalDigit c = true) : StartsValue c := by
  unfold isDecimalDigit at h
  constructor
  case space =>
    unfold isJSONSpace
    grind
  all_goals grind

variable {t : Bytes}

theorem IsNumber.startsValue {n : Bytes} (h : IsNumber n) :
    ∃ c x, n = c :: x ∧ StartsValue c ∧ c ≠ 0x5B ∧ c ≠ 0x7B := by
  obtain ⟨c, x, rfl, hc⟩ := h.head
  refine ⟨c, x, rfl, ?_⟩
  rcases hc with hc | rfl
  · refine ⟨isDecimalDigit_startsValue hc, ?_⟩
    unfold isDecimalDigit at hc
    grind
  · exact ⟨by constructor <;> decide, by decide⟩

theorem JSONDocument.WellFormed.head {v : JSONDocument} (h : v.WellFormed) :
    ∃ c x, v.print = c :: x ∧ StartsValue c := by
  cases v with
  | null => exact ⟨_, _, by rw [print], by constructor <;> decide⟩
  | bool b => cases b <;> exact ⟨_, _, by rw [print], by constructor <;> decide⟩
  | number n =>
    rw [WellFormed] at h
    obtain ⟨c, x, rfl, hc, -⟩ := h.startsValue
    exact ⟨c, x, by rw [print], hc⟩
  | string s => exact ⟨_, _, by rw [print]; rfl, by constructor <;> decide⟩
  | array items => exact ⟨_, _, by rw [print]; rfl, by constructor <;> decide⟩
  | object members => exact ⟨_, _, by rw [print]; rfl, by constructor <;> decide⟩

theorem more_of_startsValue (h : StartsValue c) (x : Bytes) (s : TokenState)
    (stack : List TokenState) : (JSONDecoder.mk (c :: x) s stack).more = true := by
  simp [JSONDecoder.more, h.space, h.closeArray, h.closeObject]

theorem more_comma (x : Bytes) (s : TokenState) (stack : List TokenState) :
    (JSONDecoder.mk (0x2C :: x) s stack).more = true := rfl

section

variable (x : Bytes) (stack : List TokenState)

theorem token_array_comma :
    (JSONDecoder.mk (0x2C :: x) .arrayComma stack).token =
      (JSONDecoder.mk x .arrayValue stack).token := rfl

theorem token_object_comma :
    (JSONDecoder.mk (0x2C :: x) .objectComma stack).token =
      (JSONDecoder.mk x .objectKey stack).token := rfl

theorem token_colon :
    (JSONDecoder.mk (0x3A :: x) .objectColon stack).token =
      (JSONDecoder.mk x .objectValue stack).token := rfl

end

theorem scanString_string (s rest : Bytes) :
    scanString ((escapeString s ++ 0x22 :: rest).length + 1) (escapeString s ++ 0x22 :: rest) =
      some (s, rest) := by
  refine scanString_escapeString s rest ?_
  have := length_le_escapeString s
  simp only [List.length_append]
  omega

theorem appendCanonicalJSONString_append (s rest : Bytes) :
    appendCanonicalJSONString s ++ rest = 0x22 :: (escapeString s ++ 0x22 :: rest) := by
  simp [appendCanonicalJSONString]

variable {state : TokenState}

theorem token_key (s rest : Bytes) (stack : List TokenState)
    (h : state = .objectStart ∨ state = .objectKey) :
    (JSONDecoder.mk (appendCanonicalJSONString s ++ rest) state stack).token =
      .ok (.string s, ⟨rest, .objectColon, stack⟩) := by
  rw [appendCanonicalJSONString_append]
  have hscan := scanString_string s rest
  generalize escapeString s ++ 0x22 :: rest = x at hscan ⊢
  rcases h with rfl | rfl
  · simp [JSONDecoder.token, JSONDecoder.tokenFrom, isJSONSpace, hscan]
  · simp [JSONDecoder.token, JSONDecoder.tokenFrom, isJSONSpace, hscan]

variable {x : Bytes} {tok : Token} {rest : Bytes}

theorem token_scalar (state : TokenState) (stack : List TokenState) (hc : StartsValue c)
    (harray : c ≠ 0x5B) (hobject : c ≠ 0x7B) (hstate : state.valueAllowed = true)
    (hscan : scanScalar (c :: x) = some (tok, rest)) :
    (JSONDecoder.mk (c :: x) state stack).token = .ok (tok, ⟨rest, state.valueEnd, stack⟩) := by
  have hkey : (state == .objectStart || state == .objectKey) = false := by
    cases state <;> first | rfl | cases hstate
  simp [JSONDecoder.token, JSONDecoder.tokenFrom, hc.space, hc.closeArray, hc.closeObject,
    hc.colon, hc.comma, harray, hobject, hkey, hstate, hscan]

theorem scanScalar_string (s rest : Bytes) :
    scanScalar (0x22 :: (escapeString s ++ 0x22 :: rest)) = some (.string s, rest) := by
  have hscan := scanString_string s rest
  generalize escapeString s ++ 0x22 :: rest = x at hscan ⊢
  simp [scanScalar, hscan]

theorem scanScalar_number {n : Bytes} (h : IsNumber n) (hrest : NumberEnd rest) :
    scanScalar (n ++ rest) = some (.number n, rest) := by
  have hscan := scanNumber_append h hrest
  obtain ⟨c, x, rfl, hc⟩ := h.head
  have hne : c ≠ 0x22 ∧ c ≠ 0x74 ∧ c ≠ 0x66 ∧ c ≠ 0x6E := by
    rcases hc with hc | rfl
    · unfold isDecimalDigit at hc
      grind
    · decide
  rw [List.cons_append] at hscan ⊢
  unfold scanScalar
  split
  · next heq => exact absurd (List.cons.inj heq).1 hne.1
  · next heq => exact absurd (List.cons.inj heq).1 hne.2.1
  · next heq => exact absurd (List.cons.inj heq).1 hne.2.2.1
  · next heq => exact absurd (List.cons.inj heq).1 hne.2.2.2
  · rw [hscan]
    rfl

/-! ## Reading a printed document back -/

theorem Decodes.of_token {d d₀ d' : JSONDecoder} {v : JSONDocument}
    (h : Decodes d (.value v) d') (htok : d₀.token = d.token) : Decodes d₀ (.value v) d' := by
  cases h with
  | scalar h hv => exact .scalar (htok.trans h) hv
  | array hopen hitems hclose => exact .array (htok.trans hopen) hitems hclose
  | object hopen hmembers hclose => exact .object (htok.trans hopen) hmembers hclose

/-- The printed document is read as itself wherever a value may stand. -/
def ReadsBack (v : JSONDocument) : Prop :=
  ∀ (rest : Bytes) (state : TokenState) (stack : List TokenState),
    state.valueAllowed = true → NumberEnd rest →
      Decodes ⟨v.print ++ rest, state, stack⟩ (.value v) ⟨rest, state.valueEnd, stack⟩

theorem numberEnd_cons (h : c = 0x2C ∨ c = 0x5D ∨ c = 0x7D) (x : Bytes) : NumberEnd (c :: x) := by
  rw [NumberEnd, headIs_cons]
  rcases h with rfl | rfl | rfl <;> decide

theorem numberEnd_tail (items : List Bytes) (h : c = 0x5D ∨ c = 0x7D) (rest : Bytes) :
    NumberEnd (tailText items ++ c :: rest) := by
  cases items with
  | nil => exact numberEnd_cons (.inr h) rest
  | cons i items => exact numberEnd_cons (.inl rfl) _

theorem readsBack_scalar {v : JSONDocument} (tok : Token) (hv : tok.scalar = some v)
    (hprint : v.print = c :: x) (hc : StartsValue c) (harray : c ≠ 0x5B) (hobject : c ≠ 0x7B)
    (hscan : ∀ rest, NumberEnd rest → scanScalar (c :: x ++ rest) = some (tok, rest)) :
    ReadsBack v := by
  intro rest state stack hstate hrest
  rw [hprint]
  exact .scalar (token_scalar state stack hc harray hobject hstate (hscan rest hrest)) hv

theorem decodes_tailItems {items : List JSONDocument} (h : ∀ v ∈ items, ReadsBack v)
    (rest : Bytes) (stack : List TokenState) :
    Decodes ⟨tailText (items.map JSONDocument.print) ++ 0x5D :: rest, .arrayComma, stack⟩
      (.items items) ⟨0x5D :: rest, .arrayComma, stack⟩ := by
  induction items with
  | nil => exact .noItems rfl
  | cons v items ih =>
    rw [List.forall_mem_cons] at h
    have hv := h.1 (tailText (items.map JSONDocument.print) ++ 0x5D :: rest) .arrayValue
      stack rfl (numberEnd_tail _ (.inl rfl) rest)
    rw [List.map_cons, tailText_cons, List.cons_append, List.append_assoc]
    exact .item (more_comma ..) (hv.of_token (token_array_comma ..)) (ih h.2)

theorem readsBack_array {items : List JSONDocument} (hwf : ∀ v ∈ items, v.WellFormed)
    (h : ∀ v ∈ items, ReadsBack v) : ReadsBack (.array items) := by
  intro rest state stack hstate _
  rw [JSONDocument.print, arrayText, List.append_assoc, List.cons_append, List.singleton_append]
  have hopen : ∀ x, (JSONDecoder.mk (0x5B :: x) state stack).token =
      .ok (.delim 0x5B, ⟨x, .arrayStart, state :: stack⟩) := by
    intro x
    simp [JSONDecoder.token, JSONDecoder.tokenFrom, isJSONSpace, hstate]
  cases items with
  | nil => exact .array (hopen _) (.noItems rfl) rfl
  | cons v items =>
    rw [List.forall_mem_cons] at h
    obtain ⟨c, x, hprint, hc⟩ := (hwf v (by simp)).head
    have hv := h.1 (tailText (items.map JSONDocument.print) ++ 0x5D :: rest) .arrayStart
      (state :: stack) rfl (numberEnd_tail _ (.inl rfl) rest)
    have htail := decodes_tailItems h.2 rest (state :: stack)
    rw [List.map_cons, joinComma_cons, List.append_assoc]
    refine .array (hopen _) (.item ?_ hv htail) rfl
    rw [hprint]
    exact more_of_startsValue hc _ _ _

variable {members : List (Bytes × JSONDocument)} {stack : List TokenState}

theorem decodes_member {m : Bytes × JSONDocument} (h : ReadsBack m.2) {y : Bytes}
    {d d' : JSONDecoder} (hmore : d.more = true)
    (hd : d.token = (JSONDecoder.mk (memberText (m.1, m.2.print) ++ y) state stack).token)
    (hstate : state = .objectStart ∨ state = .objectKey) (hy : NumberEnd y)
    (hmembers : Decodes ⟨y, .objectComma, stack⟩ (.members members) d') :
    Decodes d (.members (m :: members)) d' := by
  have hname := token_key m.1 (0x3A :: (m.2.print ++ y)) stack hstate
  rw [memberText, List.append_assoc, List.cons_append, hname] at hd
  exact .member hmore hd ((h y .objectValue stack rfl hy).of_token (token_colon ..)) hmembers

def memberTexts (members : List (Bytes × JSONDocument)) : List Bytes :=
  members.map fun m => memberText (m.1, m.2.print)

theorem decodes_tailMembers (h : ∀ m ∈ members, ReadsBack m.2) (rest : Bytes)
    (stack : List TokenState) :
    Decodes ⟨tailText (memberTexts members) ++ 0x7D :: rest, .objectComma, stack⟩
      (.members members) ⟨0x7D :: rest, .objectComma, stack⟩ := by
  induction members with
  | nil => exact .noMembers rfl
  | cons m members ih =>
    rw [List.forall_mem_cons] at h
    rw [memberTexts, List.map_cons, tailText_cons, List.cons_append, List.append_assoc]
    exact decodes_member h.1 (more_comma ..) (token_object_comma ..) (.inr rfl)
      (numberEnd_tail _ (.inr rfl) rest) (ih h.2)

theorem readsBack_object (h : ∀ m ∈ members, ReadsBack m.2) : ReadsBack (.object members) := by
  intro rest state stack hstate _
  rw [JSONDocument.print, objectText_eq, List.map_map, List.append_assoc, List.cons_append,
    List.singleton_append]
  have hopen : ∀ x, (JSONDecoder.mk (0x7B :: x) state stack).token =
      .ok (.delim 0x7B, ⟨x, .objectStart, state :: stack⟩) := by
    intro x
    simp [JSONDecoder.token, JSONDecoder.tokenFrom, isJSONSpace, hstate]
  cases members with
  | nil => exact .object (hopen _) (.noMembers rfl) rfl
  | cons m members =>
    rw [List.forall_mem_cons] at h
    have htail := decodes_tailMembers h.2 rest (state :: stack)
    rw [List.map_cons, joinComma_cons, List.append_assoc]
    refine .object (hopen _) (decodes_member h.1 ?_ rfl (.inl rfl)
      (numberEnd_tail _ (.inr rfl) rest) htail) rfl
    exact more_of_startsValue (c := 0x22) (by constructor <;> decide) _ _ _

theorem JSONDocument.WellFormed.readsBack {v : JSONDocument} (h : v.WellFormed) : ReadsBack v := by
  induction v using JSONDocument.ind with
  | hnull =>
    exact readsBack_scalar .null rfl (by rw [print]) (by constructor <;> decide)
      (by decide) (by decide) fun rest _ => rfl
  | hbool b =>
    cases b <;>
      exact readsBack_scalar (.bool _) rfl (by rw [print]) (by constructor <;> decide)
        (by decide) (by decide) fun rest _ => rfl
  | hnumber n =>
    rw [WellFormed] at h
    obtain ⟨c, x, rfl, hc, harray, hobject⟩ := h.startsValue
    exact readsBack_scalar (.number _) rfl (by rw [print]) hc harray hobject
      fun rest hrest => scanScalar_number h hrest
  | hstring s =>
    refine readsBack_scalar (.string s) rfl (by rw [print]; rfl)
      (by constructor <;> decide) (by decide) (by decide) fun rest _ => ?_
    rw [← scanScalar_string s rest]
    simp
  | harray items ih =>
    rw [WellFormed] at h
    exact readsBack_array h fun v hv => ih v hv (h v hv)
  | hobject members ih =>
    rw [WellFormed] at h
    exact readsBack_object fun m hm => ih m hm (h m hm).2

/-! ## Printed text is UTF-8 -/

theorem validUTF8_joinComma {items : List Bytes} (h : ∀ i ∈ items, validUTF8 i = true) :
    validUTF8 (joinComma items) = true := by
  induction items using joinComma.induct with
  | case1 => rfl
  | case2 x => exact h x (by simp)
  | case3 x y xs ih =>
    rw [joinComma, validUTF8_append (h x (by simp)), validUTF8_ascii_cons (by decide)]
    exact ih fun i hi => h i (List.mem_cons_of_mem _ hi)

variable {s : Bytes}

theorem validUTF8_appendCanonicalJSONString (h : validUTF8 s = true) :
    validUTF8 (appendCanonicalJSONString s) = true := by
  rw [appendCanonicalJSONString, List.cons_append, validUTF8_ascii_cons (by decide),
    validUTF8_append (validUTF8_escapeString h)]
  rfl

theorem JSONDocument.WellFormed.valid {v : JSONDocument} (h : v.WellFormed) :
    validUTF8 v.print = true := by
  induction v using JSONDocument.ind with
  | hnull => rw [print]; rfl
  | hbool b => cases b <;> rw [print] <;> rfl
  | hnumber n =>
    rw [WellFormed] at h
    rw [print]
    exact validUTF8_of_ascii h.ascii
  | hstring s =>
    rw [WellFormed] at h
    rw [print]
    exact validUTF8_appendCanonicalJSONString h
  | harray items ih =>
    rw [WellFormed] at h
    have hitems : ∀ i ∈ items.map print, validUTF8 i = true :=
      List.forall_mem_map.mpr fun v hv => ih v hv (h v hv)
    rw [print, arrayText, List.cons_append, validUTF8_ascii_cons (by decide),
      validUTF8_append (validUTF8_joinComma hitems)]
    rfl
  | hobject members ih =>
    rw [WellFormed] at h
    have hmembers : ∀ i ∈ members.map fun m => memberText (m.1, m.2.print), validUTF8 i = true := by
      refine List.forall_mem_map.mpr fun m hm => ?_
      rw [memberText, validUTF8_append (validUTF8_appendCanonicalJSONString (h m hm).1),
        validUTF8_ascii_cons (by decide), ih m hm (h m hm).2]
    rw [print, objectText_eq, List.map_map, List.cons_append, validUTF8_ascii_cons (by decide),
      Function.comp_def, validUTF8_append (validUTF8_joinComma hmembers)]
    rfl

/-! ## What a token leaves -/

/-- What one token leaves: less input, still valid, and a scalar of the grammar. -/
structure TokenRead (x : Bytes) (tok : Token) (rest : Bytes) : Prop where
  shorter : rest.length < x.length
  valid : validUTF8 x = true → validUTF8 rest = true
  string : ∀ s, tok = .string s → validUTF8 x = true → validUTF8 s = true
  number : ∀ n, tok = .number n → IsNumber n

theorem TokenRead.cons {c : UInt8} {x rest : Bytes} {tok : Token} (h : TokenRead x tok rest)
    (hc : c < 0x80) : TokenRead (c :: x) tok rest where
  shorter := by
    have := h.shorter
    simp only [List.length_cons]
    omega
  valid hx := h.valid ((validUTF8_ascii_cons hc x).symm.trans hx)
  string s htok hx := h.string s htok ((validUTF8_ascii_cons hc x).symm.trans hx)
  number := h.number

theorem TokenRead.literal {p : Bytes} (hp : p ≠ []) (hascii : ∀ b ∈ p, b < 0x80)
    (hstring : ∀ s, tok ≠ .string s) (hnumber : ∀ n, tok = .number n → IsNumber n) :
    TokenRead (p ++ rest) tok rest where
  shorter := by
    have := List.length_pos_of_ne_nil hp
    rw [List.length_append]
    omega
  valid hx := by rwa [validUTF8_append (validUTF8_of_ascii hascii)] at hx
  string s htok := absurd htok (hstring s)
  number := hnumber

theorem TokenRead.scannedString {fuel : Nat} (h : scanString fuel x = some (s, rest)) :
    TokenRead (0x22 :: x) (.string s) rest := by
  refine TokenRead.cons ⟨scanString_shorter h, fun hx => (scanString_valid hx h).2, ?_, ?_⟩
    (by decide)
  · rintro s' hs hx
    cases hs
    exact (scanString_valid hx h).1
  · rintro n ⟨⟩

theorem scanScalar_ok (h : scanScalar x = some (tok, rest)) : TokenRead x tok rest := by
  unfold scanScalar at h
  split at h
  · simp only [Option.map_eq_some_iff, Prod.mk.injEq] at h
    obtain ⟨⟨s, rest'⟩, hscan, rfl, rfl⟩ := h
    exact .scannedString hscan
  · simp only [Option.some.injEq, Prod.mk.injEq] at h
    obtain ⟨rfl, rfl⟩ := h
    exact .literal (p := [0x74, 0x72, 0x75, 0x65]) (by simp) (by simp) nofun nofun
  · simp only [Option.some.injEq, Prod.mk.injEq] at h
    obtain ⟨rfl, rfl⟩ := h
    exact .literal (p := [0x66, 0x61, 0x6C, 0x73, 0x65]) (by simp) (by simp) nofun nofun
  · simp only [Option.some.injEq, Prod.mk.injEq] at h
    obtain ⟨rfl, rfl⟩ := h
    exact .literal (p := [0x6E, 0x75, 0x6C, 0x6C]) (by simp) (by simp) nofun nofun
  · simp only [Option.map_eq_some_iff, Prod.mk.injEq] at h
    obtain ⟨⟨n, rest'⟩, hscan, rfl, rfl⟩ := h
    obtain ⟨hn, rfl⟩ := scanNumber_ok hscan
    obtain ⟨c, y, hhead, -⟩ := hn.head
    refine .literal (by simp [hhead]) hn.ascii nofun ?_
    rintro n' ⟨⟩
    exact hn

theorem TokenRead.delim (hc : c < 0x80) (x : Bytes) : TokenRead (c :: x) (.delim c) x :=
  .literal (p := [c]) (by simp) (by simpa using hc) nofun nofun

variable {d : JSONDecoder}

theorem close_read (hc : c < 0x80) (h : JSONDecoder.close c x stack = .ok (tok, d)) :
    TokenRead (c :: x) tok d.input := by
  unfold JSONDecoder.close at h
  split at h
  · cases h
  · simp only [Except.ok.injEq, Prod.mk.injEq] at h
    obtain ⟨rfl, rfl⟩ := h
    exact .delim hc x

theorem tokenFrom_ok (h : JSONDecoder.tokenFrom stack state x = .ok (tok, d)) :
    TokenRead x tok d.input := by
  have hspace : ∀ c, isJSONSpace c = true → c < 0x80 := by
    unfold isJSONSpace
    grind
  revert h
  fun_induction JSONDecoder.tokenFrom stack state x <;> intro h
  case case2 hc ih => exact (ih h).cons (hspace _ hc)
  case case3 | case7 =>
    cases h
    exact .delim (by grind) _
  case case5 | case9 => exact close_read (by grind) h
  case case11 ih | case13 ih | case14 ih => exact (ih h).cons (by grind)
  case case16 hc _ _ hscan =>
    simp only [Bool.and_eq_true, beq_iff_eq] at hc
    cases h
    rw [hc.1]
    exact .scannedString hscan
  case case18 hscan =>
    cases h
    exact scanScalar_ok hscan
  all_goals cases h

theorem token_ok {d' : JSONDecoder} (h : d.token = .ok (tok, d')) :
    TokenRead d.input tok d'.input :=
  tokenFrom_ok h

/-! ## What a part leaves -/

def JSONPart.WellFormed : JSONPart → Prop
  | .value v => v.WellFormed
  | .items l => ∀ v ∈ l, v.WellFormed
  | .members l => ∀ m ∈ l, validUTF8 m.1 = true ∧ m.2.WellFormed

/-- A value takes at least one byte. -/
def JSONPart.least : JSONPart → Nat
  | .value _ => 1
  | _ => 0

variable {p : JSONPart} {d' : JSONDecoder}

theorem Decodes.shorter (h : Decodes d p d') : d'.input.length + p.least ≤ d.input.length := by
  induction h with
  | scalar htok hv => exact (token_ok htok).shorter
  | array hopen hitems hclose ih | object hopen hitems hclose ih =>
    have hfirst := (token_ok hopen).shorter
    have hlast := (token_ok hclose).shorter
    simp only [JSONPart.least] at ih ⊢
    omega
  | noItems | noMembers => exact le_rfl
  | item hmore hv hitems ihv ih =>
    simp only [JSONPart.least] at ihv ih ⊢
    omega
  | member hmore hname hv hmembers ihv ih =>
    have hfirst := (token_ok hname).shorter
    simp only [JSONPart.least] at ihv ih ⊢
    omega

theorem Decodes.valid (h : Decodes d p d') (hd : validUTF8 d.input = true) :
    p.WellFormed ∧ validUTF8 d'.input = true := by
  induction h with
  | @scalar d d' tok v htok hv =>
    have hread := token_ok htok
    refine ⟨?_, hread.valid hd⟩
    cases tok <;> cases hv <;> simp only [JSONPart.WellFormed, JSONDocument.WellFormed]
    · exact hread.string _ rfl hd
    · exact hread.number _ rfl
  | array hopen hitems hclose ih | object hopen hitems hclose ih =>
    obtain ⟨hwf, hv⟩ := ih ((token_ok hopen).valid hd)
    exact ⟨by rwa [JSONPart.WellFormed, JSONDocument.WellFormed], (token_ok hclose).valid hv⟩
  | noItems | noMembers => exact ⟨by simp [JSONPart.WellFormed], hd⟩
  | item hmore hv hitems ihv ih =>
    obtain ⟨hwf, hd₁⟩ := ihv hd
    obtain ⟨hall, hd₂⟩ := ih hd₁
    exact ⟨List.forall_mem_cons.mpr ⟨hwf, hall⟩, hd₂⟩
  | member hmore hname hv hmembers ihv ih =>
    have hread := token_ok hname
    obtain ⟨hwf, hd₁⟩ := ihv (hread.valid hd)
    obtain ⟨hall, hd₂⟩ := ih hd₁
    exact ⟨List.forall_mem_cons.mpr ⟨⟨hread.string _ rfl hd, hwf⟩, hall⟩, hd₂⟩

inductive JSONPart.SameShape : JSONPart → JSONPart → Prop
  | value (v w : JSONDocument) : SameShape (.value v) (.value w)
  | items (l l' : List JSONDocument) : SameShape (.items l) (.items l')
  | members (l l' : List (Bytes × JSONDocument)) : SameShape (.members l) (.members l')

theorem Decodes.unique {p' : JSONPart} {d'' : JSONDecoder} (h : Decodes d p d')
    (h' : Decodes d p' d'') (hs : p.SameShape p') : p = p' ∧ d' = d'' := by
  induction h generalizing p' d'' with
  | scalar htok hv =>
    cases hs
    cases h' with
    | scalar htok' hv' =>
      cases htok.symm.trans htok'
      cases hv.symm.trans hv'
      exact ⟨rfl, rfl⟩
    | array hopen | object hopen =>
      cases htok.symm.trans hopen
      cases hv
  | array hopen hpart hclose ih =>
    cases hs
    cases h' with
    | scalar htok hv =>
      cases hopen.symm.trans htok
      cases hv
    | array hopen' hpart' hclose' =>
      cases hopen.symm.trans hopen'
      obtain ⟨heq, rfl⟩ := ih hpart' (by constructor)
      cases heq
      cases hclose.symm.trans hclose'
      exact ⟨rfl, rfl⟩
    | object hopen' => cases hopen.symm.trans hopen'
  | object hopen hpart hclose ih =>
    cases hs
    cases h' with
    | scalar htok hv =>
      cases hopen.symm.trans htok
      cases hv
    | object hopen' hpart' hclose' =>
      cases hopen.symm.trans hopen'
      obtain ⟨heq, rfl⟩ := ih hpart' (by constructor)
      cases heq
      cases hclose.symm.trans hclose'
      exact ⟨rfl, rfl⟩
    | array hopen' => cases hopen.symm.trans hopen'
  | noItems hmore =>
    cases hs
    cases h' with
    | noItems => exact ⟨rfl, rfl⟩
    | item hmore' => cases hmore.symm.trans hmore'
  | noMembers hmore =>
    cases hs
    cases h' with
    | noMembers => exact ⟨rfl, rfl⟩
    | member hmore' => cases hmore.symm.trans hmore'
  | item hmore hv hitems ihv ih =>
    cases hs
    cases h' with
    | noItems hmore' => cases hmore.symm.trans hmore'
    | item hmore' hv' hitems' =>
      obtain ⟨heq, rfl⟩ := ihv hv' (.value _ _)
      cases heq
      obtain ⟨heq, rfl⟩ := ih hitems' (.items _ _)
      cases heq
      exact ⟨rfl, rfl⟩
  | member hmore hname hv hmembers ihv ih =>
    cases hs
    cases h' with
    | noMembers hmore' => cases hmore.symm.trans hmore'
    | member hmore' hname' hv' hmembers' =>
      cases hname.symm.trans hname'
      obtain ⟨heq, rfl⟩ := ihv hv' (.value _ _)
      cases heq
      obtain ⟨heq, rfl⟩ := ih hmembers' (.members _ _)
      cases heq
      exact ⟨rfl, rfl⟩

/-! ## The canonicalizer -/

/-- With enough fuel the loops of the canonicalizer accept the part and print it sorted. -/
def Canonicalized (d d' : JSONDecoder) : JSONPart → Prop
  | .value v => v.Distinct → ∀ fuel, 2 * d.input.length + 1 ≤ fuel →
      appendCanonicalJSONValue fuel d = .ok (v.sort.print, d')
  | .items l => (∀ v ∈ l, v.Distinct) → ∀ fuel, 2 * d.input.length + 2 ≤ fuel →
      jsonItems fuel d = .ok (l.map (·.sort.print), d')
  | .members l => (l.map (·.1)).Nodup → (∀ m ∈ l, m.2.Distinct) →
      ∀ fuel seen, 2 * d.input.length + 2 ≤ fuel → (∀ m ∈ l, m.1 ∉ seen) →
      jsonMembers fuel d seen = .ok (l.map JSONDocument.canonicalMember, d')

theorem appendCanonicalJSONValue_scalar {v : JSONDocument} (htok : d.token = .ok (tok, d'))
    (hv : tok.scalar = some v) (fuel : Nat) :
    v.Distinct ∧ appendCanonicalJSONValue (fuel + 1) d = .ok (v.sort.print, d') := by
  rw [appendCanonicalJSONValue, htok]
  cases tok with
  | delim c => cases hv
  | bool b =>
    cases hv
    cases b <;> simp [JSONDocument.Distinct, JSONDocument.sort, JSONDocument.print]
  | string | number | null =>
    cases hv
    simp [JSONDocument.Distinct, JSONDocument.sort, JSONDocument.print]

theorem Decodes.canonicalized (h : Decodes d p d') : Canonicalized d d' p := by
  induction h with
  | scalar htok hv =>
    rintro - (_ | fuel) hfuel
    · omega
    exact (appendCanonicalJSONValue_scalar htok hv fuel).2
  | array hopen hitems hclose ih =>
    rintro hv (_ | fuel) hfuel
    · omega
    have hfirst := (token_ok hopen).shorter
    rw [JSONDocument.Distinct] at hv
    rw [appendCanonicalJSONValue, hopen]
    simp [ih hv fuel (by omega), hclose, JSONDocument.print_sort_array]
  | object hopen hmembers hclose ih =>
    rintro hv (_ | fuel) hfuel
    · omega
    have hfirst := (token_ok hopen).shorter
    rw [JSONDocument.Distinct] at hv
    rw [appendCanonicalJSONValue, hopen]
    simp [ih hv.1 hv.2 fuel [] (by omega) (by simp), hclose, JSONDocument.print_sort_object]
  | noItems hmore =>
    rintro - (_ | fuel) hfuel
    · omega
    simp [jsonItems, hmore]
  | item hmore hv hitems ihv ih =>
    rintro hdistinct (_ | fuel) hfuel
    · omega
    have hshort := hv.shorter
    simp only [JSONPart.least] at hshort
    rw [List.forall_mem_cons] at hdistinct
    simp [jsonItems, hmore, ihv hdistinct.1 fuel (by omega), ih hdistinct.2 fuel (by omega)]
  | noMembers hmore =>
    rintro - - (_ | fuel) seen hfuel -
    · omega
    simp [jsonMembers, hmore]
  | member hmore hname hv hmembers ihv ih =>
    rintro hnames hdistinct (_ | fuel) seen hfuel hseen
    · omega
    have hfirst := (token_ok hname).shorter
    have hshort := hv.shorter
    simp only [JSONPart.least] at hshort
    rw [List.forall_mem_cons] at hdistinct hseen
    rw [List.map_cons, List.nodup_cons] at hnames
    have hrest := ih hnames.2 hdistinct.2 fuel (_ :: seen) (by omega) fun m hm => by
      rw [List.mem_cons, not_or]
      exact ⟨fun heq => hnames.1 (List.mem_map.mpr ⟨m, hm, heq⟩), hseen.2 m hm⟩
    simp [jsonMembers, hmore, hname, hseen.1, ihv hdistinct.1 fuel (by omega), hrest,
      JSONDocument.canonicalMember]

/-- What the loops of the canonicalizer accept they have read as a part. -/
structure CanonicalSound (fuel : Nat) : Prop where
  value : ∀ d t d', appendCanonicalJSONValue fuel d = .ok (t, d') →
    ∃ v, Decodes d (.value v) d' ∧ v.Distinct ∧ t = v.sort.print
  items : ∀ d l d', jsonItems fuel d = .ok (l, d') →
    ∃ items, Decodes d (.items items) d' ∧ (∀ v ∈ items, v.Distinct) ∧
      l = items.map (·.sort.print)
  members : ∀ d seen l d', jsonMembers fuel d seen = .ok (l, d') →
    ∃ members, Decodes d (.members members) d' ∧ (members.map (·.1)).Nodup ∧
      (∀ m ∈ members, m.1 ∉ seen ∧ m.2.Distinct) ∧ l = members.map JSONDocument.canonicalMember

section Sound

variable {fuel : Nat} (h : ∀ n < fuel, CanonicalSound n)
include h

theorem canonicalSound_value (hok : appendCanonicalJSONValue fuel d = .ok (t, d')) :
    ∃ v, Decodes d (.value v) d' ∧ v.Distinct ∧ t = v.sort.print := by
  revert hok
  fun_cases appendCanonicalJSONValue fuel d <;> rintro ⟨⟩
  case case3 htok | case4 htok | case5 htok | case6 htok | case7 htok =>
    exact ⟨_, .scalar htok rfl, by simp [JSONDocument.Distinct],
      by simp [JSONDocument.sort, JSONDocument.print]⟩
  · next fuel c d₁ hc l d₂ hloop hopen hclose =>
    obtain ⟨members, hread, hnames, hall, rfl⟩ := (h fuel (by omega)).members _ _ _ _ hloop
    rw [beq_iff_eq.mp hc] at hopen
    refine ⟨_, .object hopen hread hclose, ?_, (JSONDocument.print_sort_object _).symm⟩
    rw [JSONDocument.Distinct]
    exact ⟨hnames, fun m hm => (hall m hm).2⟩
  · next fuel c d₁ _ hc l d₂ hloop hopen hclose =>
    obtain ⟨items, hread, hall, rfl⟩ := (h fuel (by omega)).items _ _ _ hloop
    rw [beq_iff_eq.mp hc] at hopen
    refine ⟨_, .array hopen hread hclose, ?_, (JSONDocument.print_sort_array _).symm⟩
    rwa [JSONDocument.Distinct]

theorem canonicalSound_items {l : List Bytes} (hok : jsonItems fuel d = .ok (l, d')) :
    ∃ items, Decodes d (.items items) d' ∧ (∀ v ∈ items, v.Distinct) ∧
      l = items.map (·.sort.print) := by
  revert hok
  fun_cases jsonItems fuel d <;> rintro ⟨⟩
  · next fuel t d₁ l hmore hvalue hloop =>
    obtain ⟨v, hread, hv, rfl⟩ := (h fuel (by omega)).value _ _ _ hvalue
    obtain ⟨items, hreads, hall, rfl⟩ := (h fuel (by omega)).items _ _ _ hloop
    exact ⟨v :: items, .item hmore hread hreads, List.forall_mem_cons.mpr ⟨hv, hall⟩, rfl⟩
  · next hmore => exact ⟨[], .noItems (by simpa using hmore), by simp, rfl⟩

theorem canonicalSound_members {seen : List Bytes} {l : List (Bytes × Bytes)}
    (hok : jsonMembers fuel d seen = .ok (l, d')) :
    ∃ members, Decodes d (.members members) d' ∧ (members.map (·.1)).Nodup ∧
      (∀ m ∈ members, m.1 ∉ seen ∧ m.2.Distinct) ∧
      l = members.map JSONDocument.canonicalMember := by
  revert hok
  fun_cases jsonMembers fuel d seen <;> rintro ⟨⟩
  · next fuel name d₁ t d₂ hvalue l hmore hname hnew hloop =>
    obtain ⟨v, hread, hv, rfl⟩ := (h fuel (by omega)).value _ _ _ hvalue
    obtain ⟨members, hreads, hnames, hall, rfl⟩ := (h fuel (by omega)).members _ _ _ _ hloop
    have hne : ∀ m ∈ members, m.1 ≠ name ∧ m.1 ∉ seen := fun m hm => by
      simpa [not_or] using (hall m hm).1
    refine ⟨(name, v) :: members, .member hmore hname hread hreads, ?_, ?_, rfl⟩
    · rw [List.map_cons, List.nodup_cons, List.mem_map]
      exact ⟨fun ⟨m, hm, heq⟩ => (hne m hm).1 heq, hnames⟩
    · exact List.forall_mem_cons.mpr
        ⟨⟨hnew, hv⟩, fun m hm => ⟨(hne m hm).2, (hall m hm).2⟩⟩
  · next hmore => exact ⟨[], .noMembers (by simpa using hmore), by simp, by simp, rfl⟩

end Sound

theorem canonicalSound (fuel : Nat) : CanonicalSound fuel := by
  induction fuel using Nat.strong_induction_on with
  | _ fuel ih =>
    exact ⟨fun _ _ _ => canonicalSound_value ih, fun _ _ _ => canonicalSound_items ih,
      fun _ _ _ _ => canonicalSound_members ih⟩

/-! ## Canonical text and what it denotes -/

theorem canonicalizeJSON_ok_iff :
    canonicalizeJSON x = .ok t ↔ ∃ v, Denotes x v ∧ v.Distinct ∧ t = v.sort.print := by
  constructor
  · fun_cases canonicalizeJSON x <;> rintro ⟨⟩
    next hvalid d hend hvalue =>
    obtain ⟨v, hread, hv, rfl⟩ := (canonicalSound _).value _ _ _ hvalue
    exact ⟨v, ⟨hvalid, d, hread, hend⟩, hv, rfl⟩
  · rintro ⟨v, ⟨hvalid, d, hread, hend⟩, hv, rfl⟩
    have hvalue := hread.canonicalized hv (2 * x.length + 1) le_rfl
    rw [canonicalizeJSON, if_pos hvalid, hvalue]
    dsimp only
    rw [hend]

variable {v w : JSONDocument}

theorem Denotes.unique (h : Denotes x v) (h' : Denotes x w) : v = w := by
  obtain ⟨-, d, hread, -⟩ := h
  obtain ⟨-, d', hread', -⟩ := h'
  cases (hread.unique hread' (.value _ _)).1
  rfl

theorem Denotes.wellFormed (h : Denotes x v) : v.WellFormed := by
  obtain ⟨hvalid, d, hread, -⟩ := h
  exact (hread.valid hvalid).1

theorem denotes_print (h : v.WellFormed) : Denotes v.print v := by
  have hread := h.readsBack [] .topValue [] rfl (headIs_nil _)
  rw [List.append_nil] at hread
  exact ⟨h.valid, _, hread, rfl⟩

theorem canonicalizeJSON_idem (h : canonicalizeJSON x = .ok t) : canonicalizeJSON t = .ok t := by
  obtain ⟨v, hdenotes, hv, rfl⟩ := canonicalizeJSON_ok_iff.mp h
  have hsame := v.sameValue_sort
  rw [canonicalizeJSON_ok_iff]
  exact ⟨v.sort, denotes_print hdenotes.wellFormed.sort, hsame.distinct_iff.mp hv,
    congrArg JSONDocument.print (hsame.sort_eq hv)⟩

theorem canonicalizeJSON_head (h : canonicalizeJSON x = .ok t) :
    ∃ c y, t = c :: y ∧ StartsValue c := by
  obtain ⟨v, hdenotes, -, rfl⟩ := canonicalizeJSON_ok_iff.mp h
  exact hdenotes.wellFormed.sort.head

/-- An object with two members, the second name spelled with an escape. -/
def spacedText : Bytes :=
  [0x7B, 0x22, 0x62, 0x22, 0x3A, 0x31, 0x2C, 0x20, 0x22, 0x5C, 0x75, 0x30, 0x30, 0x36, 0x31,
    0x22, 0x3A, 0x32, 0x7D]

def sortedText : Bytes :=
  [0x7B, 0x22, 0x61, 0x22, 0x3A, 0x32, 0x2C, 0x22, 0x62, 0x22, 0x3A, 0x31, 0x7D]

theorem scanString_plain (h : ∀ b ∈ s, b ≠ 0x22 ∧ b ≠ 0x5C ∧ 0x20 ≤ b) {fuel : Nat}
    (hfuel : s.length < fuel) (rest : Bytes) :
    scanString fuel (s ++ 0x22 :: rest) = some (s, rest) := by
  induction s generalizing fuel with
  | nil =>
    obtain ⟨fuel, rfl⟩ := Nat.exists_eq_add_of_lt hfuel
    rfl
  | cons b s ih =>
    obtain ⟨fuel, rfl⟩ := Nat.exists_eq_add_of_lt (Nat.zero_lt_of_lt hfuel)
    rw [List.length_cons] at hfuel
    obtain ⟨hquote, hslash, hlow⟩ := h b (by simp)
    have hlt : s.length < fuel := by omega
    have hscan := ih (fun c hc => h c (by simp [hc])) hlt
    simp [scanString, hquote, hslash, UInt8.not_lt.mpr hlow, hscan]

theorem canonicalizeJSON_plain (hvalid : validUTF8 s = true)
    (h : ∀ b ∈ s, b ≠ 0x22 ∧ b ≠ 0x5C ∧ 0x20 ≤ b) :
    canonicalizeJSON (0x22 :: (s ++ [0x22])) = .ok (appendCanonicalJSONString s) := by
  have hutf8 : validUTF8 (0x22 :: (s ++ [0x22])) = true := by
    rw [validUTF8_ascii_cons (by decide), validUTF8_append hvalid]
    rfl
  have hscan : scanScalar (0x22 :: (s ++ [0x22])) = some (.string s, []) := by
    rw [scanScalar, scanString_plain h (by simp only [List.length_append]; omega)]
    rfl
  have htoken := token_scalar .topValue [] (by constructor <;> decide) (by decide)
    (by decide) rfl hscan
  rw [canonicalizeJSON, if_pos hutf8, JSONDecoder.new, appendCanonicalJSONValue, htoken]
  rfl

end Shunter

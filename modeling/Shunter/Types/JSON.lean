import Shunter.Types.UTF8

/-!
# Canonical JSON

JSON values are stored in a canonical form: no insignificant whitespace, object
keys sorted and distinct, strings escaped as `json.Marshal` does.  The decoder
below follows `json.Decoder` with `UseNumber`, token by token.
-/

namespace Shunter

inductive JSONError where
  | eof
  | syntaxError
  | invalidUTF8
  | unexpectedDelimiter (c : UInt8)
  | objectKey
  | duplicateKey (key : Bytes)
  | expectedEnd (c : UInt8)
  | trailingToken
  | outOfFuel
  deriving DecidableEq

/-! ## Scanning scalars -/

def isJSONSpace (c : UInt8) : Bool := c == 0x20 || c == 0x09 || c == 0x0D || c == 0x0A

def isDecimalDigit (c : UInt8) : Bool := 0x30 ≤ c && c ≤ 0x39

def hexDigit (c : UInt8) : Option Nat :=
  if isDecimalDigit c then some (c.toNat - 0x30)
  else if 0x61 ≤ c && c ≤ 0x66 then some (c.toNat - 0x61 + 10)
  else if 0x41 ≤ c && c ≤ 0x46 then some (c.toNat - 0x41 + 10)
  else none

/-- Four hexadecimal digits, as they follow a backslash and a `u`. -/
def scanHex4 : Bytes → Option (Nat × Bytes)
  | a :: b :: c :: d :: x =>
    match hexDigit a, hexDigit b, hexDigit c, hexDigit d with
    | some a, some b, some c, some d => some (((a * 16 + b) * 16 + c) * 16 + d, x)
    | _, _, _, _ => none
  | _ => none

/-- `utf8.AppendRune` for a code point that is not a surrogate. -/
def encodeRune (r : Nat) : Bytes :=
  if r < 0x80 then [.ofNat r]
  else if r < 0x800 then [.ofNat (0xC0 + r / 64), .ofNat (0x80 + r % 64)]
  else if r < 0x10000 then
    [.ofNat (0xE0 + r / 4096), .ofNat (0x80 + r / 64 % 64), .ofNat (0x80 + r % 64)]
  else
    [.ofNat (0xF0 + r / 262144), .ofNat (0x80 + r / 4096 % 64), .ofNat (0x80 + r / 64 % 64),
      .ofNat (0x80 + r % 64)]

def simpleEscape (c : UInt8) : Option UInt8 :=
  if c == 0x22 || c == 0x5C || c == 0x2F then some c
  else if c == 0x62 then some 0x08
  else if c == 0x66 then some 0x0C
  else if c == 0x6E then some 0x0A
  else if c == 0x72 then some 0x0D
  else if c == 0x74 then some 0x09
  else none

/-- The low half of a surrogate pair, if one is escaped next. -/
def lowSurrogate : Bytes → Option (Nat × Bytes)
  | 0x5C :: 0x75 :: x =>
    match scanHex4 x with
    | some (r, x) => if 0xDC00 ≤ r ∧ r < 0xE000 then some (r, x) else none
    | none => none
  | _ => none

/-- The rune of an escaped number; a surrogate without its partner is replaced. -/
def unicodeEscape (x : Bytes) : Option (Bytes × Bytes) :=
  match scanHex4 x with
  | none => none
  | some (r, x) =>
    if 0xD800 ≤ r ∧ r < 0xE000 then
      match if r < 0xDC00 then lowSurrogate x else none with
      | some (r', x) => some (encodeRune (0x10000 + (r - 0xD800) * 1024 + (r' - 0xDC00)), x)
      | none => some (encodeRune 0xFFFD, x)
    else some (encodeRune r, x)

/--
The rest of a string after its opening quote: the decoded bytes and what
follows the closing quote.  Every round takes at least one byte, so the length
of the input is fuel enough.
-/
def scanString : Nat → Bytes → Option (Bytes × Bytes)
  | 0, _ => none
  | _ + 1, [] => none
  | fuel + 1, c :: x =>
    if c == 0x22 then some ([], x)
    else if c == 0x5C then
      match x with
      | [] => none
      | e :: x =>
        match if e == 0x75 then unicodeEscape x
          else (simpleEscape e).map fun b => ([b], x) with
        | none => none
        | some (s, x) => (scanString fuel x).map fun p => (s ++ p.1, p.2)
    else if c < 0x20 then none
    else (scanString fuel x).map fun p => (c :: p.1, p.2)

def scanSign : Bytes → Bytes × Bytes
  | 0x2D :: x => ([0x2D], x)
  | x => ([], x)

def scanInt : Bytes → Option (Bytes × Bytes)
  | [] => none
  | c :: x =>
    if c == 0x30 then some ([0x30], x)
    else if isDecimalDigit c then
      some (c :: x.takeWhile isDecimalDigit, x.dropWhile isDecimalDigit)
    else none

def scanDigits (x : Bytes) : Option (Bytes × Bytes) :=
  if x.takeWhile isDecimalDigit = [] then none
  else some (x.takeWhile isDecimalDigit, x.dropWhile isDecimalDigit)

def scanFraction : Bytes → Option (Bytes × Bytes)
  | 0x2E :: x => (scanDigits x).map fun p => (0x2E :: p.1, p.2)
  | x => some ([], x)

def scanExponentSign : Bytes → Bytes × Bytes
  | 0x2B :: x => ([0x2B], x)
  | x => scanSign x

def scanExponent : Bytes → Option (Bytes × Bytes)
  | [] => some ([], [])
  | c :: x =>
    if c == 0x65 || c == 0x45 then
      (scanDigits (scanExponentSign x).2).map fun p =>
        (c :: (scanExponentSign x).1 ++ p.1, p.2)
    else some ([], c :: x)

/-- The literal text of a number, which `UseNumber` keeps. -/
def scanNumber (x : Bytes) : Option (Bytes × Bytes) :=
  match scanInt (scanSign x).2 with
  | none => none
  | some (int, x₁) =>
    match scanFraction x₁ with
    | none => none
    | some (frac, x₂) =>
      match scanExponent x₂ with
      | none => none
      | some (exp, x₃) => some ((scanSign x).1 ++ int ++ frac ++ exp, x₃)

/-! ## The token decoder -/

inductive Token where
  | delim (c : UInt8)
  | string (s : Bytes)
  | number (literal : Bytes)
  | bool (b : Bool)
  | null
  deriving DecidableEq

def scanScalar : Bytes → Option (Token × Bytes)
  | 0x22 :: x => (scanString (x.length + 1) x).map fun p => (.string p.1, p.2)
  | 0x74 :: 0x72 :: 0x75 :: 0x65 :: x => some (.bool true, x)
  | 0x66 :: 0x61 :: 0x6C :: 0x73 :: 0x65 :: x => some (.bool false, x)
  | 0x6E :: 0x75 :: 0x6C :: 0x6C :: x => some (.null, x)
  | x => (scanNumber x).map fun p => (.number p.1, p.2)

inductive TokenState where
  | topValue | arrayStart | arrayValue | arrayComma
  | objectStart | objectKey | objectColon | objectValue | objectComma
  deriving DecidableEq

namespace TokenState

def valueAllowed : TokenState → Bool
  | topValue | arrayStart | arrayValue | objectValue => true
  | _ => false

def valueEnd : TokenState → TokenState
  | arrayStart | arrayValue => arrayComma
  | objectValue => objectComma
  | s => s

end TokenState

structure JSONDecoder where
  input : Bytes
  state : TokenState
  stack : List TokenState
  deriving DecidableEq

namespace JSONDecoder

/-- Leave the array or object; its value is complete for what encloses it. -/
def close (c : UInt8) (x : Bytes) : List TokenState → Except JSONError (Token × JSONDecoder)
  | [] => .error .syntaxError
  | s :: stack => .ok (.delim c, ⟨x, s.valueEnd, stack⟩)

/-- `Decoder.Token`: spaces, commas and colons are skipped where they are allowed. -/
def tokenFrom (stack : List TokenState) :
    TokenState → Bytes → Except JSONError (Token × JSONDecoder)
  | _, [] => .error .eof
  | s, c :: x =>
    if isJSONSpace c then tokenFrom stack s x
    else if c == 0x5B then
      if s.valueAllowed then .ok (.delim c, ⟨x, .arrayStart, s :: stack⟩)
      else .error .syntaxError
    else if c == 0x5D then
      if s = .arrayStart ∨ s = .arrayComma then close c x stack else .error .syntaxError
    else if c == 0x7B then
      if s.valueAllowed then .ok (.delim c, ⟨x, .objectStart, s :: stack⟩)
      else .error .syntaxError
    else if c == 0x7D then
      if s = .objectStart ∨ s = .objectComma then close c x stack else .error .syntaxError
    else if c == 0x3A then
      if s = .objectColon then tokenFrom stack .objectValue x else .error .syntaxError
    else if c == 0x2C then
      if s = .arrayComma then tokenFrom stack .arrayValue x
      else if s = .objectComma then tokenFrom stack .objectKey x
      else .error .syntaxError
    else if c == 0x22 && (s == .objectStart || s == .objectKey) then
      match scanString (x.length + 1) x with
      | some (key, x) => .ok (.string key, ⟨x, .objectColon, stack⟩)
      | none => .error .syntaxError
    else if s.valueAllowed then
      match scanScalar (c :: x) with
      | some (tok, x) => .ok (tok, ⟨x, s.valueEnd, stack⟩)
      | none => .error .syntaxError
    else .error .syntaxError

def token (d : JSONDecoder) : Except JSONError (Token × JSONDecoder) :=
  tokenFrom d.stack d.state d.input

def more (d : JSONDecoder) : Bool :=
  match d.input.dropWhile isJSONSpace with
  | [] => false
  | c :: _ => c != 0x5D && c != 0x7D

def new (x : Bytes) : JSONDecoder := ⟨x, .topValue, []⟩

end JSONDecoder

/-! ## Canonical output -/

def hexChar (n : Nat) : UInt8 := if n < 10 then .ofNat (0x30 + n) else .ofNat (0x61 + (n - 10))

def escapeByte (b : UInt8) : Bytes :=
  if b == 0x22 || b == 0x5C then [0x5C, b]
  else if b == 0x08 then [0x5C, 0x62]
  else if b == 0x0C then [0x5C, 0x66]
  else if b == 0x0A then [0x5C, 0x6E]
  else if b == 0x0D then [0x5C, 0x72]
  else if b == 0x09 then [0x5C, 0x74]
  else if b < 0x20 || b == 0x3C || b == 0x3E || b == 0x26 then
    [0x5C, 0x75, 0x30, 0x30, hexChar (b.toNat / 16), hexChar (b.toNat % 16)]
  else [b]

/--
The body of a marshalled string.  Strings come out of the decoder and are valid
UTF-8, so that no byte has to be replaced; U+2028 and U+2029 are escaped.
-/
def escapeString : Bytes → Bytes
  | 0xE2 :: 0x80 :: 0xA8 :: s => [0x5C, 0x75, 0x32, 0x30, 0x32, 0x38] ++ escapeString s
  | 0xE2 :: 0x80 :: 0xA9 :: s => [0x5C, 0x75, 0x32, 0x30, 0x32, 0x39] ++ escapeString s
  | b :: s => escapeByte b ++ escapeString s
  | [] => []

def appendCanonicalJSONString (value : Bytes) : Bytes := 0x22 :: escapeString value ++ [0x22]

def joinComma : List Bytes → Bytes
  | [] => []
  | [x] => x
  | x :: y :: xs => x ++ 0x2C :: joinComma (y :: xs)

def objectText (members : List (Bytes × Bytes)) : Bytes :=
  0x7B :: joinComma (members.map fun m => appendCanonicalJSONString m.1 ++ 0x3A :: m.2) ++ [0x7D]

def arrayText (items : List Bytes) : Bytes := 0x5B :: joinComma items ++ [0x5D]

def memberLE (a b : Bytes × Bytes) : Prop := compare a.1 b.1 ≠ .gt

instance : DecidableRel memberLE := fun _ _ => inferInstanceAs (Decidable (_ ≠ _))

mutual

/--
The canonical text of the next value.  A value reads at least one byte, so the
calls of a value and of the loop around it stay below twice the input.
-/
def appendCanonicalJSONValue :
    Nat → JSONDecoder → Except JSONError (Bytes × JSONDecoder)
  | 0, _ => .error .outOfFuel
  | fuel + 1, dec =>
    match dec.token with
    | .error e => .error e
    | .ok (.string s, dec) => .ok (appendCanonicalJSONString s, dec)
    | .ok (.number literal, dec) => .ok (literal, dec)
    | .ok (.bool true, dec) => .ok ([0x74, 0x72, 0x75, 0x65], dec)
    | .ok (.bool false, dec) => .ok ([0x66, 0x61, 0x6C, 0x73, 0x65], dec)
    | .ok (.null, dec) => .ok ([0x6E, 0x75, 0x6C, 0x6C], dec)
    | .ok (.delim c, dec) =>
      if c == 0x7B then
        match jsonMembers fuel dec [] with
        | .error e => .error e
        | .ok (members, dec) =>
          match dec.token with
          | .error e => .error e
          | .ok (tok, dec) =>
            if tok = .delim 0x7D then
              .ok (objectText (members.insertionSort memberLE), dec)
            else .error (.expectedEnd 0x7D)
      else if c == 0x5B then
        match jsonItems fuel dec with
        | .error e => .error e
        | .ok (items, dec) =>
          match dec.token with
          | .error e => .error e
          | .ok (tok, dec) =>
            if tok = .delim 0x5D then .ok (arrayText items, dec)
            else .error (.expectedEnd 0x5D)
      else .error (.unexpectedDelimiter c)

/-- The loop of `appendCanonicalJSONObject`; `seen` are the keys read so far. -/
def jsonMembers : Nat → JSONDecoder → List Bytes →
    Except JSONError (List (Bytes × Bytes) × JSONDecoder)
  | 0, _, _ => .error .outOfFuel
  | fuel + 1, dec, seen =>
    if dec.more then
      match dec.token with
      | .error e => .error e
      | .ok (.string key, dec) =>
        if key ∈ seen then .error (.duplicateKey key)
        else
          match appendCanonicalJSONValue fuel dec with
          | .error e => .error e
          | .ok (value, dec) =>
            match jsonMembers fuel dec (key :: seen) with
            | .error e => .error e
            | .ok (members, dec) => .ok ((key, value) :: members, dec)
      | .ok (_, _) => .error .objectKey
    else .ok ([], dec)

def jsonItems : Nat → JSONDecoder → Except JSONError (List Bytes × JSONDecoder)
  | 0, _ => .error .outOfFuel
  | fuel + 1, dec =>
    if dec.more then
      match appendCanonicalJSONValue fuel dec with
      | .error e => .error e
      | .ok (item, dec) =>
        match jsonItems fuel dec with
        | .error e => .error e
        | .ok (items, dec) => .ok (item :: items, dec)
    else .ok ([], dec)

end

def canonicalizeJSON (x : Bytes) : Except JSONError Bytes :=
  if validUTF8 x then
    match appendCanonicalJSONValue (2 * x.length + 1) (.new x) with
    | .error e => .error e
    | .ok (out, dec) =>
      match dec.token with
      | .ok (_, _) => .error .trailingToken
      | .error .eof => .ok out
      | .error e => .error e
  else .error .invalidUTF8

end Shunter

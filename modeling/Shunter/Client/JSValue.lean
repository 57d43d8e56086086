import Shunter.Client.TextCodec
import Shunter.Foundation.Codec
import Shunter.Foundation.FloatFormat

/-!
# JavaScript values

The values that the row codec handles.  A number is exact: its magnitude counts
units of `2 ^ -1074`, the smallest positive double.  `DataView` reads and writes
it at the two float formats.
-/

namespace Shunter.Client

open Foundation

inductive JSNumber where
  | nan
  | infinity (negative : Bool)
  | finite (negative : Bool) (magnitude : Nat)
  deriving DecidableEq

/-- `other` stands for every value that is of no use to a column without JSON. -/
inductive JSValue (ω : Type) where
  | undefined
  | null
  | boolean (b : Bool)
  | number (n : JSNumber)
  | bigint (n : Int)
  | string (s : JSString)
  | bytes (b : Bytes)
  | strings (xs : List JSString)
  | other (o : ω)
  deriving DecidableEq

/-- `JSON.parse` and `JSON.stringify`; `none` where the first throws and the second
gives `undefined`. -/
structure JSONOps (ω : Type) where
  parse : JSString → Option (JSValue ω)
  stringify : JSValue ω → Option JSString

/-! ## Integers -/

namespace JSNumber

def one : Nat := 2 ^ 1074

def ofInt (n : Int) : JSNumber := .finite (n < 0) (n.natAbs * one)

/-- The integer that a number is, if `Number.isInteger` holds of it. -/
def toInteger? : JSNumber → Option Int
  | .finite negative m =>
    if m % one = 0 then some (if negative then -((m / one : Nat) : Int) else (m / one : Nat))
    else none
  | _ => none

theorem toInteger?_ofInt (n : Int) : (ofInt n).toInteger? = some n := by
  have hpos : 0 < one := by
    unfold one
    positivity
  simp only [ofInt, toInteger?, Nat.mul_mod_left, if_true, Nat.mul_div_cancel _ hpos,
    decide_eq_true_eq, Option.some.injEq]
  split <;> omega

/-! ## Floats -/

/-- A binary format: fraction bits, exponent bits and its smallest number in units of the
smallest double. -/
structure FloatLayout where
  fraction : Nat
  exponent : Nat
  unit : Nat

def float32 : FloatLayout := ⟨23, 8, 925⟩

def float64 : FloatLayout := ⟨52, 11, 0⟩

namespace FloatLayout

variable (l : FloatLayout)

def signBit : Nat := 2 ^ (l.fraction + l.exponent)

def infinityPattern : Nat := (2 ^ l.exponent - 1) * 2 ^ l.fraction

/-- The number that some bits stand for, as `DataView` reads it. -/
def read (bits : Nat) : JSNumber :=
  let negative := decide (l.signBit ≤ bits)
  let pattern := bits % l.signBit
  if l.infinityPattern < pattern then .nan
  else if pattern = l.infinityPattern then .infinity negative
  else .finite negative (magnitude l.fraction pattern * 2 ^ l.unit)

/-- The bits that `DataView` writes: the nearest number, infinity above the largest. -/
def write : JSNumber → Nat
  | .nan => l.infinityPattern + 2 ^ (l.fraction - 1)
  | .infinity negative => (if negative then l.signBit else 0) + l.infinityPattern
  | .finite negative m =>
    (if negative then l.signBit else 0) +
      min (nearestPattern l.fraction l.unit m) l.infinityPattern

variable {bits : Nat}

private theorem sign_add_pattern (h : bits < 2 * l.signBit) :
    (if decide (l.signBit ≤ bits) then l.signBit else 0) + bits % l.signBit = bits := by
  by_cases hle : l.signBit ≤ bits
  · rw [Nat.mod_eq_sub_mod hle, Nat.mod_eq_of_lt (by omega)]
    simp only [hle, decide_true, if_true]
    omega
  · rw [Nat.mod_eq_of_lt (by omega)]
    simp [hle]

theorem write_read (h : bits < 2 * l.signBit) (hnan : bits % l.signBit ≤ l.infinityPattern) :
    l.write (l.read bits) = bits := by
  have hsum := l.sign_add_pattern h
  unfold read
  dsimp only
  rw [if_neg (by omega)]
  split
  · next hinf => rw [write, ← hinf, hsum]
  · next hfinite =>
    rw [write, nearestPattern_magnitude, Nat.min_eq_left hnan, hsum]

theorem read_ne_nan (hnan : bits % l.signBit ≤ l.infinityPattern) : l.read bits ≠ .nan := by
  unfold read
  dsimp only
  rw [if_neg (by omega)]
  split <;> simp

end FloatLayout

end JSNumber

end Shunter.Client

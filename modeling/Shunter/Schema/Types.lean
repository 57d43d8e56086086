import Shunter.Types.ProductValue

/-!
# Table schemas

Tables, columns and indexes as the builder registers them.  Read policies and
client metadata are left out: no storage or recovery code reads them.
-/

namespace Shunter

/-- Table and index identifiers are `uint32`. -/
abbrev TableID := Nat

abbrev IndexID := Nat

structure ColumnSchema where
  index : Nat
  name : Bytes
  type : ValueKind
  nullable : Bool
  autoIncrement : Bool
  deriving DecidableEq, Repr

structure IndexSchema where
  id : IndexID
  name : Bytes
  columns : List Nat
  unique : Bool
  primary : Bool
  deriving DecidableEq, Repr

structure TableSchema where
  id : TableID
  name : Bytes
  isEvent : Bool
  columns : List ColumnSchema
  indexes : List IndexSchema
  deriving DecidableEq, Repr

namespace TableSchema

def primaryIndex (ts : TableSchema) : Option IndexSchema := ts.indexes.find? (·.primary)

def autoIncrementCol (ts : TableSchema) : Option Nat :=
  ts.columns.findIdx? (·.autoIncrement)

end TableSchema

/-- `AutoIncrementBounds`: the largest value of the integer kinds, nothing for others. -/
def autoIncrementMax : ValueKind → Option Nat
  | .int8 => some (2 ^ 7 - 1)
  | .uint8 => some (2 ^ 8 - 1)
  | .int16 => some (2 ^ 15 - 1)
  | .uint16 => some (2 ^ 16 - 1)
  | .int32 => some (2 ^ 31 - 1)
  | .uint32 => some (2 ^ 32 - 1)
  | .int64 => some (2 ^ 63 - 1)
  | .uint64 => some (2 ^ 64 - 1)
  | _ => none

/--
`autoincrement.ValueAsUint64`: the non-negative integer a value represents.
The source asserts that the value has the column's kind; a value of another
kind has no number here.
-/
def valueAsUint64 (v : Value) (kind : ValueKind) : Option Nat :=
  match kind, v with
  | .int8, ⟨.int8, some x⟩ => signed x
  | .int16, ⟨.int16, some x⟩ => signed x
  | .int32, ⟨.int32, some x⟩ => signed x
  | .int64, ⟨.int64, some x⟩ => signed x
  | .uint8, ⟨.uint8, some x⟩ => some x.toNat
  | .uint16, ⟨.uint16, some x⟩ => some x.toNat
  | .uint32, ⟨.uint32, some x⟩ => some x.toNat
  | .uint64, ⟨.uint64, some x⟩ => some x.toNat
  | _, _ => none
where
  signed {w : Nat} (x : BitVec w) : Option Nat :=
    if x.toInt < 0 then none else some x.toInt.toNat

end Shunter

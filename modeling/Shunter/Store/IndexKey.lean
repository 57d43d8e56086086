import Shunter.Types.ProductValue

/-!
# Index keys and range bounds

An index key is the tuple of the indexed column values of a row, ordered
lexicographically.  Bounds of index ranges may be shorter than the keys they
bound; such a bound addresses the whole group of keys that begin with it.
-/

namespace Shunter

open Foundation

abbrev IndexKey := List Value

namespace IndexKey

/-- Lexicographic by position; a key that is the beginning of another is less. -/
def compare : IndexKey → IndexKey → Ordering
  | [], [] => .eq
  | [], _ :: _ => .lt
  | _ :: _, [] => .gt
  | v :: k, w :: other => (v.compare w).then (compare k other)

/-- Every key that begins with the second tuple compares equal to it. -/
def comparePrefix : IndexKey → IndexKey → Ordering
  | _, [] => .eq
  | [], _ :: _ => .lt
  | v :: k, w :: bound => (v.compare w).then (comparePrefix k bound)

def equal (k other : IndexKey) : Bool := k.compare other == .eq

def hash64 (k : IndexKey) : UInt64 := ProductValue.hash64 k

theorem compare_eq_rank (k other : IndexKey) :
    k.compare other = Ord.compare (ProductValue.rowClass k) (ProductValue.rowClass other) := by
  induction k generalizing other with
  | nil => cases other <;> rfl
  | cons v k ih =>
    cases other with
    | nil => rfl
    | cons w other =>
      simp only [compare, ih, Value.compare_eq_rank, ProductValue.rowClass, List.map_cons,
        List.compare_cons_cons]

instance : Std.TransCmp compare := transCmp_of_rank compare_eq_rank

theorem compare_eq_iff {k other : IndexKey} :
    k.compare other = .eq ↔ ProductValue.rowClass k = ProductValue.rowClass other :=
  compare_eq_iff_rank compare_eq_rank

theorem equal_iff {k other : IndexKey} :
    k.equal other = true ↔ ProductValue.rowClass k = ProductValue.rowClass other := by
  simp [equal, compare_eq_iff]

theorem comparePrefix_of_lt {k bound : IndexKey} (h : k.compare bound = .lt) :
    k.comparePrefix bound = .lt := by
  induction bound generalizing k with
  | nil => cases k <;> simp [compare] at h
  | cons w bound ih =>
    cases k with
    | nil => rfl
    | cons v k =>
      simp only [compare, comparePrefix] at h ⊢
      cases hvw : v.compare w with
      | lt => rfl
      | gt => simp [hvw] at h
      | eq =>
        simp only [hvw, Ordering.then] at h ⊢
        exact ih h

/-- A larger key compares the same with a prefix or moves up from `.lt` towards `.gt`. -/
theorem comparePrefix_mono {k k' : IndexKey} (h : k.compare k' = .lt) (bound : IndexKey) :
    k.comparePrefix bound = .lt ∨ k.comparePrefix bound = k'.comparePrefix bound ∨
      k'.comparePrefix bound = .gt := by
  induction bound generalizing k k' with
  | nil => simp [comparePrefix]
  | cons w bound ih =>
    cases k with
    | nil => simp [comparePrefix]
    | cons v k =>
      cases k' with
      | nil => simp [compare] at h
      | cons v' k' =>
        simp only [compare, comparePrefix] at h ⊢
        cases hvv : v.compare v' with
        | gt => simp [hvv] at h
        | lt =>
          cases hvw : v'.compare w with
          | lt => simp [Std.TransCmp.lt_trans hvv hvw]
          | eq => simp [Std.TransCmp.lt_of_lt_of_eq hvv hvw]
          | gt => simp
        | eq =>
          simp only [hvv, Ordering.then] at h
          rw [Std.TransCmp.congr_left hvv]
          cases v'.compare w with
          | lt => simp
          | gt => simp
          | eq => exact ih h

theorem comparePrefix_congr {k k' : IndexKey} (h : k.compare k' = .eq) (bound : IndexKey) :
    k.comparePrefix bound = k'.comparePrefix bound := by
  induction bound generalizing k k' with
  | nil => simp [comparePrefix]
  | cons w bound ih =>
    cases k with
    | nil => cases k' <;> simp [compare] at h ⊢
    | cons v k =>
      cases k' with
      | nil => simp [compare] at h
      | cons v' k' =>
        simp only [compare, Ordering.then_eq_eq] at h
        simp only [comparePrefix, Std.TransCmp.congr_left h.1, ih h.2]

end IndexKey

/-! ## Bounds -/

/-- `IndexBound`: a tuple endpoint, or the single value when the tuple is empty. -/
structure Bound where
  values : ProductValue
  value : Value
  inclusive : Bool
  unbounded : Bool
  deriving DecidableEq

def indexKeyForBound (bound : Bound) : IndexKey :=
  if bound.values.length ≠ 0 then bound.values else [bound.value]

def matchesLowerBound (key : IndexKey) (bound : Bound) : Bool :=
  if bound.unbounded then true
  else
    let cmp := key.comparePrefix (indexKeyForBound bound)
    if bound.inclusive then cmp.isGE else cmp.isGT

def matchesUpperBound (key : IndexKey) (bound : Bound) : Bool :=
  if bound.unbounded then true
  else
    let cmp := key.comparePrefix (indexKeyForBound bound)
    if bound.inclusive then cmp.isLE else cmp.isLT

theorem matchesLowerBound_congr {k k' : IndexKey} (h : k.compare k' = .eq) (bound : Bound) :
    matchesLowerBound k bound = matchesLowerBound k' bound := by
  simp only [matchesLowerBound, IndexKey.comparePrefix_congr h]

theorem matchesUpperBound_congr {k k' : IndexKey} (h : k.compare k' = .eq) (bound : Bound) :
    matchesUpperBound k bound = matchesUpperBound k' bound := by
  simp only [matchesUpperBound, IndexKey.comparePrefix_congr h]

theorem matchesUpperBound_mono {k k' : IndexKey} (h : k.compare k' = .lt) (bound : Bound)
    (hk' : matchesUpperBound k' bound = true) : matchesUpperBound k bound = true := by
  simp only [matchesUpperBound] at hk' ⊢
  split
  · rfl
  · next hb =>
    rw [if_neg hb] at hk'
    rcases IndexKey.comparePrefix_mono h (indexKeyForBound bound) with hlt | heq | hgt
    · simp [hlt]
    · rwa [heq]
    · simp [hgt] at hk'

theorem matchesLowerBound_of_lt {k : IndexKey} {bound : Bound} (hb : bound.unbounded = false)
    (h : k.compare (indexKeyForBound bound) = .lt) : matchesLowerBound k bound = false := by
  simp [matchesLowerBound, hb, IndexKey.comparePrefix_of_lt h]

/-! ## Keys of rows -/

/--
The key of a row.  A column position outside the row panics in the source; the
model reads the zero value there.
-/
def extractKey (row : ProductValue) (columns : List Nat) : IndexKey :=
  columns.map fun col => row.getD col ⟨.bool, some false⟩

theorem extractKey_congr {r s : ProductValue} (h : r.rowClass = s.rowClass)
    (columns : List Nat) :
    ProductValue.rowClass (extractKey r columns) =
      ProductValue.rowClass (extractKey s columns) := by
  simp only [ProductValue.rowClass, extractKey, List.map_map]
  apply List.map_congr_left
  intro col _
  have hcol := congrArg (fun l => l[col]?) h
  simp only [ProductValue.rowClass, List.getElem?_map] at hcol
  simp only [Function.comp_apply, List.getD_eq_getElem?_getD]
  cases hr : r[col]? <;> cases hs : s[col]? <;> simp_all

end Shunter

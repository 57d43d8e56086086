import Shunter.Types.JSONScan
import Shunter.Types.JSONNumber

/-!
# JSON documents

What a JSON text denotes once whitespace is gone and its strings are decoded.
Numbers keep their spelling and objects the order of their members; documents
that differ in that order only have the same value.
-/

namespace Shunter

inductive JSONDocument where
  | null
  | bool (b : Bool)
  | number (literal : Bytes)
  | string (s : Bytes)
  | array (items : List JSONDocument)
  | object (members : List (Bytes × JSONDocument))

namespace JSONDocument

theorem sizeOf_member_lt {m : Bytes × JSONDocument} {members : List (Bytes × JSONDocument)}
    (h : m ∈ members) : sizeOf m.2 < sizeOf (object members) := by
  have hlt := List.sizeOf_lt_of_mem h
  obtain ⟨key, v⟩ := m
  simp only [Prod.mk.sizeOf_spec] at hlt
  simp only [object.sizeOf_spec]
  omega

def print : JSONDocument → Bytes
  | null => [0x6E, 0x75, 0x6C, 0x6C]
  | bool true => [0x74, 0x72, 0x75, 0x65]
  | bool false => [0x66, 0x61, 0x6C, 0x73, 0x65]
  | number literal => literal
  | string s => appendCanonicalJSONString s
  | array items => arrayText (items.map print)
  | object members => objectText (members.map fun m => (m.1, print m.2))
decreasing_by
  · decreasing_trivial
  · exact sizeOf_member_lt ‹_›

def nameLE (a b : Bytes × JSONDocument) : Prop := compare a.1 b.1 ≠ .gt

instance : DecidableRel nameLE := fun _ _ => inferInstanceAs (Decidable (_ ≠ _))

/-- The document with the members of every object in the order of their names. -/
def sort : JSONDocument → JSONDocument
  | array items => array (items.map sort)
  | object members => object ((members.map fun m => (m.1, sort m.2)).insertionSort nameLE)
  | v => v
decreasing_by
  · decreasing_trivial
  · exact sizeOf_member_lt ‹_›

/-- No object of the document has two members of one name. -/
def Distinct : JSONDocument → Prop
  | array items => ∀ v ∈ items, v.Distinct
  | object members => (members.map (·.1)).Nodup ∧ ∀ m ∈ members, m.2.Distinct
  | _ => True
decreasing_by
  · decreasing_trivial
  · exact sizeOf_member_lt ‹_›

/-- Strings are UTF-8 and numbers are spelled by the grammar, as the decoder returns them. -/
def WellFormed : JSONDocument → Prop
  | number literal => IsNumber literal
  | string s => validUTF8 s = true
  | array items => ∀ v ∈ items, v.WellFormed
  | object members => ∀ m ∈ members, validUTF8 m.1 = true ∧ m.2.WellFormed
  | _ => True
decreasing_by
  · decreasing_trivial
  · exact sizeOf_member_lt ‹_›

/-- Documents that differ in the order of object members only, at any depth. -/
inductive SameValue : JSONDocument → JSONDocument → Prop
  | refl (v : JSONDocument) : SameValue v v
  | symm {v w : JSONDocument} (h : SameValue v w) : SameValue w v
  | trans {u v w : JSONDocument} (h : SameValue u v) (h' : SameValue v w) : SameValue u w
  | item {v w : JSONDocument} (front back : List JSONDocument) (h : SameValue v w) :
      SameValue (array (front ++ v :: back)) (array (front ++ w :: back))
  | member {v w : JSONDocument} (front back : List (Bytes × JSONDocument)) (name : Bytes)
      (h : SameValue v w) :
      SameValue (object (front ++ (name, v) :: back)) (object (front ++ (name, w) :: back))
  | order {members members' : List (Bytes × JSONDocument)} (h : members.Perm members') :
      SameValue (object members) (object members')

@[elab_as_elim]
theorem ind {P : JSONDocument → Prop}
    (hnull : P null) (hbool : ∀ b, P (bool b))
    (hnumber : ∀ literal, P (number literal)) (hstring : ∀ s, P (string s))
    (harray : ∀ items, (∀ v ∈ items, P v) → P (array items))
    (hobject : ∀ members, (∀ m ∈ members, P m.2) → P (object members)) : ∀ v, P v
  | null => hnull
  | bool b => hbool b
  | number literal => hnumber literal
  | string s => hstring s
  | array items => harray items fun v _ => ind hnull hbool hnumber hstring harray hobject v
  | object members =>
    hobject members fun m _ => ind hnull hbool hnumber hstring harray hobject m.2
decreasing_by
  · decreasing_trivial
  · exact sizeOf_member_lt ‹_›

/-! ## Sorting -/

variable {u v w : JSONDocument} {members members' : List (Bytes × JSONDocument)}

instance : Std.Total nameLE where
  total a b := by
    unfold nameLE
    rw [Std.OrientedOrd.eq_swap (a := b.1) (b := a.1)]
    cases compare a.1 b.1 <;> decide

instance : IsTrans _ nameLE where
  trans _ _ _ hab hbc :=
    Ordering.isLE_iff_ne_gt.mp (Std.TransCmp.isLE_trans (Ordering.isLE_iff_ne_gt.mpr hab)
      (Ordering.isLE_iff_ne_gt.mpr hbc))

theorem insertionSort_of_perm (h : members.Perm members') (hnames : (members.map (·.1)).Nodup) :
    members.insertionSort nameLE = members'.insertionSort nameLE := by
  have hperm := (List.perm_insertionSort nameLE members).trans
    (h.trans (List.perm_insertionSort nameLE members').symm)
  refine hperm.eq_of_pairwise ?_ (List.pairwise_insertionSort _ _)
    (List.pairwise_insertionSort _ _)
  -- names that are neither less nor greater are the same, and a name has one member
  intro a b ha hb hab hba
  rw [List.mem_insertionSort] at ha hb
  apply List.inj_on_of_nodup_map hnames ha (h.mem_iff.mpr hb)
  unfold nameLE at hab hba
  rw [Std.OrientedOrd.eq_swap (a := b.1)] at hba
  cases hcmp : compare a.1 b.1 with
  | eq => exact Std.compare_eq_iff_eq.mp hcmp
  | lt => simp [hcmp] at hba
  | gt => exact absurd hcmp hab

theorem SameValue.distinct_iff (h : SameValue v w) : v.Distinct ↔ w.Distinct := by
  induction h with
  | refl v => rfl
  | symm h ih => exact ih.symm
  | trans h h' ih ih' => exact ih.trans ih'
  | item front back h ih =>
    simp only [Distinct, List.forall_mem_append, List.forall_mem_cons, ih]
  | member front back name h ih =>
    simp only [Distinct, List.map_append, List.map_cons, List.forall_mem_append,
      List.forall_mem_cons, ih]
  | order h => simp only [Distinct, (h.map _).nodup_iff, h.mem_iff]

theorem SameValue.sort_eq (h : SameValue v w) (hv : v.Distinct) : v.sort = w.sort := by
  induction h with
  | refl v => rfl
  | symm h ih => exact (ih (h.distinct_iff.mpr hv)).symm
  | trans h h' ih ih' => exact (ih hv).trans (ih' (h.distinct_iff.mp hv))
  | item front back h ih =>
    rw [Distinct] at hv
    simp [sort, ih (hv _ (by simp))]
  | @member v w front back name h ih =>
    rw [Distinct] at hv
    simp [sort, ih (hv.2 (name, v) (by simp))]
  | order h =>
    rw [Distinct] at hv
    rw [sort, sort, insertionSort_of_perm (h.map _) (by simpa [Function.comp_def] using hv.1)]

/-- Parts of a list may be replaced one after another. -/
theorem SameValue.map {α : Type} {doc : List α → JSONDocument} {f : α → α} {l : List α}
    (h : ∀ front a back, a ∈ l → SameValue (doc (front ++ a :: back)) (doc (front ++ f a :: back)))
    (front : List α) : SameValue (doc (front ++ l)) (doc (front ++ l.map f)) := by
  induction l generalizing front with
  | nil => exact .refl _
  | cons a l ih =>
    have hrest := ih (fun front b back hb => h front b back (by simp [hb])) (front ++ [f a])
    simp only [List.append_assoc, List.singleton_append] at hrest
    exact (h front a l (by simp)).trans hrest

theorem sameValue_sort (v : JSONDocument) : SameValue v v.sort := by
  induction v using ind with
  | hnull | hbool b | hnumber literal | hstring s =>
    simp only [sort]
    exact .refl _
  | harray items ih =>
    rw [sort]
    exact SameValue.map (fun front v back hv => .item front back (ih v hv)) []
  | hobject members ih =>
    rw [sort]
    refine .trans (SameValue.map (fun front m back hm => .member front back m.1 (ih m hm)) []) ?_
    exact .order (List.perm_insertionSort nameLE _).symm

theorem WellFormed.sort (h : v.WellFormed) : v.sort.WellFormed := by
  induction v using ind with
  | hnull | hbool b | hnumber literal | hstring s => simpa only [JSONDocument.sort] using h
  | harray items ih =>
    simp only [JSONDocument.sort, WellFormed, List.forall_mem_map] at h ⊢
    exact fun v hv => ih v hv (h v hv)
  | hobject members ih =>
    simp only [JSONDocument.sort, WellFormed, List.mem_insertionSort, List.forall_mem_map] at h ⊢
    exact fun m hm => ⟨(h m hm).1, ih m hm (h m hm).2⟩

theorem print_sort_array (items : List JSONDocument) :
    (array items).sort.print = arrayText (items.map (·.sort.print)) := by
  rw [sort, print, List.map_map]
  rfl

def canonicalMember (m : Bytes × JSONDocument) : Bytes × Bytes := (m.1, m.2.sort.print)

-- names decide the order of members and of their texts alike
theorem print_sort_object (members : List (Bytes × JSONDocument)) :
    (object members).sort.print =
      objectText ((members.map canonicalMember).insertionSort memberLE) := by
  have hmap := List.map_insertionSort (r := nameLE) (s := memberLE)
    (fun m : Bytes × JSONDocument => (m.1, m.2.print)) (members.map fun m => (m.1, m.2.sort))
    fun _ _ _ _ => Iff.rfl
  rw [sort, print, hmap, List.map_map]
  rfl

end JSONDocument

end Shunter

import Mathlib

/-!
# Prefix-free encodings

An encoding that may fail is prefix-free up to a class when two texts, each
with something behind it, only agree if the encoded items have the same class
and the rests agree.  Such encodings can be put one after another.
-/

namespace Foundation

variable {α β κ μ : Type*}

def PrefixFree (enc : α → Option (List β)) (cls : α → κ) : Prop :=
  ∀ ⦃a b x y s t⦄, enc a = some x → enc b = some y → x ++ s = y ++ t → cls a = cls b ∧ s = t

variable {enc : α → Option (List β)} {cls : α → κ}

theorem PrefixFree.cls_eq (h : PrefixFree enc cls) {a b : α} {x : List β} (ha : enc a = some x)
    (hb : enc b = some x) : cls a = cls b :=
  (h ha hb (s := []) rfl).1

theorem prefixFree_of_length {text : α → List β} {n : Nat} (hlen : ∀ a, (text a).length = n)
    (hcls : ∀ a b, text a = text b → cls a = cls b) :
    PrefixFree (fun a => some (text a)) cls := by
  rintro a b x y s t ⟨⟩ ⟨⟩ h
  obtain ⟨htext, hrest⟩ := List.append_inj h (by rw [hlen, hlen])
  exact ⟨hcls a b htext, hrest⟩

abbrev followedBy (x y : Option (List β)) : Option (List β) := Option.map₂ (· ++ ·) x y

theorem PrefixFree.followedBy (h : PrefixFree enc cls) {a b : α} {u v : Option (List β)}
    {x y s t : List β} (ha : Foundation.followedBy (enc a) u = some x)
    (hb : Foundation.followedBy (enc b) v = some y) (heq : x ++ s = y ++ t) :
    cls a = cls b ∧ ∃ x' y', u = some x' ∧ v = some y' ∧ x' ++ s = y' ++ t := by
  obtain ⟨x₁, x₂, hx₁, hx₂, rfl⟩ := Option.map₂_eq_some_iff.mp ha
  obtain ⟨y₁, y₂, hy₁, hy₂, rfl⟩ := Option.map₂_eq_some_iff.mp hb
  rw [List.append_assoc, List.append_assoc] at heq
  obtain ⟨hcls, hrest⟩ := h hx₁ hy₁ heq
  exact ⟨hcls, x₂, y₂, hx₂, hy₂, hrest⟩

def encodeAll (enc : α → Option (List β)) : List α → Option (List β)
  | [] => some []
  | a :: l => followedBy (enc a) (encodeAll enc l)

@[simp] theorem isSome_followedBy (x y : Option (List β)) :
    (followedBy x y).isSome = (x.isSome && y.isSome) := by
  cases x <;> cases y <;> rfl

@[simp] theorem isSome_encodeAll (l : List α) :
    (encodeAll enc l).isSome = l.all fun a => (enc a).isSome := by
  induction l with
  | nil => rfl
  | cons a l ih => rw [encodeAll, isSome_followedBy, ih, List.all_cons]

theorem PrefixFree.encodeAll (h : PrefixFree enc cls) {l l' : List α}
    (hlen : l.length = l'.length) {x y s t : List β} (hx : encodeAll enc l = some x)
    (hy : encodeAll enc l' = some y) (heq : x ++ s = y ++ t) :
    l.map cls = l'.map cls ∧ s = t := by
  induction l generalizing l' x y with
  | nil =>
    rw [List.length_nil, eq_comm, List.length_eq_zero_iff] at hlen
    subst hlen
    cases hx
    cases hy
    exact ⟨rfl, heq⟩
  | cons a l ih =>
    cases l' with
    | nil => cases hlen
    | cons b l' =>
      obtain ⟨hcls, x', y', hx', hy', heq'⟩ := h.followedBy hx hy heq
      obtain ⟨htail, hrest⟩ := ih (Nat.succ_injective hlen) hx' hy' heq'
      exact ⟨by rw [List.map_cons, List.map_cons, hcls, htail], hrest⟩

variable {len : Nat → Option (List β)}

theorem PrefixFree.counted (hlen : PrefixFree len id) (h : PrefixFree enc cls) :
    PrefixFree (fun l => Foundation.followedBy (len l.length) (Foundation.encodeAll enc l))
      (List.map cls) := by
  intro l l' x y s t hx hy heq
  obtain ⟨hl, x', y', hx', hy', heq'⟩ := hlen.followedBy hx hy heq
  exact h.encodeAll hl hx' hy' heq'

theorem PrefixFree.measured (hlen : PrefixFree len id) :
    PrefixFree (fun a : List β => Foundation.followedBy (len a.length) (some a)) id := by
  intro a b x y s t hx hy heq
  obtain ⟨hl, x', y', hx', hy', heq'⟩ := hlen.followedBy hx hy heq
  cases hx'
  cases hy'
  exact List.append_inj heq' hl

end Foundation

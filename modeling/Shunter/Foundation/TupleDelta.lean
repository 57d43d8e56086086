import Shunter.Foundation.Bag

/-!
# Changes of a product

The tuples over several changing lists, before and after the change.  The
difference of the two products is a sum of fragments, one for each list, in
which that list is restricted to its own change, the lists on one side are
taken after the change and those on the other side before it.
-/

namespace Foundation

variable {α κ M : Type*}

def consAll (l : List α) (tuples : List (List α)) : List (List α) :=
  l.flatMap fun a => tuples.map (a :: ·)

def tuples : List (List α) → List (List α)
  | [] => [[]]
  | l :: ls => consAll l (tuples ls)

theorem forall₂_of_mem_tuples {ls : List (List α)} {t : List α} (h : t ∈ tuples ls) :
    List.Forall₂ (fun l a => a ∈ l) ls t := by
  induction ls generalizing t with
  | nil => simp_all [tuples]
  | cons l ls ih =>
    obtain ⟨a, ha, hmem⟩ := List.mem_flatMap.mp h
    obtain ⟨u, hu, rfl⟩ := List.mem_map.mp hmem
    exact .cons ha (ih hu)

def TupleCongr (cls : α → κ) (f : List α → M) : Prop :=
  f.FactorsThrough (List.map cls)

theorem TupleCongr.cons {cls : α → κ} {f : List α → M} (hf : TupleCongr cls f) (a : α) :
    TupleCongr cls fun t => f (a :: t) :=
  fun _ _ h => hf (by rw [List.map_cons, h, List.map_cons])

section Sums

variable [AddCommMonoid M] {cls : α → κ} {f : List α → M}

@[simp] theorem total_consAll (f : List α → M) (l : List α) (ts : List (List α)) :
    total f (consAll l ts) = total (fun a => total (fun t => f (a :: t)) ts) l := by
  rw [consAll, total_flatMap]
  apply total_congr
  intro a _
  rw [total_map]
  rfl

theorem total_tuples_congr (hf : TupleCongr cls f) {ls ls' : List (List α)}
    (h : List.Forall₂ (fun l l' => bag cls l = bag cls l') ls ls') :
    total f (tuples ls) = total f (tuples ls') := by
  induction h generalizing f with
  | nil => rfl
  | @cons l l' ls ls' hl _ ih =>
    rw [tuples, tuples, total_consAll, total_consAll]
    rw [total_congr fun a _ => ih (hf.cons a)]
    apply total_of_bag_eq _ hl
    intro a b hab
    apply total_congr
    intro t _
    exact hf (by rw [List.map_cons, List.map_cons, hab])

end Sums

/-! ## Changes -/

/-- What stays in a list, what is added and what is removed. -/
structure Change (α : Type*) where
  stay : List α
  ins : List α
  del : List α

namespace Change

def before (c : Change α) : List α := c.stay ++ c.del

def after (c : Change α) : List α := c.stay ++ c.ins

def swap (c : Change α) : Change α := ⟨c.stay, c.del, c.ins⟩

@[simp] theorem swap_before (c : Change α) : c.swap.before = c.after := rfl

@[simp] theorem swap_after (c : Change α) : c.swap.after = c.before := rfl

end Change

def befores (cs : List (Change α)) : List (List α) := tuples (cs.map Change.before)

def afters (cs : List (Change α)) : List (List α) := tuples (cs.map Change.after)

/-- For each list the tuples with one of its added items, items after the change in front of it and
items before the change behind it. -/
def insertFragments : List (Change α) → List (List α)
  | [] => []
  | c :: cs => consAll c.ins (befores cs) ++ consAll c.after (insertFragments cs)

def removeFragments : List (Change α) → List (List α)
  | [] => []
  | c :: cs => consAll c.del (befores cs) ++ consAll c.after (removeFragments cs)

/-- The tuples without added items in which some item is removed. -/
def removals : List (Change α) → List (List α)
  | [] => []
  | c :: cs => consAll c.del (befores cs) ++ consAll c.stay (removals cs)

/-- The tuples with added and removed items in which all added items come first. -/
def insertsThenRemovals : List (Change α) → List (List α)
  | [] => []
  | c :: cs => consAll c.ins (removeFragments cs) ++ consAll c.stay (insertsThenRemovals cs)

section Laws

variable [AddCommMonoid M]

theorem before_add_inserts (f : List α → M) (cs : List (Change α)) :
    total f (befores cs) + total f (insertFragments cs) =
      total f (afters cs) + total f (removeFragments cs) := by
  induction cs generalizing f with
  | nil => simp [befores, afters, insertFragments, removeFragments]
  | cons c cs ih =>
    -- The induction hypothesis, summed over the items after the change.
    have hafter := congrArg (fun g => total g c.after) (funext fun a => ih fun t => f (a :: t))
    have hdel := congrArg (total (fun a => total (fun t => f (a :: t)) (befores cs)) c.del + ·)
      hafter
    simp only [total_add, befores, afters, insertFragments, removeFragments, List.map_cons,
      tuples, total_append, total_consAll, Change.before, Change.after] at hdel ⊢
    convert hdel using 1 <;> abel

theorem total_insertFragments (f : List α → M) (cs : List (Change α)) :
    total f (insertFragments cs) =
      total (fun ci : Change α × Nat => total f (tuples ((cs.take ci.2).map Change.after ++
        ci.1.ins :: (cs.drop (ci.2 + 1)).map Change.before))) cs.zipIdx := by
  induction cs generalizing f with
  | nil => rfl
  | cons c cs ih =>
    have hafter := congrArg (fun g => total g c.after) (funext fun a => ih fun t => f (a :: t))
    simp only [insertFragments, total_append, total_consAll, hafter]
    rw [List.zipIdx_cons', total_cons, total_map]
    congr 1
    · simp [tuples, befores]
    · rw [total_comm]
      apply total_congr
      rintro ⟨c', i⟩ -
      simp [tuples]

theorem tuples_of_nil (ls ls' : List (List α)) : tuples (ls ++ [] :: ls') = [] := by
  induction ls with
  | nil => rfl
  | cons l ls ih => simp [tuples, consAll, ih]

section

variable (f : List α → M) (cs : List (Change α))

theorem removeFragments_split :
    total f (removeFragments cs) = total f (removals cs) + total f (insertsThenRemovals cs) := by
  induction cs generalizing f with
  | nil => simp [removeFragments, removals, insertsThenRemovals]
  | cons c cs ih =>
    have hstay := congrArg (fun g => total g c.stay) (funext fun a => ih fun t => f (a :: t))
    simp only [total_add] at hstay
    simp only [removeFragments, removals, insertsThenRemovals, total_append, total_consAll,
      Change.after, hstay]
    abel

theorem insertFragments_swap_split :
    total f (insertFragments (cs.map .swap)) =
      total f (removals cs) + total f (insertsThenRemovals (cs.map .swap)) := by
  induction cs generalizing f with
  | nil => simp [insertFragments, removals, insertsThenRemovals]
  | cons c cs ih =>
    have hstay := congrArg (fun g => total g c.stay) (funext fun a => ih fun t => f (a :: t))
    have hdel := congrArg (fun g => total g c.del)
      (funext fun a => before_add_inserts (fun t => f (a :: t)) (cs.map .swap))
    have hswap : afters (cs.map Change.swap) = befores cs := by
      simp [afters, befores, Function.comp_def]
    have hboth := congrArg₂ (· + ·) hdel hstay
    rw [hswap] at hboth
    simp only [total_add] at hboth
    simp only [List.map_cons, insertFragments, removals, insertsThenRemovals, total_append,
      total_consAll, Change.swap_after, Change.before]
    change total _ c.del + _ = _ + (total _ c.del + total _ c.stay)
    convert hboth using 1 <;> abel

/-- The added and the removed fragments that the two orders give make up the difference exactly
when both orders of added and removed items count the same. -/
theorem before_add_inserts_iff [IsCancelAdd M] :
    total f (befores cs) + total f (insertFragments cs) =
        total f (afters cs) + total f (insertFragments (cs.map .swap)) ↔
      total f (insertsThenRemovals cs) = total f (insertsThenRemovals (cs.map .swap)) := by
  rw [before_add_inserts, removeFragments_split, insertFragments_swap_split, add_right_inj,
    add_right_inj]

end

end Laws

end Foundation

import Shunter.Foundation.InsertionMap
import Shunter.Subscription.JoinDelta

/-!
# The row cache of the TypeScript client

A managed subscription keeps its rows in buckets under their bytes.  Each update
of the server takes deleted rows out of the buckets, puts inserted rows in and
publishes what is left.  The server nets rows by value, the client by bytes, so
the two agree as long as equal rows have equal bytes.
-/

namespace Shunter.Client

open Foundation Subscription Bsatn

/-! ## Buckets of rows -/

def hexDigit (n : Nat) : Char := ("0123456789abcdef".toList)[n]?.getD '0'

def byteHex (byte : UInt8) : List Char := [hexDigit (byte.toNat / 16), hexDigit (byte.toNat % 16)]

def bytesKey (bytes : Bytes) : List Char := bytes.flatMap byteHex

/-- What the handle shows of a row: the result of the decoder, or a copy of the bytes. -/
inductive CachedRow (ρ : Type) where
  | decoded (row : ρ)
  | raw (bytes : Bytes)
  deriving DecidableEq

variable {ρ : Type}

abbrev RowCache (ρ : Type) := InsertionMap (List Char) (List (CachedRow ρ))

def cacheRow (rowCache : RowCache ρ) (rowBytes : Bytes) (row : CachedRow ρ) : RowCache ρ :=
  match rowCache.get (bytesKey rowBytes) with
  | none => rowCache.set (bytesKey rowBytes) [row]
  | some bucket => rowCache.set (bytesKey rowBytes) (bucket ++ [row])

def deleteCachedRow (rowCache : RowCache ρ) (rowBytes : Bytes) : RowCache ρ :=
  match rowCache.get (bytesKey rowBytes) with
  | none => rowCache
  | some bucket =>
    if bucket.tail = [] then rowCache.erase (bytesKey rowBytes)
    else rowCache.set (bytesKey rowBytes) bucket.tail

def cachedRows (rowCache : RowCache ρ) : List (CachedRow ρ) := rowCache.values.flatten

/-! ## Subscriptions -/

/-- The rows of an update; `none` when the bytes were not a list of rows. -/
structure RawSubscriptionUpdate where
  queryId : Nat
  insertRowBytes : Option (List Bytes)
  deleteRowBytes : Option (List Bytes)

/-- A subscription; the callbacks only matter in that they are there.  `handle` holds the rows
that are published. -/
structure ActiveSubscription (ρ : Type) where
  decodeRow : Option (Bytes → ρ)
  onUpdate : Bool
  onInsertOrDelete : Bool
  handle : Option (List (CachedRow ρ))
  rowCache : Option (RowCache ρ)
  eventTable : Bool

namespace ActiveSubscription

variable (active : ActiveSubscription ρ)

def publishCachedRows : ActiveSubscription ρ :=
  { active with handle := active.handle.map fun _ =>
      if active.eventTable then [] else (active.rowCache.map cachedRows).getD [] }

def replaceCachedRows (rowBytes : List Bytes) (rows : List (CachedRow ρ)) :
    ActiveSubscription ρ :=
  match active.rowCache with
  | none => active
  | some _ =>
    let rowCache := (rowBytes.zip rows).foldl (fun c br => cacheRow c br.1 br.2) ∅
    { active with
      rowCache := some rowCache
      handle := active.handle.map fun _ => cachedRows rowCache }

/-- The rows that go into the cache for the inserted bytes.  The decoder runs before the callbacks
if there are any, and otherwise here. -/
def insertedRows (rowBytes : List Bytes) (inserts : Option (List ρ)) : List (CachedRow ρ) :=
  match active.decodeRow with
  | none => rowBytes.map .raw
  | some decodeRow => (inserts.getD (rowBytes.map decodeRow)).map .decoded

/-- `none` is the error for rows that were not encoded as a list. -/
def applyCachedUpdate (update : RawSubscriptionUpdate) (inserts : Option (List ρ)) :
    Option (ActiveSubscription ρ × Bool) :=
  match active.rowCache, active.handle with
  | some rowCache, some _ =>
    if active.eventTable then some (active, true)
    else
      match update.insertRowBytes with
      | none =>
        if active.decodeRow.isSome || active.onUpdate then none else some (active, false)
      | some insertRowBytes =>
        if update.deleteRowBytes.isNone && active.decodeRow.isNone then some (active, false)
        else
          let deleted := (update.deleteRowBytes.getD []).foldl deleteCachedRow rowCache
          let inserted := (insertRowBytes.zip (active.insertedRows insertRowBytes inserts)).foldl
            (fun c br => cacheRow c br.1 br.2) deleted
          some ({ active with rowCache := some inserted }, true)
  | _, _ => some (active, false)

def dispatchUpdate (update : RawSubscriptionUpdate) : Option (ActiveSubscription ρ × Bool) :=
  if active.onUpdate || active.onInsertOrDelete then
    match active.decodeRow with
    | some decodeRow =>
      match update.insertRowBytes with
      | none => none
      | some insertRowBytes =>
        active.applyCachedUpdate update (some (insertRowBytes.map decodeRow))
    | none => active.applyCachedUpdate update none
  else active.applyCachedUpdate update none

end ActiveSubscription

/-- The subscriptions of a client: which one a query belongs to, and their contents. -/
structure Subscriptions (ρ : Type) where
  activeSubscriptionsByQuery : Nat → Option Nat
  actives : Nat → ActiveSubscription ρ

def Subscriptions.put (s : Subscriptions ρ) (i : Nat) (active : ActiveSubscription ρ) :
    Subscriptions ρ :=
  { s with actives := fun j => if j = i then active else s.actives j }

/-- The loop over the updates of a message; the last component says whether an update failed,
which ends the loop. -/
def dispatchUpdates (s : Subscriptions ρ) (changed : List Nat) :
    List RawSubscriptionUpdate → Subscriptions ρ × List Nat × Bool
  | [] => (s, changed, false)
  | update :: updates =>
    match s.activeSubscriptionsByQuery update.queryId with
    | none => dispatchUpdates s changed updates
    | some i =>
      match (s.actives i).dispatchUpdate update with
      | none => (s, changed, true)
      | some (active, applied) =>
        dispatchUpdates (s.put i active)
          (if applied && !changed.contains i then changed ++ [i] else changed) updates

def dispatchRawSubscriptionUpdates (s : Subscriptions ρ) (updates : List RawSubscriptionUpdate) :
    Subscriptions ρ × Bool :=
  match dispatchUpdates s [] updates with
  | (s, _, true) => (s, true)
  | (s, changed, false) =>
    (changed.foldl (fun s i => s.put i (s.actives i).publishCachedRows) s, false)

/-! ## Different bytes have different keys -/

theorem hexDigit_inj {m n : Nat} (hm : m < 16) (hn : n < 16) (h : hexDigit m = hexDigit n) :
    m = n := by
  have hall : ∀ m < 16, ∀ n < 16, hexDigit m = hexDigit n → m = n := by decide
  exact hall m hm n hn h

theorem byteHex_inj {a b : UInt8} (h : byteHex a = byteHex b) : a = b := by
  have ha := a.toNat_lt
  have hb := b.toNat_lt
  simp only [byteHex, List.cons.injEq, and_true] at h
  have hhigh := hexDigit_inj (by omega) (by omega) h.1
  have hlow := hexDigit_inj (by omega) (by omega) h.2
  apply UInt8.toNat_inj.mp
  omega

theorem bytesKey_injective : Function.Injective bytesKey := by
  intro x
  induction x with
  | nil =>
    rintro (_ | ⟨b, y⟩) h
    · rfl
    · simp [bytesKey, byteHex] at h
  | cons a x ih =>
    rintro (_ | ⟨b, y⟩) h
    · simp [bytesKey, byteHex] at h
    · simp only [bytesKey, List.flatMap_cons] at h
      obtain ⟨hhead, htail⟩ := List.append_inj h rfl
      rw [byteHex_inj hhead, ih htail]

/-! ## What a cache holds -/

namespace RowCache

def items (c : RowCache ρ) : List (List Char × CachedRow ρ) :=
  c.entries.flatMap fun e => e.2.map (e.1, ·)

/-- The cache holds the rows with the given bytes; no bucket is empty. -/
structure Holds (rowOf : Bytes → CachedRow ρ) (c : RowCache ρ) (texts : List Bytes) : Prop where
  held : (items c).Perm (texts.map fun b => (bytesKey b, rowOf b))
  nonempty : ∀ e ∈ c.entries, e.2 ≠ []

variable {rowOf : Bytes → CachedRow ρ} {c : RowCache ρ} {texts : List Bytes}

theorem items_of_perm {k : List Char} {bucket : List (CachedRow ρ)} {rest : RowCache ρ}
    (h : c.entries.Perm ((k, bucket) :: rest.entries)) :
    (items c).Perm (bucket.map (k, ·) ++ items rest) := by
  rw [items, items]
  simpa using h.flatMap_right fun e => e.2.map (e.1, ·)

theorem holds_empty : Holds rowOf (∅ : RowCache ρ) [] := ⟨.nil, by simp⟩

theorem Holds.perm (h : Holds rowOf c texts) {texts' : List Bytes} (hperm : texts.Perm texts') :
    Holds rowOf c texts' :=
  ⟨h.held.trans (hperm.map _), h.nonempty⟩

theorem Holds.cachedRows (h : Holds rowOf c texts) :
    (cachedRows c).Perm (texts.map rowOf) := by
  have hrows : Client.cachedRows c = (items c).map Prod.snd := by
    simp [Client.cachedRows, InsertionMap.values, items, List.flatMap_def, Function.comp_def]
  rw [hrows]
  simpa [Function.comp_def] using h.held.map Prod.snd

theorem mem_entries_of_perm {m : RowCache ρ} {k : List Char} {bucket : List (CachedRow ρ)}
    (h : m.entries.Perm ((k, bucket) :: (c.erase k).entries)) (hbucket : bucket ≠ [])
    (hc : ∀ e ∈ c.entries, e.2 ≠ []) : ∀ e ∈ m.entries, e.2 ≠ [] := by
  intro e he
  rcases List.mem_cons.mp (h.mem_iff.mp he) with rfl | he
  · exact hbucket
  · exact hc e (List.mem_filter.mp he).1

theorem Holds.cacheRow (h : Holds rowOf c texts) (b : Bytes) :
    Holds rowOf (cacheRow c b (rowOf b)) (b :: texts) := by
  unfold Client.cacheRow
  split
  · next hget =>
    have hset := InsertionMap.set_perm (m := c) (k := bytesKey b) [rowOf b]
    refine ⟨(items_of_perm hset).trans ?_, mem_entries_of_perm hset (by simp) h.nonempty⟩
    rw [InsertionMap.erase_of_get_none hget]
    exact h.held.cons _
  · next bucket hget =>
    have hset := InsertionMap.set_perm (m := c) (k := bytesKey b) (bucket ++ [rowOf b])
    refine ⟨(items_of_perm hset).trans ?_, mem_entries_of_perm hset (by simp) h.nonempty⟩
    have hitems := (items_of_perm (InsertionMap.perm_of_get hget)).symm.trans h.held
    rw [List.map_append, List.append_assoc]
    refine List.perm_middle.trans ?_
    exact hitems.cons _

theorem Holds.deleteCachedRow (h : Holds rowOf c texts) {b : Bytes} (hb : b ∈ texts) :
    (c.get (bytesKey b)).isSome = true ∧
      Holds rowOf (deleteCachedRow c b) (texts.erase b) := by
  have hmem : (bytesKey b, rowOf b) ∈ items c :=
    h.held.mem_iff.mpr (List.mem_map_of_mem hb)
  obtain ⟨⟨k, bucket⟩, hentry, hrow⟩ := List.mem_flatMap.mp hmem
  obtain ⟨row, hrow, hpair⟩ := List.mem_map.mp hrow
  obtain ⟨hk, -⟩ := Prod.mk.inj hpair
  dsimp only at hk
  subst hk
  have hget := InsertionMap.get_of_mem hentry
  have hperm := InsertionMap.perm_of_get hget
  -- All rows of the bucket are the row of these bytes.
  have hbucket : ∀ r ∈ bucket, r = rowOf b := by
    intro r hr
    have hr : (bytesKey b, r) ∈ items c :=
      List.mem_flatMap.mpr ⟨_, hentry, List.mem_map_of_mem hr⟩
    obtain ⟨b', -, hb'⟩ := List.mem_map.mp (h.held.mem_iff.mp hr)
    rw [Prod.mk.injEq] at hb'
    rw [← hb'.2, bytesKey_injective hb'.1]
  have hrest : ∀ rest : List (CachedRow ρ), bucket = rowOf b :: rest →
      (rest.map (bytesKey b, ·) ++ items (c.erase (bytesKey b))).Perm
        ((texts.erase b).map fun b => (bytesKey b, rowOf b)) := by
    rintro rest rfl
    apply List.Perm.cons_inv (a := (bytesKey b, rowOf b))
    have htexts := (List.perm_cons_erase hb).map fun b => (bytesKey b, rowOf b)
    exact (items_of_perm hperm).symm.trans (h.held.trans htexts)
  refine ⟨by rw [hget]; rfl, ?_⟩
  cases bucket with
  | nil => exact absurd rfl (h.nonempty _ hentry)
  | cons r rest =>
    have hrow := hbucket r List.mem_cons_self
    subst hrow
    simp only [Client.deleteCachedRow, hget]
    by_cases hnil : (rowOf b :: rest).tail = []
    · rw [if_pos hnil]
      rw [List.tail_cons] at hnil
      refine ⟨by simpa [hnil] using hrest rest rfl, fun e he => ?_⟩
      exact h.nonempty e (List.mem_filter.mp he).1
    · rw [if_neg hnil]
      have hset := InsertionMap.set_perm (m := c) (k := bytesKey b) rest
      exact ⟨(items_of_perm hset).trans (hrest rest rfl),
        mem_entries_of_perm hset hnil h.nonempty⟩

def allFound : RowCache ρ → List Bytes → Bool
  | _, [] => true
  | c, b :: bs => (c.get (bytesKey b)).isSome && allFound (deleteCachedRow c b) bs

theorem Holds.deleteAll (h : Holds rowOf c texts) {deletes : List Bytes}
    (hdel : List.Subperm deletes texts) :
    allFound c deletes = true ∧
      Holds rowOf (deletes.foldl Client.deleteCachedRow c) (texts.diff deletes) := by
  induction deletes generalizing c texts with
  | nil => exact ⟨rfl, h⟩
  | cons b deletes ih =>
    have hb : b ∈ texts := hdel.subset List.mem_cons_self
    obtain ⟨hfound, hholds⟩ := h.deleteCachedRow hb
    have hrest : List.Subperm deletes (texts.erase b) := by
      have := hdel.erase b
      rwa [List.erase_cons_head] at this
    obtain ⟨hall, hdiff⟩ := ih hholds hrest
    refine ⟨by rw [allFound, hfound, hall]; rfl, ?_⟩
    rw [List.foldl_cons, List.diff_cons]
    exact hdiff

theorem Holds.cacheAll (h : Holds rowOf c texts) (inserts : List Bytes) :
    Holds rowOf ((inserts.zip (inserts.map rowOf)).foldl
      (fun c br => Client.cacheRow c br.1 br.2) c) (inserts ++ texts) := by
  induction inserts generalizing c texts with
  | nil => exact h
  | cons b inserts ih =>
    rw [List.map_cons, List.zip_cons_cons, List.foldl_cons]
    exact (ih (h.cacheRow b)).perm List.perm_middle

end RowCache

end Shunter.Client

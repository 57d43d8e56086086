import Shunter.Client.RowCache

/-!
# The row cache along a run

The server sends the initial rows of a subscription and a delta for each commit.
As long as no two rows differ only in the sign of a floating-point zero, the
handle shows the current result.  With such rows the server may cancel a change
that the client would have had to see.
-/

namespace Shunter.Client

open Foundation Subscription Bsatn

/-! ## Deltas of the server -/

/-- What the server promises of a delta, up to `Equal`: the rows before with the inserted rows are
the rows after with the deleted rows, and only rows from before are deleted. -/
structure ServerDelta (before after inserts deletes : List ProductValue) : Prop where
  balance : rowBag before + rowBag inserts = rowBag after + rowBag deletes
  deleted : rowBag deletes ≤ rowBag before

theorem serverDelta_of_exact {before after inserts deletes : List ProductValue}
    (h : ExactDelta before after inserts deletes) : ServerDelta before after inserts deletes := by
  refine ⟨h.balance, Multiset.le_iff_count.mpr fun cls => ?_⟩
  have hcount := congrArg (Multiset.count cls) h.balance
  rw [Multiset.count_add, Multiset.count_add] at hcount
  by_cases hdel : cls ∈ rowBag deletes
  · obtain ⟨s, hs, rfl⟩ := (mem_bag ProductValue.rowClass).mp hdel
    have hins : (rowBag inserts).count s.rowClass = 0 := by
      rw [Multiset.count_eq_zero]
      intro hmem
      obtain ⟨r, hr, hrs⟩ := (mem_bag ProductValue.rowClass).mp hmem
      have hne := h.disjoint r hr s hs
      rw [Bool.eq_false_iff, Ne, ProductValue.equal_iff] at hne
      exact hne hrs
    omega
  · rw [Multiset.count_eq_zero.mpr hdel]
    exact Nat.zero_le _

/-- The changed rows of a table that match a query over that table alone are such a delta. -/
theorem serverDelta_of_committed {cs cs' : CommittedState} {changeset : Changeset}
    (h : StateCommitted cs cs' changeset) (hcs : cs.Inv) {tableID : TableID}
    (hstored : ∀ table, cs.table tableID = some table → table.schema.isEvent = false)
    (selects : ProductValue → Bool) :
    ServerDelta ((cs.tableRows tableID).filter selects) ((cs'.tableRows tableID).filter selects)
      ((changeset.insertsOf tableID).filter selects)
      ((changeset.deletesOf tableID).filter selects) := by
  obtain ⟨hbefore, hafter⟩ := h.tableRows hcs hstored
  have hbefore := bag_perm ProductValue.rowClass (hbefore.filter selects)
  have hafter := bag_perm ProductValue.rowClass (hafter.filter selects)
  rw [List.filter_append, bag_append] at hbefore hafter
  refine ⟨?_, ?_⟩
  · simp only [rowBag, hbefore, hafter]
    exact add_right_comm _ _ _
  · rw [rowBag, rowBag, hbefore]
    exact Multiset.le_add_left _ _

/-! ## Rows that differ in the sign of a zero -/

def isFloatZero : Value → Bool
  | ⟨.float32, some f⟩ => f.position = 0
  | ⟨.float64, some f⟩ => f.position = 0
  | _ => false

def SameButZeroSign (v w : Value) : Prop :=
  v = w ∨ v.kind = w.kind ∧ isFloatZero v = true ∧ isFloatZero w = true

theorem eq_of_position {width inf : Nat} {f g : FloatBits width inf}
    (h : f.position = g.position) (hzero : f.position ≠ 0) : f = g := by
  have hbits := FloatBits.hashBits_congr h
  rw [FloatBits.hashBits, FloatBits.hashBits, if_neg hzero, if_neg (h ▸ hzero)] at hbits
  cases f
  cases g
  simp_all

theorem sameButZeroSign_of_rank {v w : Value} (h : v.rank = w.rank) : SameButZeroSign v w := by
  by_cases hfloat : v.kind = .float32 ∨ v.kind = .float64
  · obtain ⟨k, p⟩ := v
    obtain ⟨k', q⟩ := w
    cases Value.kind_eq_of_rank_eq h
    rcases hfloat with rfl | rfl
    all_goals
      cases p with
      | none => cases q <;> simp_all [Value.rank, SameButZeroSign]
      | some f =>
        cases q with
        | none => simp [Value.rank] at h
        | some g =>
          have hposition : f.position = g.position := by
            simpa [Value.rank, Payload.rank] using h
          by_cases hzero : f.position = 0
          · exact .inr ⟨rfl, by simp [isFloatZero, hzero],
              by simp [isFloatZero, ← hposition, hzero]⟩
          · exact .inl (by rw [eq_of_position hposition hzero])
  · rw [not_or] at hfloat
    exact .inl (Value.eq_of_rank_eq h hfloat.1 hfloat.2)

/-- No two of the rows differ only in the signs of floating-point zeros. -/
def ZeroSignsAgree (rows : List ProductValue) : Prop :=
  ∀ r ∈ rows, ∀ s ∈ rows, List.Forall₂ SameButZeroSign r s → r = s

variable {rows : List ProductValue}

theorem ZeroSignsAgree.injOn (h : ZeroSignsAgree rows) :
    Set.InjOn ProductValue.rowClass {r | r ∈ rows} := by
  intro r hr s hs hclass
  apply h r hr s hs
  have hranks : List.Forall₂ (fun v w => Value.rank v = Value.rank w) r s := by
    rw [← List.forall₂_map_right_iff, ← List.forall₂_map_left_iff, List.forall₂_eq_eq_eq]
    exact hclass
  exact hranks.imp fun _ _ => sameButZeroSign_of_rank

theorem eq_of_rowBag_eq (h : ZeroSignsAgree rows) :
    ∃ choose : List (List (List Int)) → ProductValue, ∀ l : List ProductValue, l ⊆ rows →
      (rowBag l).map choose = l := by
  refine ⟨Function.invFunOn ProductValue.rowClass {r | r ∈ rows}, fun l hl => ?_⟩
  have hinv : ∀ r ∈ l, Function.invFunOn ProductValue.rowClass {r | r ∈ rows} r.rowClass = r :=
    fun r hr => h.injOn.leftInvOn_invFunOn (hl hr)
  rw [rowBag, bag, Multiset.map_coe, List.map_map, Multiset.coe_eq_coe]
  exact .of_eq ((List.map_congr_left hinv).trans (List.map_id l))

theorem ServerDelta.perm {before after inserts deletes : List ProductValue}
    (h : ServerDelta before after inserts deletes)
    (hzero : ZeroSignsAgree (before ++ after ++ inserts ++ deletes)) :
    (before ++ inserts).Perm (after ++ deletes) ∧ List.Subperm deletes before := by
  obtain ⟨choose, hchoose⟩ := eq_of_rowBag_eq hzero
  constructor
  · have hbalance := congrArg (Multiset.map choose) h.balance
    rw [← rowBag_append, ← rowBag_append, hchoose _ (by grind), hchoose _ (by grind)] at hbalance
    exact Multiset.coe_eq_coe.mp hbalance
  · have hle := Multiset.map_le_map (f := choose) h.deleted
    rw [hchoose _ (by grind), hchoose _ (by grind)] at hle
    exact Multiset.coe_le.mp hle

/-! ## Messages and runs -/

def encodeRows (columns : List ColumnSchema) (rows : List ProductValue) :
    Except BsatnError (List Bytes) :=
  rows.mapM fun row => appendProductValueForColumns [] row columns

/-- The update of a commit that changes the result; no update is sent for one that does not. -/
def makeDeltaUpdate (queryId : Nat) (columns : List ColumnSchema)
    (inserts deletes : List ProductValue) : Except BsatnError (Option RawSubscriptionUpdate) :=
  if inserts = [] ∧ deletes = [] then .ok none
  else do
    let insertRowBytes ← encodeRows columns inserts
    let deleteRowBytes ← encodeRows columns deletes
    .ok (some ⟨queryId, some insertRowBytes, some deleteRowBytes⟩)

def ActiveSubscription.rowOf (active : ActiveSubscription ρ) (rowBytes : Bytes) : CachedRow ρ :=
  match active.decodeRow with
  | none => .raw rowBytes
  | some decodeRow => .decoded (decodeRow rowBytes)

/-- The deleted rows of an update are in the cache when they are taken out. -/
def ActiveSubscription.findsDeleted (active : ActiveSubscription ρ)
    (update : Option RawSubscriptionUpdate) : Bool :=
  active.rowCache.all fun rowCache =>
    RowCache.allFound rowCache ((update.bind (·.deleteRowBytes)).getD [])

section Run

variable (meets : List ProductValue → List ProductValue → List ProductValue →
    List ProductValue → Prop) (columns : List ColumnSchema) (queryId i : Nat)

/-- The result of the query, the client, and whether all deleted rows have been found, after the
initial rows and a number of commits.  A message may carry updates of other queries; each delta
is one that the server sends and that meets a condition. -/
inductive CacheRun : List ProductValue → Subscriptions ρ → Bool → Prop
  | start {s : Subscriptions ρ} {rows : List ProductValue} {texts : List Bytes}
      (hquery : s.activeSubscriptionsByQuery queryId = some i)
      (hstored : (s.actives i).eventTable = false)
      (hmanaged : (s.actives i).handle.isSome = true ∧ (s.actives i).rowCache.isSome = true)
      (hsent : encodeRows columns rows = .ok texts) :
      CacheRun rows (s.put i ((s.actives i).replaceCachedRows texts
        (texts.map (s.actives i).rowOf))) true
  | commit {before after inserts deletes : List ProductValue} {s s' : Subscriptions ρ}
      {found : Bool} {own : Option RawSubscriptionUpdate} {updates : List RawSubscriptionUpdate}
      (hrun : CacheRun before s found) (hdelta : ServerDelta before after inserts deletes)
      (hmeets : meets before after inserts deletes)
      (hsent : makeDeltaUpdate queryId columns inserts deletes = .ok own)
      (hupdates : updates.filter (fun u => s.activeSubscriptionsByQuery u.queryId = some i) =
        own.toList)
      (hdispatch : dispatchRawSubscriptionUpdates s updates = (s', false)) :
      CacheRun after s' (found && (s.actives i).findsDeleted own)

end Run

/-! ## One update -/

theorem encodeRows_eq {columns : List ColumnSchema} {texts : List Bytes}
    (h : encodeRows columns rows = .ok texts) : texts = rows.map (rowText columns) := by
  induction rows generalizing texts with
  | nil =>
    cases h
    rfl
  | cons row rows ih =>
    simp only [encodeRows, List.mapM_cons] at h ih
    obtain ⟨text, htext, h⟩ := except_bind_eq_ok.mp h
    obtain ⟨rest, hrest, h⟩ := except_bind_eq_ok.mp h
    cases h
    obtain ⟨-, rfl⟩ := appendProductValueForColumns_ok.mp htext
    rw [ih hrest]
    rfl

/-- The cache and the handle of a subscription with a given result. -/
structure Mirrors (columns : List ColumnSchema) (active : ActiveSubscription ρ)
    (result : List ProductValue) : Prop where
  stored : active.eventTable = false
  cache : ∃ c, active.rowCache = some c ∧
    RowCache.Holds active.rowOf c (result.map (rowText columns))
  shown : ∃ rows, active.handle = some rows ∧
    rows.Perm (result.map fun row => active.rowOf (rowText columns row))

namespace ActiveSubscription

variable {active : ActiveSubscription ρ}

@[simp] theorem rowOf_rowCache (c : Option (RowCache ρ)) :
    { active with rowCache := c }.rowOf = active.rowOf := rfl

theorem insertedRows_eq (texts : List Bytes) (inserts : Option (List ρ))
    (h : ∀ decodeRow, active.decodeRow = some decodeRow →
      inserts.getD (texts.map decodeRow) = texts.map decodeRow) :
    active.insertedRows texts inserts = texts.map active.rowOf := by
  unfold insertedRows rowOf
  cases hdecode : active.decodeRow with
  | none => rfl
  | some decodeRow => simp [h decodeRow hdecode]

def updatedCache (active : ActiveSubscription ρ) (c : RowCache ρ) (inserts deletes : List Bytes) :
    RowCache ρ :=
  (inserts.zip (inserts.map active.rowOf)).foldl (fun c br => cacheRow c br.1 br.2)
    (deletes.foldl deleteCachedRow c)

theorem dispatchUpdate_eq {c : RowCache ρ} {shown : List (CachedRow ρ)}
    (hstored : active.eventTable = false) (hcache : active.rowCache = some c)
    (hhandle : active.handle = some shown) (queryId : Nat) (inserts deletes : List Bytes) :
    active.dispatchUpdate ⟨queryId, some inserts, some deletes⟩ =
      some ({ active with rowCache := some (active.updatedCache c inserts deletes) }, true) := by
  have happly : ∀ decoded : Option (List ρ), (∀ decodeRow, active.decodeRow = some decodeRow →
      decoded.getD (inserts.map decodeRow) = inserts.map decodeRow) →
      active.applyCachedUpdate ⟨queryId, some inserts, some deletes⟩ decoded =
        some ({ active with rowCache := some (active.updatedCache c inserts deletes) }, true) := by
    intro decoded hdecoded
    simp [updatedCache, applyCachedUpdate, hcache, hhandle, hstored, insertedRows_eq inserts decoded hdecoded]
  unfold dispatchUpdate
  split
  · split
    · next decodeRow hdecode =>
      exact happly (some (inserts.map decodeRow)) (by simp [hdecode])
    · exact happly none (by simp)
  · exact happly none (by simp)

end ActiveSubscription

namespace Mirrors

variable {columns : List ColumnSchema} {active : ActiveSubscription ρ}
  {before after inserts deletes : List ProductValue}

theorem of_perm (h : Mirrors columns active before) (hperm : before.Perm after) :
    Mirrors columns active after := by
  obtain ⟨c, hc, hholds⟩ := h.cache
  obtain ⟨shown, hshown, hrows⟩ := h.shown
  exact ⟨h.stored, ⟨c, hc, hholds.perm (hperm.map _)⟩, shown, hshown, hrows.trans (hperm.map _)⟩

theorem replaceCachedRows (hstored : active.eventTable = false)
    (hmanaged : active.handle.isSome = true ∧ active.rowCache.isSome = true)
    (rows : List ProductValue) :
    Mirrors columns (active.replaceCachedRows (rows.map (rowText columns))
      ((rows.map (rowText columns)).map active.rowOf)) rows := by
  obtain ⟨shown, hshown⟩ := Option.isSome_iff_exists.mp hmanaged.1
  obtain ⟨c, hc⟩ := Option.isSome_iff_exists.mp hmanaged.2
  have hempty : RowCache.Holds active.rowOf ∅ [] := RowCache.holds_empty
  have hholds := hempty.cacheAll (rows.map (rowText columns))
  rw [List.append_nil] at hholds
  simp only [ActiveSubscription.replaceCachedRows, hc, hshown, Option.map_some]
  exact ⟨hstored, ⟨_, rfl, hholds⟩, _, rfl, hholds.cachedRows.trans (.of_eq List.map_map)⟩

theorem update (h : Mirrors columns active before)
    (hdelta : ServerDelta before after inserts deletes)
    (hzero : ZeroSignsAgree (before ++ after ++ inserts ++ deletes)) :
    active.rowCache.all (RowCache.allFound · (deletes.map (rowText columns))) = true ∧
      ∀ c, active.rowCache = some c → Mirrors columns
        ({ active with rowCache := some (active.updatedCache c (inserts.map (rowText columns))
          (deletes.map (rowText columns))) }.publishCachedRows) after := by
  obtain ⟨c, hc, hholds⟩ := h.cache
  obtain ⟨shown, hshown, -⟩ := h.shown
  obtain ⟨hperm, hsub⟩ := hdelta.perm hzero
  have hsub : List.Subperm (deletes.map (rowText columns)) (before.map (rowText columns)) := by
    obtain ⟨l, hl, hlbefore⟩ := hsub
    exact ⟨_, hl.map _, hlbefore.map _⟩
  obtain ⟨hfound, hdeleted⟩ := hholds.deleteAll hsub
  refine ⟨by simp [hc, hfound], fun c' hc' => ?_⟩
  rw [hc] at hc'
  cases hc'
  have htexts : (inserts.map (rowText columns) ++ (before.map (rowText columns)).diff
      (deletes.map (rowText columns))).Perm (after.map (rowText columns)) := by
    rw [← List.perm_append_right_iff (deletes.map (rowText columns)), List.append_assoc]
    have hkept := (List.perm_append_comm.trans
      (List.subperm_append_diff_self_of_count_le fun x _ => hsub.count_le x)).append_left
        (inserts.map (rowText columns))
    have hmapped := hperm.map (rowText columns)
    rw [List.map_append, List.map_append] at hmapped
    exact hkept.trans (List.perm_append_comm.trans hmapped)
  have hafter := (hdeleted.cacheAll (inserts.map (rowText columns))).perm htexts
  refine ⟨h.stored, ⟨_, rfl, hafter⟩, _, ?_, hafter.cachedRows.trans (.of_eq List.map_map)⟩
  simp only [ActiveSubscription.publishCachedRows, hshown, h.stored]
  rfl

end Mirrors

/-! ## A whole message -/

/-- The updates of a message for one subscription, one after the other; the flag says whether
one of them has changed the cache. -/
def ActiveSubscription.applyUpdates (active : ActiveSubscription ρ) (changed : Bool) :
    List RawSubscriptionUpdate → Option (ActiveSubscription ρ × Bool)
  | [] => some (active, changed)
  | update :: updates => do
    let (active, applied) ← active.dispatchUpdate update
    active.applyUpdates (changed || applied) updates

section Dispatch

variable {s s' : Subscriptions ρ} {updates : List RawSubscriptionUpdate} {i : Nat}

@[simp] theorem Subscriptions.put_byQuery (active : ActiveSubscription ρ) (j : Nat) :
    (s.put j active).activeSubscriptionsByQuery = s.activeSubscriptionsByQuery := rfl

@[simp] theorem Subscriptions.put_actives_self (active : ActiveSubscription ρ) (i : Nat) :
    (s.put i active).actives i = active := by
  simp [Subscriptions.put]

theorem Subscriptions.put_actives_of_ne (active : ActiveSubscription ρ) {j : Nat} (h : i ≠ j) :
    (s.put j active).actives i = s.actives i := by
  simp [Subscriptions.put, h]

theorem dispatchUpdates_active {changed changed' : List Nat}
    (h : dispatchUpdates s changed updates = (s', changed', false)) :
    s'.activeSubscriptionsByQuery = s.activeSubscriptionsByQuery ∧
    (s.actives i).applyUpdates (changed.contains i)
      (updates.filter fun u => s.activeSubscriptionsByQuery u.queryId = some i) =
        some (s'.actives i, changed'.contains i) := by
  induction updates generalizing s changed with
  | nil =>
    cases h
    exact ⟨rfl, rfl⟩
  | cons update updates ih =>
    rw [dispatchUpdates] at h
    split at h
    · next hnone =>
      rw [List.filter_cons_of_neg (by simp [hnone])]
      exact ih h
    · next j hj =>
      split at h
      · cases h
      · next active applied happly =>
        obtain ⟨hquery, hrest⟩ := ih h
        refine ⟨hquery, ?_⟩
        rw [Subscriptions.put_byQuery] at hrest
        by_cases hji : j = i
        · subst hji
          rw [List.filter_cons_of_pos (by simp [hj]), ActiveSubscription.applyUpdates, happly]
          rw [Subscriptions.put_actives_self] at hrest
          rw [← hrest]
          change ActiveSubscription.applyUpdates active _ _ = _
          congr 1
          by_cases hmem : j ∈ changed <;> cases applied <;> simp [hmem]
        · rw [List.filter_cons_of_neg (by simp [hj, hji])]
          rw [Subscriptions.put_actives_of_ne _ (Ne.symm hji)] at hrest
          rw [← hrest]
          congr 1
          split
          · simp [Ne.symm hji]
          · rfl

theorem publishCachedRows_idem (active : ActiveSubscription ρ) :
    active.publishCachedRows.publishCachedRows = active.publishCachedRows := by
  unfold ActiveSubscription.publishCachedRows
  cases active.handle <;> rfl

theorem publish_active (changed : List Nat) (s : Subscriptions ρ) :
    (changed.foldl (fun s i => s.put i (s.actives i).publishCachedRows) s).actives i =
      if i ∈ changed then (s.actives i).publishCachedRows else s.actives i := by
  induction changed generalizing s with
  | nil => rfl
  | cons j changed ih =>
    rw [List.foldl_cons, ih]
    by_cases hji : i = j
    · subst hji
      simp [publishCachedRows_idem]
    · simp [Subscriptions.put_actives_of_ne _ hji, hji]

theorem dispatch_active (h : dispatchRawSubscriptionUpdates s updates = (s', false)) :
    ∃ active changed, (s.actives i).applyUpdates false
      (updates.filter fun u => s.activeSubscriptionsByQuery u.queryId = some i) =
        some (active, changed) ∧
      s'.actives i = if changed then active.publishCachedRows else active := by
  unfold dispatchRawSubscriptionUpdates at h
  split at h
  · cases h
  · next s₁ changed hloop =>
    cases h
    refine ⟨_, _, (dispatchUpdates_active hloop).2, ?_⟩
    rw [publish_active]
    simp

theorem dispatch_none
    (hupdates : updates.filter (fun u => s.activeSubscriptionsByQuery u.queryId = some i) = [])
    (h : dispatchRawSubscriptionUpdates s updates = (s', false)) : s'.actives i = s.actives i := by
  obtain ⟨active, changed, happly, hactive⟩ := dispatch_active (i := i) h
  rw [hupdates] at happly
  cases happly
  exact hactive

theorem dispatch_some {update : RawSubscriptionUpdate} {active : ActiveSubscription ρ}
    (hupdates : updates.filter (fun u => s.activeSubscriptionsByQuery u.queryId = some i) =
      [update])
    (happly : (s.actives i).dispatchUpdate update = some (active, true))
    (h : dispatchRawSubscriptionUpdates s updates = (s', false)) :
    s'.actives i = active.publishCachedRows := by
  obtain ⟨active', changed, hrun, hactive⟩ := dispatch_active (i := i) h
  rw [hupdates, ActiveSubscription.applyUpdates, happly] at hrun
  cases hrun
  exact hactive

end Dispatch

/-! ## Runs -/

section Runs

variable {columns : List ColumnSchema} {queryId i : Nat} {result : List ProductValue}
  {s : Subscriptions ρ} {found : Bool}

/-- The condition under which a cache follows: none of the rows involved in a commit differ only
in the signs of zeros. -/
def commitZeroSignsAgree (before after inserts deletes : List ProductValue) : Prop :=
  ZeroSignsAgree (before ++ after ++ inserts ++ deletes)

theorem CacheRun.mirrors
    (hrun : CacheRun commitZeroSignsAgree columns queryId i result s found) :
    found = true ∧ Mirrors columns (s.actives i) result := by
  induction hrun with
  | start hquery hstored hmanaged hsent =>
    refine ⟨rfl, ?_⟩
    rw [encodeRows_eq hsent, Subscriptions.put_actives_self]
    exact Mirrors.replaceCachedRows hstored hmanaged _
  | @commit before after inserts deletes s s' found own updates hrun hdelta hmeets hsent hupdates
      hdispatch ih =>
      obtain ⟨hfound, hmirrors⟩ := ih
      obtain ⟨hall, hnext⟩ := hmirrors.update hdelta hmeets
      obtain ⟨c, hc, -⟩ := hmirrors.cache
      obtain ⟨shown, hshown, -⟩ := hmirrors.shown
      unfold makeDeltaUpdate at hsent
      split at hsent
      · next hempty =>
        obtain ⟨rfl, rfl⟩ := hempty
        cases hsent
        have hperm := (hdelta.perm hmeets).1
        rw [List.append_nil, List.append_nil] at hperm
        rw [dispatch_none hupdates hdispatch]
        exact ⟨by simpa [hfound, ActiveSubscription.findsDeleted] using hall,
          hmirrors.of_perm hperm⟩
      · obtain ⟨insertTexts, hinserts, hsent⟩ := except_bind_eq_ok.mp hsent
        obtain ⟨deleteTexts, hdeletes, hsent⟩ := except_bind_eq_ok.mp hsent
        cases hsent
        have happly := ActiveSubscription.dispatchUpdate_eq hmirrors.stored hc hshown queryId
          insertTexts deleteTexts
        rw [dispatch_some hupdates happly hdispatch]
        rw [encodeRows_eq hinserts, encodeRows_eq hdeletes]
        exact ⟨by simpa [hfound, ActiveSubscription.findsDeleted] using hall, hnext c hc⟩

/-- The deleted rows have been found, and the handle shows the rows of the current result. -/
def FollowsResult (columns : List ColumnSchema) (active : ActiveSubscription ρ)
    (result : List ProductValue) (found : Bool) : Prop :=
  found = true ∧ ∃ rows, active.handle = some rows ∧
    rows.Perm (result.map fun row => active.rowOf (rowText columns row))

/-- In every run whose commits meet the condition, the cache follows the result. -/
theorem rowCache_follows
    (hrun : CacheRun commitZeroSignsAgree columns queryId i result s found) :
    FollowsResult columns (s.actives i) result found :=
  ⟨hrun.mirrors.1, hrun.mirrors.2.shown⟩

end Runs

/-! ## Two zeros -/

def scoreColumn : ColumnSchema := ⟨0, [], .float64, false, false⟩

def plusZero : Value := ⟨.float64, some ⟨0, by decide⟩⟩

def minusZero : Value := ⟨.float64, some ⟨0x8000000000000000, by decide⟩⟩

def oneSubscription : Subscriptions Unit where
  activeSubscriptionsByQuery queryId := if queryId = 7 then some 0 else none
  actives _ := ⟨none, false, false, some [], some ∅, false⟩

def scoreTexts (scores : List Value) : List Bytes :=
  scores.map fun score => rowText [scoreColumn] [score]

def afterInitial : Subscriptions Unit :=
  oneSubscription.put 0 ((oneSubscription.actives 0).replaceCachedRows (scoreTexts [plusZero])
    ((scoreTexts [plusZero]).map (oneSubscription.actives 0).rowOf))

def deleteMinusZero : RawSubscriptionUpdate := ⟨7, some [], some (scoreTexts [minusZero])⟩

theorem afterInitial_run (meets : List ProductValue → List ProductValue → List ProductValue →
    List ProductValue → Prop) :
    CacheRun meets [scoreColumn] 7 0 [[plusZero]] afterInitial true :=
  .start rfl rfl ⟨rfl, rfl⟩ (by decide)

/-- The row `(1, 0.0)` is replaced by `(2, -0.0)`, and then that row is deleted.  On the second
column the first change cancels, so the row of the initial result stays in the client. -/
theorem rowCache_misses_zero :
    projectDeltaRows [[⟨.uint64, some 2⟩, minusZero]] [[⟨.uint64, some 1⟩, plusZero]]
      [⟨scoreColumn, 0, 1, 0⟩] = ([], []) ∧
    ¬ ∀ (ρ : Type) (columns : List ColumnSchema) (queryId i : Nat) (result : List ProductValue)
      (s : Subscriptions ρ) (found : Bool),
      CacheRun (fun _ _ _ _ => True) columns queryId i result s found →
        FollowsResult columns (s.actives i) result found := by
  refine ⟨by decide +kernel, fun hall => ?_⟩
  have hsame : rowBag [[plusZero]] = rowBag [[minusZero]] := by decide
  have hcancel : ServerDelta [[plusZero]] [[minusZero]] [] [] :=
    ⟨by rw [hsame], Multiset.zero_le _⟩
  have hnone : makeDeltaUpdate 7 [scoreColumn] [] [] = .ok none := rfl
  have hquiet : dispatchRawSubscriptionUpdates afterInitial [] = (afterInitial, false) := rfl
  have hfirst : CacheRun (fun _ _ _ _ => True) [scoreColumn] 7 0 [[minusZero]] afterInitial true :=
    .commit (afterInitial_run _) hcancel trivial hnone rfl hquiet
  have hdelete : ServerDelta [[minusZero]] [] [] [[minusZero]] := ⟨by simp, le_refl _⟩
  have hsome : makeDeltaUpdate 7 [scoreColumn] [] [[minusZero]] = .ok (some deleteMinusZero) := rfl
  have hdispatch : dispatchRawSubscriptionUpdates afterInitial [deleteMinusZero] =
      ((dispatchRawSubscriptionUpdates afterInitial [deleteMinusZero]).1, false) := rfl
  have hsecond : CacheRun (fun _ _ _ _ => True) [scoreColumn] 7 0 [] _ false :=
    .commit hfirst hdelete trivial hsome rfl hdispatch
  exact absurd (hall _ _ _ _ _ _ _ hsecond).1 (by decide)

def deletePlusZero : RawSubscriptionUpdate := ⟨7, some [], some (scoreTexts [plusZero])⟩

/-- Without the two zeros the row is found and leaves the handle. -/
theorem rowCache_follows_plusZero :
    FollowsResult [scoreColumn]
      ((dispatchRawSubscriptionUpdates afterInitial [deletePlusZero]).1.actives 0) [] true ∧
    ((dispatchRawSubscriptionUpdates afterInitial [deletePlusZero]).1.actives 0).handle =
      some [] := by
  have hdelete : ServerDelta [[plusZero]] [] [] [[plusZero]] := ⟨by simp, le_refl _⟩
  have hagree : commitZeroSignsAgree [[plusZero]] [] [] [[plusZero]] := by
    intro r hr s hs _
    simp only [List.append_nil, List.cons_append, List.nil_append, List.mem_cons,
      List.not_mem_nil, or_false, or_self] at hr hs
    rw [hr, hs]
  have hsome : makeDeltaUpdate 7 [scoreColumn] [] [[plusZero]] = .ok (some deletePlusZero) := rfl
  have hdispatch : dispatchRawSubscriptionUpdates afterInitial [deletePlusZero] =
      ((dispatchRawSubscriptionUpdates afterInitial [deletePlusZero]).1, false) := rfl
  have hrun : CacheRun commitZeroSignsAgree [scoreColumn] 7 0 [] _ true :=
    .commit (afterInitial_run _) hdelete hagree hsome rfl hdispatch
  exact ⟨rowCache_follows hrun, by decide⟩

end Shunter.Client

import Shunter.Client.RowCacheRun
import Shunter.Store.LiveReplay

/-!
# A subscription to one table

Transactions commit on the server.  Each commit leads to an update with the
changed rows that match the query, and the client takes the update in.  Its handle
shows what the query selects from the committed state.
-/

namespace Shunter.Subscription

open Foundation

/-- The rows of a table have no duplicates, so the changed rows are filtered and no more. -/
def evalSingleTableDelta (dv : DeltaView) (pred : Predicate) (table : TableID) :
    List ProductValue × List ProductValue :=
  ((dv.inserts table).filter (matchRow pred table), (dv.deletes table).filter (matchRow pred table))

/-- The branch of `evalQuery` for one table, with a reconciliation after every projection. -/
def evalSingleTableQuery (dv : DeltaView) (pred : Predicate) (table : TableID)
    (projection : List ProjectionColumn) : List ProductValue × List ProductValue :=
  let (inserts, deletes) := evalSingleTableDelta dv pred table
  let inserts := projectRows inserts projection
  let deletes := projectRows deletes projection
  if inserts = [] ∨ deletes = [] then (inserts, deletes)
  else reconcileJoinDelta [inserts] [deletes]

def singleTableRows (pred : Predicate) (table : TableID) (projection : List ProjectionColumn)
    (cs : CommittedState) : List ProductValue :=
  projectRows ((cs.tableRows table).filter (matchRow pred table)) projection

variable {dv : DeltaView} {before after : CommittedState} {changeset : Changeset} {table : TableID}

theorem evalSingleTableQuery_exact (hinv : before.Inv)
    (hcommit : StateCommitted before after changeset) {cols : List (TableID × List Nat)}
    {events : TableID → Bool} (hnew : DeltaView.new after changeset cols events = some dv)
    (hstored : ∀ t, before.table table = some t → t.schema.isEvent = false) (pred : Predicate)
    (projection : List ProjectionColumn) :
    ExactDelta (singleTableRows pred table projection before)
      (singleTableRows pred table projection after)
      (evalSingleTableQuery dv pred table projection).1
      (evalSingleTableQuery dv pred table projection).2 := by
  obtain ⟨rfl, hshows⟩ := DeltaView.shows_of_new hinv hcommit hnew
  have hdelta := Client.serverDelta_of_committed hcommit hinv hstored (matchRow pred table)
  rw [← hshows.inserts, ← hshows.deletes] at hdelta
  have hbalance := projectRows_balance hdelta.balance projection
  unfold evalSingleTableQuery evalSingleTableDelta
  dsimp only
  split
  · next hnil =>
    refine ⟨hbalance, ?_⟩
    rcases hnil with hnil | hnil <;> simp [hnil]
  · rw [reconcileJoinDelta_exact_iff, List.flatten_singleton, List.flatten_singleton]
    exact hbalance

end Shunter.Subscription

namespace Shunter.Client

open Foundation Subscription

section Runs

variable (columns : List ColumnSchema) (queryId i : Nat) (pred : Predicate) (table : TableID)
  (projection : List ProjectionColumn)

/-- The committed state, the client, and whether all deleted rows have been found, after the
initial rows of the query and the updates of a number of commits. -/
inductive TableSubscription : CommittedState → Subscriptions ρ → Bool → Prop
  | start {cs : CommittedState} {s : Subscriptions ρ} {texts : List Bytes} (hcs : cs.Inv)
      (htable : ∀ t, cs.table table = some t → t.schema.isEvent = false)
      (hquery : s.activeSubscriptionsByQuery queryId = some i)
      (hstored : (s.actives i).eventTable = false)
      (hmanaged : (s.actives i).handle.isSome = true ∧ (s.actives i).rowCache.isSome = true)
      (hsent : encodeRows columns (singleTableRows pred table projection cs) = .ok texts) :
      TableSubscription cs (s.put i ((s.actives i).replaceCachedRows texts
        (texts.map (s.actives i).rowOf))) true
  | commit {cs cs' : CommittedState} {script : TxScript} {c : Changeset} {dv : DeltaView}
      {cols : List (TableID × List Nat)} {events : TableID → Bool}
      {inserts deletes : List ProductValue} {s s' : Subscriptions ρ} {found : Bool}
      {own : Option RawSubscriptionUpdate} {updates : List RawSubscriptionUpdate}
      (hrun : TableSubscription cs s found) (hcommit : script.run cs = .ok (cs', [c]))
      (hnew : DeltaView.new cs' c cols events = some dv)
      (heval : evalSingleTableQuery dv pred table projection = (inserts, deletes))
      (hzero : ZeroSignsAgree (singleTableRows pred table projection cs ++
        singleTableRows pred table projection cs' ++ inserts ++ deletes))
      (hsent : makeDeltaUpdate queryId columns inserts deletes = .ok own)
      (hupdates : updates.filter (fun u => s.activeSubscriptionsByQuery u.queryId = some i) =
        own.toList)
      (hdispatch : dispatchRawSubscriptionUpdates s updates = (s', false)) :
      TableSubscription cs' s' (found && (s.actives i).findsDeleted own)

variable {columns queryId i pred table projection} {cs : CommittedState} {s : Subscriptions ρ}
  {found : Bool}

theorem TableSubscription.cacheRun
    (h : TableSubscription columns queryId i pred table projection cs s found) :
    cs.Inv ∧ (∀ t, cs.table table = some t → t.schema.isEvent = false) ∧
      CacheRun commitZeroSignsAgree columns queryId i (singleTableRows pred table projection cs) s
        found := by
  induction h with
  | start hcs htable hquery hstored hmanaged hsent =>
    exact ⟨hcs, htable, .start hquery hstored hmanaged hsent⟩
  | @commit cs cs' script c _ _ _ _ _ _ _ _ _ _ _ hcommit hnew heval hzero hsent hupdates hdispatch
      ih =>
    obtain ⟨hcs, htable, hcache⟩ := ih
    obtain ⟨-, ⟨⟩⟩ | ⟨c, ⟨⟩, hcommit⟩ := script.run_cases hcs hcommit
    have hexact := evalSingleTableQuery_exact hcs hcommit hnew htable pred projection
    rw [heval] at hexact
    refine ⟨hcommit.inv hcs, fun t' ht' => ?_,
      .commit hcache (serverDelta_of_exact hexact) hzero hsent hupdates hdispatch⟩
    have hsame := hcommit.sameSchemas table
    rw [ht', Option.map_some] at hsame
    obtain ⟨t, ht, hschema⟩ := Option.map_eq_some_iff.mp hsame.symm
    rw [← hschema, htable t ht]

/--
In every run, the handle of the client shows the rows that the query selects from
the committed state, provided that none of the rows involved in a commit differ
only in the signs of zeros.
-/
theorem table_subscription_shows_state
    (h : TableSubscription columns queryId i pred table projection cs s found) :
    FollowsResult columns (s.actives i) (singleTableRows pred table projection cs) found := by
  obtain ⟨-, -, hcache⟩ := h.cacheRun
  exact ⟨hcache.mirrors.1, hcache.mirrors.2.shown⟩

end Runs

def memberColumns : List ColumnSchema :=
  [⟨0, nameBytes "id", .uint64, false, false⟩, ⟨1, nameBytes "team", .uint64, false, false⟩]

def teamSeven : Predicate := .colEq 0 1 0 ⟨.uint64, some 7⟩

def memberText (id : BitVec 64) : Bytes := Bsatn.rowText memberColumns (member id 7)

def memberReplaced : RawSubscriptionUpdate := ⟨7, some [memberText 2], some [memberText 1]⟩

def afterMembers : Subscriptions Unit :=
  oneSubscription.put 0 ((oneSubscription.actives 0).replaceCachedRows [memberText 1]
    ([memberText 1].map (oneSubscription.actives 0).rowOf))

private theorem members_zeroSignsAgree :
    ZeroSignsAgree ([member 1 7] ++ [member 2 7] ++ [member 2 7] ++ [member 1 7]) := by
  intro r hr s hs hsame
  simp only [List.cons_append, List.nil_append, List.mem_cons, List.not_mem_nil, or_false] at hr hs
  rcases hr with rfl | rfl | rfl | rfl <;> rcases hs with rfl | rfl | rfl | rfl <;>
    first | rfl | simp [member, SameButZeroSign, isFloatZero] at hsame

/-- The member of a team is replaced, and so is the row that the handle shows. -/
theorem table_subscription_shows_state_teams :
    FollowsResult memberColumns
      ((dispatchRawSubscriptionUpdates afterMembers [memberReplaced]).1.actives 0)
      (singleTableRows teamSeven 0 [] teamsAfter) true ∧
    singleTableRows teamSeven 0 [] teamsAfter = [member 2 7] := by
  have hbefore : singleTableRows teamSeven 0 [] teamsBefore = [member 1 7] := by decide +kernel
  have hafter : singleTableRows teamSeven 0 [] teamsAfter = [member 2 7] := by decide +kernel
  have heval : evalSingleTableQuery teamsView teamSeven 0 [] = ([member 2 7], [member 1 7]) := by
    decide +kernel
  have hstart : TableSubscription memberColumns 7 0 teamSeven 0 [] teamsBefore afterMembers true :=
    .start teamsBefore_inv teamsView_stored.2 rfl rfl ⟨rfl, rfl⟩ (by rw [hbefore]; decide)
  have hcommit : TxScript.run teamsBefore ⟨[.delete 0 1, .insert 0 (member 2 7)],
      .commit 2 true fun _ => none⟩ = .ok (teamsAfter, [teamsChangeset]) := rfl
  have hsent : makeDeltaUpdate 7 memberColumns [member 2 7] [member 1 7] =
      .ok (some memberReplaced) := rfl
  have hdispatch : dispatchRawSubscriptionUpdates afterMembers [memberReplaced] =
      ((dispatchRawSubscriptionUpdates afterMembers [memberReplaced]).1, false) := rfl
  have hrun : TableSubscription memberColumns 7 0 teamSeven 0 [] teamsAfter _ true :=
    .commit hstart hcommit teamsView_new heval
      (by rw [hbefore, hafter]; exact members_zeroSignsAgree) hsent rfl hdispatch
  exact ⟨table_subscription_shows_state hrun, hafter⟩

end Shunter.Client

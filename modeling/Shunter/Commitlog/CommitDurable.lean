import Shunter.Commitlog.ChangesetRoundTrip

/-!
# Making a commit durable

The changeset of a commit holds valid rows of registered tables.  Validation
lets it pass if its sizes keep to the limits; whether it can then be encoded
depends on the arrays in its rows.
-/

namespace Shunter

open Foundation Bsatn

/-! ## The changeset of a commit -/

variable {c : Changeset} {reg : SchemaRegistry}

theorem Prepared.entryOf {cs : CommittedState} {txState : TxState} (h : Prepared cs txState c)
    (hready : CommitReady cs txState) (hcs : cs.Inv)
    (hover : cs.All fun tableID table => reg.table tableID = some table.schema)
    (hids : ∀ ts ∈ reg.tables, ts.id < 2 ^ 32) {tableID : TableID} {tc : TableChangeset}
    (htc : c.tables[tableID]? = some tc) : EntryOf reg tableID tc := by
  obtain ⟨table, htable, hprep⟩ := h.entry tableID tc htc
  have hschema : reg.table tableID = some table.schema := hover tableID table htable
  refine ⟨hprep.tableID, by rw [hprep.tableName, hprep.schema], by rw [hprep.schema, hschema],
    ?_, ?_⟩
  · unfold SchemaRegistry.table at hschema
    have hid := List.find?_some hschema
    rw [beq_iff_eq] at hid
    rw [← hid]
    exact hids _ (List.mem_reverse.mp (List.mem_of_find?_eq_some hschema))
  · rintro row (hrow | hrow)
    · obtain ⟨rid, hrid⟩ := hprep.mem_inserts.mp hrow
      rw [hprep.schema]
      unfold TxState.tableInserts at hrid
      cases hins : txState.inserts[tableID]? with
      | none => simp [hins] at hrid
      | some ins =>
        rw [hins, Option.getD_some] at hrid
        obtain ⟨table', htable', hvalid⟩ := hready.inserts tableID ins hins
        rw [htable, Option.some.injEq] at htable'
        subst htable'
        exact hvalid.valid rid row hrid
    · obtain ⟨rid, -, hrid⟩ := hprep.mem_deletes.mp hrow
      rw [hprep.schema]
      exact (hcs tableID table htable).1.rowsOK.valid rid row hrid

theorem commit_entries {cs : CommittedState} (hcs : cs.Inv)
    (hover : cs.All fun tableID table => reg.table tableID = some table.schema)
    (hids : ∀ ts ∈ reg.tables, ts.id < 2 ^ 32) (ops : List TxOp) (txID : TxID)
    (advanceHorizon : Bool) (validate : Changeset → Option StoreError)
    (hok :
      (commitWithValidation cs (Transaction.new.runOps cs ops).1 txID advanceHorizon
        validate).2.2 = .ok c)
: ∀ e ∈ c.tables.toList, EntryOf reg e.1 e.2 := by
  have htx := ((Refines.init hcs).runOps hcs ops).inv
  have hcases := commitWithValidation_cases (fun tid table htable => (hcs tid table htable).1)
    htx.countersKnown txID advanceHorizon validate
  rcases hcases with ⟨e, hres⟩ | ⟨c₁, ⟨c₀, hprep, hc⟩, hready, -, -, hres⟩
  · rw [hres] at hok
    cases hok
  · rw [hres, Except.ok.injEq] at hok
    subst hok
    rintro ⟨tid, tc⟩ he
    exact (prepared_of_prepareChangeset hready hprep hc).entryOf hready hcs hover hids
      (Std.ExtTreeMap.mem_toList_iff_getElem?_eq_some.mp he)

/-! ## Durability -/

/-- Validation decides encoding, and recovery reads back what was encoded. -/
structure Durable (limits : CodecLimits) (reg : SchemaRegistry) (c : Changeset) : Prop where
  validated : validateChangeset limits c = none ↔
    ∃ out, encodeChangesetWithLimits c limits = .ok out
  recovered : ∀ out, encodeChangesetWithLimits c limits = .ok out →
    ∃ c', decodeChangeset out reg = .ok c' ∧ c'.tables = c.tables

theorem tableEncodable_iff {maxRowBytes : Nat} (hmax : maxRowBytes ≤ formatMaxRowBytes)
    {tc : TableChangeset} (hvalid : tc.RowsValid) (hwithin : TableWithin maxRowBytes tc) :
    TableEncodable maxRowBytes tc ↔
      ∀ row, row ∈ tc.inserts ∨ row ∈ tc.deletes → SmallArrays row := by
  have hins : ∀ row ∈ tc.inserts, RowFits tc.schema.columns row ↔ SmallArrays row :=
    fun row hrow => rowFits_iff (hvalid row (.inl hrow)) ((hwithin.inserts.row row hrow).trans hmax)
  have hdels : ∀ row ∈ tc.deletes, RowFits tc.schema.columns row ↔ SmallArrays row :=
    fun row hrow => rowFits_iff (hvalid row (.inr hrow)) ((hwithin.deletes.row row hrow).trans hmax)
  constructor
  · rintro h row (hrow | hrow)
    · exact (hins row hrow).mp (h.inserts.fits row hrow)
    · exact (hdels row hrow).mp (h.deletes.fits row hrow)
  · intro h
    exact ⟨⟨hwithin.inserts, fun row hrow => (hins row hrow).mpr (h row (.inl hrow))⟩,
      ⟨hwithin.deletes, fun row hrow => (hdels row hrow).mpr (h row (.inr hrow))⟩⟩

theorem RowsEncodable.mono {columns : List ColumnSchema} {rows : List ProductValue} {m n : Nat}
    (h : RowsEncodable columns m rows) (hmn : m ≤ n) : RowsEncodable columns n rows :=
  ⟨⟨h.count, fun r hr => (h.row r hr).trans hmn⟩, h.fits⟩

theorem encoded_recovers {limits : CodecLimits} (haccepted : limits.accepted = true)
    (hentries : ∀ e ∈ c.tables.toList, EntryOf reg e.1 e.2) {out : Bytes}
    (hout : encodeChangesetWithLimits c limits = .ok out) :
    decodeChangeset out reg = .ok ⟨0, c.tables⟩ := by
  have hmax := (CodecLimits.bounds haccepted).2.1
  obtain ⟨hwithin, htables, rfl⟩ :=
    (encodeChangesetWithLimits_ok haccepted (fun e he => (hentries e he).valid) out).mp hout
  refine decodeChangesetWithMax_text (by decide) hwithin.count hentries fun e he => ?_
  exact ⟨(htables e he).inserts.mono hmax, (htables e he).deletes.mono hmax⟩

theorem durable_iff {limits : CodecLimits} (haccepted : limits.accepted = true)
    (hentries : ∀ e ∈ c.tables.toList, EntryOf reg e.1 e.2) :
    Durable limits reg c ↔ (WithinLimits limits c → ∀ e ∈ c.tables.toList,
      ∀ row, row ∈ e.2.inserts ∨ row ∈ e.2.deletes → SmallArrays row) := by
  have hvalid : ∀ e ∈ c.tables.toList, e.2.RowsValid := fun e he => (hentries e he).valid
  have hmax := (CodecLimits.bounds haccepted).2.1
  have hcheck := validateChangeset_iff haccepted hvalid
  have hencode := encodeChangesetWithLimits_ok haccepted hvalid
  constructor
  · intro hdurable hwithin e he
    obtain ⟨out, hout⟩ := hdurable.validated.mp (hcheck.mpr hwithin)
    have hencodable := ((hencode out).mp hout).2.1 e he
    exact (tableEncodable_iff hmax (hvalid e he) (hwithin.tables e he)).mp hencodable
  · intro hsmall
    refine ⟨⟨fun hnone => ?_, fun ⟨out, hout⟩ => hcheck.mpr ((hencode out).mp hout).1⟩, ?_⟩
    · have hwithin := hcheck.mp hnone
      refine ⟨changesetText c, (hencode _).mpr ⟨hwithin, fun e he => ?_, rfl⟩⟩
      exact (tableEncodable_iff hmax (hvalid e he) (hwithin.tables e he)).mpr (hsmall hwithin e he)
    · exact fun out hout => ⟨_, encoded_recovers haccepted hentries hout, rfl⟩

/--
Whatever a commit prepares in a run of the engine, it is durable exactly if it
exceeds a size limit or its arrays of strings have at most `maxArrayStringItems`
items.
-/
theorem commit_durable_iff {reg : SchemaRegistry}
    (hreg : ∀ ts ∈ reg.tables, ts.PrimaryUnique) (hids : ∀ ts ∈ reg.tables, ts.id < 2 ^ 32)
    (steps : List (EngineStep reg)) (ops : List TxOp) (txID : TxID) (advanceHorizon : Bool)
    (validate : Changeset → Option StoreError) {c : Changeset}
    (hok : (commitWithValidation ((Engine.start reg).run steps).state
      (Transaction.new.runOps ((Engine.start reg).run steps).state ops).1 txID advanceHorizon
      validate).2.2 = .ok c)
    {limits : CodecLimits} (haccepted : limits.accepted = true) :
    Durable limits reg c ↔ (WithinLimits limits c → ∀ e ∈ c.tables.toList,
      ∀ row, row ∈ e.2.inserts ∨ row ∈ e.2.deletes → SmallArrays row) := by
  have hinv := Engine.run_inv hreg (Engine.start_inv hreg) steps
  have hover := Engine.run_over hreg (Engine.start_inv hreg) (Engine.start_over reg) steps
  exact durable_iff haccepted
    (commit_entries hinv.state hover hids ops txID advanceHorizon validate hok)

/-! ## A row with many tags -/

def postsBuilder : Builder where
  tables :=
    [ ⟨nameBytes "posts", false, [⟨nameBytes "id", .uint64, true, false, false⟩,
        ⟨nameBytes "tags", .arrayString, false, false, false⟩], []⟩ ]
  version := 1
  versionSet := true

def postsRegistry : SchemaRegistry :=
  ⟨(registerSystemTables postsBuilder).tables.mapIdx buildTable, 1⟩

theorem postsRegistry_built : buildEngine postsBuilder = .ok postsRegistry := by decide

def post (tags : List Bytes) : ProductValue :=
  [⟨.uint64, some (1 : BitVec 64)⟩, ⟨.arrayString, some tags⟩]

def postsSchema : TableSchema := buildTable 0
  ⟨nameBytes "posts", false, [⟨nameBytes "id", .uint64, true, false, false⟩,
        ⟨nameBytes "tags", .arrayString, false, false, false⟩], []⟩

private theorem fresh_posts :
    (CommittedState.fresh postsRegistry).table 0 = some (newTable postsSchema) := by
  rw [CommittedState.fresh_table]
  rfl

def postTx (tags : List Bytes) : Transaction :=
  ((Transaction.new.checkInsertConstraints 0 (newTable postsSchema) (post tags)).1.finishInsert 0
    (newTable postsSchema) (post tags) none).1

def postChangeset (tags : List Bytes) : Changeset :=
  ⟨1, (∅ : GoMap TableID TableChangeset).insert 0
    ⟨0, postsSchema.name, postsSchema, [post tags], []⟩⟩

section

variable (tags : List Bytes)

private theorem insert_post (h : validateRow postsSchema (post tags) = none) :
   (Transaction.new.insert (CommittedState.fresh postsRegistry) 0 (post tags)) =
     (postTx tags, .ok 1) := by
  unfold Transaction.insert
  rw [fresh_posts]
  simp only [show (newTable postsSchema).schema = postsSchema from rfl, h]
  rfl

private theorem postTx_inserts : (postTx tags).tx.inserts.toList =
    [(0, (∅ : GoMap RowID ProductValue).insert 1 (post tags))] := by
  rfl

private theorem postTx_deletes : (postTx tags).tx.deletes.toList = [] := by
  rfl

private theorem revalidateCommit_post (h : validateRow postsSchema (post tags) = none) :
    revalidateCommit (CommittedState.fresh postsRegistry) (postTx tags).tx = none := by
  unfold revalidateCommit revalidateDeletes revalidateInserts
  rw [postTx_inserts, postTx_deletes]
  simp only [firstError, loop, fresh_posts,
    show ((∅ : GoMap RowID ProductValue).insert 1 (post tags)).toList = [(1, post tags)] from rfl,
    revalidateInsert, show (newTable postsSchema).schema = postsSchema from rfl, h]
  rfl

private theorem prepareChangeset_post :
    prepareChangeset (CommittedState.fresh postsRegistry) (postTx tags).tx =
      .ok { postChangeset tags with txID := 0 } := by
  unfold prepareChangeset
  rw [postTx_inserts, postTx_deletes]
  simp only [loop, andThen, prepareInserts, fresh_posts]
  rfl

theorem commit_post (h : validateRow postsSchema (post tags) = none) :
    (commitWithValidation (.fresh postsRegistry) (Transaction.new.runOps (.fresh postsRegistry)
      [.insert 0 (post tags)]).1 1 true (fun _ => none)).2.2 =
      .ok (postChangeset tags) := by
  have hcs := CommittedState.fresh_inv (buildEngine_primaryUnique postsRegistry_built)
  have htx : (Transaction.new.runOps (.fresh postsRegistry) [.insert 0 (post tags)]).1 =
      postTx tags := by
    simp only [Transaction.runOps, TxOp.run, insert_post tags h]
  have hknown := ((Refines.init hcs).runOps hcs [.insert 0 (post tags)]).inv.countersKnown
  have hinv : ∀ tid table, (CommittedState.fresh postsRegistry).table tid = some table →
      table.Inv := fun tid table htable => (hcs tid table htable).1
  have hrev := revalidateCommit_post tags h
  rw [htx] at hknown ⊢
  have happly := (applyCommit_ok hinv (commitReady_of_revalidateCommit
    (fun tid table htable => (hinv tid table htable).indexed) hrev) hknown).1
  unfold commitWithValidation
  rw [show (postTx tags).state = .active from rfl]
  simp only [hrev, prepareChangeset_post, if_true]
  generalize applyCommit _ (postTx tags) = res at *
  obtain ⟨cs', err⟩ := res
  simp only at happly
  subst happly
  rfl

theorem postChangeset_entries : (postChangeset tags).tables.toList =
    [(0, ⟨0, postsSchema.name, postsSchema, [post tags], []⟩)] := rfl

end

theorem commit_durable_iff_post :
    Durable defaultCodecLimits postsRegistry (postChangeset [[97], []]) := by
  refine (commit_durable_iff (buildEngine_primaryUnique postsRegistry_built) (by decide) [] _ 1
    true _ (commit_post [[97], []] (by decide)) (by decide)).mpr ?_
  intro _ e he row hrow xs hxs
  simp only [postChangeset_entries, List.mem_singleton] at he
  subst he
  simp only [List.mem_singleton, List.not_mem_nil, or_false] at hrow
  subst hrow
  simp only [post, List.mem_cons, List.not_mem_nil, or_false] at hxs
  rcases hxs with hxs | hxs
  · cases hxs
  · cases hxs
    decide

theorem length_rowText_post (tags : List Bytes) :
    (rowText postsSchema.columns (post tags)).length = 14 + (itemsText tags).length := by
  simp only [postsSchema, buildTable, post]
  simp [rowText, columnText, buildColumn, payloadText]
  omega

theorem length_itemsText_replicate (n : Nat) :
    (itemsText (List.replicate n [])).length = 4 * n := by
  simp [itemsText, lengthPrefixed]
  omega

theorem validateRow_post_replicate (n : Nat) :
    validateRow postsSchema (post (List.replicate n [])) = none := by
  simp [validateRow, validateColumns, validateColumn, postsSchema, buildTable, post, buildColumn,
    validUTF8]

theorem withinLimits_post {tags : List Bytes} (h : (itemsText tags).length ≤ 2 ^ 22 + 4) :
    WithinLimits defaultCodecLimits (postChangeset tags) := by
  have hrow := length_rowText_post tags
  refine ⟨by simp [postChangeset_entries], ?_, fun _ => ?_⟩
  · intro e he
    rw [postChangeset_entries, List.mem_singleton] at he
    subst he
    refine ⟨⟨by simp, ?_⟩, ⟨by simp, by simp⟩⟩
    simp only [List.mem_singleton, forall_eq, hrow, defaultCodecLimits, formatMaxRowBytes]
    omega
  · rw [length_changesetText, postChangeset_entries]
    simp only [List.flatMap_cons, List.flatMap_nil, List.append_nil, tableText, rowsText, rowsBody,
      List.length_append, length_littleEndian, length_lengthPrefixed, hrow, List.length_nil,
      defaultCodecLimits, formatMaxRecordPayloadBytes]
    omega

def manyTags : List Bytes := List.replicate (maxArrayStringItems + 1) []

/-- The commit passes validation and is applied, but cannot be encoded. -/
theorem commit_manyTags_not_durable :
    ∃ c, (commitWithValidation (.fresh postsRegistry)
        (Transaction.new.runOps (.fresh postsRegistry) [.insert 0 (post manyTags)]).1 1 true
        (fun _ => none)).2.2 = .ok c ∧
      validateChangeset defaultCodecLimits c = none ∧
      ∀ out, encodeChangesetWithLimits c defaultCodecLimits ≠ .ok out := by
  have hrow : validateRow postsSchema (post manyTags) = none := validateRow_post_replicate _
  have hitems : manyTags.length = maxArrayStringItems + 1 := List.length_replicate
  have hlen : (itemsText manyTags).length = 4 * (maxArrayStringItems + 1) :=
    length_itemsText_replicate _
  -- from here on only these facts about the tags matter
  generalize manyTags = tags at *
  have hvalid : ∀ e ∈ (postChangeset tags).tables.toList, e.2.RowsValid := by
    intro e he row hmem
    rw [postChangeset_entries, List.mem_singleton] at he
    subst he
    simp only [List.mem_singleton, List.not_mem_nil, or_false] at hmem
    exact hmem ▸ hrow
  have hwithin := withinLimits_post (hlen.trans_le (by decide))
  have haccepted : defaultCodecLimits.accepted = true := by decide
  refine ⟨_, commit_post tags hrow, (validateChangeset_iff haccepted hvalid).mpr hwithin, ?_⟩
  intro out hout
  have hmem : (0, ⟨0, postsSchema.name, postsSchema, [post tags], []⟩) ∈
      (postChangeset tags).tables.toList := List.mem_singleton_self _
  have hencodable := ((encodeChangesetWithLimits_ok haccepted hvalid out).mp hout).2.1 _ hmem
  have hsmall := (tableEncodable_iff le_rfl (hvalid _ hmem) (hwithin.tables _ hmem)).mp hencodable
  have hle := hsmall (post tags) (by simp) tags (by simp [post])
  omega

end Shunter

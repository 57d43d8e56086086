import Shunter.Schema.Builder
import Shunter.Store.TransactionInsert

/-!
# Freshly created states

`CommittedState.fresh` registers an empty table for every table of a registry,
as bootstrap and recovery do before anything is restored or replayed.
-/

namespace Shunter

namespace CommittedState

def new : CommittedState := ⟨∅, 0⟩

def registerTable (cs : CommittedState) (id : TableID) (table : Table) : CommittedState :=
  { cs with tables := cs.tables.insert id table }

/-- A table identifier the registry cannot resolve is an error of the source; none is met. -/
def fresh (reg : SchemaRegistry) : CommittedState :=
  reg.tableIDs.foldl
    (fun cs id => ((reg.table id).map fun ts => cs.registerTable id (newTable ts)).getD cs) new

private theorem table_foldl_register (reg : SchemaRegistry) (l : List TableID)
    (cs : CommittedState) (id : TableID) :
    (l.foldl (fun cs id =>
      ((reg.table id).map fun ts => cs.registerTable id (newTable ts)).getD cs) cs).table id =
      if id ∈ l ∧ (reg.table id).isSome then (reg.table id).map newTable else cs.table id := by
  induction l generalizing cs with
  | nil => simp
  | cons k l ih =>
    rw [List.foldl_cons, ih]
    cases hk : reg.table k with
    | none =>
      by_cases hid : id = k
      · subst hid
        simp [hk]
      · simp [hid]
    | some ts =>
      by_cases hid : id = k
      · subst hid
        simp [hk, registerTable, CommittedState.table]
      · simp [hid, registerTable, CommittedState.table, Std.ExtTreeMap.getElem?_insert,
          Ne.symm hid]

theorem fresh_table (reg : SchemaRegistry) (id : TableID) :
    (fresh reg).table id = (reg.table id).map newTable := by
  unfold fresh
  rw [table_foldl_register]
  cases hts : reg.table id with
  | none => simp [new, CommittedState.table]
  | some ts =>
    have hmem : ts ∈ reg.tables := List.mem_reverse.mp (List.mem_of_find?_eq_some hts)
    have hid : ts.id = id := by simpa using List.find?_some hts
    have : id ∈ reg.tableIDs := by
      rw [← hid]
      exact List.mem_map_of_mem hmem
    simp [this]

theorem fresh_inv {reg : SchemaRegistry} (h : ∀ ts ∈ reg.tables, ts.PrimaryUnique) :
    (fresh reg).Inv := by
  intro id table htable
  rw [fresh_table] at htable
  obtain ⟨ts, hts, rfl⟩ := Option.map_eq_some_iff.mp htable
  have hmem : ts ∈ reg.tables := List.mem_reverse.mp (List.mem_of_find?_eq_some hts)
  exact ⟨Table.newTable_inv (h ts hmem), newTable_counted ts⟩

end CommittedState

theorem buildTable_primaryUnique (i : Nat) (td : TableDefinition) :
    (buildTable i td).PrimaryUnique := by
  intro is his hprimary
  rcases List.mem_append.mp his with his | his
  · unfold pkIndexes at his
    split at his
    · simp only [List.mem_singleton] at his
      rw [his]
    · cases his
  · obtain ⟨k, hk, rfl⟩ := List.mem_mapIdx.mp his
    simp [buildIndex] at hprimary

theorem buildEngine_primaryUnique {b : Builder} {reg : SchemaRegistry}
    (h : buildEngine b = .ok reg) : ∀ ts ∈ reg.tables, ts.PrimaryUnique := by
  obtain ⟨-, -, -, rfl⟩ := buildEngine_ok h
  intro ts hts
  obtain ⟨i, hi, rfl⟩ := List.mem_mapIdx.mp hts
  exact buildTable_primaryUnique _ _

/-! ## A small registry for worked examples -/

def exampleBuilder : Builder where
  tables :=
    [ ⟨nameBytes "players", false, [⟨nameBytes "id", .uint64, true, false, true⟩], []⟩,
      ⟨nameBytes "notes", false, [⟨nameBytes "text", .string, false, false, false⟩], []⟩ ]
  version := 1
  versionSet := true

def exampleRegistry : SchemaRegistry :=
  ⟨(registerSystemTables exampleBuilder).tables.mapIdx buildTable, 1⟩

theorem exampleRegistry_built : buildEngine exampleBuilder = .ok exampleRegistry := by decide

end Shunter

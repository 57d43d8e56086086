import Shunter.Schema.Builder

/-!
# Reconciling a registry with a snapshot

Recovery keeps the table identifiers of the selected snapshot: a registered
table takes the identifier of the snapshot table with its name, and the others
get identifiers above the largest one of the snapshot, in registration order.
-/

namespace Shunter

structure SnapshotSchema where
  version : Nat
  tables : List TableSchema

namespace SnapshotSchema

/-- A lookup in `snapshotByName`; a later table of one name was entered last. -/
def byName (snapshot : SnapshotSchema) (name : Bytes) : Option TableSchema :=
  snapshot.tables.reverse.find? fun table => table.name == name

def byID (snapshot : SnapshotSchema) (id : TableID) : Option TableSchema :=
  snapshot.tables.reverse.find? fun table => table.id == id

def maxID (snapshot : SnapshotSchema) : TableID :=
  snapshot.tables.foldl (fun maxID table => max maxID table.id) 0

end SnapshotSchema

def reconcileTables (snapshot : SnapshotSchema) : TableID → List TableSchema → List TableSchema
  | _, [] => []
  | nextID, current :: tables =>
    match snapshot.byName current.name with
    | some snapshotTable =>
      { current with id := snapshotTable.id } :: reconcileTables snapshot nextID tables
    | none =>
      { current with id := nextID } ::
        reconcileTables snapshot ((nextID + 1) % 2 ^ 32) tables

def SchemaRegistry.listed (reg : SchemaRegistry) : List TableSchema :=
  reg.tableIDs.filterMap reg.table

def reconcileRegistryForSnapshot (registered : SchemaRegistry) (snapshot : SnapshotSchema) :
    SchemaRegistry :=
  ⟨reconcileTables snapshot ((snapshot.maxID + 1) % 2 ^ 32) registered.listed, registered.version⟩

/-! ## Compatibility -/

inductive SchemaIssue where
  | tableName (id : TableID) (registered snapshot : Bytes)
  | dropTable (id : TableID) (table : Bytes)
  | tableKind (table : Bytes) (registered snapshot : Bool)
  | columnCount (table : Bytes) (registered snapshot : Nat)
  | columnIndex (table : Bytes) (column : Nat) (registered snapshot : Nat)
  | columnName (table : Bytes) (column : Nat) (registered snapshot : Bytes)
  | columnType (table column : Bytes) (registered snapshot : ValueKind)
  | columnNullable (table column : Bytes) (registered snapshot : Bool)
  | columnAutoIncrement (table column : Bytes) (registered snapshot : Bool)
  | indexName (table : Bytes) (index : Nat) (registered snapshot : Bytes)
  | indexColumns (table index : Bytes) (registered snapshot : List Nat)
  | indexUnique (table index : Bytes) (registered snapshot : Bool)
  | indexPrimary (table index : Bytes) (registered snapshot : Bool)
  | extraIndex (table index : Bytes)
  | newConstraint (table index : Bytes)
  deriving DecidableEq

inductive SchemaChange where
  | schemaVersion (registered snapshot : Nat)
  | addTable (table : Bytes) (id : TableID)
  | addIndex (table index : Bytes)
  deriving DecidableEq

structure SchemaCompatibilityReport where
  changes : List SchemaChange
  issues : List SchemaIssue
  deriving DecidableEq

namespace SchemaCompatibilityReport

def empty : SchemaCompatibilityReport := ⟨[], []⟩

def compatible (r : SchemaCompatibilityReport) : Bool := r.issues.isEmpty

def addIssue (r : SchemaCompatibilityReport) (issue : SchemaIssue) : SchemaCompatibilityReport :=
  { r with issues := r.issues ++ [issue] }

def addChange (r : SchemaCompatibilityReport) (change : SchemaChange) :
    SchemaCompatibilityReport :=
  { r with changes := r.changes ++ [change] }

def addIssueIf {α : Type} [DecidableEq α] (r : SchemaCompatibilityReport) (registered snapshot : α)
    (issue : α → α → SchemaIssue) : SchemaCompatibilityReport :=
  if registered ≠ snapshot then r.addIssue (issue registered snapshot) else r

end SchemaCompatibilityReport

open SchemaCompatibilityReport

def analyzeColumn (table : Bytes) (report : SchemaCompatibilityReport)
    (c : (ColumnSchema × ColumnSchema) × Nat) : SchemaCompatibilityReport :=
  let ((rc, sc), i) := c
  let report := report.addIssueIf rc.index sc.index (.columnIndex table i)
  let report := report.addIssueIf rc.name sc.name (.columnName table i)
  let report := report.addIssueIf rc.type sc.type (.columnType table rc.name)
  let report := report.addIssueIf rc.nullable sc.nullable (.columnNullable table rc.name)
  report.addIssueIf rc.autoIncrement sc.autoIncrement (.columnAutoIncrement table rc.name)

def analyzeIndex (table : Bytes) (report : SchemaCompatibilityReport)
    (c : (IndexSchema × IndexSchema) × Nat) : SchemaCompatibilityReport :=
  let ((ri, si), i) := c
  let report := report.addIssueIf ri.name si.name (.indexName table i)
  let report := report.addIssueIf ri.columns si.columns (.indexColumns table ri.name)
  let report := report.addIssueIf ri.unique si.unique (.indexUnique table ri.name)
  report.addIssueIf ri.primary si.primary (.indexPrimary table ri.name)

def analyzeIndexCompatibility (registered snapshot : TableSchema)
    (report : SchemaCompatibilityReport) : SchemaCompatibilityReport :=
  let report := (registered.indexes.zip snapshot.indexes).zipIdx.foldl
    (analyzeIndex registered.name) report
  if snapshot.indexes.length > registered.indexes.length then
    (snapshot.indexes.drop registered.indexes.length).foldl
      (fun report idx => report.addIssue (.extraIndex registered.name idx.name)) report
  else
    (registered.indexes.drop snapshot.indexes.length).foldl
      (fun report idx =>
        if idx.unique || idx.primary then
          report.addIssue (.newConstraint registered.name idx.name)
        else report.addChange (.addIndex registered.name idx.name)) report

def analyzeTableSchemaCompatibility (registered snapshot : TableSchema)
    (report : SchemaCompatibilityReport) : SchemaCompatibilityReport :=
  let report := report.addIssueIf registered.name snapshot.name (.tableName registered.id)
  let report := report.addIssueIf registered.isEvent snapshot.isEvent (.tableKind registered.name)
  let report :=
    if registered.columns.length ≠ snapshot.columns.length then
      report.addIssue
        (.columnCount registered.name registered.columns.length snapshot.columns.length)
    else
      (registered.columns.zip snapshot.columns).zipIdx.foldl (analyzeColumn registered.name) report
  analyzeIndexCompatibility registered snapshot report

/-- The comparison of the reconciled registry with the snapshot. -/
def analyzeSchemaCompatibility (registered : SchemaRegistry) (snapshot : SnapshotSchema) :
    SchemaCompatibilityReport :=
  let report :=
    if registered.version ≠ snapshot.version then
      empty.addChange (.schemaVersion registered.version snapshot.version)
    else empty
  let report := registered.tableIDs.foldl
    (fun report id =>
      match registered.table id, snapshot.byID id with
      | some table, some snapshotTable =>
        report.addIssueIf table.name snapshotTable.name (.tableName id)
      | _, _ => report) report
  let report := snapshot.tables.foldl
    (fun report table =>
      if registered.tableIDs.contains table.id then report
      else report.addIssue (.dropTable table.id table.name)) report
  -- a listed identifier always has its table, so the branch for a missing one has no counterpart
  registered.listed.foldl
    (fun report table =>
      match snapshot.byID table.id with
      | none => report.addChange (.addTable table.name table.id)
      | some snapshotTable => analyzeTableSchemaCompatibility table snapshotTable report) report

/-- Tables that keep their identifier but neither name of which occurs on the other side. -/
def addUnreconciledRenameIssues (registered : SchemaRegistry) (snapshot : SnapshotSchema)
    (report : SchemaCompatibilityReport) : SchemaCompatibilityReport :=
  registered.listed.foldl
    (fun report table =>
      match snapshot.byID table.id with
      | none => report
      | some snapshotTable =>
        if table.name = snapshotTable.name then report
        else if snapshot.tables.any (·.name == table.name) ||
            registered.listed.any (·.name == snapshotTable.name) then report
        else
          analyzeTableSchemaCompatibility table snapshotTable
            (report.addIssue (.tableName table.id table.name snapshotTable.name))) report

def reconcileRegistryForSnapshotReport (registered : SchemaRegistry) (snapshot : SnapshotSchema) :
    SchemaRegistry × SchemaCompatibilityReport :=
  let reconciled := reconcileRegistryForSnapshot registered snapshot
  (reconciled,
    addUnreconciledRenameIssues registered snapshot (analyzeSchemaCompatibility reconciled snapshot))

end Shunter

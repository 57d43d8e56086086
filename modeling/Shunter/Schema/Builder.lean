import Shunter.Schema.Types

/-!
# The schema builder

`buildEngine` validates table definitions, appends the system tables and
assigns table and index identifiers.  Read policies, client metadata and
reducers are left out: their checks only refuse further registrations, and
nothing they carry reaches storage.
-/

namespace Shunter

structure ColumnDefinition where
  name : Bytes
  type : ValueKind
  primaryKey : Bool
  nullable : Bool
  autoIncrement : Bool
  deriving DecidableEq, Repr

structure IndexDefinition where
  name : Bytes
  columns : List Bytes
  unique : Bool
  deriving DecidableEq, Repr

structure TableDefinition where
  name : Bytes
  isEvent : Bool
  columns : List ColumnDefinition
  indexes : List IndexDefinition
  deriving DecidableEq, Repr

structure Builder where
  tables : List TableDefinition
  version : Nat
  versionSet : Bool
  deriving DecidableEq, Repr

inductive SchemaError where
  | emptyTableName
  | invalidTableName (table : Bytes)
  | duplicateTableName (table : Bytes)
  | noColumns (table : Bytes)
  | emptyColumnName (table : Bytes)
  | invalidColumnName (table column : Bytes)
  | duplicateColumnName (table column : Bytes)
  | nullableAutoIncrement (table column : Bytes)
  | autoIncrementType (table column : Bytes)
  | autoIncrementRequiresKey (table column : Bytes)
  | duplicatePrimaryKey (table : Bytes)
  | multipleAutoIncrement (table : Bytes)
  | emptyIndexName (table : Bytes)
  | duplicateIndexName (table index : Bytes)
  | indexWithoutColumns (table index : Bytes)
  | duplicateIndexColumn (table index column : Bytes)
  | columnNotFound (table index column : Bytes)
  | primaryKeyInIndex (table index column : Bytes)
  | schemaVersionNotSet
  | noTables
  | reservedTableName (table : Bytes)
  deriving DecidableEq, Repr

def nameBytes (s : String) : Bytes := s.toUTF8.data.toList

/-! ## Name patterns -/

def isLower (b : UInt8) : Bool := 'a'.toUInt8 ≤ b && b ≤ 'z'.toUInt8

def isUpper (b : UInt8) : Bool := 'A'.toUInt8 ≤ b && b ≤ 'Z'.toUInt8

def isDigit (b : UInt8) : Bool := '0'.toUInt8 ≤ b && b ≤ '9'.toUInt8

/-- A first byte of one class followed by bytes of another, as both name patterns are. -/
def matchesNamePattern (first rest : UInt8 → Bool) : Bytes → Bool
  | [] => false
  | b :: bs => first b && bs.all rest

def tableNamePattern : Bytes → Bool :=
  matchesNamePattern (fun b => isUpper b || isLower b)
    fun b => isUpper b || isLower b || isDigit b || b == '_'.toUInt8

def columnNamePattern : Bytes → Bool :=
  matchesNamePattern isLower fun b => isLower b || isDigit b || b == '_'.toUInt8

/-! ## Validation -/

def errorIf (cond : Bool) (e : SchemaError) : List SchemaError := if cond then [e] else []

def hasUniqueIndex (t : TableDefinition) (column : Bytes) : Bool :=
  t.indexes.any fun idx => idx.unique && idx.columns == [column]

def autoIncrementErrors (t : TableDefinition) (c : ColumnDefinition) : List SchemaError :=
  errorIf c.nullable (.nullableAutoIncrement t.name c.name) ++
  errorIf (autoIncrementMax c.type).isNone (.autoIncrementType t.name c.name) ++
  errorIf (!c.primaryKey && !hasUniqueIndex t c.name) (.autoIncrementRequiresKey t.name c.name)

/-- The loop over the columns; `colNames` are the names seen so far. -/
def columnErrors (t : TableDefinition) (colNames : List Bytes) :
    List ColumnDefinition → List SchemaError
  | [] => []
  | c :: cs =>
    if c.name = [] then .emptyColumnName t.name :: columnErrors t colNames cs
    else
      errorIf (!columnNamePattern c.name) (.invalidColumnName t.name c.name) ++
      errorIf (colNames.contains c.name) (.duplicateColumnName t.name c.name) ++
      (if c.autoIncrement then autoIncrementErrors t c else []) ++
      columnErrors t (c.name :: colNames) cs

/-- Columns without a name are skipped before they are counted. -/
def namedColumns (t : TableDefinition) : List ColumnDefinition := t.columns.filter (·.name ≠ [])

def pkColName (t : TableDefinition) : Bytes :=
  ((t.columns.find? (·.primaryKey)).map (·.name)).getD []

def indexColumnErrors (t : TableDefinition) (idx : IndexDefinition) (idxColNames : List Bytes) :
    List Bytes → List SchemaError
  | [] => []
  | cn :: cns =>
    errorIf (idxColNames.contains cn) (.duplicateIndexColumn t.name idx.name cn) ++
    errorIf (!((namedColumns t).map (·.name)).contains cn)
      (.columnNotFound t.name idx.name cn) ++
    errorIf (pkColName t != [] && cn == pkColName t) (.primaryKeyInIndex t.name idx.name cn) ++
    indexColumnErrors t idx (cn :: idxColNames) cns

def indexErrors (t : TableDefinition) (idxNames : List Bytes) :
    List IndexDefinition → List SchemaError
  | [] => []
  | idx :: idxs =>
    if idx.name = [] then .emptyIndexName t.name :: indexErrors t idxNames idxs
    else
      errorIf (pkColName t != [] && idx.name == nameBytes "pk")
        (.duplicateIndexName t.name idx.name) ++
      errorIf (idxNames.contains idx.name) (.duplicateIndexName t.name idx.name) ++
      (if idx.columns = [] then [.indexWithoutColumns t.name idx.name]
        else indexColumnErrors t idx [] idx.columns) ++
      indexErrors t (idx.name :: idxNames) idxs

def tableErrors (t : TableDefinition) : List SchemaError :=
  if t.columns = [] then [.noColumns t.name]
  else
    columnErrors t [] t.columns ++
    errorIf (decide (((namedColumns t).filter (·.primaryKey)).length > 1))
      (.duplicatePrimaryKey t.name) ++
    errorIf (decide (((namedColumns t).filter (·.autoIncrement)).length > 1))
      (.multipleAutoIncrement t.name) ++
    indexErrors t [] t.indexes

def validateTables (tableNames : List Bytes) : List TableDefinition → List SchemaError
  | [] => []
  | t :: ts =>
    if t.name = [] then .emptyTableName :: validateTables tableNames ts
    else
      errorIf (!tableNamePattern t.name) (.invalidTableName t.name) ++
      errorIf (tableNames.contains t.name) (.duplicateTableName t.name) ++
      tableErrors t ++ validateTables (t.name :: tableNames) ts

def validateStructure (b : Builder) : List SchemaError := validateTables [] b.tables

def validateReducerAndSchemaRules (b : Builder) : List SchemaError :=
  errorIf (!b.versionSet || b.version == 0) .schemaVersionNotSet ++
  errorIf b.tables.isEmpty .noTables ++
  b.tables.flatMap fun t =>
    errorIf (t.name == nameBytes "sys_clients" || t.name == nameBytes "sys_scheduled")
      (.reservedTableName t.name)

/-! ## Building -/

def plainColumn (name : String) (type : ValueKind) : ColumnDefinition :=
  ⟨nameBytes name, type, false, false, false⟩

def sysClients : TableDefinition where
  name := nameBytes "sys_clients"
  isEvent := false
  columns :=
    [ { plainColumn "connection_id" .bytes with primaryKey := true },
      plainColumn "identity" .bytes, plainColumn "connected_at" .int64 ]
  indexes := []

def sysScheduled : TableDefinition where
  name := nameBytes "sys_scheduled"
  isEvent := false
  columns :=
    [ { plainColumn "schedule_id" .uint64 with primaryKey := true, autoIncrement := true },
      plainColumn "reducer_name" .string, plainColumn "args" .bytes,
      plainColumn "next_run_at_ns" .int64, plainColumn "repeat_ns" .int64 ]
  indexes := []

def registerSystemTables (b : Builder) : Builder :=
  { b with tables := b.tables ++ [sysClients, sysScheduled] }

def buildColumn (j : Nat) (cd : ColumnDefinition) : ColumnSchema :=
  ⟨j, cd.name, cd.type, cd.nullable, cd.autoIncrement⟩

/-- `columnIndexByName`: of two columns with one name the later counts, 0 if there is none. -/
def columnIndexByName (columns : List ColumnDefinition) (name : Bytes) : Nat :=
  ((columns.zipIdx.reverse.find? fun p => p.1.name == name).map Prod.snd).getD 0

def pkIndexes (columns : List ColumnDefinition) : List IndexSchema :=
  match columns.findIdx? (·.primaryKey) with
  | some pkColIdx => [⟨0, nameBytes "pk", [pkColIdx], true, true⟩]
  | none => []

def buildIndex (columns : List ColumnDefinition) (idxID : IndexID) (id : IndexDefinition) :
    IndexSchema :=
  ⟨idxID % 2 ^ 32, id.name, id.columns.map (columnIndexByName columns), id.unique, false⟩

def buildTable (i : Nat) (td : TableDefinition) : TableSchema where
  id := i % 2 ^ 32
  name := td.name
  isEvent := td.isEvent
  columns := td.columns.mapIdx buildColumn
  indexes := pkIndexes td.columns ++
    td.indexes.mapIdx fun k id => buildIndex td.columns ((pkIndexes td.columns).length + k) id

/-- `SchemaRegistry`: the tables in registration order, and the declared version. -/
structure SchemaRegistry where
  tables : List TableSchema
  version : Nat
  deriving DecidableEq, Repr

namespace SchemaRegistry

def tableIDs (reg : SchemaRegistry) : List TableID := reg.tables.map (·.id)

/-- `Table(id)`; of two tables with one identifier the later was entered last. -/
def table (reg : SchemaRegistry) (id : TableID) : Option TableSchema :=
  reg.tables.reverse.find? fun ts => ts.id == id

end SchemaRegistry

def buildEngine (b : Builder) : Except (List SchemaError) SchemaRegistry :=
  let allErrs := validateStructure b ++ validateReducerAndSchemaRules b
  if allErrs ≠ [] then .error allErrs
  else
    let builtBuilder := registerSystemTables b
    let systemErrs := validateStructure builtBuilder
    if systemErrs ≠ [] then .error systemErrs
    else .ok ⟨builtBuilder.tables.mapIdx buildTable, b.version⟩

theorem buildEngine_ok {b : Builder} {reg : SchemaRegistry} (h : buildEngine b = .ok reg) :
    validateStructure b = [] ∧ validateReducerAndSchemaRules b = [] ∧
      validateStructure (registerSystemTables b) = [] ∧
      reg = ⟨(registerSystemTables b).tables.mapIdx buildTable, b.version⟩ := by
  revert h
  fun_cases buildEngine b <;> rintro ⟨⟩
  next hall _ _ hsys =>
    obtain ⟨hstructure, hrules⟩ := List.append_eq_nil_iff.mp (not_not.mp hall)
    exact ⟨hstructure, hrules, not_not.mp hsys, rfl⟩

example :
    buildEngine ⟨[⟨nameBytes "players", false,
        [⟨nameBytes "id", .uint64, true, false, true⟩], []⟩], 1, true⟩ =
      .ok ⟨[⟨0, nameBytes "players", false, [⟨0, nameBytes "id", .uint64, false, true⟩],
          [⟨0, nameBytes "pk", [0], true, true⟩]⟩,
        buildTable 1 sysClients, buildTable 2 sysScheduled], 1⟩ := by
  decide

end Shunter

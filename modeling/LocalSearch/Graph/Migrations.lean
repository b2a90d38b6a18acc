import LocalSearch.Lib.Batch
import LocalSearch.Lib.Result
import LocalSearch.Lib.Table
import Mathlib.Data.String.Basic

/-!
# Schema migrations

The schema of the graph database as `FilesystemGraph::initialize` builds it. No
transaction is opened around a migration, so every statement commits on its own;
the version marker is the last statement of each.
-/
namespace LocalSearch.Graph

set_option autoImplicit false

open Lib

inductive Value where
  | null
  | integer (value : Int)
  | text (value : String)
  | blob (bytes : List UInt8)
  deriving DecidableEq, Repr

/-- The tables and indexes of the migrations. -/
inductive ObjectName where
  | graphSchemaMigrations
  | graphVolumes
  | graphProviderCheckpoints
  | graphFileObjects
  | graphFileLinks
  | graphFileLinksObject
  | graphFileLinksParent
  | graphOneExactNamePerParent
  | graphOneExactRootNamePerVolume
  | graphPathRefreshJobs
  | graphOnePendingRefreshPerRoot
  | graphCatalogDocuments
  | graphCatalogDocumentsObject
  | graphProjectionOutbox
  | graphProjectionOutboxDocument
  | graphProjectionConsumers
  | graphVolumeProjectionRefreshJobs
  | graphCatalogDocumentsVolumeLink
  | graphFileLinksVolumeLink
  | graphVolumeObservationSessions
  | graphFileLinksObservationSweep
  | graphFileObjectsObservationSweep
  deriving DecidableEq, Repr

instance : LinearOrder ObjectName :=
  LinearOrder.lift' ObjectName.ctorIdx (Function.LeftInverse.injective ObjectName.ofNat_ctorIdx)

/-- A column with its type and constraints as declared. -/
structure Column where
  name : String
  declaration : String
  deriving DecidableEq, Repr

structure TableDefinition where
  columns : List Column
  constraints : List String
  options : String
  deriving DecidableEq, Repr

/-- The `WHERE` of a partial index. -/
inductive Condition where
  | isNull (column : String)
  | isNotNull (column : String)
  | equals (column : String) (value : Int)
  deriving DecidableEq, Repr

structure IndexDefinition where
  table : ObjectName
  unique : Bool
  columns : List String
  condition : Option Condition
  deriving DecidableEq, Repr

/-- One entry of `sqlite_schema`, a table with its rows in the order of its
columns. -/
inductive SchemaObject where
  | table (definition : TableDefinition) (rows : List (List Value))
  | index (definition : IndexDefinition)
  deriving DecidableEq, Repr

structure Database where
  objects : Table ObjectName SchemaObject
  userVersion : Nat
  deriving DecidableEq

inductive SqlError where
  | tableExists (name : ObjectName)
  | indexExists (name : ObjectName)
  | noSuchTable (name : ObjectName)
  | noSuchColumn (table : ObjectName)
  | duplicateColumn (name : String)
  | uniqueViolation
  deriving DecidableEq, Repr

inductive Statement where
  | createTable (ifNotExists : Bool) (name : ObjectName) (definition : TableDefinition)
  | createIndex (ifNotExists : Bool) (name : ObjectName) (definition : IndexDefinition)
  | addColumn (table : ObjectName) (column : Column) (default : Value)
  | insertMigration (orIgnore : Bool) (version : Nat) (description : String)
  | setUserVersion (version : Nat)
  deriving DecidableEq, Repr

def cell (columns : List Column) (row : List Value) (name : String) : Value :=
  (((columns.map (·.name)).zip row).lookup name).getD .null

def Condition.holds (columns : List Column) (row : List Value) : Condition → Bool
  | .isNull column => cell columns row column = .null
  | .isNotNull column => cell columns row column ≠ .null
  | .equals column value => cell columns row column = .integer value

/-- No two rows of the index agree in its columns; rows with a null never do. -/
def uniqueRows (definition : IndexDefinition) (columns : List Column) (rows : List (List Value)) :
    Bool :=
  let entries := (rows.filter fun row => definition.condition.all (·.holds columns row)).map
    fun row => definition.columns.map (cell columns row)
  (entries.filter fun entry => .null ∉ entry).Nodup

def migrationsTable : ObjectName := .graphSchemaMigrations

/-- The row of a version is there. -/
def recorded (version : Nat) (rows : List (List Value)) : Bool :=
  rows.any fun row => row.head? = some (.integer version)

/-- One statement, as its own transaction. -/
def Statement.execute : Statement → Database → Except SqlError Database
  | .createTable ifNotExists name definition, db =>
      match db.objects.get name with
      | some (.table _ _) => if ifNotExists then .ok db else .error (.tableExists name)
      | some (.index _) => .error (.indexExists name)
      | none => .ok { db with objects := db.objects.insert name (.table definition []) }
  | .createIndex ifNotExists name definition, db =>
      match db.objects.get definition.table with
      | some (.table table rows) =>
          match db.objects.get name with
          | some (.table _ _) => .error (.tableExists name)
          | some (.index _) => if ifNotExists then .ok db else .error (.indexExists name)
          | none =>
              if ¬ definition.columns ⊆ table.columns.map (·.name) then
                .error (.noSuchColumn definition.table)
              else if definition.unique && !uniqueRows definition table.columns rows then
                .error .uniqueViolation
              else .ok { db with objects := db.objects.insert name (.index definition) }
      | _ => .error (.noSuchTable definition.table)
  | .addColumn name column default, db =>
      match db.objects.get name with
      | some (.table table rows) =>
          if column.name ∈ table.columns.map (·.name) then .error (.duplicateColumn column.name)
          else
            let table := { table with columns := table.columns ++ [column] }
            .ok { db with
              objects := db.objects.insert name (.table table (rows.map (· ++ [default]))) }
      | _ => .error (.noSuchTable name)
  | .insertMigration orIgnore version description, db =>
      match db.objects.get migrationsTable with
      | some (.table table rows) =>
          if recorded version rows then if orIgnore then .ok db else .error .uniqueViolation
          else
            let rows := rows ++ [[.integer version, .text description]]
            .ok { db with objects := db.objects.insert migrationsTable (.table table rows) }
      | _ => .error (.noSuchTable migrationsTable)
  | .setUserVersion version, db => .ok { db with userVersion := version }

/-- `GRAPH_SCHEMA_VERSION`. -/
def graphSchemaVersion : Nat := 5

def migration001 : List Statement :=
  [.createTable true .graphSchemaMigrations
      ⟨[⟨"version", "INTEGER PRIMARY KEY"⟩, ⟨"description", "TEXT NOT NULL"⟩], [], "STRICT"⟩,
    .createTable true .graphVolumes
      ⟨[⟨"volume_id", "BLOB PRIMARY KEY NOT NULL CHECK(length(volume_id) = 16)"⟩,
        ⟨"display_name", "TEXT"⟩,
        ⟨"mount_points_json", "TEXT NOT NULL"⟩,
        ⟨"filesystem", "TEXT"⟩,
        ⟨"removable", "INTEGER NOT NULL CHECK(removable IN (0, 1))"⟩,
        ⟨"local", "INTEGER NOT NULL CHECK(local IN (0, 1))"⟩,
        ⟨"state", "INTEGER NOT NULL CHECK(state BETWEEN 0 AND 2)"⟩,
        ⟨"reconciliation_reason", "INTEGER"⟩,
        ⟨"generation", "INTEGER NOT NULL DEFAULT 0 CHECK(generation >= 0)"⟩], [], "STRICT"⟩,
    .createTable true .graphProviderCheckpoints
      ⟨[⟨"volume_id", "BLOB PRIMARY KEY NOT NULL CHECK(length(volume_id) = 16)"⟩,
        ⟨"provider_id", "TEXT NOT NULL"⟩,
        ⟨"format_version", "INTEGER NOT NULL CHECK(format_version >= 0)"⟩,
        ⟨"opaque", "BLOB NOT NULL"⟩],
        ["FOREIGN KEY(volume_id) REFERENCES graph_volumes(volume_id) ON DELETE CASCADE"], "STRICT"⟩,
    .createTable true .graphFileObjects
      ⟨[⟨"volume_id", "BLOB NOT NULL CHECK(length(volume_id) = 16)"⟩,
        ⟨"file_id", "BLOB NOT NULL CHECK(length(file_id) = 16)"⟩,
        ⟨"kind", "INTEGER NOT NULL CHECK(kind BETWEEN 0 AND 4)"⟩,
        ⟨"size", "INTEGER NOT NULL CHECK(size >= 0)"⟩,
        ⟨"created_at_unix_ms", "INTEGER"⟩,
        ⟨"modified_at_unix_ms", "INTEGER"⟩,
        ⟨"hidden", "INTEGER NOT NULL CHECK(hidden IN (0, 1))"⟩,
        ⟨"availability", "INTEGER NOT NULL CHECK(availability BETWEEN 0 AND 2)"⟩,
        ⟨"tombstoned", "INTEGER NOT NULL DEFAULT 0 CHECK(tombstoned IN (0, 1))"⟩],
        ["PRIMARY KEY(volume_id, file_id)",
          "FOREIGN KEY(volume_id) REFERENCES graph_volumes(volume_id) ON DELETE CASCADE"],
        "WITHOUT ROWID, STRICT"⟩,
    .createTable true .graphFileLinks
      ⟨[⟨"file_link_id", "BLOB PRIMARY KEY NOT NULL CHECK(length(file_link_id) = 16)"⟩,
        ⟨"volume_id", "BLOB NOT NULL CHECK(length(volume_id) = 16)"⟩,
        ⟨"file_id", "BLOB NOT NULL CHECK(length(file_id) = 16)"⟩,
        ⟨"parent_volume_id",
          "BLOB CHECK(parent_volume_id IS NULL OR length(parent_volume_id) = 16)"⟩,
        ⟨"parent_file_id", "BLOB CHECK(parent_file_id IS NULL OR length(parent_file_id) = 16)"⟩,
        ⟨"name", "TEXT NOT NULL"⟩,
        ⟨"traversal_boundary",
          "INTEGER NOT NULL DEFAULT 0 CHECK(traversal_boundary IN (0, 1))"⟩],
        ["CHECK((parent_volume_id IS NULL) = (parent_file_id IS NULL))",
          "FOREIGN KEY(volume_id, file_id) REFERENCES graph_file_objects(volume_id, file_id) ON DELETE CASCADE"],
        "STRICT"⟩,
    .createIndex true .graphFileLinksObject
      ⟨.graphFileLinks, false, ["volume_id", "file_id", "file_link_id"], none⟩,
    .createIndex true .graphFileLinksParent
      ⟨.graphFileLinks, false, ["parent_volume_id", "parent_file_id"], none⟩,
    .createIndex true .graphOneExactNamePerParent
      ⟨.graphFileLinks, true, ["parent_volume_id", "parent_file_id", "name"],
        some (.isNotNull "parent_volume_id")⟩,
    .createIndex true .graphOneExactRootNamePerVolume
      ⟨.graphFileLinks, true, ["volume_id", "name"], some (.isNull "parent_volume_id")⟩,
    .createTable true .graphPathRefreshJobs
      ⟨[⟨"job_id", "INTEGER PRIMARY KEY"⟩,
        ⟨"volume_id", "BLOB NOT NULL CHECK(length(volume_id) = 16)"⟩,
        ⟨"root_file_id", "BLOB NOT NULL CHECK(length(root_file_id) = 16)"⟩,
        ⟨"enqueued_generation", "INTEGER NOT NULL CHECK(enqueued_generation >= 0)"⟩,
        ⟨"state", "INTEGER NOT NULL DEFAULT 0 CHECK(state BETWEEN 0 AND 2)"⟩],
        ["FOREIGN KEY(volume_id, root_file_id) REFERENCES graph_file_objects(volume_id, file_id) ON DELETE CASCADE"],
        "STRICT"⟩,
    .createIndex true .graphOnePendingRefreshPerRoot
      ⟨.graphPathRefreshJobs, true, ["volume_id", "root_file_id"], some (.equals "state" 0)⟩,
    .insertMigration true 1 "platform-neutral volume/object/link graph and provider checkpoints",
    .setUserVersion 1]

def migration002 : List Statement :=
  [.addColumn .graphPathRefreshJobs ⟨"projection_scan_cursor", "BLOB"⟩ .null,
    .createTable false .graphCatalogDocuments
      ⟨[⟨"document_id", "BLOB PRIMARY KEY NOT NULL CHECK(length(document_id) = 16)"⟩,
        ⟨"volume_id", "BLOB NOT NULL CHECK(length(volume_id) = 16)"⟩,
        ⟨"file_id", "BLOB NOT NULL CHECK(length(file_id) = 16)"⟩,
        ⟨"file_link_id", "BLOB NOT NULL UNIQUE CHECK(length(file_link_id) = 16)"⟩,
        ⟨"document_version", "INTEGER NOT NULL CHECK(document_version >= 0)"⟩,
        ⟨"document_json", "TEXT NOT NULL"⟩],
        ["FOREIGN KEY(volume_id, file_id) REFERENCES graph_file_objects(volume_id, file_id) ON DELETE CASCADE"],
        "STRICT"⟩,
    .createIndex false .graphCatalogDocumentsObject
      ⟨.graphCatalogDocuments, false, ["volume_id", "file_id"], none⟩,
    .createTable false .graphProjectionOutbox
      ⟨[⟨"sequence", "INTEGER PRIMARY KEY AUTOINCREMENT"⟩,
        ⟨"document_id", "BLOB NOT NULL CHECK(length(document_id) = 16)"⟩,
        ⟨"document_version", "INTEGER NOT NULL CHECK(document_version >= 0)"⟩,
        ⟨"mutation_json", "TEXT NOT NULL"⟩], [], "STRICT"⟩,
    .createIndex false .graphProjectionOutboxDocument
      ⟨.graphProjectionOutbox, false, ["document_id", "sequence"], none⟩,
    .createTable false .graphProjectionConsumers
      ⟨[⟨"consumer_id", "TEXT PRIMARY KEY NOT NULL"⟩,
        ⟨"last_sequence", "INTEGER NOT NULL CHECK(last_sequence >= 0)"⟩,
        ⟨"index_generation", "INTEGER NOT NULL CHECK(index_generation >= 0)"⟩], [], "STRICT"⟩,
    .insertMigration false 2
      "transactional catalog desired state, projection outbox, and consumer checkpoints",
    .setUserVersion 2]

def migration003 : List Statement :=
  [.addColumn .graphCatalogDocuments ⟨"projection_path", "TEXT"⟩ .null,
    .addColumn .graphCatalogDocuments
      ⟨"projection_fingerprint",
        "BLOB CHECK(projection_fingerprint IS NULL OR length(projection_fingerprint) = 32)"⟩ .null,
    .insertMigration false 3 "compact desired catalog payload with normalized graph metadata",
    .setUserVersion 3]

def migration004 : List Statement :=
  [.createTable false .graphVolumeProjectionRefreshJobs
      ⟨[⟨"volume_id", "BLOB PRIMARY KEY NOT NULL CHECK(length(volume_id) = 16)"⟩,
        ⟨"enqueued_generation", "INTEGER NOT NULL CHECK(enqueued_generation >= 0)"⟩,
        ⟨"projection_scan_cursor", "BLOB"⟩,
        ⟨"state", "INTEGER NOT NULL DEFAULT 0 CHECK(state IN (0, 2))"⟩],
        ["FOREIGN KEY(volume_id) REFERENCES graph_volumes(volume_id) ON DELETE CASCADE"],
        "WITHOUT ROWID, STRICT"⟩,
    .createIndex false .graphCatalogDocumentsVolumeLink
      ⟨.graphCatalogDocuments, false, ["volume_id", "file_link_id"], none⟩,
    .createIndex false .graphFileLinksVolumeLink
      ⟨.graphFileLinks, false, ["volume_id", "file_link_id"], none⟩,
    .insertMigration false 4 "bounded volume-wide projection refresh queue",
    .setUserVersion 4]

def migration005 : List Statement :=
  [.addColumn .graphFileObjects
      ⟨"observation_generation", "INTEGER NOT NULL DEFAULT 0 CHECK(observation_generation >= 0)"⟩
      (.integer 0),
    .addColumn .graphFileLinks
      ⟨"observation_generation", "INTEGER NOT NULL DEFAULT 0 CHECK(observation_generation >= 0)"⟩
      (.integer 0),
    .createTable false .graphVolumeObservationSessions
      ⟨[⟨"volume_id", "BLOB PRIMARY KEY NOT NULL CHECK(length(volume_id) = 16)"⟩,
        ⟨"scan_generation", "INTEGER NOT NULL CHECK(scan_generation >= 0)"⟩,
        ⟨"scan_mode", "INTEGER NOT NULL CHECK(scan_mode IN (0, 1))"⟩,
        ⟨"phase", "INTEGER NOT NULL CHECK(phase BETWEEN 0 AND 2)"⟩,
        ⟨"final_provider_id", "TEXT"⟩,
        ⟨"final_format_version",
          "INTEGER CHECK(final_format_version IS NULL OR final_format_version >= 0)"⟩,
        ⟨"final_checkpoint", "BLOB"⟩],
        ["CHECK((phase = 0 AND final_provider_id IS NULL AND final_format_version IS NULL AND final_checkpoint IS NULL) OR (phase IN (1, 2) AND final_provider_id IS NOT NULL AND final_format_version IS NOT NULL AND final_checkpoint IS NOT NULL))",
          "FOREIGN KEY(volume_id) REFERENCES graph_volumes(volume_id) ON DELETE CASCADE"],
        "WITHOUT ROWID, STRICT"⟩,
    .createIndex false .graphFileLinksObservationSweep
      ⟨.graphFileLinks, false, ["volume_id", "observation_generation", "file_link_id"], none⟩,
    .createIndex false .graphFileObjectsObservationSweep
      ⟨.graphFileObjects, false, ["volume_id", "observation_generation", "file_id"],
        some (.equals "tombstoned" 0)⟩,
    .insertMigration false 5 "crash-safe volume observation sessions and bounded snapshot sweep",
    .setUserVersion 5]

/-- The migrations in the order of their versions. -/
def migrations : List (List Statement) :=
  [migration001, migration002, migration003, migration004, migration005]

inductive OpenError where
  | newerSchema (found : Nat)
  | sqlite (error : SqlError)
  deriving DecidableEq, Repr

/-- The statements of the migrations past a version: `if found < n` for each. -/
def pendingStatements (found : Nat) : List Statement := (migrations.drop found).flatten

/-- `FilesystemGraph::initialize`, with the error that ended it. -/
def initializeGraph (db : Database) : Database × Option OpenError :=
  if graphSchemaVersion < db.userVersion then (db, some (.newerSchema db.userVersion))
  else
    let outcome := runBatch Statement.execute (pendingStatements db.userVersion) db
    (outcome.1, outcome.2.map .sqlite)

/-- An attempt to open that is cut after a number of statements. -/
def interrupted (db : Database) (statements : Nat) : Database :=
  if graphSchemaVersion < db.userVersion then db
  else (runBatch Statement.execute ((pendingStatements db.userVersion).take statements) db).1

end LocalSearch.Graph

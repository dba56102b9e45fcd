/-
  Core/Dump.lean --- the stored database as SQL text, written and read back
  (`services/database/iterdump.rs`, `from_sql_dump` in `services/database/mod.rs`).

  SQLite runs the statements that a dump is made of as it documents it; how it reads a
  CREATE statement, and what any other statement does, is left open. Its own tables are
  not among the tables here, and no column holds a number that is not a whole one.
-/
import Opca.Core.Migration
import Opca.Foundation.SqlText

set_option autoImplicit false

namespace Opca.Core.Dump

open Opca.Foundation SqlText Opca.Core.Migration

/-! ## Databases -/

inductive Affinity where
  | text
  | integer
  deriving DecidableEq, Repr

structure Column where
  name : String
  affinity : Affinity
  notNull : Bool
  deriving DecidableEq, Repr

/-- What a CREATE TABLE statement says. -/
structure Definition where
  name : String
  columns : List Column
  /-- The column by which the rows are numbered, where there is one. -/
  rowid : Option Nat
  /-- The columns of every other key. -/
  keys : List (List Nat)
  deriving DecidableEq, Repr

structure Table where
  definition : Definition
  /-- The statement that `sqlite_master` has. -/
  sql : List Char
  /-- In the order of their numbers. -/
  rows : List (List Value)
  deriving DecidableEq, Repr

def Table.name (t : Table) : String := t.definition.name

structure Index where
  name : String
  table : String
  sql : List Char
  deriving DecidableEq, Repr

/-- A connection: what is stored, in the order of the names, and whether no transaction is
open. -/
structure Db where
  tables : List Table
  indexes : List Index
  autocommit : Bool
  deriving DecidableEq, Repr

/-- `Connection::open_in_memory`. -/
def Db.empty : Db := ⟨[], [], true⟩

/-! ## Rows -/

/-- The number of a row, in a table whose rows have one of their own. -/
def Definition.number (d : Definition) (row : List Value) : Option Int :=
  d.rowid.bind fun i =>
    match row[i]? with
    | some (.integer n) => some n
    | _ => none

/-- Two rows have one key; no key has a NULL. -/
def Definition.sharesKey (d : Definition) (row other : List Value) : Bool :=
  d.keys.any fun key => key.all fun i => row[i]? = other[i]? ∧ row[i]? ≠ some .null

/-- No constraint of the table is against the row. -/
def Definition.admits (d : Definition) (rows : List (List Value)) (row : List Value) : Bool :=
  row.length = d.columns.length &&
    ((d.columns.zip row).all fun (c, v) => !(c.notNull && v = .null)) &&
    rows.all fun other => !d.sharesKey row other &&
      (d.rowid.isNone || d.number other ≠ d.number row)

/-- Where the number of a row puts it; a row without one comes last. -/
def Definition.place (d : Definition) (rows : List (List Value)) (row : List Value) :
    List (List Value) :=
  match d.number row with
  | none => rows ++ [row]
  | some n =>
    let before (other : List Value) : Bool := (d.number other).any (· < n)
    rows.takeWhile before ++ row :: rows.dropWhile before

/-! ## Statements -/

/-- What a CREATE statement creates. -/
inductive Object where
  | table (definition : Definition)
  | index (name table : String)
  deriving DecidableEq, Repr

/-- The words that end a transaction. -/
def enders : List (List Char) :=
  ["COMMIT".toList, "END".toList, "ROLLBACK".toList, "RELEASE".toList]

/-- The words that statements begin with. -/
def keywords : List (List Char) :=
  ["ALTER", "ANALYZE", "ATTACH", "BEGIN", "COMMIT", "CREATE", "DELETE", "DETACH", "DROP", "END",
    "EXPLAIN", "INSERT", "PRAGMA", "REINDEX", "RELEASE", "REPLACE", "ROLLBACK", "SAVEPOINT",
    "SELECT", "UPDATE", "VACUUM", "VALUES", "WITH"].map String.toList

/-- What is SQLite's own. -/
structure Sqlite where
  /-- What a column of an affinity keeps of a value. -/
  coerce : Affinity → Value → Value
  /-- How a CREATE statement is read. -/
  define : List Char → Option Object
  /-- What a statement does that a dump does not have. -/
  other : Db → List Char → Option Db
  message : Db → List Char → String
  other_ends : ∀ {db text db'}, other db text = some db' → db.autocommit = false →
    db'.autocommit = true → firstWord text ∈ enders
  other_begins : ∀ {db text db'}, other db text = some db' → firstWord text = "BEGIN".toList →
    db'.autocommit = false

/-- The table and the values of an INSERT statement. -/
def readInsert (text : List Char) : Option (String × List Value) := do
  let named ← expect ("INSERT INTO ".toList ++ [doubleQuote]) text
  let (name, rest) ← readQuoted doubleQuote named
  let values ← expect " VALUES(".toList rest
  let row ← readRow values.length values
  return (String.ofList name, row)

namespace Sqlite

variable (lite : Sqlite)

def refuse (db : Db) (text : List Char) : Except String Db := .error (lite.message db text)

/-- A statement that none of those of a dump is. -/
def runOther (db : Db) (text : List Char) : Except String Db :=
  if firstWord text ∈ keywords then
    match lite.other db text with
    | some db' => .ok db'
    | none => lite.refuse db text
  else lite.refuse db text

def coerceRow (d : Definition) (row : List Value) : List Value :=
  List.zipWith (fun c v => lite.coerce c.affinity v) d.columns row

def insert (db : Db) (text : List Char) (name : String) (values : List Value) :
    Except String Db :=
  match db.tables.find? fun t => t.name = name with
  | none => lite.refuse db text
  | some t =>
    let row := lite.coerceRow t.definition values
    if values.length ≠ t.definition.columns.length then lite.refuse db text
    -- a row that is yet to be numbered
    else if t.definition.rowid.isSome ∧ (t.definition.number row).isNone then
      lite.runOther db text
    else if t.definition.admits t.rows row then
      .ok { db with tables := db.tables.map fun t' =>
        if t'.name = name then { t' with rows := t'.definition.place t'.rows row } else t' }
    else lite.refuse db text

def create (db : Db) (text : List Char) : Object → Except String Db
  | .table d =>
    if (db.tables.all fun t => t.name ≠ d.name) ∧ ¬("sqlite_".toList <+: d.name.toList) then
      .ok { db with tables :=
        (db.tables.takeWhile fun t => t.name < d.name) ++ ⟨d, text, []⟩ ::
          db.tables.dropWhile fun t => t.name < d.name }
    else lite.refuse db text
  | .index name table =>
    if (db.tables.any fun t => t.name = table) ∧ (db.indexes.all fun i => i.name ≠ name) then
      .ok { db with indexes :=
        (db.indexes.takeWhile fun i => i.name < name) ++ ⟨name, table, text⟩ ::
          db.indexes.dropWhile fun i => i.name < name }
    else lite.refuse db text

/-- One statement. -/
def run (db : Db) (text : List Char) : Except String Db :=
  if unclosed text then lite.refuse db text
  else if text = [] then .ok db
  else if firstWord text = "CREATE".toList then
    match lite.define text with
    | some object => lite.create db text object
    | none => lite.runOther db text
  else if text = "BEGIN TRANSACTION".toList then
    if db.autocommit then .ok { db with autocommit := false } else lite.refuse db text
  else if text = "COMMIT".toList then
    if db.autocommit then lite.refuse db text else .ok { db with autocommit := true }
  else
    match readInsert text with
    | some (name, values) => lite.insert db text name values
    | none => lite.runOther db text

/-- `Connection::execute_batch`. -/
def executeBatch (db : Db) (data : List Char) : Except String Db := batch lite.run db data

end Sqlite

/-! ## Writing -/

/-- `format_value`. -/
def formatValue : Value → List Char
  | .null => "NULL".toList
  | .integer n => (toString n).toList
  | .text s => quote :: (doubled quote s.toList ++ [quote])
  | .blob bytes => 'X' :: quote :: (writeHex bytes ++ [quote])

/-- The values of a row, with commas between them. -/
def formatRow : List Value → List Char
  | [] => []
  | [value] => formatValue value
  | value :: next :: row => formatValue value ++ ',' :: formatRow (next :: row)

def insertText (tableName : String) (row : List Value) : List Char :=
  "INSERT INTO ".toList ++ doubleQuote :: (tableName.toList ++ doubleQuote ::
    (" VALUES(".toList ++ (formatRow row ++ [')'])))

def emitInserts (t : Table) : List Char :=
  t.rows.flatMap fun row => insertText t.name row ++ [';', '\n']

def iterdump (db : Db) : List Char :=
  "BEGIN TRANSACTION;\n".toList ++
    (db.tables.flatMap fun t =>
      if "sqlite_".toList <+: t.name.toList then []
      else t.sql ++ [';', '\n'] ++ emitInserts t) ++
    (db.indexes.flatMap fun i => i.sql ++ [';', '\n']) ++ "COMMIT;\n".toList

/-! ## Reading back -/

inductive LoadError where
  | databaseUnreadable (message : String)
  | schemaMigration (message : String)
  deriving DecidableEq, Repr

/-- `SELECT schema_version FROM config LIMIT 1`. -/
def schemaVersion (db : Db) : Except String Int :=
  match db.tables.find? fun t => t.name = "config" with
  | none => .error "no such table: config"
  | some t =>
    match t.definition.columns.findIdx? fun c => c.name = "schema_version" with
    | none => .error "no such column: schema_version"
    | some i =>
      match t.rows with
      | [] => .error "Query returned no rows"
      | row :: _ =>
        match row[i]? with
        | some (.integer n) => .ok n
        | _ => .error "Invalid column type"

/-- `schema::migrate`, whose steps are not gone into here. -/
def migrate (steps : Db → Int → Except LoadError (Db × MigrationInfo)) (db : Db)
    (currentVersion : Int) : Except LoadError (Db × MigrationInfo) :=
  if currentVersion ≥ Migration.defaultSchemaVersion then
    .ok (db, ⟨false, currentVersion, Migration.defaultSchemaVersion, []⟩)
  else steps db currentVersion

/-- The indexes that `CREATE_INDEXES` is about, each with its statement. -/
def createIndexesSql : List (String × String) :=
  [("idx_ca_cn", "CREATE INDEX IF NOT EXISTS idx_ca_cn ON certificate_authority (cn)"),
    ("idx_ca_title", "CREATE INDEX IF NOT EXISTS idx_ca_title ON certificate_authority (title)"),
    ("idx_ca_status", "CREATE INDEX IF NOT EXISTS idx_ca_status ON certificate_authority (status)"),
    ("idx_csr_cn", "CREATE INDEX IF NOT EXISTS idx_csr_cn ON csr (cn)"),
    ("idx_csr_status", "CREATE INDEX IF NOT EXISTS idx_csr_status ON csr (status)"),
    ("idx_ext_cn", "CREATE INDEX IF NOT EXISTS idx_ext_cn ON external_certificate (cn)"),
    ("idx_ext_status",
      "CREATE INDEX IF NOT EXISTS idx_ext_status ON external_certificate (status)"),
    ("idx_dkim_domain", "CREATE INDEX IF NOT EXISTS idx_dkim_domain ON dkim_key (domain)")]

/-- An index that is there is not created again. -/
def createIndexes (lite : Sqlite) (db : Db) : Except String Db :=
  createIndexesSql.foldlM (fun db (name, sql) =>
    if db.indexes.any fun i => i.name = name then .ok db else lite.executeBatch db sql.toList) db

def fromSqlDump (lite : Sqlite) (steps : Db → Int → Except LoadError (Db × MigrationInfo))
    (data : List Char) : Except LoadError (Db × MigrationInfo) := do
  let db ← (lite.executeBatch Db.empty data).mapError .databaseUnreadable
  if !db.autocommit then
    throw (.databaseUnreadable "dump is incomplete (no COMMIT)")
  let version ← (schemaVersion db).mapError .databaseUnreadable
  let (db, info) ← migrate steps db version
  let db ← (createIndexes lite db).mapError .databaseUnreadable
  return (db, info)

end Opca.Core.Dump

import DocStore.Dialect
import DocStore.Index

/-!
# The tables behind a collection

`SchemaPlan` collects the commands that create or drop the tables of documents
and indexes of one collection. A map index has a table whose rows belong to
their document; a reduce index has a table of aggregate rows and a bridge table
that links them to the documents they aggregate.
-/

set_option autoImplicit false

namespace DocStore

/-- A column of a table to be created. -/
structure ColumnDef where
  name : String
  kind : ColumnKind
  nullable : Bool
  primaryKey : Bool
  /-- The backend generates the values. -/
  identity : Bool
deriving DecidableEq

namespace ColumnDef

def required (name : String) (kind : ColumnKind) : ColumnDef := ⟨name, kind, false, false, false⟩

def generated (name : String) : ColumnDef := ⟨name, .integer, false, true, true⟩

def ofColumn (column : Column) : ColumnDef :=
  ⟨column.name, column.kind, column.nullable, false, false⟩

end ColumnDef

/-- A column whose values are those of a column of another table. -/
structure ForeignKey where
  column : String
  table : String
  references : String
deriving DecidableEq

structure TableDef where
  name : String
  columns : List ColumnDef
  foreignKeys : List ForeignKey
deriving DecidableEq

/-- An index that the backend keeps over columns of a table. -/
structure TableIndex where
  name : String
  table : String
  columns : List String
deriving DecidableEq

inductive SchemaCommand where
  | createTable (table : TableDef)
  | dropTable (name : String)
  | createIndex (index : TableIndex)
deriving DecidableEq

namespace Dialect

def columnText (d : Dialect) (column : ColumnDef) : String :=
  if column.identity then d.identityColumn column.name
  else d.quote column.name ++ " " ++ d.columnType column.kind ++
    (if column.primaryKey then " PRIMARY KEY" else "") ++
    (if column.nullable then "" else " NOT NULL")

def foreignKeyText (d : Dialect) (key : ForeignKey) : String :=
  "FOREIGN KEY (" ++ d.quote key.column ++ ") REFERENCES " ++ d.quote key.table ++
    " (" ++ d.quote key.references ++ ")"

/-- The statement of a schema command. -/
def schemaText (d : Dialect) : SchemaCommand → String
  | .createTable table =>
    let parts := table.columns.map d.columnText ++ table.foreignKeys.map d.foreignKeyText
    "CREATE TABLE IF NOT EXISTS " ++ d.quote table.name ++ " (" ++ ", ".intercalate parts ++ ")"
  | .dropTable name => "DROP TABLE IF EXISTS " ++ d.quote name
  | .createIndex index =>
    "CREATE INDEX IF NOT EXISTS " ++ d.quote index.name ++ " ON " ++ d.quote index.table ++
      " (" ++ ", ".intercalate (index.columns.map d.quote) ++ ")"

end Dialect

/-- The commands planned so far for one collection. -/
structure SchemaPlan where
  names : TableNames
  commands : List SchemaCommand
deriving DecidableEq

namespace SchemaPlan

def start (names : TableNames) : SchemaPlan := ⟨names, []⟩

def push (plan : SchemaPlan) (command : SchemaCommand) : SchemaPlan :=
  { plan with commands := plan.commands ++ [command] }

/-- The table of documents. -/
def documentTable (names : TableNames) : TableDef where
  name := names.document
  columns := [⟨Column.idName, .integer, false, true, false⟩, .required Column.typeName .text,
    .required Column.contentName .text, .required Column.versionName .integer]
  foreignKeys := []

/-- The table of a map index. -/
def mapTable (names : TableNames) (index : IndexType) : TableDef where
  name := names.index index.name
  columns := .generated Column.idName :: .required Column.documentIdName .integer ::
    index.columns.map .ofColumn
  foreignKeys := [⟨Column.documentIdName, names.document, Column.idName⟩]

/-- The table of the aggregate rows of a reduce index. -/
def reduceTable (names : TableNames) (index : IndexType) : TableDef where
  name := names.index index.name
  columns := .generated Column.idName :: index.columns.map .ofColumn
  foreignKeys := []

/-- The table that links the aggregate rows of a reduce index to their documents. -/
def bridgeTable (names : TableNames) (index : IndexType) : TableDef where
  name := names.bridge index.name
  columns := [.required (TableNames.bridgeColumn index.name) .integer,
    .required Column.documentIdName .integer]
  foreignKeys := [⟨TableNames.bridgeColumn index.name, names.index index.name, Column.idName⟩,
    ⟨Column.documentIdName, names.document, Column.idName⟩]

def createDocumentTable (plan : SchemaPlan) : SchemaPlan :=
  let table := documentTable plan.names
  (plan.push (.createTable table)).push
    (.createIndex ⟨"IDX_" ++ table.name ++ "_Type", table.name, [Column.typeName]⟩)

def createMapTable (plan : SchemaPlan) (index : IndexType) : SchemaPlan :=
  let table := mapTable plan.names index
  (plan.push (.createTable table)).push
    (.createIndex ⟨"IDX_" ++ table.name ++ "_DocumentId", table.name, [Column.documentIdName]⟩)

def createReduceTable (plan : SchemaPlan) (index : IndexType) : SchemaPlan :=
  let bridge := bridgeTable plan.names index
  ((plan.push (.createTable (reduceTable plan.names index))).push (.createTable bridge)).push
    (.createIndex ⟨"IDX_" ++ bridge.name ++ "_DocumentId", bridge.name,
      [TableNames.bridgeColumn index.name, Column.documentIdName]⟩)

/-- Drops a table by its physical name. -/
def dropTable (plan : SchemaPlan) (name : String) : SchemaPlan := plan.push (.dropTable name)

/-- Drops the table of an index, its bridge table first. -/
def dropIndex (plan : SchemaPlan) (index : IndexType) : SchemaPlan :=
  (plan.dropTable (plan.names.bridge index.name)).dropTable (plan.names.index index.name)

def statements (plan : SchemaPlan) (d : Dialect) : List String := plan.commands.map d.schemaText

end SchemaPlan

end DocStore

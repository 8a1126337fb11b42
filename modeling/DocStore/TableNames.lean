import DocStore.Row

/-!
# Documents and the names of their tables
-/

set_option autoImplicit false

namespace DocStore

/-- The tables of one collection: a prefix shared by the whole store, and the
collection's name, which is empty for the default collection. -/
structure TableNames where
  tablePrefix : String
  collection : String
deriving DecidableEq

namespace TableNames

def qualify (names : TableNames) (name : String) : String :=
  if names.collection = "" then names.tablePrefix ++ name
  else names.tablePrefix ++ names.collection ++ "_" ++ name

def document (names : TableNames) : String := names.qualify "Document"

def index (names : TableNames) (name : String) : String := names.qualify name

/-- The table name, before qualification, that links aggregate rows to documents. -/
def bridgeName (name : String) : String := name ++ "_Document"

/-- The table that links the aggregate rows of an index to their documents. -/
def bridge (names : TableNames) (name : String) : String := names.qualify (bridgeName name)

/-- The column of the bridge table that refers to the aggregate row. -/
def bridgeColumn (name : String) : String := name ++ "Id"

end TableNames

/-- A persisted document. -/
structure Document where
  id : Int64
  typeName : String
  content : String
  version : Int64
deriving DecidableEq

/-- Reads a document from a row; the first column that is missing or of another
type is reported, in the order `Id`, `Type`, `Content`, `Version`. -/
def Document.ofRow (row : Row) : Except Error Document := do
  let id ← row.getInt64 Column.idName
  let typeName ← row.getText Column.typeName
  let content ← row.getText Column.contentName
  let version ← row.getInt64 Column.versionName
  pure ⟨id, typeName, content, version⟩

end DocStore

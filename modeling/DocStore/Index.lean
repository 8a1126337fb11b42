import DocStore.Json.Text
import DocStore.TableNames

/-!
# Index types and entity types

Rows of an index and entities are JSON. A type says which JSON it accepts and
in which form it keeps it: `read?` answers the value with what the type does not
know left out, and nothing if the value is not of the type.
-/

set_option autoImplicit false

namespace DocStore

/-- Whether an index has a row per mapped value or one row per group. -/
inductive IndexKind where
  | map
  | reduce
deriving DecidableEq

/-- A kind of index row: its logical table name, its columns, and what it accepts. -/
structure IndexType where
  name : String
  columns : List Column
  read? : Json → Option Json

namespace IndexType

def column? (index : IndexType) (name : String) : Option Column :=
  index.columns.find? fun c => c.name = name

/-- The value a column takes from a member of a row; an absent member is null. -/
def cellOfJson (column : Column) : Option Json → Except Error Value
  | none => .ok .null
  | some json =>
    let mismatch : Except Error Value :=
      .error (.invalid (.columnMismatch column.name column.kind json.text))
    match column.kind, json with
    | _, .null => .ok .null
    | .integer, j => j.int64?.elim mismatch fun i => .ok (.int i)
    | .real, j => j.double?.elim mismatch fun x => .ok (.float x)
    | .boolean, j => j.bool?.elim mismatch fun b => .ok (.bool b)
    | .text, j => j.string?.elim mismatch fun s => .ok (.text s)

/-- The column values of a row, in the order in which the columns are declared. -/
def cells (index : IndexType) (row : Json) : Except Error (List (String × Value)) :=
  if row.isObject then
    index.columns.mapM fun c => (cellOfJson c (row.field? c.name)).map fun v => (c.name, v)
  else .error (.invalid (.notAnObject index.name))

/-- The member a column's value stands for in a row; a value that does not
convert to the kind of the column is null. -/
def cellToJson (kind : ColumnKind) (value : Value) : Json :=
  match kind, value with
  | _, .null => .null
  | .boolean, v => v.bool?.elim .null .bool
  | .real, v => v.double?.elim .null .ofDouble
  | .integer, v => v.int64?.elim .null .ofInt64
  | .text, v => .str v.toText

/-- The object that a result row describes, before the index type reads it. -/
def assemble (index : IndexType) (row : Row) : Json :=
  .ofFields (index.columns.map fun c => (c.name, cellToJson c.kind ((row.get? c.name).getD .null)))

/-- Rebuilds an index row from a result row. -/
def decode (index : IndexType) (row : Row) : Except Error Json :=
  match index.read? (index.assemble row) with
  | some json => .ok json
  | none => .error .json

end IndexType

/-- A kind of entity: its name in the document table, what it accepts, and where
its identity is. An id of zero is one not yet assigned. -/
structure EntityType where
  name : String
  read? : Json → Option Json
  id : Json → Int64
  setId : Int64 → Json → Json

/-- Rebuilds an entity from JSON. -/
def EntityType.read (entity : EntityType) (json : Json) : Except Error Json :=
  match entity.read? json with
  | some e => .ok e
  | none => .error .json

end DocStore

import DocStore.Schema
import DocStore.Sql

/-!
# Statements

What is sent to storage, as syntax: changes carry the values they write and the
values they look rows up by, queries carry the parameters of their conditions.
`Statement.bound` gives the text in a dialect together with the parameters; in a
change the placeholders are numbered from left to right.
-/

set_option autoImplicit false

namespace DocStore

/-- How an index takes part in a query over documents. -/
structure Join where
  index : String
  table : String
  /-- The bridge table of a reduce index; a map index refers to documents itself. -/
  bridge : Option String
deriving DecidableEq

namespace Join

/-- The alias of the document table. -/
def documentAlias : String := "d"

/-- `INNER JOIN table AS alias ON alias.column = other.column`. -/
def innerJoin (d : Dialect) (table tableAlias column other otherColumn : String) : String :=
  " INNER JOIN " ++ d.quote table ++ " AS " ++ d.quote tableAlias ++ " ON " ++
    d.quote tableAlias ++ "." ++ d.quote column ++ " = " ++ d.quote other ++ "." ++
    d.quote otherColumn

def text (d : Dialect) (join : Join) : String :=
  match join.bridge with
  | none => innerJoin d join.table join.index Column.documentIdName documentAlias Column.idName
  | some bridge =>
    let tableAlias := TableNames.bridgeName join.index
    innerJoin d bridge tableAlias Column.documentIdName documentAlias Column.idName ++
      innerJoin d join.table join.index Column.idName tableAlias
        (TableNames.bridgeColumn join.index)

end Join

/-- Documents joined with index rows, and the conditions they meet. -/
structure DocumentSource where
  table : String
  joins : List Join
  conditions : List Sql

inductive Query where
  /-- The rows of an index table, whose alias is the name of the index; a look-up has no paging. -/
  | indexRows (index table : String) (filter : Sql) (order : List SqlOrder) (paging : Option Paging)
  | indexCount (index table : String) (filter : Sql)
  /-- The document whose id is the only parameter. -/
  | documentById (table : String)
  /-- Each document once: without an order as distinct rows, with one as a
  group of its index rows. -/
  | documents (source : DocumentSource) (order : List SqlOrder) (paging : Paging)
  | documentCount (source : DocumentSource)
  /-- The highest id of a document table. -/
  | maxId (table : String)

/-- The columns of a document. -/
def Document.columnNames : List String :=
  [Column.idName, Column.typeName, Column.contentName, Column.versionName]

namespace DocumentSource

def qualified (d : Dialect) (column : String) : String :=
  d.quote Join.documentAlias ++ "." ++ d.quote column

def columnsText (d : Dialect) : String := ", ".intercalate (Document.columnNames.map (qualified d))

/-- The `FROM` and `WHERE` clauses. -/
def text (d : Dialect) (source : DocumentSource) : String :=
  " FROM " ++ d.quote source.table ++ " AS " ++ d.quote Join.documentAlias ++
    String.join (source.joins.map (Join.text d)) ++
    " WHERE " ++ " AND ".intercalate (source.conditions.map (Sql.text d))

end DocumentSource

namespace Query

def text (d : Dialect) : Query → String
  | .indexRows index table filter order paging =>
    "SELECT " ++ d.quote index ++ ".* FROM " ++ d.quote table ++ " AS " ++ d.quote index ++
      " WHERE " ++ filter.text d ++ SqlOrder.clause d false order ++ paging.elim "" d.paging
  | .indexCount index table filter =>
    "SELECT COUNT(*) AS " ++ d.quote Column.countName ++ " FROM " ++ d.quote table ++ " AS " ++
      d.quote index ++ " WHERE " ++ filter.text d
  | .documentById table =>
    "SELECT " ++ ", ".intercalate (Document.columnNames.map d.quote) ++ " FROM " ++ d.quote table ++
      " WHERE " ++ d.quote Column.idName ++ " = " ++ d.parameter 0
  | .documents source order paging =>
    let columns := DocumentSource.columnsText d
    if order.isEmpty then "SELECT DISTINCT " ++ columns ++ source.text d ++ d.paging paging
    else "SELECT " ++ columns ++ source.text d ++ " GROUP BY " ++ columns ++
      SqlOrder.clause d true order ++ d.paging paging
  | .documentCount source =>
    "SELECT COUNT(DISTINCT " ++ DocumentSource.qualified d Column.idName ++ ") AS " ++
      d.quote Column.countName ++ source.text d
  | .maxId table => "SELECT MAX(" ++ d.quote Column.idName ++ ") FROM " ++ d.quote table

end Query

/-- Values under the names of their columns. -/
abbrev Cells := List (String × Value)

namespace Cells

/-- Parameters for the values, named from `start` on. -/
def bound (d : Dialect) (start : Nat) (cells : Cells) : List (String × Value) :=
  cells.zipIdx.map fun (cell, i) => (d.parameter (start + i), cell.2)

/-- An equation of each column with its parameter. -/
def equations (d : Dialect) (start : Nat) (cells : Cells) : List String :=
  cells.zipIdx.map fun (cell, i) => d.quote cell.1 ++ " = " ++ d.parameter (start + i)

end Cells

inductive Statement where
  | insert (table : String) (cells : Cells)
  /-- An insertion that answers the id of the new row. -/
  | insertReturning (table : String) (cells : Cells)
  | update (table : String) (cells keys : Cells)
  | delete (table : String) (keys : Cells)
  | query (query : Query) (parameters : Parameters)
  | schema (command : SchemaCommand)

namespace Statement

def insertText (d : Dialect) (table : String) (cells : Cells) : String :=
  "INSERT INTO " ++ d.quote table ++ " (" ++ ", ".intercalate (cells.map fun c => d.quote c.1) ++
    ") VALUES (" ++ ", ".intercalate ((cells.bound d 0).map Prod.fst) ++ ")"

def text (d : Dialect) : Statement → String
  | .insert table cells => insertText d table cells
  | .insertReturning table cells => d.returningId (insertText d table cells)
  | .update table cells keys =>
    "UPDATE " ++ d.quote table ++ " SET " ++ ", ".intercalate (cells.equations d 0) ++
      " WHERE " ++ " AND ".intercalate (keys.equations d cells.length)
  | .delete table keys =>
    "DELETE FROM " ++ d.quote table ++ " WHERE " ++ " AND ".intercalate (keys.equations d 0)
  | .query q _ => q.text d
  | .schema command => d.schemaText command

def parameters (d : Dialect) : Statement → Parameters
  | .insert _ cells | .insertReturning _ cells => ⟨cells.bound d 0⟩
  | .update _ cells keys => ⟨cells.bound d 0 ++ keys.bound d cells.length⟩
  | .delete _ keys => ⟨keys.bound d 0⟩
  | .query _ ps => ps
  | .schema _ => ∅

/-- The statement as it is sent. -/
def bound (d : Dialect) (s : Statement) : BoundSql := ⟨s.text d, s.parameters d⟩

end Statement

end DocStore

import DocStore.Column

/-!
# SQL dialects

How each piece of SQL is written. The defaults of the fields are the standard
dialect; a backend overrides what it writes differently.
-/

set_option autoImplicit false

namespace DocStore

/-- The text with every `c` written twice. -/
def doubling (c : Char) (s : String) : String :=
  String.ofList (s.toList.flatMap fun x => if x = c then [c, c] else [x])

/-- How many rows a query leaves out and how many it returns. -/
structure Paging where
  skip : Option Nat
  take : Option Nat
deriving DecidableEq

structure Dialect where
  name : String
  quote : String → String := fun ident => "\"" ++ doubling '"' ident ++ "\""
  /-- The name of the parameter bound after `n` others. -/
  parameter : Nat → String := fun n => "@p" ++ toString n
  truePredicate : String := "1 = 1"
  falsePredicate : String := "1 = 0"
  booleanLiteral : Bool → String := fun b => if b then "1" else "0"
  stringLiteral : String → String := fun s => "'" ++ doubling '\'' s ++ "'"
  concat : List String → String := fun parts => "(" ++ " || ".intercalate parts ++ ")"
  /-- Membership of `left` in a list, or with `negated` its absence. -/
  inList : String → List String → Bool → String := fun left items negated =>
    left ++ (if negated then " NOT IN (" else " IN (") ++ ", ".intercalate items ++ ")"
  like : String → String → String := fun left pattern => left ++ " LIKE " ++ pattern
  upper : String → String := fun operand => "UPPER(" ++ operand ++ ")"
  lower : String → String := fun operand => "LOWER(" ++ operand ++ ")"
  paging : Paging → String := fun
    | ⟨none, none⟩ => ""
    | ⟨none, some take⟩ => " LIMIT " ++ toString take
    | ⟨some skip, none⟩ => " OFFSET " ++ toString skip
    | ⟨some skip, some take⟩ => " LIMIT " ++ toString take ++ " OFFSET " ++ toString skip
  /-- Makes an insertion answer the identity it generated. -/
  returningId : String → String := fun insertion =>
    insertion ++ " RETURNING " ++ quote Column.idName
  columnType : ColumnKind → String := fun
    | .integer => "BIGINT"
    | .real => "DOUBLE PRECISION"
    | .text => "TEXT"
    | .boolean => "BOOLEAN"
  /-- The definition of a column whose values the backend generates. -/
  identityColumn : String → String := fun name =>
    quote name ++ " BIGINT GENERATED BY DEFAULT AS IDENTITY PRIMARY KEY"

namespace Dialect

def standard : Dialect where
  name := "standard"

/-- SQLite asks for a limit before every offset and knows fewer column types. -/
def sqlite : Dialect where
  name := "sqlite"
  paging := fun
    | ⟨none, none⟩ => ""
    | ⟨none, some take⟩ => " LIMIT " ++ toString take
    | ⟨some skip, none⟩ => " LIMIT -1 OFFSET " ++ toString skip
    | ⟨some skip, some take⟩ => " LIMIT " ++ toString take ++ " OFFSET " ++ toString skip
  columnType := fun
    | .integer | .boolean => "INTEGER"
    | .real => "REAL"
    | .text => "TEXT"
  identityColumn name :=
    "\"" ++ doubling '"' name ++ "\"" ++ " INTEGER PRIMARY KEY AUTOINCREMENT"

end Dialect

end DocStore

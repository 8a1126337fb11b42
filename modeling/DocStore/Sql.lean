import DocStore.Dialect
import DocStore.Expr

/-!
# SQL conditions and values

`Sql` is the concrete syntax of the conditions and values that stand in a query:
parentheses are nodes of their own, and a placeholder is the number of
parameters bound before it. `Sql.text` writes it in a dialect, node by node, and
adds nothing that is not in the tree.
-/

set_option autoImplicit false

namespace DocStore

inductive Sql where
  /-- The placeholder of the parameter bound after `ordinal` others. -/
  | param (ordinal : Nat)
  | column (table name : String)
  | boolean (b : Bool)
  | string (s : String)
  /-- A condition that holds for every row, or for none. -/
  | truth (holds : Bool)
  | binary (op : BinaryOp) (l r : Sql)
  | not (e : Sql)
  | negate (e : Sql)
  | isNull (e : Sql) (negated : Bool)
  | paren (e : Sql)
  | like (e pattern : Sql)
  | upper (e : Sql)
  | lower (e : Sql)
  | concat (parts : List Sql)
  | inList (e : Sql) (items : List Sql) (negated : Bool)
  /-- The values of `selector` in the rows of a table, under an alias, that meet a condition. -/
  | select (selector : Sql) (table tableAlias : String) (condition : Sql)

instance : Inhabited Sql := ⟨.truth true⟩

namespace Sql

mutual

/-- The text in a dialect. -/
def text (d : Dialect) : Sql → String
  | .param n => d.parameter n
  | .column table name => d.quote table ++ "." ++ d.quote name
  | .boolean b => d.booleanLiteral b
  | .string s => d.stringLiteral s
  | .truth holds => if holds then d.truePredicate else d.falsePredicate
  | .binary op l r => text d l ++ " " ++ op.sql ++ " " ++ text d r
  | .not e => "NOT " ++ text d e
  | .negate e => "-" ++ text d e
  | .isNull e negated => text d e ++ (if negated then " IS NOT NULL" else " IS NULL")
  | .paren e => "(" ++ text d e ++ ")"
  | .like e pattern => d.like (text d e) (text d pattern)
  | .upper e => d.upper (text d e)
  | .lower e => d.lower (text d e)
  | .concat parts => d.concat (texts d parts)
  | .inList e items negated => d.inList (text d e) (texts d items) negated
  | .select selector table tableAlias condition =>
    "SELECT " ++ text d selector ++ " FROM " ++ d.quote table ++ " AS " ++ d.quote tableAlias ++
      " WHERE " ++ text d condition

def texts (d : Dialect) : List Sql → List String
  | [] => []
  | e :: es => text d e :: texts d es

end

/-- A comparison with the literal for true. -/
def isTrue (e : Sql) : Sql := .binary .eq e (.boolean true)

end Sql

/-- One term of an `ORDER BY`. -/
structure SqlOrder where
  term : Sql
  descending : Bool

namespace SqlOrder

/-- A term over single rows. -/
def text (d : Dialect) (o : SqlOrder) : String :=
  o.term.text d ++ (if o.descending then " DESC" else " ASC")

/-- A term over groups of rows: the smallest value of the group decides an
ascending order and the largest a descending one. -/
def groupedText (d : Dialect) (o : SqlOrder) : String :=
  (if o.descending then "MAX(" else "MIN(") ++ o.term.text d ++ ")" ++
    (if o.descending then " DESC" else " ASC")

/-- The `ORDER BY` clause; there is none without terms. -/
def clause (d : Dialect) (grouped : Bool) (terms : List SqlOrder) : String :=
  if terms.isEmpty then ""
  else " ORDER BY " ++ ", ".intercalate (terms.map (if grouped then groupedText d else text d))

end SqlOrder

end DocStore

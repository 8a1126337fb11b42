import DocStore.Index

/-!
# Expressions over index rows

Conditions and order terms are closed trees of constants, captured arguments,
members of a bound index row, operators and a fixed set of methods. A tree that
reaches no member is `fixed`: it has a value before the query runs. The methods
take their receiver as the first argument; what the builders below never produce
(a method without a receiver, say) is still an expression, and turned down
where it is used.
-/

set_option autoImplicit false

namespace DocStore

inductive UnaryOp where
  | not
  | negate
deriving DecidableEq

inductive BinaryOp where
  | eq
  | ne
  | lt
  | le
  | gt
  | ge
  | and
  | or
  | add
  | sub
  | mul
  | div
deriving DecidableEq

namespace BinaryOp

def isComparison : BinaryOp → Bool
  | .eq | .ne | .lt | .le | .gt | .ge => true
  | _ => false

def isLogical : BinaryOp → Bool
  | .and | .or => true
  | _ => false

def sql : BinaryOp → String
  | .eq => "="
  | .ne => "<>"
  | .lt => "<"
  | .le => "<="
  | .gt => ">"
  | .ge => ">="
  | .and => "AND"
  | .or => "OR"
  | .add => "+"
  | .sub => "-"
  | .mul => "*"
  | .div => "/"

end BinaryOp

/-- A column of a bound index row. -/
structure Member where
  index : String
  column : String
  /-- The columns that the index declares. -/
  columns : List Column
deriving DecidableEq

/-- A declared column, or one of the two that are taken to be there for every index. -/
def Member.isKnown (m : Member) : Bool :=
  m.column = Column.idName || m.column = Column.documentIdName ||
    m.columns.any fun c => c.name = m.column

/-- The arguments of one run of a compiled query, by name. -/
abbrev Arguments := String → Option Value

/-- A value read from the arguments each time a query runs. -/
structure Capture where
  name : String
  nullable : Bool
  read : Arguments → Option Value

/-- A function that can only run on values known before the query is sent. -/
structure HostFunction where
  name : String
  call : List Value → Except Error Value

inductive Method where
  | startsWith
  | endsWith
  | contains
  | concat
  | toUpper
  | toLower
  | isIn
  | isNotIn
  | host (f : HostFunction)

def Method.name : Method → String
  | .startsWith => "starts_with"
  | .endsWith => "ends_with"
  | .contains => "contains"
  | .concat => "concat"
  | .toUpper => "to_upper"
  | .toLower => "to_lower"
  | .isIn => "is_in"
  | .isNotIn => "is_not_in"
  | .host f => f.name

inductive Expr where
  | const (v : Value)
  | capture (c : Capture)
  | member (m : Member)
  | unary (op : UnaryOp) (e : Expr)
  | binary (op : BinaryOp) (l r : Expr)
  /-- A method; the first argument is its receiver. -/
  | call (method : Method) (args : List Expr)
  /-- Whether the first argument is among (or `negated`: is not among) the
  values of a column in the rows of an index that meet a condition. -/
  | inQuery (negated : Bool) (index : String) (selector : Member) (condition : Expr)
      (args : List Expr)
  | convert (e : Expr) (kind : ColumnKind)

instance : Inhabited Expr := ⟨.const .null⟩

namespace Expr

mutual

/-- Whether the expression reaches a row and so has no value before the query runs. -/
def isRowDependent : Expr → Bool
  | .const _ | .capture _ => false
  | .member _ => true
  | .unary _ e | .convert e _ => isRowDependent e
  | .binary _ l r => isRowDependent l || isRowDependent r
  | .call _ args => anyRowDependent args
  | .inQuery .. => true

def anyRowDependent : List Expr → Bool
  | [] => false
  | e :: es => isRowDependent e || anyRowDependent es

end

mutual

/-- The captures of an expression from left to right; the condition of an
`inQuery` comes before its arguments. -/
def captures : Expr → List Capture
  | .const _ | .member _ => []
  | .capture c => [c]
  | .unary _ e | .convert e _ => captures e
  | .binary _ l r => captures l ++ captures r
  | .call _ args => capturesOf args
  | .inQuery _ _ _ condition args => captures condition ++ capturesOf args

def capturesOf : List Expr → List Capture
  | [] => []
  | e :: es => captures e ++ capturesOf es

end

/-- Whether the expression reads the arguments of a compiled query. -/
def hasCaptures (e : Expr) : Bool := !e.captures.isEmpty

/-! ## Builders -/

def and (l r : Expr) : Expr := .binary .and l r

def eq (l r : Expr) : Expr := .binary .eq l r

/-- Concatenation; what is itself a concatenation takes one argument more. -/
def concat (l r : Expr) : Expr :=
  match l with
  | .call .concat args => .call .concat (args ++ [r])
  | l => .call .concat [l, r]

end Expr

namespace IndexType

def member (index : IndexType) (column : String) : Member := ⟨index.name, column, index.columns⟩

/-- A column of a row of the index. -/
def field (index : IndexType) (column : String) : Expr := .member (index.member column)

end IndexType

/-- Whether `e` is among the values of a column in the rows of `index` that meet a condition. -/
def Expr.isInQuery (e : Expr) (negated : Bool) (index : IndexType) (column : String)
    (condition : Expr) : Expr :=
  .inQuery negated index.name (index.member column) condition [e]

/-- One term of an order. -/
structure OrderTerm where
  expr : Expr
  descending : Bool

end DocStore

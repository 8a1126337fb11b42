import DocStore.Expr.Eval
import DocStore.Sql

/-!
# Compiling expressions to SQL

What has a value before the query runs is evaluated and bound as a parameter;
everything else becomes SQL of the same structure. `condition` renders where SQL
expects a condition and `value` where it expects a value; they differ on the
same expression, so both are defined together.

The compiler keeps a stack of index aliases, against which members resolve from
the innermost outwards, the parameters bound so far, and for each parameter that
reads captures how to evaluate it again. A step that fails leaves what it had
bound, but never an alias.
-/

set_option autoImplicit false

namespace DocStore

/-- What is put around a bound search pattern. -/
inductive Affix where
  | exact
  | atStart
  | atEnd
  | anywhere
deriving DecidableEq

/-- A null pattern stays null, and an exact one keeps its kind. -/
def Affix.apply (affix : Affix) (v : Value) : Value :=
  match affix, v with
  | _, .null => .null
  | .exact, v => v
  | .atStart, v => .text (v.toText ++ "%")
  | .atEnd, v => .text ("%" ++ v.toText)
  | .anywhere, v => .text ("%" ++ v.toText ++ "%")

/-- How to evaluate a bound parameter again for other arguments. -/
structure Rebinder where
  parameter : String
  expr : Expr
  affix : Affix

/-- An index that members can refer to, and its alias in the query. -/
structure Binding where
  index : String
  tableAlias : String
deriving DecidableEq

/-- What stays the same while a query is compiled. -/
structure Target where
  dialect : Dialect
  names : TableNames
  /-- The arguments that captures read while compiling. -/
  arguments : Option Arguments

/-- What compiling has produced so far; the innermost binding stands first. -/
structure Compilation where
  bindings : List Binding
  parameters : Parameters
  rebinders : List Rebinder

instance : Inhabited Compilation := ⟨⟨[], ∅, []⟩⟩

def Compilation.start : Compilation := default

/-- A compiling step: what it has bound stays also when it fails. -/
abbrev Compile (α : Type) := ExceptT Error (StateM Compilation) α

namespace Compile

def fail {α : Type} (e : Error) : Compile α := throw e

def ofExcept {α : Type} : Except Error α → Compile α
  | .ok a => pure a
  | .error e => fail e

def bindIndex (index tableAlias : String) : Compile Unit :=
  modify fun c => { c with bindings := ⟨index, tableAlias⟩ :: c.bindings }

def unbindIndex : Compile Unit := modify fun c => { c with bindings := c.bindings.tail }

/-- Runs a step with one alias more, which is gone afterwards whatever happens. -/
def withIndex {α : Type} (index tableAlias : String) (step : Compile α) : Compile α := do
  bindIndex index tableAlias
  let result ← (ExceptT.lift step.run : Compile (Except Error α))
  unbindIndex
  ofExcept result

/-- Binds a value and answers its placeholder. -/
def bind (t : Target) (v : Value) : Compile Sql := do
  let c ← get
  set { c with parameters := c.parameters.push (t.dialect.parameter c.parameters.size) v }
  pure (.param c.parameters.size)

/-- Binds the value of an expression that reaches no row. -/
def bindExpr (t : Target) (affix : Affix) (e : Expr) : Compile Sql := do
  let v ← ofExcept (e.evaluate t.arguments)
  let c ← get
  let placeholder ← bind t (affix.apply v)
  if e.hasCaptures then
    let rebinder : Rebinder := ⟨t.dialect.parameter c.parameters.size, e, affix⟩
    modify fun c => { c with rebinders := c.rebinders ++ [rebinder] }
  pure placeholder

/-- A condition on no row: one without captures is decided now, and null decides it as false. -/
def fixedCondition (t : Target) (e : Expr) : Compile Sql :=
  if e.hasCaptures then do
    let placeholder ← bindExpr t .exact e
    pure placeholder.isTrue
  else do
    match ← ofExcept (e.evaluate t.arguments) with
    | .null => pure (.truth false)
    | v =>
      match v.bool? with
      | some b => pure (.truth b)
      | none => fail (.unsupported (.notTruthValue v))

/-- A member of the innermost binding of its index. -/
def member (m : Member) : Compile Sql := do
  if m.isKnown then
    match (← get).bindings.find? fun b => b.index = m.index with
    | some b => pure (.column b.tableAlias m.column)
    | none => fail (.unsupported (.unboundIndex m.index))
  else fail (.unsupported (.unknownColumn m.index m.column))

/-- An expression together with its rendering as a value. -/
structure Operand where
  expr : Expr
  value : Compile Sql

/-- The test of `other` for null, if `side` is a fixed expression that is null. -/
def nullTest? (t : Target) (op : BinaryOp) (side other : Operand) : Compile (Option Sql) := do
  if side.expr.isRowDependent then pure none
  else
    let v ← ofExcept (side.expr.evaluate t.arguments)
    if v.isNull then
      let target ← other.value
      pure (some (.isNull target (op = .ne)))
    else pure none

/-- A comparison. Equality with a fixed null becomes a test for null. -/
def comparison (t : Target) (op : BinaryOp) (l r : Operand) : Compile Sql := do
  let plain : Compile Sql := do
    let left ← l.value
    let right ← r.value
    pure (.binary op left right)
  if op = .eq ∨ op = .ne then
    match ← nullTest? t op l r with
    | some test => pure test
    | none =>
      match ← nullTest? t op r l with
      | some test => pure test
      | none => plain
  else plain

/-- Renders operands from left to right. -/
def values : List Operand → Compile (List Sql)
  | [] => pure []
  | o :: os => do
    let e ← o.value
    let es ← values os
    pure (e :: es)

/-- A pattern with wildcards around an expression that reaches a row. -/
def wildcards (affix : Affix) (pattern : Sql) : Sql :=
  match affix with
  | .exact => .concat [pattern]
  | .atStart => .concat [pattern, .string "%"]
  | .atEnd => .concat [.string "%", pattern]
  | .anywhere => .concat [.string "%", pattern, .string "%"]

/-- A text search: a fixed pattern is bound with its wildcards. -/
def like (t : Target) (affix : Affix) : List Operand → Compile Sql
  | target :: pattern :: _ => do
    let left ← target.value
    let right ←
      if pattern.expr.isRowDependent then do
        let p ← pattern.value
        pure (wildcards affix p)
      else bindExpr t affix pattern.expr
    pure (.like left right)
  | _ => fail (.invalid .missingPattern)

/-- Membership in a list. Nothing is a member of the empty list, and the list of
one item is a comparison. -/
def membership (t : Target) (negated : Bool) : List Operand → Compile Sql
  | [] => fail (.invalid (.missingReceiver "is_in"))
  | [_] => pure (.truth negated)
  | [target, item] => comparison t (if negated then .ne else .eq) target item
  | target :: items => do
    let left ← target.value
    let items ← values items
    pure (.inList left items negated)

/-- A method where a condition is expected. -/
def callCondition (t : Target) (method : Method) (args : List Operand) : Compile Sql :=
  match method with
  | .startsWith => like t .atStart args
  | .endsWith => like t .atEnd args
  | .contains => like t .anywhere args
  | .isIn => membership t false args
  | .isNotIn => membership t true args
  | .host f => fail (.unsupported (.noSqlForm f.name))
  | .concat | .toUpper | .toLower => fail (.unsupported (.notCondition method.name))

/-- The receiver of a method. -/
def receiver (method : String) : List Operand → Compile Sql
  | target :: _ => target.value
  | [] => fail (.invalid (.missingReceiver method))

/-- A method where a value is expected; a condition stands in parentheses. -/
def callValue (t : Target) (method : Method) (args : List Operand) : Compile Sql :=
  match method with
  | .concat => do
    let parts ← values args
    pure (.concat parts)
  | .toUpper => do
    let e ← receiver method.name args
    pure (.upper e)
  | .toLower => do
    let e ← receiver method.name args
    pure (.lower e)
  | method => do
    let e ← callCondition t method args
    pure (.paren e)

/-- Membership in the rows of a query, in which the index has an alias of its own. -/
def subquery (t : Target) (negated : Bool) (index : String) (selector : Member)
    (condition : Compile Sql) (args : List Operand) : Compile Sql := do
  let left ← receiver (if negated then "is_not_in_query" else "is_in_query") args
  let tableAlias := index ++ "_" ++ toString (← get).bindings.length
  let select ← withIndex index tableAlias do
    let selected ← member selector
    let filter ← condition
    pure (Sql.select selected (t.names.index index) tableAlias filter)
  pure (.inList left [select] negated)

/-- Logical operators over two conditions. -/
def logical (op : BinaryOp) (l r : Compile Sql) : Compile Sql := do
  let left ← l
  let right ← r
  pure (.paren (.binary op left right))

def parenthesized (step : Compile Sql) : Compile Sql := do
  let e ← step
  pure (.paren e)

def negation (step : Compile Sql) : Compile Sql := do
  let e ← step
  pure (.not (.paren e))

mutual

/-- Renders an expression where SQL expects a condition. -/
def condition (t : Target) (e : Expr) : Compile Sql :=
  match e with
  | .const v => fixedCondition t (.const v)
  | .capture c => fixedCondition t (.capture c)
  | .member m => do
    let column ← member m
    pure column.isTrue
  | .unary op inner =>
    if !e.isRowDependent then fixedCondition t e
    else
      match op with
      | .not => negation (condition t inner)
      | .negate => fail (.unsupported (.notCondition "unary expression"))
  | .binary op l r =>
    if !e.isRowDependent then fixedCondition t e
    else if op.isLogical then logical op (condition t l) (condition t r)
    else if op.isComparison then comparison t op ⟨l, value t l⟩ ⟨r, value t r⟩
    else fail (.unsupported (.notCondition "arithmetic expression"))
  | .call method args =>
    if !e.isRowDependent then fixedCondition t e
    else callCondition t method (operands t args)
  | .inQuery negated index selector inner args =>
    subquery t negated index selector (condition t inner) (operands t args)
  | .convert inner _ =>
    if !e.isRowDependent then fixedCondition t e
    else condition t inner

/-- Renders an expression where SQL expects a value. -/
def value (t : Target) (e : Expr) : Compile Sql :=
  match e with
  | .const v => bindExpr t .exact (.const v)
  | .capture c => bindExpr t .exact (.capture c)
  | .member m => member m
  | .unary op inner =>
    if !e.isRowDependent then bindExpr t .exact e
    else
      match op with
      | .not => parenthesized (negation (condition t inner))
      | .negate => do
        let operand ← value t inner
        pure (.paren (.negate operand))
  | .binary op l r =>
    if !e.isRowDependent then bindExpr t .exact e
    else if op.isLogical then parenthesized (logical op (condition t l) (condition t r))
    else if op.isComparison then parenthesized (comparison t op ⟨l, value t l⟩ ⟨r, value t r⟩)
    else do
      let left ← value t l
      let right ← value t r
      pure (.paren (.binary op left right))
  | .call method args =>
    if !e.isRowDependent then bindExpr t .exact e
    else callValue t method (operands t args)
  | .inQuery negated index selector inner args =>
    parenthesized (subquery t negated index selector (condition t inner) (operands t args))
  | .convert inner _ =>
    if !e.isRowDependent then bindExpr t .exact e
    else value t inner

def operands (t : Target) (es : List Expr) : List Operand :=
  match es with
  | [] => []
  | e :: es => ⟨e, value t e⟩ :: operands t es

end

/-- Renders order terms from left to right. -/
def order (t : Target) : List OrderTerm → Compile (List SqlOrder)
  | [] => pure []
  | term :: terms => do
    let e ← value t term.expr
    let rest ← order t terms
    pure (⟨e, term.descending⟩ :: rest)

end Compile

/-- A condition with the parameters it binds. -/
structure CompiledCondition where
  condition : Sql
  parameters : Parameters

/-- Compiles the condition of a query over one index, whose alias is its own name. -/
def compileCondition (t : Target) (index : String) (e : Expr) : Except Error CompiledCondition :=
  let step : Compile Sql := do
    Compile.bindIndex index index
    Compile.condition t e
  match step.run .start with
  | (.ok sql, c) => .ok ⟨sql, c.parameters⟩
  | (.error e, _) => .error e

end DocStore

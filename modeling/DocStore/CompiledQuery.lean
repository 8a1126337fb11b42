import DocStore.Compiler
import DocStore.Statement

/-!
# Compiled queries

An index query built once and run many times with different arguments. Whether
a nullable capture is null decides the SQL, so SQL is kept per discriminator:
the number of the query, and a bit for every nullable capture that is null.
Everything else that the arguments decide is a parameter, which `CompiledSql.bind`
evaluates again.
-/

set_option autoImplicit false

namespace DocStore

/-- The number of nullable captures that a discriminator has bits for. -/
def maxNullableCaptures : Nat := 32

structure CompiledQuery where
  /-- The number that tells the query from every other. -/
  shape : UInt32
  index : IndexType
  condition : Expr
  order : List OrderTerm
  paging : Paging

/-- SQL generated for one discriminator, and how to bind other arguments to it. -/
structure CompiledSql where
  query : Query
  parameters : Parameters
  rebinders : List Rebinder

namespace CompiledQuery

/-- Builds a query under a number. -/
def create (shape : UInt32) (index : IndexType) (condition : Expr) : Except Error CompiledQuery :=
  let nullable := condition.captures.countP Capture.nullable
  if maxNullableCaptures < nullable then .error (.unsupported (.tooManyNullable nullable))
  else .ok ⟨shape, index, condition, [], ⟨none, none⟩⟩

def orderBy (q : CompiledQuery) (e : Expr) (descending : Bool) : CompiledQuery :=
  { q with order := q.order ++ [⟨e, descending⟩] }

def skip (q : CompiledQuery) (n : Nat) : CompiledQuery :=
  { q with paging := { q.paging with skip := some n } }

def take (q : CompiledQuery) (n : Nat) : CompiledQuery :=
  { q with paging := { q.paging with take := some n } }

/-- The bits of the nullable captures that are null, the first in the lowest bit.
A capture that is not nullable must not be null. -/
def nullBits (args : Arguments) : List Capture → Nat → UInt64 → Except Error UInt64
  | [], _, bits => .ok bits
  | c :: cs, bit, bits =>
    match c.read args with
    | none => .error (.invalid (.captureArguments c.name))
    | some v =>
      if c.nullable then
        nullBits args cs (bit + 1) (if v.isNull then bits ||| ((1 : UInt64) <<< UInt64.ofNat bit)
          else bits)
      else if v.isNull then .error (.invalid (.captureNull c.name))
      else nullBits args cs bit bits

/-- What SQL is kept under: the shape in the high half and the null bits in the low half. -/
def discriminator (q : CompiledQuery) (args : Arguments) : Except Error UInt64 := do
  let bits ← nullBits args q.condition.captures 0 0
  pure ((q.shape.toUInt64 <<< 32) ||| bits)

/-- Generates the SQL for some arguments. -/
def compile (q : CompiledQuery) (dialect : Dialect) (names : TableNames) (args : Arguments) :
    Except Error CompiledSql :=
  let t : Target := ⟨dialect, names, some args⟩
  let step : Compile Query := do
    Compile.bindIndex q.index.name q.index.name
    let filter ← Compile.condition t q.condition
    let order ← Compile.order t q.order
    pure (.indexRows q.index.name (names.index q.index.name) filter order (some q.paging))
  match step.run .start with
  | (.ok query, c) => .ok ⟨query, c.parameters, c.rebinders⟩
  | (.error e, _) => .error e

end CompiledQuery

/-- The numbers that queries have not taken yet, from `next` on. -/
structure Shapes where
  next : UInt32

namespace Shapes

def start : Shapes := ⟨0⟩

/-- Builds a query under the next number; a query turned down takes none. -/
def define (shapes : Shapes) (index : IndexType) (condition : Expr) :
    Except Error CompiledQuery × Shapes :=
  match CompiledQuery.create shapes.next index condition with
  | .ok q => (.ok q, ⟨shapes.next + 1⟩)
  | .error e => (.error e, shapes)

end Shapes

namespace CompiledSql

def rebind (args : Arguments) : List Rebinder → Parameters → Except Error Parameters
  | [], ps => .ok ps
  | r :: rs, ps => do
    let v ← r.expr.evaluate (some args)
    rebind args rs (ps.set r.parameter (r.affix.apply v))

/-- The parameters for other arguments; only what reads captures is evaluated again. -/
def bind (sql : CompiledSql) (args : Arguments) : Except Error Parameters :=
  rebind args sql.rebinders sql.parameters

end CompiledSql

end DocStore

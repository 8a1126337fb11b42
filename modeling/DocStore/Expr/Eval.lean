import DocStore.Expr
import DocStore.Unicode.Blank
import DocStore.Unicode.Case

/-!
# Evaluating expressions before a query runs

Integer arithmetic is exact: a result outside the signed 64-bit range, like a
division by zero, is an error. A null operand makes the result null, except
that `=` and `<>` compare nulls like other values. Arguments are evaluated from
left to right, and the first error is the answer.
-/

set_option autoImplicit false

namespace DocStore

/-- An integer that fits a signed 64-bit word. -/
def int64OfInt? (i : Int) : Option Int64 :=
  if Int64.minValue.toInt ≤ i ∧ i ≤ Int64.maxValue.toInt then some (Int64.ofInt i) else none

namespace Value

/-- The whole text as a decimal integer with an optional sign, if it fits. -/
def int64OfText? (s : String) : Option Int64 :=
  let (negative, cs) := Double.takeSign s.toList
  if cs ≠ [] ∧ cs.all Char.isDigit then
    let n : Int := Double.digitsValue cs
    int64OfInt? (if negative then -n else n)
  else none

/-- The error of an operation that does not apply to a value. -/
def refuse (op : String) (v : Value) : Error := .invalid (.notApplicable op v)

def applyUnary (op : UnaryOp) (v : Value) : Except Error Value :=
  match op, v with
  | _, .null => .ok .null
  | .not, v => match v.bool? with
    | some b => .ok (.bool !b)
    | none => .error (v.refuse "not")
  | .negate, .int i => .ok (.int (-i))
  | .negate, .float x => .ok (.float x.neg)
  | .negate, v => .error (v.refuse "negate")

/-- The order of two values of one kind; numbers of different kinds compare as doubles. -/
def order? (l r : Value) : Option Ordering :=
  match l, r with
  | .int a, .int b => some (compare a.toInt b.toInt)
  | .text a, .text b => some (compare a b)
  | .bool a, .bool b => some (compare a b)
  | l, r => do (← l.double?).compare? (← r.double?)

/-- The exact result of integer arithmetic, where there is one; a quotient loses
its fractional part. -/
def integerResult? : BinaryOp → Int → Int → Option Int
  | .add, a, b => some (a + b)
  | .sub, a, b => some (a - b)
  | .mul, a, b => some (a * b)
  | _, a, b => if b = 0 then none else some (a.tdiv b)

def floating : BinaryOp → Double → Double → Double
  | .add, x, y => x.add y
  | .sub, x, y => x.sub y
  | .mul, x, y => x.mul y
  | _, x, y => x.div y

/-- Addition, subtraction, multiplication and division. -/
def arithmetic (op : BinaryOp) (l r : Value) : Except Error Value :=
  match l, r with
  | .null, _ => .ok .null
  | _, .null => .ok .null
  | .int a, .int b =>
    match (integerResult? op a.toInt b.toInt).bind int64OfInt? with
    | some i => .ok (.int i)
    | none => .error (.invalid (.overflow a op.sql b))
  | l, r =>
    match l.double?, r.double? with
    | some x, some y => .ok (.float (floating op x y))
    | none, _ => .error (l.refuse op.sql)
    | some _, none => .error (r.refuse op.sql)

/-- Whether a comparison operator other than `=` and `<>` holds for an order. -/
def holdsFor : BinaryOp → Ordering → Bool
  | .lt, o => o = .lt
  | .le, o => o ≠ .gt
  | .gt, o => o = .gt
  | _, o => o ≠ .lt

def applyBinary (op : BinaryOp) (l r : Value) : Except Error Value :=
  match op with
  | .and | .or =>
    match l.bool?, r.bool? with
    | some a, some b => .ok (.bool (if op = .and then a && b else a || b))
    | _, _ => .ok .null
  | .eq => .ok (.bool (l.agrees r))
  | .ne => .ok (.bool !(l.agrees r))
  | .lt | .le | .gt | .ge =>
    match l.order? r with
    | some o => .ok (.bool (holdsFor op o))
    | none => .ok .null
  | .add | .sub | .mul | .div => arithmetic op l r

/-- The value as one of a column kind. Text is read without the blanks around it. -/
def convert? (kind : ColumnKind) (v : Value) : Option Value :=
  match kind, v with
  | _, .null => some .null
  | .integer, .float x => some (.int x.toInt64)
  | .integer, .text s => (int64OfText? (Unicode.trim s)).map .int
  | .integer, v => v.int64?.map .int
  | .real, .text s => (Double.ofText? (Unicode.trim s)).map .float
  | .real, v => v.double?.map .float
  | .boolean, v => v.bool?.map .bool
  | .text, v => some (.text v.toText)

def convert (kind : ColumnKind) (v : Value) : Except Error Value :=
  match v.convert? kind with
  | some w => .ok w
  | none => .error (.invalid (.notConvertible v.typeName kind))

end Value

/-- Whether `needle` stands somewhere in a text. -/
def occursIn (needle : List Char) : List Char → Bool
  | [] => needle.isEmpty
  | c :: cs => needle.isPrefixOf (c :: cs) || occursIn needle cs

namespace Method

/-- The text at a position of the arguments. -/
def textArgument (method : Method) (args : List Value) (i : Nat) : Except Error String :=
  match args[i]? with
  | some (.text s) => .ok s
  | some v => .error (v.refuse method.name)
  | none => .error (.invalid (.missingArgument method.name i))

/-- Methods whose result is null when their receiver is. -/
def passesNull : Method → Bool
  | .startsWith | .endsWith | .contains | .toUpper | .toLower => true
  | _ => false

/-- A test of the receiver's characters against those of the first argument. -/
def search (method : Method) (args : List Value) (test : List Char → List Char → Bool) :
    Except Error Value := do
  let text ← method.textArgument args 0
  let part ← method.textArgument args 1
  pure (.bool (test part.toList text.toList))

/-- Whether the receiver agrees with one of the items. -/
def membership (expected : Bool) : List Value → Except Error Value
  | [] => .error (.invalid (.missingReceiver "is_in"))
  | target :: items => .ok (.bool ((items.any fun v => v.agrees target) = expected))

def apply (method : Method) (args : List Value) : Except Error Value :=
  if method.passesNull && args.head? = some .null then .ok .null
  else
    match method with
    | .startsWith => method.search args fun part text => part.isPrefixOf text
    | .endsWith => method.search args fun part text => part.isSuffixOf text
    | .contains => method.search args occursIn
    | .toUpper => (method.textArgument args 0).map fun s => .text (Unicode.upper s)
    | .toLower => (method.textArgument args 0).map fun s => .text (Unicode.lower s)
    | .concat => .ok (.text (String.join (args.map Value.toText)))
    | .isIn => membership true args
    | .isNotIn => membership false args
    | .host f => f.call args

end Method

/-- The value a capture reads; without arguments it has none. -/
def Capture.value (c : Capture) : Option Arguments → Except Error Value
  | none => .error (.invalid (.captureWithoutArguments c.name))
  | some args =>
    match c.read args with
    | some v => .ok v
    | none => .error (.invalid (.captureUnreadable c.name))

namespace Expr

mutual

/-- The value of an expression that reaches no row. -/
def evaluate (args : Option Arguments) : Expr → Except Error Value
  | .const v => .ok v
  | .capture c => c.value args
  | .member m => .error (.unsupported (.memberValue m.index m.column))
  | .unary op e => do
    let v ← evaluate args e
    v.applyUnary op
  | .binary op l r => do
    let v ← evaluate args l
    let w ← evaluate args r
    v.applyBinary op w
  | .call method es => do
    let vs ← evaluateAll args es
    method.apply vs
  | .inQuery _ _ _ _ es => do
    let _ ← evaluateAll args es
    .error (.unsupported .correlatedSubquery)
  | .convert e kind => do
    let v ← evaluate args e
    v.convert kind

def evaluateAll (args : Option Arguments) : List Expr → Except Error (List Value)
  | [] => .ok []
  | e :: es => do
    let v ← evaluate args e
    let vs ← evaluateAll args es
    pure (v :: vs)

end

end Expr

end DocStore

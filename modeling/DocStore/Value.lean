import DocStore.Double.Decimal
import DocStore.Json

/-!
# Scalar values

What a statement binds, a result column holds and an index groups by. Two
values `agree` when grouping and shared queries treat them as one: doubles by
their bits, and an integer with the double it converts to.
-/

set_option autoImplicit false

namespace DocStore

inductive Value where
  | null
  | bool (b : Bool)
  | int (i : Int64)
  | float (x : Double)
  | text (s : String)
deriving DecidableEq

instance : Inhabited Value := ⟨.null⟩

namespace Value

def isNull (v : Value) : Bool := v = .null

/-- The value as an integer: truth values count as 0 and 1, and a float must be integral. -/
def int64? : Value → Option Int64
  | .int i => some i
  | .bool b => some (if b then 1 else 0)
  | .float x => if x.isIntegral then some x.toInt64 else none
  | _ => none

/-- The value as a double. -/
def double? : Value → Option Double
  | .int i => some (Double.ofInt i.toInt)
  | .float x => some x
  | _ => none

def text? : Value → Option String
  | .text s => some s
  | _ => none

/-- The value as a truth value: an integer holds unless it is zero. -/
def bool? : Value → Option Bool
  | .bool b => some b
  | .int i => some (i != 0)
  | _ => none

def typeName : Value → String
  | .null => "null"
  | .bool _ => "bool"
  | .int _ => "int"
  | .float _ => "float"
  | .text _ => "text"

/-- The text of a value in concatenations and search patterns. -/
def toText : Value → String
  | .null => ""
  | .bool b => if b then "true" else "false"
  | .int i => toString i.toInt
  | .float x => x.text
  | .text s => s

/-- The text of a value in messages. -/
def display : Value → String
  | .null => "NULL"
  | .text s => "'" ++ s ++ "'"
  | v => v.toText

/-- Whether grouping and shared queries treat two values as one. -/
def agrees : Value → Value → Bool
  | .null, .null => true
  | .bool a, .bool b => a = b
  | .int a, .int b => a = b
  | .float a, .float b => a = b
  | .int a, .float b => Double.ofInt a.toInt = b
  | .float a, .int b => Double.ofInt b.toInt = a
  | .text a, .text b => a = b
  | _, _ => false

/-- What a hash table keeps of a value: every number as a double. -/
def widened : Value → Value
  | .int i => .float (Double.ofInt i.toInt)
  | v => v

/-- The values of a list without those that agree with one kept before. -/
def distinct (vs : List Value) : List Value :=
  vs.foldl (fun kept v => if kept.any fun k => k.agrees v then kept else kept ++ [v]) []

/-- A value as JSON. -/
def toJson : Value → Json
  | .null => .null
  | .bool b => .bool b
  | .int i => .ofInt64 i
  | .float x => .ofDouble x
  | .text s => .str s

/-- A JSON scalar as a value; a number outside the integer range is a double. -/
def ofJson? : Json → Option Value
  | .null => some .null
  | .bool b => some (.bool b)
  | .int i => some (((Json.int i).int64?).elim (.float (Double.ofInt i)) .int)
  | .real x => some (.float x)
  | .str s => some (.text s)
  | _ => none

end Value

end DocStore

import DocStore.Double

/-!
# JSON values

The members of an object stand in the order of their keys by code points, each
key once; `setField` keeps them so, and the last value given to a key stays.
Numbers are integers where they are written as such and doubles otherwise.
-/

set_option autoImplicit false

namespace DocStore

inductive Json where
  | null
  | bool (b : Bool)
  | int (i : Int)
  | real (x : Double)
  | str (s : String)
  | arr (items : List Json)
  | obj (fields : List (String × Json))

instance : Inhabited Json := ⟨.null⟩

namespace Json

/-- Puts a member among members that stand in the order of their keys. -/
def insertField (key : String) (value : Json) : List (String × Json) → List (String × Json)
  | [] => [(key, value)]
  | f :: rest =>
    if key < f.1 then (key, value) :: f :: rest
    else if key = f.1 then (key, value) :: rest
    else f :: insertField key value rest

/-- An object from members in any order; the last of a repeated key counts. -/
def ofFields (fields : List (String × Json)) : Json :=
  .obj (fields.foldl (fun fs f => insertField f.1 f.2 fs) [])

/-- The value of a member, if this is an object that has it. -/
def field? (key : String) : Json → Option Json
  | .obj fields => fields.lookup key
  | _ => none

/-- The object with a member set; other values stay as they are. -/
def setField (j : Json) (key : String) (value : Json) : Json :=
  match j with
  | .obj fields => .obj (insertField key value fields)
  | j => j

def isObject : Json → Bool
  | .obj _ => true
  | _ => false

/-- An integer within the signed 64-bit range. -/
def int64? : Json → Option Int64
  | .int i => if Int64.minValue.toInt ≤ i ∧ i ≤ Int64.maxValue.toInt then some (Int64.ofInt i)
      else none
  | _ => none

def string? : Json → Option String
  | .str s => some s
  | _ => none

def bool? : Json → Option Bool
  | .bool b => some b
  | _ => none

/-- A number as a double. -/
def double? : Json → Option Double
  | .int i => some (Double.ofInt i)
  | .real x => some x
  | _ => none

/-- A double as a JSON number; JSON has no NaN and no infinities. -/
def ofDouble (x : Double) : Json := if x.isFinite then .real x else .null

def ofInt64 (i : Int64) : Json := .int i.toInt

end Json

end DocStore

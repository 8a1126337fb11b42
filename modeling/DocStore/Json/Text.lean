import DocStore.Double.Decimal
import DocStore.Json

/-!
# The text of a JSON value

Compact text: no blanks, object members in the order in which they stand, and
only quotes, backslashes and control characters escaped. A double is written
with its shortest digits and always with a point or an exponent, so that it is
read back as a double.
-/

set_option autoImplicit false

namespace DocStore

/-- The JSON text of a finite double: positional from `1e-5` up to below `1e16`
and scientific elsewhere. Of two nearest decimals the even one is written. -/
def Double.jsonText (x : Double) : String :=
  let sign := if x.isNegative then "-" else ""
  let d := x.shortest .toEven
  if x.magnitude = 0 then sign ++ "0.0"
  else if -4 ≤ d.point ∧ d.point ≤ 16 then
    sign ++ d.positional ++ (if 0 ≤ d.exponent then ".0" else "")
  else sign ++ d.scientific

namespace Json

def hexDigit (n : Nat) : Char := if n < 10 then Char.ofNat (48 + n) else Char.ofNat (87 + n)

/-- A character as it stands in a JSON string. -/
def escapeChar (c : Char) : List Char :=
  if c = '"' then ['\\', '"']
  else if c = '\\' then ['\\', '\\']
  else if c = '\n' then ['\\', 'n']
  else if c = '\r' then ['\\', 'r']
  else if c = '\t' then ['\\', 't']
  else if c.toNat = 8 then ['\\', 'b']
  else if c.toNat = 12 then ['\\', 'f']
  else if c.toNat < 32 then ['\\', 'u', '0', '0', hexDigit (c.toNat / 16), hexDigit (c.toNat % 16)]
  else [c]

/-- A string between quotes. -/
def quoted (s : String) : String := String.ofList ('"' :: s.toList.flatMap escapeChar ++ ['"'])

mutual

/-- The compact text of a value. A double that JSON cannot write becomes `null`. -/
def text : Json → String
  | .null => "null"
  | .bool b => if b then "true" else "false"
  | .int i => toString i
  | .real x => if x.isFinite then x.jsonText else "null"
  | .str s => quoted s
  | .arr items => "[" ++ ",".intercalate (itemTexts items) ++ "]"
  | .obj fields => "\x7b" ++ ",".intercalate (fieldTexts fields) ++ "\x7d"

def itemTexts : List Json → List String
  | [] => []
  | item :: rest => text item :: itemTexts rest

def fieldTexts : List (String × Json) → List String
  | [] => []
  | (key, value) :: rest => (quoted key ++ ":" ++ text value) :: fieldTexts rest

end

end Json

end DocStore

import DocStore.Double.Decimal
import DocStore.Json

/-!
# Reading JSON text

A strict reader: one value with blanks around it and nothing else, no lone
surrogates, no unescaped control characters, and arrays and objects nested at
most to a given depth. Each step takes the characters that are left and answers
what it read with what is then left.
-/

set_option autoImplicit false

namespace DocStore.Json

def skipBlanks (cs : List Char) : List Char :=
  cs.dropWhile fun c => c = ' ' || c = '\n' || c = '\r' || c = '\t'

/-! ## Numbers -/

/-- The digits of a literal that fit an unsigned 64-bit significand. -/
structure Significand where
  value : Nat
  /-- Digits of the whole part left out after the significand was full. -/
  dropped : Nat
  /-- Digits of the fractional part taken in. -/
  places : Nat
  /-- A fractional digit did not fit, and the rest is ignored. -/
  full : Bool

namespace Significand

def fits (s : Significand) (d : Nat) : Bool := s.value * 10 + d < UInt64.size

/-- Takes a digit of the whole part; the first that does not fit ends the part. -/
def whole (s : Significand) (c : Char) : Significand :=
  let d := c.toNat - 48
  if s.dropped = 0 && s.fits d then { s with value := s.value * 10 + d }
  else { s with dropped := s.dropped + 1 }

/-- Takes a digit of the fractional part. -/
def place (s : Significand) (c : Char) : Significand :=
  let d := c.toNat - 48
  if !s.full && s.fits d then { s with value := s.value * 10 + d, places := s.places + 1 }
  else { s with full := true }

end Significand

/-- `x * 10 ^ exponent` in steps that each round: one multiplication or division
by a power of ten that is itself rounded, after as many divisions by `1e308` as
a smaller exponent takes. There is no answer beyond the largest double. -/
def scale? (x : Double) (exponent : Int) : Nat → Option Double
  | 0 => some x
  | fuel + 1 =>
    if exponent.natAbs ≤ 308 then
      let power := Double.ofRatio false (Nat.pow 10 exponent.natAbs) 1
      if exponent < 0 then some (x.div power)
      else
        let y := x.mul power
        if y.isInfinite then none else some y
    else if x.magnitude = 0 then some x
    else if 0 ≤ exponent then none
    else scale? (x.div (Double.ofRatio false (Nat.pow 10 308) 1)) (exponent + 308) fuel

/-- The double of a literal with a point or an exponent. Three divisions by
`1e308` make every significand zero. -/
def realNumber? (negative : Bool) (significand : Nat) (exponent : Int) : Option Json :=
  (scale? (Double.ofInt significand) exponent 4).map fun x => .real (if negative then x.neg else x)

/-- A literal without point and exponent: an integer if it lies between `-2 ^ 63`
and `2 ^ 64`, and otherwise a double. A negative zero is a double. -/
def wholeNumber (negative : Bool) (n : Nat) : Json :=
  if !negative then .int n
  else if 0 < n ∧ n ≤ 1 <<< 63 then .int (-n)
  else .real (Double.ofInt n).neg

/-- The exponent of a literal: one that leaves the signed 32-bit range is too
large for any significand but zero, or so small that zero is left. -/
def exponentNumber? (negative : Bool) (significand : Nat) (exponent : Int) (down : Bool)
    (size : Nat) : Option Json :=
  if 1 <<< 31 ≤ size then
    if significand ≠ 0 ∧ !down then none else some (.real (Double.zero negative))
  else realNumber? negative significand (if down then exponent - size else exponent + size)

/-- Reads a number from its first digit on. -/
def readNumber? (negative : Bool) (cs : List Char) : Option (Json × List Char) := do
  let (digits, rest) := Double.takeDigits cs
  guard (digits ≠ [] ∧ (digits.head? ≠ some '0' ∨ digits.length = 1))
  let whole := digits.foldl Significand.whole ⟨0, 0, 0, false⟩
  let (fractional, places, rest) := match rest with
    | '.' :: rest =>
      let (places, rest) := Double.takeDigits rest
      (true, places, rest)
    | rest => (false, [], rest)
  guard (!fractional ∨ places ≠ [])
  let s := places.foldl Significand.place whole
  let exponent : Int := s.dropped - s.places
  match rest with
  | c :: rest =>
    if c = 'e' ∨ c = 'E' then do
      let (down, rest) := Double.takeSign rest
      let (size, rest) := Double.takeDigits rest
      guard (size ≠ [])
      let number ← exponentNumber? negative s.value exponent down (Double.digitsValue size)
      pure (number, rest)
    else plain s fractional exponent (c :: rest)
  | [] => plain s fractional exponent []
where
  /-- The number when no exponent follows. -/
  plain (s : Significand) (fractional : Bool) (exponent : Int) (rest : List Char) :
      Option (Json × List Char) :=
    if !fractional ∧ s.dropped = 0 then some (wholeNumber negative s.value, rest)
    else (realNumber? negative s.value exponent).map fun number => (number, rest)

/-! ## Strings -/

def hexValue? (c : Char) : Option Nat :=
  if '0' ≤ c ∧ c ≤ '9' then some (c.toNat - 48)
  else if 'a' ≤ c ∧ c ≤ 'f' then some (c.toNat - 87)
  else if 'A' ≤ c ∧ c ≤ 'F' then some (c.toNat - 55)
  else none

/-- The code unit that four hexadecimal digits write. -/
def unit? (a b c d : Char) : Option Nat := do
  let a ← hexValue? a
  let b ← hexValue? b
  let c ← hexValue? c
  let d ← hexValue? d
  pure (((a * 16 + b) * 16 + c) * 16 + d)

/-- What the character after a backslash stands for, `u` apart. -/
def escape? : Char → Option Char
  | '"' => some '"'
  | '\\' => some '\\'
  | '/' => some '/'
  | 'b' => some (Char.ofNat 8)
  | 'f' => some (Char.ofNat 12)
  | 'n' => some '\n'
  | 'r' => some '\r'
  | 't' => some '\t'
  | _ => none

/-- Reads a string after its opening quote; `read` holds its characters so far, last first. -/
def readString? (read : List Char) : List Char → Option (String × List Char)
  | '"' :: rest => some (String.ofList read.reverse, rest)
  | '\\' :: 'u' :: a :: b :: c :: d :: rest =>
    match unit? a b c d with
    | none => none
    | some high =>
      if high < 0xD800 ∨ 0xDFFF < high then readString? (Char.ofNat high :: read) rest
      else if 0xDBFF < high then none
      else
        match rest with
        | '\\' :: 'u' :: a :: b :: c :: d :: rest =>
          match unit? a b c d with
          | none => none
          | some low =>
            if 0xDC00 ≤ low ∧ low ≤ 0xDFFF then
              readString? (Char.ofNat (0x10000 + (high - 0xD800) * 1024 + (low - 0xDC00)) :: read)
                rest
            else none
        | _ => none
  | '\\' :: c :: rest =>
    match escape? c with
    | some c => readString? (c :: read) rest
    | none => none
  | c :: rest => if c.toNat < 32 || c = '\\' then none else readString? (c :: read) rest
  | [] => none

/-! ## Values -/

/-- What reads one value. -/
abbrev Read := List Char → Option (Json × List Char)

/-- Reads the items of an array after its first bracket, last first. -/
def readItems? (item : Read) : Nat → List Json → List Char → Option (Json × List Char)
  | 0, _, _ => none
  | fuel + 1, read, cs => do
    let (value, rest) ← item (skipBlanks cs)
    match skipBlanks rest with
    | ',' :: rest => readItems? item fuel (value :: read) rest
    | ']' :: rest => pure (.arr (value :: read).reverse, rest)
    | _ => none

/-- Reads the members of an object after its first brace, last first. -/
def readFields? (item : Read) : Nat → List (String × Json) → List Char → Option (Json × List Char)
  | 0, _, _ => none
  | fuel + 1, read, cs => do
    match skipBlanks cs with
    | '"' :: rest =>
      let (key, rest) ← readString? [] rest
      match skipBlanks rest with
      | ':' :: rest =>
        let (value, rest) ← item (skipBlanks rest)
        match skipBlanks rest with
        | ',' :: rest => readFields? item fuel ((key, value) :: read) rest
        | '\x7d' :: rest => pure (.ofFields ((key, value) :: read).reverse, rest)
        | _ => none
      | _ => none
    | _ => none

/-- Reads a value whose arrays and objects may still be nested `depth` deep. -/
def readValue? : Nat → Read
  | depth, cs =>
    match cs with
    | 'n' :: 'u' :: 'l' :: 'l' :: rest => some (.null, rest)
    | 't' :: 'r' :: 'u' :: 'e' :: rest => some (.bool true, rest)
    | 'f' :: 'a' :: 'l' :: 's' :: 'e' :: rest => some (.bool false, rest)
    | '"' :: rest => (readString? [] rest).map fun (s, rest) => (.str s, rest)
    | '-' :: rest => readNumber? true rest
    | '[' :: rest =>
      match depth with
      | 0 => none
      | depth + 1 =>
        match skipBlanks rest with
        | ']' :: rest => some (.arr [], rest)
        | rest => readItems? (readValue? depth) (rest.length + 1) [] rest
    | '\x7b' :: rest =>
      match depth with
      | 0 => none
      | depth + 1 =>
        match skipBlanks rest with
        | '\x7d' :: rest => some (.obj [], rest)
        | rest => readFields? (readValue? depth) (rest.length + 1) [] rest
    | cs => readNumber? false cs

/-- How deep the arrays and objects of stored text may be nested. -/
def maxDepth : Nat := 127

/-- Reads a whole text as one value nested at most `depth` deep. -/
def readWithin? (depth : Nat) (s : String) : Option Json :=
  match readValue? depth (skipBlanks s.toList) with
  | some (value, rest) => if (skipBlanks rest).isEmpty then some value else none
  | none => none

/-- Reads a whole text as one value. -/
def ofText? (s : String) : Option Json := readWithin? maxDepth s

end DocStore.Json

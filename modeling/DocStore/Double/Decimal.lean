import DocStore.Double

/-!
# Decimal text of doubles

`shortest` finds the decimal with the fewest digits that reads back as the same
double, and of several the nearest. It looks at the two neighbours of the value
on the grids of powers of ten, from coarse to fine, in exact arithmetic; the
first grid with a neighbour in the rounding interval has the fewest digits.
What is left to each format is how a tie between two neighbours goes and how
the digits are laid out.
-/

set_option autoImplicit false

namespace DocStore

/-- The number `digits * 10 ^ exponent`. -/
structure Decimal where
  digits : Nat
  exponent : Int
deriving DecidableEq

/-- Which of two decimals at the same distance is taken. -/
inductive TieRule where
  | toEven
  | away
deriving DecidableEq

namespace Decimal

/-- The digits as text. -/
def text (d : Decimal) : String := toString d.digits

/-- The number of digits before the point; negative when zeros follow it. -/
def point (d : Decimal) : Int := d.text.length + d.exponent

def zeros (n : Nat) : String := String.ofList (List.replicate n '0')

/-- The number without an exponent and, if it is integral, without a point. -/
def positional (d : Decimal) : String :=
  let s := d.text
  if 0 ≤ d.exponent then s ++ zeros d.exponent.toNat
  else if 0 < d.point then
    String.ofList (s.toList.take d.point.toNat) ++ "." ++
    String.ofList (s.toList.drop d.point.toNat)
  else "0." ++ zeros (-d.point).toNat ++ s

/-- One digit before the point, and the exponent with its sign. -/
def scientific (d : Decimal) : String :=
  let power := d.point - 1
  let sign := if power < 0 then "e-" else "e+"
  match d.text.toList with
  | [] => ""
  | [c] => String.ofList [c] ++ sign ++ toString power.natAbs
  | c :: rest => String.ofList [c] ++ "." ++ String.ofList rest ++ sign ++ toString power.natAbs

end Decimal

namespace Double

/-- The neighbour of `|x|` on the grid of multiples of `10 ^ power` that reads
back as `|x|`, as a multiple. Distances are counted in quarters of a unit, so
that the ends of the rounding interval are whole; an end belongs to the interval
when the significand is even, and the interval is shorter below a power of two. -/
def onGrid? (tie : TieRule) (x : Double) (power : Int) : Option Nat :=
  let gap := 1 <<< (max x.exponentField 1 - 1)
  let below := if x.fraction = 0 ∧ 1 < x.exponentField then gap else 2 * gap
  let finer := Nat.pow 10 (-power).toNat
  let step := 4 * unitsPerOne * Nat.pow 10 power.toNat
  let value := 4 * x.magnitude * finer
  let low := (4 * x.magnitude - below) * finer
  let high := (4 * x.magnitude + 2 * gap) * finer
  let fits (n : Nat) : Bool :=
    if x.fraction % 2 = 0 then low ≤ n * step && n * step ≤ high
    else low < n * step && n * step < high
  let down := value / step
  let rest := 2 * (value % step)
  if fits down then
    if !fits (down + 1) || rest < step then some down
    else if step < rest then some (down + 1)
    else if tie = .toEven && down % 2 = 0 then some down
    else some (down + 1)
  else if fits (down + 1) then some (down + 1)
  else none

/-- A power of ten above `|x|`, for a positive magnitude. -/
def ceilingPower (x : Double) : Int :=
  ((x.magnitude.log2 : Int) - 1073) * 30103 / 100000 + 1

/-- The decimal with the fewest digits that reads back as `|x|`, and of those
the nearest. Seventeen digits are always enough. -/
def shortest (tie : TieRule) (x : Double) : Decimal :=
  let top := x.ceilingPower
  ((List.range 24).findSome? fun (i : Nat) =>
    let power := top - (i : Nat)
    (x.onGrid? tie power).map fun digits => ⟨digits, power⟩).getD ⟨0, 0⟩

/-- The text of a double: its shortest digits, never with an exponent. Of two
nearest decimals the greater is written. -/
def text (x : Double) : String :=
  let sign := if x.isNegative then "-" else ""
  if x.isNaN then "NaN"
  else if x.isInfinite then sign ++ "inf"
  else if x.magnitude = 0 then sign ++ "0"
  else sign ++ (x.shortest .away).positional

/-- The decimal digits at the head of a text, and what follows them. -/
def takeDigits (cs : List Char) : List Char × List Char :=
  (cs.takeWhile Char.isDigit, cs.dropWhile Char.isDigit)

/-- The number a list of decimal digits writes. -/
def digitsValue (ds : List Char) : Nat := ds.foldl (fun n c => 10 * n + (c.toNat - 48)) 0

/-- An optional sign, and what follows it. -/
def takeSign : List Char → Bool × List Char
  | '-' :: cs => (true, cs)
  | '+' :: cs => (false, cs)
  | cs => (false, cs)

/-- The exponent part of a decimal literal; it must fill the rest of the text. -/
def readExponent? : List Char → Option Int
  | [] => some 0
  | e :: cs =>
    let (negative, cs) := takeSign cs
    if (e = 'e' ∨ e = 'E') ∧ cs ≠ [] ∧ cs.all Char.isDigit then
      let n : Int := digitsValue cs
      some (if negative then -n else n)
    else none

/-- Reads `inf`, `infinity` or `nan` in any case, or decimal digits with an
optional point and exponent, after an optional sign. At least one digit must
stand before the exponent. The answer is the nearest double, which for a
magnitude beyond the largest is infinity. -/
def ofText? (s : String) : Option Double :=
  let (negative, cs) := takeSign s.toList
  let word := String.ofList (cs.map Char.toLower)
  if word = "nan" then some (if negative then nan.neg else nan)
  else if word = "inf" ∨ word = "infinity" then some (infinity negative)
  else
    let (whole, cs) := takeDigits cs
    let (part, cs) := match cs with
      | '.' :: cs => takeDigits cs
      | cs => ([], cs)
    if whole = [] ∧ part = [] then none
    else (readExponent? cs).map fun e =>
      ofDecimal negative (digitsValue (whole ++ part)) (e - part.length)

end Double

end DocStore

import DocStore.Unicode.CaseTable

/-!
# Letter case of text

`upper` and `lower` apply the full case mappings, under which a character may
become several. The one mapping that looks at its surroundings is that of the
capital sigma: at the end of a word its lower case is the final form.
-/

set_option autoImplicit false

namespace DocStore.Unicode

/-- Whether a code point lies in one of the ranges. -/
def inRanges (ranges : List (Nat × Nat)) (c : Char) : Bool :=
  ranges.any fun r => r.1 ≤ c.toNat && c.toNat ≤ r.2

/-- The shift of the run that maps `n`. -/
def shift? (runs : List CaseRun) (n : Nat) : Option Int :=
  (runs.find? fun r => r.first ≤ n && n ≤ r.last && (n - r.first) % r.step == 0).map CaseRun.shift

/-- A character under a case mapping; a character without an entry maps to itself. -/
def mapCase (runs : List CaseRun) (sequences : List (Nat × List Nat)) (c : Char) : List Char :=
  match shift? runs c.toNat with
  | some d => [Char.ofNat (c.toNat + d).toNat]
  | none =>
    match sequences.lookup c.toNat with
    | some cs => cs.map Char.ofNat
    | none => [c]

/-- The full upper case of a character. -/
def upperChar (c : Char) : List Char :=
  if c.toNat < 128 then [c.toUpper] else mapCase upperRuns upperSequences c

/-- The full lower case of a character away from the end of a word. -/
def lowerChar (c : Char) : List Char :=
  if c.toNat < 128 then [c.toLower] else mapCase lowerRuns lowerSequences c

/-- Whether the first character that does not merely accompany a letter has a case. -/
def meetsCased (cs : List Char) : Bool :=
  match cs.dropWhile (inRanges caseIgnorableRanges) with
  | [] => false
  | c :: _ => inRanges casedRanges c

/-- The lower case of what follows `before`, the characters already passed, nearest first. -/
def lowerAfter : List Char → List Char → List Char
  | _, [] => []
  | before, c :: rest =>
    let mapped :=
      if c = 'Σ' then if meetsCased before && !meetsCased rest then ['ς'] else ['σ']
      else lowerChar c
    mapped ++ lowerAfter (c :: before) rest

def upper (s : String) : String := String.ofList (s.toList.flatMap upperChar)

def lower (s : String) : String := String.ofList (lowerAfter [] s.toList)

end DocStore.Unicode

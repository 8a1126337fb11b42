import DocStore.Compiler
import Mathlib.Data.List.Forall2
import Mathlib.Data.List.Infix

/-!
# Search patterns

What SQL's `LIKE` makes of a pattern: a percent sign stands for any text, an
underscore for any one character, and all else for itself. A search splices percent
signs onto the text it looks for, so it finds all the places where that text stands.
It finds more than these exactly if the text itself has one of the two signs in it,
since nothing tells them from those spliced on.
-/

set_option autoImplicit false

namespace DocStore

/-- Whether a text is one that a pattern describes. -/
def matchesPattern : List Char → List Char → Bool
  | [], text => text.isEmpty
  | p :: pattern, text =>
    if p = '%' then text.tails.any fun rest => matchesPattern pattern rest
    else
      match text with
      | [] => false
      | c :: rest => (p = '_' || p = c) && matchesPattern pattern rest

variable {p c : Char} {pattern part text rest : List Char} {affix : Affix}

theorem matchesPattern_percent_iff :
    matchesPattern ('%' :: pattern) text = true ↔
    ∃ before rest, text = before ++ rest ∧ matchesPattern pattern rest = true := by
  simp only [matchesPattern, if_true, List.any_eq_true, List.mem_tails]
  constructor
  · rintro ⟨rest, ⟨before, rfl⟩, matched⟩
    exact ⟨before, rest, rfl, matched⟩
  · rintro ⟨before, rest, rfl, matched⟩
    exact ⟨rest, List.suffix_append before rest, matched⟩

/-! ## Characters that stand for others -/

/-- The signs that stand for other characters. -/
def IsWildcard (c : Char) : Prop := c = '%' ∨ c = '_'

instance (c : Char) : Decidable (IsWildcard c) := inferInstanceAs (Decidable (_ ∨ _))

/-- A text in which every character stands for itself only. -/
def IsLiteral (part : List Char) : Prop := ∀ c ∈ part, ¬IsWildcard c

instance (part : List Char) : Decidable (IsLiteral part) :=
  List.decidableBAll (fun c => ¬IsWildcard c) part

/-- A character of a pattern describes one of a text, if not only that one. -/
def Describes (p c : Char) : Prop := IsWildcard p ∨ p = c

theorem matchesPattern_cons (h : Describes p c) (matched : matchesPattern pattern rest = true) :
    matchesPattern (p :: pattern) (c :: rest) = true := by
  rcases h with (rfl | rfl) | rfl
  · exact matchesPattern_percent_iff.2 ⟨[c], rest, rfl, matched⟩
  · simp [matchesPattern, matched]
  · by_cases wild : p = '%'
    · subst wild
      exact matchesPattern_percent_iff.2 ⟨['%'], rest, rfl, matched⟩
    · simp [matchesPattern, wild, matched]

/-- Character by character, a pattern may describe another text as well as itself. -/
theorem matchesPattern_append (h : part.Forall₂ Describes text)
    (matched : matchesPattern pattern rest = true) :
    matchesPattern (part ++ pattern) (text ++ rest) = true := by
  induction h with
  | nil => exact matched
  | cons here _ ih => exact matchesPattern_cons here ih

theorem forall₂_describes_self (part : List Char) : part.Forall₂ Describes part :=
  List.forall₂_same.2 fun _ _ => .inr rfl

/-- A literal pattern describes itself only. -/
theorem eq_of_matchesPattern_append (literal : IsLiteral part)
    (matched : matchesPattern (part ++ pattern) text = true) :
    ∃ rest, text = part ++ rest ∧ matchesPattern pattern rest = true := by
  induction part generalizing text with
  | nil => exact ⟨text, rfl, matched⟩
  | cons p part ih =>
    obtain ⟨plain, later⟩ := List.forall_mem_cons.1 literal
    obtain ⟨percent, underscore⟩ := not_or.1 plain
    cases text with
    | nil => simp [matchesPattern, percent] at matched
    | cons c text =>
      simp only [List.cons_append, matchesPattern, percent, underscore, if_false, decide_false,
        Bool.false_or, Bool.and_eq_true, decide_eq_true_eq] at matched
      obtain ⟨rfl, behind⟩ := matched
      obtain ⟨rest, rfl, left⟩ := ih later behind
      exact ⟨rest, rfl, left⟩

/-- The text with letters in the place of its wildcards. -/
def withoutWildcards (part : List Char) : List Char :=
  part.map fun c => if IsWildcard c then 'x' else c

theorem forall₂_describes_withoutWildcards (part : List Char) :
    part.Forall₂ Describes (withoutWildcards part) := by
  rw [withoutWildcards, List.forall₂_map_right_iff, List.forall₂_same]
  intro c _
  by_cases wild : IsWildcard c
  · exact .inl wild
  · exact .inr (if_neg wild).symm

theorem isLiteral_withoutWildcards (part : List Char) : IsLiteral (withoutWildcards part) := by
  rw [IsLiteral, withoutWildcards, List.forall_mem_map]
  intro c _
  split
  · decide
  · assumption

/-! ## Searches -/

namespace Affix

/-- Whether anything may stand before the text that is looked for. -/
def opens : Affix → Bool
  | .exact | .atStart => false
  | .atEnd | .anywhere => true

/-- Whether anything may stand behind it. -/
def closes : Affix → Bool
  | .exact | .atEnd => false
  | .atStart | .anywhere => true

/-- The pattern of a search for a text. -/
def around (affix : Affix) (part : List Char) : List Char :=
  (if affix.opens then ['%'] else []) ++ (part ++ if affix.closes then ['%'] else [])

/-- The text stands where it is looked for. -/
def Finds (affix : Affix) (part text : List Char) : Prop :=
  ∃ before after, text = before ++ (part ++ after) ∧ (affix.opens = false → before = []) ∧
    (affix.closes = false → after = [])

theorem toList_apply (affix : Affix) (s : String) :
    affix.apply (.text s) = .text (String.ofList (affix.around s.toList)) := by
  have same : ∀ {a b : String}, a.toList = b.toList → Value.text a = .text b :=
    fun h => congrArg _ (String.toList_inj.1 h)
  cases affix <;> simp only [apply, around, opens, closes, Value.toText] <;> refine same ?_ <;> simp

theorem matchesPattern_opens_iff :
    matchesPattern ((if affix.opens then ['%'] else []) ++ pattern) text = true ↔
    ∃ before rest, text = before ++ rest ∧ (affix.opens = false → before = []) ∧
      matchesPattern pattern rest = true := by
  cases h : affix.opens with
  | true =>
    simp only [if_true, List.singleton_append, matchesPattern_percent_iff, Bool.true_eq_false,
      false_implies, true_and]
  | false =>
    simp only [Bool.false_eq_true, if_false, List.nil_append, forall_const]
    constructor
    · exact fun matched => ⟨[], text, rfl, rfl, matched⟩
    · rintro ⟨_, rest, rfl, rfl, matched⟩
      exact matched

theorem matchesPattern_closes_iff :
    matchesPattern (if affix.closes then ['%'] else []) text = true ↔
    (affix.closes = false → text = []) := by
  cases h : affix.closes with
  | true =>
    simp only [if_true, Bool.true_eq_false, false_implies, iff_true]
    exact matchesPattern_percent_iff.2 ⟨text, [], (List.append_nil text).symm, rfl⟩
  | false => simp [matchesPattern]

/-- What describes the part in the right place is described by the pattern of the search. -/
theorem matchesPattern_around {before seen after : List Char} (h : part.Forall₂ Describes seen)
    (opening : affix.opens = false → before = []) (closing : affix.closes = false → after = []) :
    matchesPattern (affix.around part) (before ++ (seen ++ after)) = true :=
  matchesPattern_opens_iff.2
    ⟨before, seen ++ after, rfl, opening,
      matchesPattern_append h (matchesPattern_closes_iff.2 closing)⟩

/-- A search finds the text wherever it stands. -/
theorem Finds.matchesPattern (h : affix.Finds part text) :
    matchesPattern (affix.around part) text = true := by
  obtain ⟨before, after, rfl, opening, closing⟩ := h
  exact matchesPattern_around (forall₂_describes_self part) opening closing

/-- A search for a literal text finds nothing else. -/
theorem finds_of_matchesPattern (literal : IsLiteral part)
    (matched : DocStore.matchesPattern (affix.around part) text = true) :
    affix.Finds part text := by
  obtain ⟨before, rest, rfl, opening, described⟩ := matchesPattern_opens_iff.1 matched
  obtain ⟨after, rfl, left⟩ := eq_of_matchesPattern_append literal described
  exact ⟨before, after, rfl, opening, matchesPattern_closes_iff.1 left⟩

/-- A text found in one as long as itself is that one. -/
theorem Finds.eq_of_length (h : affix.Finds part text) (same : text.length = part.length) :
    text = part := by
  obtain ⟨before, after, rfl, _, _⟩ := h
  simp only [List.length_append] at same
  obtain rfl : before = [] := List.length_eq_zero_iff.1 (by omega)
  obtain rfl : after = [] := List.length_eq_zero_iff.1 (by omega)
  simp

/-- A search for a text with wildcards finds also the text without them. -/
theorem exists_matchesPattern_of_not_isLiteral (affix : Affix) (wild : ¬IsLiteral part) :
    ∃ text, DocStore.matchesPattern (affix.around part) text = true ∧ ¬affix.Finds part text := by
  refine ⟨withoutWildcards part, ?_, fun found => ?_⟩
  · have alone : DocStore.matchesPattern (affix.around part) ([] ++ (withoutWildcards part ++ [])) =
        true :=
      matchesPattern_around (forall₂_describes_withoutWildcards part) (fun _ => rfl) (fun _ => rfl)
    rwa [List.nil_append, List.append_nil] at alone
  · have same := found.eq_of_length (List.length_map _)
    exact wild (same ▸ isLiteral_withoutWildcards part)

/-- A search finds just the places where the text stands, exactly if the text is literal. -/
theorem forall_matchesPattern_iff (affix : Affix) (part : List Char) :
    (∀ text, DocStore.matchesPattern (affix.around part) text = true ↔ affix.Finds part text) ↔
    IsLiteral part := by
  constructor
  · intro agree
    by_contra wild
    obtain ⟨text, matched, missing⟩ := exists_matchesPattern_of_not_isLiteral affix wild
    exact missing ((agree text).1 matched)
  · exact fun literal text => ⟨finds_of_matchesPattern literal, Finds.matchesPattern⟩

end Affix

end DocStore

import DocStore.Proofs.SqlMeaning

/-!
# Conditions joined by AND

The conditions of a `WHERE` clause stand one after another without parentheses.
Each of them reads as a phrase, in which no `AND` and no `OR` is left open, so the
whole reads as the conjunction of what they mean, and is true where all of them are.
-/

set_option autoImplicit false

namespace DocStore

namespace SqlTree

variable {α : Type}

/-- Conditions joined from left to right. -/
def conjunction : List (SqlTree α) → SqlTree α
  | [] => .truth true
  | e :: es => es.foldl (.binary .and) e

theorem slots_conjunction (e : SqlTree α) (es : List (SqlTree α)) :
    (conjunction (e :: es)).slots = slotsAll (e :: es) := by
  rw [conjunction, slotsAll]
  induction es generalizing e with
  | nil => simp [slotsAll]
  | cons x es ih => simp [ih, slots, slotsAll]

theorem named_conjunction (name : Nat → String) (n : Nat) (e : SqlTree α) (es : List (SqlTree α)) :
    (conjunction (e :: es)).named name n = conjunction (namedAll name n (e :: es)) := by
  rw [conjunction, namedAll, conjunction]
  induction es generalizing e with
  | nil => simp [namedAll]
  | cons x es ih => simp [ih, named, namedAll, slots, Nat.add_assoc]

theorem bothHold_eq_true_iff {p q : Option Bool} :
    bothHold p q = some true ↔ p = some true ∧ q = some true := by
  rcases p with _ | _ | _ <;> rcases q with _ | _ | _ <;> decide

theorem truth?_and_iff (b : Backend) {given : α → Value} {s : Scope} {l r : SqlTree α} :
    (SqlTree.binary .and l r).truth? b given s = some true ↔
    l.truth? b given s = some true ∧ r.truth? b given s = some true := by
  rw [truth?_logical b rfl, BinaryOp.kleene, if_neg (by decide), bothHold_eq_true_iff]

/-- A conjunction is true where every condition is. -/
theorem truth?_conjunction_iff (b : Backend) {given : α → Value} {s : Scope} (e : SqlTree α)
    (es : List (SqlTree α)) :
    (conjunction (e :: es)).truth? b given s = some true ↔
    ∀ x ∈ e :: es, x.truth? b given s = some true := by
  rw [conjunction, List.forall_mem_cons]
  induction es generalizing e with
  | nil => simp
  | cons x es ih => rw [List.foldl_cons, ih, truth?_and_iff, List.forall_mem_cons, and_assoc]

end SqlTree

namespace SqlReader

variable {fuel : Nat} {e : SqlTree String} {rest : List Token} {tss : List (List Token)}
  {es : List (SqlTree String)}

/-- Before the next condition, and before what ends the last one, a condition is over. -/
theorem stops_conditions (stops : Stops notLevel rest) (tss : List (List Token)) :
    Stops notLevel (tss.flatMap (.op .and :: ·) ++ rest) := by
  cases tss with
  | nil => exact stops
  | cons _ _ => exact stops_op .and _

/-- The conditions after one. -/
theorem continuation_conditions (stops : Stops 0 rest) (h : List.Forall₂ ReadsPhrase tss es)
    (enough : 3 * (tss.flatMap (.op .and :: ·)).length + 1 ≤ fuel) :
    continuation fuel 0 e (tss.flatMap (.op .and :: ·) ++ rest) =
    some (es.foldl (.binary .and) e, rest) := by
  induction h generalizing fuel e with
  | nil =>
    obtain ⟨fuel, rfl⟩ : ∃ n, fuel = n + 1 := ⟨fuel - 1, by omega⟩
    exact stops fuel 0 e (Nat.le_refl 0)
  | @cons ts next tss es here later ih =>
    simp only [List.flatMap_cons, List.cons_append, List.length_cons, List.length_append] at enough
    obtain ⟨fuel, rfl⟩ : ∃ n, fuel = n + 1 := ⟨fuel - 1, by omega⟩
    have right :
        expression fuel (BinaryOp.and.level + 1) (ts ++ (tss.flatMap (.op .and :: ·) ++ rest)) =
        some (next, tss.flatMap (.op .and :: ·) ++ rest) :=
      here.all (Nat.le_refl _) (stops_conditions (stops.mono (Nat.zero_le _)) tss) (by omega)
    simp only [List.flatMap_cons, List.cons_append, List.append_assoc, continuation]
    rw [if_pos (Nat.zero_le _), right]
    exact ih (by omega)

/-- Conditions with `AND` between them read as their conjunction, up to what ends the last one. -/
theorem expression_conditions (stops : Stops 0 rest) (h : List.Forall₂ ReadsPhrase tss es)
    (nonempty : tss ≠ []) (enough : 3 * (Lexer.separated (.op .and) tss).length + 3 ≤ fuel) :
    expression fuel 0 (Lexer.separated (.op .and) tss ++ rest) =
    some (SqlTree.conjunction es, rest) := by
  cases h with
  | nil => exact absurd rfl nonempty
  | @cons ts e tss es here later =>
    rw [Lexer.separated_cons] at enough ⊢
    rw [List.length_append] at enough
    obtain ⟨left, spent, eq⟩ := here fuel 0 (tss.flatMap (.op .and :: ·) ++ rest) (Nat.zero_le _)
      (stops_conditions (stops.mono (Nat.zero_le _)) tss) (by omega)
    rw [List.append_assoc, eq, continuation_conditions stops later (by omega)]
    rfl

end SqlReader

end DocStore

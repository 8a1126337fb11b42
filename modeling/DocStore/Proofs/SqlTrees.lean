import DocStore.Proofs.SqlTokens
import Mathlib.Data.List.Forall2

/-!
# SQL text as trees

`SqlTree` is what a condition or a value means to a reader who knows how tightly
each operator binds: the tree has no parentheses. `SqlReader` is such a reader.
It reads an operand and then the operators after it, as long as they bind at
least as tightly as the place asks for; `OR` binds least, then `AND`, `NOT`,
the comparisons with `IS`, `LIKE` and `IN`, then `+`, `-` and `||`, then `*` and
`/`, and a minus before an operand most. Fuel bounds the nesting: three for every
token are enough.
-/

set_option autoImplicit false

namespace DocStore

/-- Conditions and values without parentheses. -/
inductive SqlTree (α : Type) where
  | placeholder (a : α)
  | column (table name : String)
  | number (digits : String)
  | text (s : String)
  | binary (op : BinaryOp) (l r : SqlTree α)
  | concat (l r : SqlTree α)
  | not (e : SqlTree α)
  | negate (e : SqlTree α)
  | isNull (e : SqlTree α) (negated : Bool)
  | like (e pattern : SqlTree α)
  | inList (e : SqlTree α) (items : List (SqlTree α)) (negated : Bool)
  /-- Membership in the values of `selector` in the rows of a table, under an alias,
  that meet a condition. -/
  | inSelect (e selector : SqlTree α) (table tableAlias : String) (condition : SqlTree α)
      (negated : Bool)
  | apply (f : String) (args : List (SqlTree α))

/-- How tightly an operator binds its operands. -/
def BinaryOp.level : BinaryOp → Nat
  | .or => 0
  | .and => 1
  | .eq | .ne | .lt | .le | .gt | .ge => 3
  | .add | .sub => 4
  | .mul | .div => 5

namespace SqlReader

def notLevel : Nat := 2

/-- The level of `IS`, `LIKE` and `IN`. -/
def testLevel : Nat := 3

def concatLevel : Nat := 4

def negateLevel : Nat := 6

/-- What was read, and the tokens after the parenthesis that closes it. -/
def close {α : Type} (a : α) : List Token → Option (α × List Token)
  | .closing :: ts => some (a, ts)
  | _ => none

mutual

/-- An operand, and the operators after it that bind at least as tightly as `level`. -/
def expression (fuel level : Nat) (ts : List Token) : Option (SqlTree String × List Token) :=
  match fuel with
  | 0 => none
  | fuel + 1 => do
    let (e, ts) ← operand fuel ts
    continuation fuel level e ts

def operand (fuel : Nat) (ts : List Token) : Option (SqlTree String × List Token) :=
  match fuel with
  | 0 => none
  | fuel + 1 =>
    match ts with
    | .placeholder name :: ts => some (.placeholder name, ts)
    | .number digits :: ts => some (.number digits, ts)
    | .text s :: ts => some (.text s, ts)
    | .identifier table :: .dot :: .identifier name :: ts => some (.column table name, ts)
    | .name f :: .opening :: ts => do
      let (args, ts) ← items fuel ts
      some (.apply f args, ts)
    | .opening :: ts => do
      let (e, ts) ← expression fuel 0 ts
      close e ts
    | .word .NOT :: ts => do
      let (e, ts) ← expression fuel notLevel ts
      some (.not e, ts)
    | .op .sub :: ts => do
      let (e, ts) ← expression fuel negateLevel ts
      some (.negate e, ts)
    | _ => none

/-- Expressions between commas, and the parenthesis that closes them. -/
def items (fuel : Nat) (ts : List Token) : Option (List (SqlTree String) × List Token) :=
  match fuel with
  | 0 => none
  | fuel + 1 => do
    let (e, ts) ← expression fuel 0 ts
    match ts with
    | .comma :: ts => do
      let (es, ts) ← items fuel ts
      some (e :: es, ts)
    | ts => close [e] ts

/-- What `e` is to be a member of: the rows of a subquery, or a list. -/
def membership (fuel : Nat) (e : SqlTree String) (negated : Bool) (ts : List Token) :
    Option (SqlTree String × List Token) :=
  match fuel with
  | 0 => none
  | fuel + 1 =>
    match ts with
    | .word .SELECT :: ts => do
      let (selector, ts) ← expression fuel 0 ts
      match ts with
      | .word .FROM :: .identifier table :: .word .AS :: .identifier tableAlias ::
          .word .WHERE :: ts => do
        let (condition, ts) ← expression fuel 0 ts
        close (.inSelect e selector table tableAlias condition negated) ts
      | _ => none
    | ts => do
      let (es, ts) ← items fuel ts
      some (.inList e es negated, ts)

/-- The operators after an operand. -/
def continuation (fuel level : Nat) (e : SqlTree String) (ts : List Token) :
    Option (SqlTree String × List Token) :=
  match fuel with
  | 0 => none
  | fuel + 1 =>
    match ts with
    | .op op :: rest =>
      if level ≤ op.level then do
        let (r, rest) ← expression fuel (op.level + 1) rest
        continuation fuel level (.binary op e r) rest
      else some (e, ts)
    | .concat :: rest =>
      if level ≤ concatLevel then do
        let (r, rest) ← expression fuel (concatLevel + 1) rest
        continuation fuel level (.concat e r) rest
      else some (e, ts)
    | .word .IS :: .word .NULL :: rest =>
      if level ≤ testLevel then continuation fuel level (.isNull e false) rest else some (e, ts)
    | .word .IS :: .word .NOT :: .word .NULL :: rest =>
      if level ≤ testLevel then continuation fuel level (.isNull e true) rest else some (e, ts)
    | .word .LIKE :: rest =>
      if level ≤ testLevel then do
        let (r, rest) ← expression fuel (testLevel + 1) rest
        continuation fuel level (.like e r) rest
      else some (e, ts)
    | .word .IN :: .opening :: rest =>
      if level ≤ testLevel then do
        let (m, rest) ← membership fuel e false rest
        continuation fuel level m rest
      else some (e, ts)
    | .word .NOT :: .word .IN :: .opening :: rest =>
      if level ≤ testLevel then do
        let (m, rest) ← membership fuel e true rest
        continuation fuel level m rest
      else some (e, ts)
    | _ => some (e, ts)

end

/-- The tree of a text that is one expression. -/
def read (s : String) : Option (SqlTree String) :=
  match expression (3 * (Lexer.tokens s).length + 3) 0 (Lexer.tokens s) with
  | some (e, []) => some e
  | _ => none

/-! ## Where an operand ends -/

variable {fuel level : Nat} {e l r : SqlTree String} {ts ls rs rest : List Token}

/-- Tokens before which an operand ends, in places that ask for `level` or more. -/
def Stops (level : Nat) (rest : List Token) : Prop :=
  ∀ fuel asked e, level ≤ asked → continuation (fuel + 1) asked e rest = some (e, rest)

theorem Stops.mono {level' : Nat} (h : Stops level rest) (le : level ≤ level') :
    Stops level' rest :=
  fun fuel asked e asks => h fuel asked e (Nat.le_trans le asks)

theorem stops_nil : Stops 0 [] := fun _ _ _ _ => rfl

theorem stops_closing (rest : List Token) : Stops 0 (.closing :: rest) := fun _ _ _ _ => rfl

theorem stops_comma (rest : List Token) : Stops 0 (.comma :: rest) := fun _ _ _ _ => rfl

theorem stops_from (rest : List Token) : Stops 0 (.word .FROM :: rest) := fun _ _ _ _ => rfl

theorem stops_op (op : BinaryOp) (rest : List Token) : Stops (op.level + 1) (.op op :: rest) :=
  fun _ _ _ asks => if_neg (by omega)

theorem stops_concat (rest : List Token) : Stops (concatLevel + 1) (.concat :: rest) :=
  fun _ _ _ asks => if_neg (by omega)

/-! ## Tokens that read as a tree -/

/-- Tokens that read as an operand, whatever follows. -/
def ReadsOperand (ts : List Token) (e : SqlTree String) : Prop :=
  ∀ fuel rest, 3 * ts.length ≤ fuel → operand fuel (ts ++ rest) = some (e, rest)

/-- Tokens that read as a condition, or in parentheses as a value: before
tokens that end a condition, what follows goes on after the whole of it. -/
def ReadsPhrase (ts : List Token) (e : SqlTree String) : Prop :=
  ∀ fuel level rest, level ≤ notLevel → Stops notLevel rest → 3 * ts.length + 2 ≤ fuel →
    ∃ left, fuel ≤ left + 2 ∧ expression fuel level (ts ++ rest) = continuation left level e rest

theorem ReadsOperand.expression (h : ReadsOperand ts e) (enough : 3 * ts.length ≤ fuel) :
    expression (fuel + 1) level (ts ++ rest) = continuation fuel level e rest := by
  rw [SqlReader.expression, h fuel rest enough]
  rfl

theorem ReadsOperand.phrase (h : ReadsOperand ts e) : ReadsPhrase ts e := by
  intro fuel level rest _ _ enough
  obtain ⟨fuel, rfl⟩ : ∃ n, fuel = n + 1 := ⟨fuel - 1, by omega⟩
  exact ⟨fuel, by omega, h.expression (by omega)⟩

/-- An operand before tokens that end it. -/
theorem ReadsOperand.all (h : ReadsOperand ts e) (stops : Stops level rest)
    (enough : 3 * ts.length + 2 ≤ fuel) :
    SqlReader.expression fuel level (ts ++ rest) = some (e, rest) := by
  obtain ⟨fuel, rfl⟩ : ∃ n, fuel = n + 1 + 1 := ⟨fuel - 2, by omega⟩
  rw [h.expression (by omega)]
  exact stops fuel level e (Nat.le_refl level)

/-- A condition before tokens that end it. -/
theorem ReadsPhrase.all (h : ReadsPhrase ts e) (low : level ≤ notLevel) (stops : Stops level rest)
    (enough : 3 * ts.length + 3 ≤ fuel) :
    SqlReader.expression fuel level (ts ++ rest) = some (e, rest) := by
  obtain ⟨left, spent, eq⟩ := h fuel level rest low (stops.mono low) (by omega)
  obtain ⟨left, rfl⟩ : ∃ n, left = n + 1 := ⟨left - 1, by omega⟩
  rw [eq]
  exact stops left level e (Nat.le_refl level)

theorem ReadsPhrase.read {s : String} (h : ReadsPhrase ts e) (lexes : Lexer.Lexes s ts) :
    read s = some e := by
  have whole := h.all (Nat.zero_le _) stops_nil (Nat.le_refl _)
  rw [List.append_nil] at whole
  rw [SqlReader.read, Lexer.tokens_eq lexes, whole]

example : expression 20 0 [.placeholder "@p0", .op .or, .word .NOT, .number "1", .op .eq, .op .sub,
    .placeholder "@p1", .op .mul, .number "0"] =
    some (.binary .or (.placeholder "@p0")
      (.not (.binary .eq (.number "1")
        (.binary .mul (.negate (.placeholder "@p1")) (.number "0")))), []) := by
  rfl

/-! ### Operands -/

theorem ReadsOperand.of_succ (nonempty : ts ≠ [])
    (h : ∀ fuel rest, operand (fuel + 1) (ts ++ rest) = some (e, rest)) : ReadsOperand ts e := by
  intro fuel rest enough
  have length := List.length_pos_iff.2 nonempty
  obtain ⟨fuel, rfl⟩ : ∃ n, fuel = n + 1 := ⟨fuel - 1, by omega⟩
  exact h fuel rest

theorem readsOperand_placeholder (name : String) :
    ReadsOperand [.placeholder name] (.placeholder name) :=
  .of_succ (by simp) fun _ _ => rfl

theorem readsOperand_number (digits : String) : ReadsOperand [.number digits] (.number digits) :=
  .of_succ (by simp) fun _ _ => rfl

theorem readsOperand_text (s : String) : ReadsOperand [.text s] (.text s) :=
  .of_succ (by simp) fun _ _ => rfl

theorem readsOperand_column (table name : String) :
    ReadsOperand [.identifier table, .dot, .identifier name] (.column table name) :=
  .of_succ (by simp) fun _ _ => rfl

/-- Parentheses around a condition make an operand of it. -/
theorem ReadsPhrase.enclosed (h : ReadsPhrase ts e) :
    ReadsOperand (.opening :: (ts ++ [.closing])) e := by
  intro fuel rest enough
  simp only [List.length_cons, List.length_append, List.length_nil] at enough
  obtain ⟨fuel, rfl⟩ : ∃ n, fuel = n + 1 := ⟨fuel - 1, by omega⟩
  have inside : expression fuel 0 (ts ++ .closing :: rest) = some (e, .closing :: rest) :=
    h.all (Nat.zero_le _) (stops_closing rest) (by omega)
  simp only [List.cons_append, List.append_assoc, List.nil_append, operand]
  rw [inside]
  rfl

/-- Two conditions under `AND` or `OR`, in parentheses. -/
theorem readsOperand_logical {op : BinaryOp} (logical : op.isLogical = true) (hl : ReadsPhrase ls l)
    (hr : ReadsPhrase rs r) :
    ReadsOperand (.opening :: (ls ++ .op op :: (rs ++ [.closing]))) (.binary op l r) := by
  intro fuel rest enough
  have low : op.level + 1 ≤ notLevel := by
    cases op with
    | and | or => decide
    | _ => cases logical
  simp only [List.length_cons, List.length_append, List.length_nil] at enough
  obtain ⟨fuel, rfl⟩ : ∃ n, fuel = n + 1 := ⟨fuel - 1, by omega⟩
  -- The left side stops before the operator, which then asks for a right side one level up,
  -- so that it ends at the parenthesis.
  obtain ⟨left, spent, eq⟩ := hl fuel 0 (.op op :: (rs ++ .closing :: rest)) (Nat.zero_le _)
    ((stops_op op _).mono low) (by omega)
  obtain ⟨left, rfl⟩ : ∃ n, left = n + 1 + 1 := ⟨left - 2, by omega⟩
  have right : expression (left + 1) (op.level + 1) (rs ++ .closing :: rest) =
      some (r, .closing :: rest) :=
    hr.all low ((stops_closing rest).mono (Nat.zero_le _)) (by omega)
  simp only [List.cons_append, List.append_assoc, List.nil_append, operand]
  rw [eq, continuation, if_pos (Nat.zero_le _), right]
  rfl

/-! ### Conditions, and values that need parentheses -/

/-- An operator between two operands that binds tighter than `NOT`. -/
theorem readsPhrase_between {operator : Token} {tight : Nat}
    {f : SqlTree String → SqlTree String → SqlTree String} (above : notLevel ≤ tight)
    (goes : ∀ fuel level rest, level ≤ notLevel →
      continuation (fuel + 1) level l (operator :: rest) =
      (expression fuel tight rest).bind fun p => continuation fuel level (f l p.1) p.2)
    (hl : ReadsOperand ls l) (hr : ReadsOperand rs r) :
    ReadsPhrase (ls ++ operator :: rs) (f l r) := by
  intro fuel level rest low stops enough
  simp only [List.length_cons, List.length_append] at enough
  obtain ⟨fuel, rfl⟩ : ∃ n, fuel = n + 1 + 1 := ⟨fuel - 2, by omega⟩
  -- `tight` is above what the operator is read at, so what ends the whole ends the right operand.
  refine ⟨fuel, Nat.le_refl _, ?_⟩
  rw [List.append_assoc, hl.expression (by omega), List.cons_append, goes _ _ _ low,
    hr.all (stops.mono above) (by omega)]
  rfl

/-- A comparison, or arithmetic. -/
theorem readsPhrase_binary {op : BinaryOp} (tight : notLevel ≤ op.level) (hl : ReadsOperand ls l)
    (hr : ReadsOperand rs r) : ReadsPhrase (ls ++ .op op :: rs) (.binary op l r) :=
  readsPhrase_between (Nat.le_succ_of_le tight) (fun _ _ _ low => if_pos (Nat.le_trans low tight))
    hl hr

theorem readsPhrase_like (hl : ReadsOperand ls l) (hr : ReadsOperand rs r) :
    ReadsPhrase (ls ++ .word .LIKE :: rs) (.like l r) :=
  readsPhrase_between (show notLevel ≤ testLevel + 1 by decide)
    (fun _ _ _ low => if_pos (Nat.le_trans low (by decide))) hl hr

theorem readsPhrase_isNull (hl : ReadsOperand ls l) (negated : Bool) :
    ReadsPhrase (ls ++ .word .IS :: ((if negated then [.word .NOT] else []) ++ [.word .NULL]))
      (.isNull l negated) := by
  intro fuel level rest low stops enough
  simp only [List.length_cons, List.length_append] at enough
  obtain ⟨fuel, rfl⟩ : ∃ n, fuel = n + 1 + 1 := ⟨fuel - 2, by omega⟩
  refine ⟨fuel, Nat.le_refl _, ?_⟩
  rw [List.append_assoc, hl.expression (by omega)]
  cases negated <;> exact if_pos (Nat.le_trans low (by decide))

/-- An operator before an operand. -/
theorem readsPhrase_before {operator : Token} {tight : Nat} {f : SqlTree String → SqlTree String}
    (above : notLevel ≤ tight)
    (goes : ∀ fuel rest, operand (fuel + 1) (operator :: rest) =
      (expression fuel tight rest).bind fun p => some (f p.1, p.2))
    (h : ReadsOperand ts e) : ReadsPhrase (operator :: ts) (f e) := by
  intro fuel level rest low stops enough
  simp only [List.length_cons] at enough
  obtain ⟨fuel, rfl⟩ : ∃ n, fuel = n + 1 + 1 := ⟨fuel - 2, by omega⟩
  refine ⟨fuel + 1, by omega, ?_⟩
  rw [List.cons_append, SqlReader.expression, goes, h.all (stops.mono above) (by omega)]
  rfl

theorem readsPhrase_not (h : ReadsOperand ts e) : ReadsPhrase (.word .NOT :: ts) (.not e) :=
  readsPhrase_before (Nat.le_refl notLevel) (fun _ _ => rfl) h

theorem readsPhrase_negate (h : ReadsOperand ts e) : ReadsPhrase (.op .sub :: ts) (.negate e) :=
  readsPhrase_before (show notLevel ≤ negateLevel by decide) (fun _ _ => rfl) h

/-! ### Lists -/

variable {tss : List (List Token)} {es : List (SqlTree String)}

/-- The expressions of a list, up to the parenthesis that closes it. -/
theorem items_all (h : List.Forall₂ ReadsOperand tss es) (nonempty : tss ≠ [])
    (enough : 3 * (Lexer.separated .comma tss).length + 3 ≤ fuel) :
    items fuel (Lexer.separated .comma tss ++ .closing :: rest) = some (es, rest) := by
  induction h generalizing fuel with
  | nil => exact absurd rfl nonempty
  | @cons ts e tss es here later ih =>
    obtain ⟨fuel, rfl⟩ : ∃ n, fuel = n + 1 := ⟨fuel - 1, by omega⟩
    cases later with
    | nil =>
      simp only [Lexer.separated] at enough ⊢
      rw [items, here.all (stops_closing rest) (by omega)]
      rfl
    | cons _ _ =>
      simp only [Lexer.separated, List.length_append, List.length_cons] at enough ih ⊢
      rw [items, List.append_assoc, List.cons_append, here.all (stops_comma _) (by omega)]
      simp only [Option.bind_eq_bind, Option.bind_some]
      rw [ih (by simp) (by omega)]
      rfl

/-- A function applied to one condition or value. -/
theorem readsOperand_apply (f : String) (h : ReadsPhrase ts e) :
    ReadsOperand (.name f :: .opening :: (ts ++ [.closing])) (.apply f [e]) := by
  intro fuel rest enough
  simp only [List.length_cons, List.length_append, List.length_nil] at enough
  obtain ⟨fuel, rfl⟩ : ∃ n, fuel = n + 1 + 1 := ⟨fuel - 2, by omega⟩
  have inside : expression fuel 0 (ts ++ .closing :: rest) = some (e, .closing :: rest) :=
    h.all (Nat.zero_le _) (stops_closing rest) (by omega)
  simp only [List.cons_append, List.append_assoc, List.nil_append, operand, items]
  rw [inside]
  rfl

/-- Operands joined by `||` after one. -/
theorem continuation_concat (h : List.Forall₂ ReadsOperand tss es)
    (enough : 3 * (tss.flatMap (.concat :: ·)).length + 1 ≤ fuel) :
    continuation fuel 0 e (tss.flatMap (.concat :: ·) ++ .closing :: rest) =
      some (es.foldl .concat e, .closing :: rest) := by
  induction h generalizing fuel e with
  | nil =>
    obtain ⟨fuel, rfl⟩ : ∃ n, fuel = n + 1 := ⟨fuel - 1, by omega⟩
    rfl
  | @cons ts next tss es here later ih =>
    simp only [List.flatMap_cons, List.cons_append, List.length_cons, List.length_append] at enough
    obtain ⟨fuel, rfl⟩ : ∃ n, fuel = n + 1 := ⟨fuel - 1, by omega⟩
    have stops : Stops (concatLevel + 1) (tss.flatMap (.concat :: ·) ++ .closing :: rest) := by
      cases tss with
      | nil => exact (stops_closing rest).mono (Nat.zero_le _)
      | cons _ _ => exact stops_concat _
    simp only [List.flatMap_cons, List.cons_append, List.append_assoc, continuation]
    rw [if_pos (Nat.zero_le _), here.all stops (by omega)]
    exact ih (by omega)

/-- Operands joined by `||`, in parentheses. -/
theorem readsOperand_concat (h : ReadsOperand ts e) (more : List.Forall₂ ReadsOperand tss es) :
    ReadsOperand (.opening :: (Lexer.separated .concat (ts :: tss) ++ [.closing]))
      (es.foldl .concat e) := by
  intro fuel rest enough
  rw [Lexer.separated_cons] at enough ⊢
  simp only [List.length_cons, List.length_append, List.length_nil] at enough
  obtain ⟨fuel, rfl⟩ : ∃ n, fuel = n + 1 + 1 := ⟨fuel - 2, by omega⟩
  simp only [List.cons_append, List.append_assoc, List.nil_append, operand]
  rw [h.expression (by omega), continuation_concat more (by omega)]
  rfl

/-! ### Membership -/

/-- A list does not begin as a subquery does. -/
theorem items_select (fuel : Nat) (ts : List Token) : items fuel (.word .SELECT :: ts) = none := by
  rcases fuel with _ | _ | _ | fuel <;> rfl

theorem membership_of_items {negated : Bool} (h : items fuel ts = some (es, rest)) :
    membership (fuel + 1) e negated ts = some (.inList e es negated, rest) := by
  unfold membership
  split
  · rw [items_select] at h
    cases h
  · rw [h]
    rfl

/-- The tokens between an operand and what it is to be a member of. -/
def membershipTokens (negated : Bool) : List Token :=
  (if negated then [.word .NOT] else []) ++ [.word .IN, .opening]

theorem continuation_membership (negated : Bool) (low : level ≤ testLevel) {m : SqlTree String}
    (h : membership fuel e negated ts = some (m, rest)) :
    continuation (fuel + 1) level e (membershipTokens negated ++ ts) =
    continuation fuel level m rest := by
  cases negated
  all_goals
    simp only [membershipTokens, if_true, if_false, Bool.false_eq_true, List.nil_append,
      List.cons_append, continuation]
    rw [if_pos low, h]
    rfl

theorem readsPhrase_inList (hl : ReadsOperand ls l) (h : List.Forall₂ ReadsOperand tss es)
    (nonempty : tss ≠ []) (negated : Bool) :
    ReadsPhrase (ls ++ (membershipTokens negated ++ (Lexer.separated .comma tss ++ [.closing])))
      (.inList l es negated) := by
  intro fuel level rest low stops enough
  have marks : 2 ≤ (membershipTokens negated).length := by cases negated <;> decide
  simp only [List.length_append, List.length_cons, List.length_nil] at enough
  obtain ⟨fuel, rfl⟩ : ∃ n, fuel = n + 1 + 1 + 1 := ⟨fuel - 3, by omega⟩
  have list : items fuel (Lexer.separated .comma tss ++ .closing :: rest) = some (es, rest) :=
    items_all h nonempty (by omega)
  refine ⟨fuel + 1, by omega, ?_⟩
  simp only [List.append_assoc, List.cons_append, List.nil_append]
  rw [hl.expression (by omega), continuation_membership negated (Nat.le_trans low (by decide))
    (membership_of_items list)]

theorem readsPhrase_inSelect {selector : SqlTree String} {ss : List Token} (hl : ReadsOperand ls l)
    (hs : ReadsOperand ss selector) (table tableAlias : String) (h : ReadsPhrase ts e)
    (negated : Bool) : ReadsPhrase
      (ls ++ (membershipTokens negated ++
        (.word .SELECT :: (ss ++ (.word .FROM :: .identifier table :: .word .AS ::
        .identifier tableAlias :: .word .WHERE :: (ts ++ [.closing]))))))
      (.inSelect l selector table tableAlias e negated) := by
  intro fuel level rest low stops enough
  have marks : 2 ≤ (membershipTokens negated).length := by cases negated <;> decide
  simp only [List.length_append, List.length_cons, List.length_nil] at enough
  obtain ⟨fuel, rfl⟩ : ∃ n, fuel = n + 1 + 1 + 1 := ⟨fuel - 3, by omega⟩
  have rows :
      membership (fuel + 1) l negated (.word .SELECT :: (ss ++ (.word .FROM :: .identifier table ::
      .word .AS :: .identifier tableAlias :: .word .WHERE :: (ts ++ .closing :: rest)))) =
      some (.inSelect l selector table tableAlias e negated, rest) := by
    unfold membership
    simp only
    rw [hs.all (stops_from _) (by omega)]
    simp only [Option.bind_eq_bind, Option.bind_some]
    rw [h.all (Nat.zero_le _) (stops_closing rest) (by omega)]
    rfl
  refine ⟨fuel + 1, by omega, ?_⟩
  simp only [List.append_assoc, List.cons_append, List.nil_append]
  rw [hl.expression (by omega), continuation_membership negated (Nat.le_trans low (by decide)) rows]

end SqlReader

end DocStore

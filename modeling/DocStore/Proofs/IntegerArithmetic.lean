import DocStore.Proofs.Running
import Mathlib.Algebra.Ring.Int.Defs

/-!
# Exact integer arithmetic

Over the integers, an expression of constants, captures, negation and the four
operators has one value, or none where something is divided by zero
(`Expr.Denotes`). The evaluator works on 64-bit words instead. It comes to that
value as long as a word holds the value of every part of the expression, and
otherwise names an operation whose result no word holds: it never wraps around.
-/

set_option autoImplicit false

namespace DocStore

/-- A 64-bit word holds the number. -/
def InWord (i : Int) : Prop := -2 ^ 63 ≤ i ∧ i ≤ 2 ^ 63 - 1

theorem inWord_toInt (n : Int64) : InWord n.toInt := by
  have below := n.toInt_lt
  constructor
  · exact n.le_toInt
  · omega

theorem toInt_of_int64OfInt? {i : Int} {n : Int64} (h : int64OfInt? i = some n) : n.toInt = i := by
  unfold int64OfInt? at h
  split at h
  · next within =>
    rw [Int64.toInt_minValue, Int64.toInt_maxValue] at within
    obtain rfl := Option.some.inj h
    apply Int64.toInt_ofInt_of_le
    · exact within.1
    · omega
  · cases h

theorem not_inWord_of_int64OfInt? {i : Int} (h : int64OfInt? i = none) : ¬InWord i := by
  intro within
  unfold InWord at within
  rw [int64OfInt?, Int64.toInt_minValue, Int64.toInt_maxValue, if_pos within] at h
  cases h

/-- Only the least number has no negative. -/
theorem toInt_neg_of_inWord {n : Int64} (h : InWord (-n.toInt)) : (-n).toInt = -n.toInt := by
  rw [Int64.toInt_neg]
  obtain ⟨low, high⟩ := h
  apply Int.bmod_eq_of_le
  · omega
  · omega

theorem Value.integerResult?_div (x y : Int) :
    integerResult? .div x y = if y = 0 then none else some (x.tdiv y) := rfl

namespace Expr

/-! ## The integers that expressions stand for -/

/-- The operators that take two integers to one. -/
def arithmetic : List BinaryOp := [.add, .sub, .mul, .div]

variable {args : Option Arguments} {e l r : Expr} {op : BinaryOp} {i j : Int} {a b : Int64}

/-- The exact value of an expression over the integers, where a quotient is
truncated toward zero. -/
inductive Denotes (args : Option Arguments) : Expr → Int → Prop where
  | const (n : Int64) : Denotes args (.const (.int n)) n.toInt
  | capture {c : Capture} {n : Int64} (read : c.value args = .ok (.int n)) :
      Denotes args (.capture c) n.toInt
  | negate {e : Expr} {i : Int} (operand : Denotes args e i) : Denotes args (.unary .negate e) (-i)
  | add {l r : Expr} {i j : Int} (left : Denotes args l i) (right : Denotes args r j) :
      Denotes args (.binary .add l r) (i + j)
  | sub {l r : Expr} {i j : Int} (left : Denotes args l i) (right : Denotes args r j) :
      Denotes args (.binary .sub l r) (i - j)
  | mul {l r : Expr} {i j : Int} (left : Denotes args l i) (right : Denotes args r j) :
      Denotes args (.binary .mul l r) (i * j)
  | div {l r : Expr} {i j : Int} (left : Denotes args l i) (right : Denotes args r j)
      (nonzero : j ≠ 0) : Denotes args (.binary .div l r) (i.tdiv j)

/-- An expression of integer constants, captures that read integers, and operators. What is negated
is not the least word. -/
inductive IsArithmetic (args : Option Arguments) : Expr → Prop where
  | const (n : Int64) : IsArithmetic args (.const (.int n))
  | capture {c : Capture} {n : Int64} (read : c.value args = .ok (.int n)) :
      IsArithmetic args (.capture c)
  | negate {e : Expr} (operand : IsArithmetic args e) (other : ¬Denotes args e (-2 ^ 63)) :
      IsArithmetic args (.unary .negate e)
  | binary {op : BinaryOp} {l r : Expr} (known : op ∈ arithmetic) (left : IsArithmetic args l)
      (right : IsArithmetic args r) : IsArithmetic args (.binary op l r)

/-- The exact value of an operator is what its exact operation makes of the exact
values of the operands. -/
theorem denotes_binary_iff (known : op ∈ arithmetic) : Denotes args (.binary op l r) i ↔
    ∃ x y, Denotes args l x ∧ Denotes args r y ∧ Value.integerResult? op x y = some i := by
  constructor
  · intro h
    cases h with
    | add left right | sub left right | mul left right => exact ⟨_, _, left, right, rfl⟩
    | div left right nonzero => exact ⟨_, _, left, right, if_neg nonzero⟩
  · rintro ⟨x, y, left, right, result⟩
    simp only [arithmetic, List.mem_cons, List.not_mem_nil, or_false] at known
    rcases known with rfl | rfl | rfl | rfl
    · obtain rfl := Option.some.inj result
      exact .add left right
    · obtain rfl := Option.some.inj result
      exact .sub left right
    · obtain rfl := Option.some.inj result
      exact .mul left right
    · rw [Value.integerResult?_div] at result
      split at result
      · cases result
      · next nonzero =>
        obtain rfl := Option.some.inj result
        exact .div left right nonzero

/-- There is but one exact value. -/
theorem Denotes.unique (h : Denotes args e i) (h' : Denotes args e j) : i = j := by
  induction h generalizing j with
  | const n => cases h' with | const => rfl
  | capture read =>
    cases h' with
    | capture read' =>
      rw [read] at read'
      cases read'
      rfl
  | negate _ ih => cases h' with | negate operand => rw [ih operand]
  | add _ _ ihl ihr => cases h' with | add left right => rw [ihl left, ihr right]
  | sub _ _ ihl ihr => cases h' with | sub left right => rw [ihl left, ihr right]
  | mul _ _ ihl ihr => cases h' with | mul left right => rw [ihl left, ihr right]
  | div _ _ _ ihl ihr => cases h' with | div left right => rw [ihl left, ihr right]

/-! ## What stays in a word -/

mutual

/-- An expression and all that it is made of. -/
def subterms (e : Expr) : List Expr :=
  e :: match e with
    | .const _ | .capture _ | .member _ => []
    | .unary _ e | .convert e _ => subterms e
    | .binary _ l r => subterms l ++ subterms r
    | .call _ args => subtermsOf args
    | .inQuery _ _ _ condition args => subterms condition ++ subtermsOf args

def subtermsOf : List Expr → List Expr
  | [] => []
  | e :: es => subterms e ++ subtermsOf es

end

theorem mem_subterms_self (e : Expr) : e ∈ e.subterms := by
  unfold subterms
  exact List.mem_cons_self

theorem subterms_unary (op : UnaryOp) (e : Expr) :
    (Expr.unary op e).subterms = .unary op e :: e.subterms := by
  rw [subterms]

theorem subterms_binary (op : BinaryOp) (l r : Expr) :
    (Expr.binary op l r).subterms = .binary op l r :: (l.subterms ++ r.subterms) := by
  rw [subterms]

theorem subterms_subset_unary (op : UnaryOp) (e : Expr) :
    e.subterms ⊆ (Expr.unary op e).subterms := by
  rw [subterms_unary]
  exact List.subset_cons_self _ _

theorem subterms_subset_left (op : BinaryOp) (l r : Expr) :
    l.subterms ⊆ (Expr.binary op l r).subterms := by
  rw [subterms_binary]
  exact List.subset_cons_of_subset _ (List.subset_append_left _ _)

theorem subterms_subset_right (op : BinaryOp) (l r : Expr) :
    r.subterms ⊆ (Expr.binary op l r).subterms := by
  rw [subterms_binary]
  exact List.subset_cons_of_subset _ (List.subset_append_right _ _)

/-- A word holds the exact value of every part of an expression, and nothing is divided by zero. -/
structure StaysInWord (args : Option Arguments) (e : Expr) : Prop where
  inWord : ∀ s ∈ e.subterms, ∀ i, Denotes args s i → InWord i
  divisors : ∀ l r, Expr.binary .div l r ∈ e.subterms → ¬Denotes args r 0

theorem StaysInWord.mono {e' : Expr} (h : e.StaysInWord args) (sub : e'.subterms ⊆ e.subterms) :
    e'.StaysInWord args where
  inWord s hs := h.inWord s (sub hs)
  divisors l r hs := h.divisors l r (sub hs)

theorem staysInWord_negate_iff : (Expr.unary .negate e).StaysInWord args ↔
    e.StaysInWord args ∧ ∀ i, Denotes args e i → InWord (-i) := by
  constructor
  · intro h
    constructor
    · exact h.mono (subterms_subset_unary _ e)
    · intro i operand
      exact h.inWord _ (mem_subterms_self _) _ (.negate operand)
  · rintro ⟨inner, whole⟩
    constructor
    · intro s hs i denotes
      rw [subterms_unary, List.mem_cons] at hs
      rcases hs with rfl | hs
      · cases denotes with
        | negate operand => exact whole _ operand
      · exact inner.inWord s hs i denotes
    · intro l r hs
      rw [subterms_unary, List.mem_cons] at hs
      rcases hs with impossible | hs
      · cases impossible
      · exact inner.divisors l r hs

theorem staysInWord_binary_iff : (Expr.binary op l r).StaysInWord args ↔
    l.StaysInWord args ∧ r.StaysInWord args ∧ (∀ i, Denotes args (.binary op l r) i → InWord i) ∧
      (op = .div → ¬Denotes args r 0) := by
  constructor
  · intro h
    refine ⟨h.mono (subterms_subset_left op l r), h.mono (subterms_subset_right op l r),
      h.inWord _ (mem_subterms_self _), ?_⟩
    rintro rfl
    exact h.divisors l r (mem_subterms_self _)
  · rintro ⟨left, right, whole, divisor⟩
    constructor
    · intro s hs i denotes
      rw [subterms_binary, List.mem_cons, List.mem_append] at hs
      rcases hs with rfl | hs | hs
      · exact whole i denotes
      · exact left.inWord s hs i denotes
      · exact right.inWord s hs i denotes
    · intro l' r' hs
      rw [subterms_binary, List.mem_cons, List.mem_append] at hs
      rcases hs with same | hs | hs
      · cases same
        exact divisor rfl
      · exact left.divisors l' r' hs
      · exact right.divisors l' r' hs

theorem staysInWord_const (n : Int64) : (Expr.const (.int n)).StaysInWord args := by
  constructor
  · intro s hs i denotes
    obtain rfl := List.mem_singleton.1 hs
    cases denotes with
    | const => exact inWord_toInt n
  · intro l r hs
    cases List.mem_singleton.1 hs

theorem staysInWord_capture (c : Capture) : (Expr.capture c).StaysInWord args := by
  constructor
  · intro s hs i denotes
    obtain rfl := List.mem_singleton.1 hs
    cases denotes with
    | capture read => exact inWord_toInt _
  · intro l r hs
    cases List.mem_singleton.1 hs

/-! ## Evaluating -/

/-- Some part of an expression applies an operator to two words, and no word
holds what it comes to. -/
structure Overflows (args : Option Arguments) (e : Expr) (op : BinaryOp) (l r : Expr)
    (a b : Int64) : Prop where
  within : .binary op l r ∈ e.subterms
  left : Denotes args l a.toInt
  right : Denotes args r b.toInt
  outside : ∀ i, Denotes args (.binary op l r) i → ¬InWord i

/-- Evaluating comes to the exact value, of which all parts stay in a word. -/
def Exactly (args : Option Arguments) (e : Expr) : Prop :=
  e.StaysInWord args ∧ ∃ n : Int64, e.evaluate args = .ok (.int n) ∧ Denotes args e n.toInt

/-- Evaluating fails at an operation whose result does not stay in a word. -/
def FailsToFit (args : Option Arguments) (e : Expr) : Prop :=
  ¬e.StaysInWord args ∧ ∃ op l r a b, Overflows args e op l r a b ∧
    e.evaluate args = .error (.invalid (.overflow a op.sql b))

/-- What fails in a part fails in the whole, if that does not get past the part. -/
theorem FailsToFit.raise {e' : Expr} (h : e.FailsToFit args) (sub : e.subterms ⊆ e'.subterms)
    (passed : ∀ err, e.evaluate args = .error err → e'.evaluate args = .error err) :
    e'.FailsToFit args := by
  obtain ⟨leaves, op, l, r, a, b, overflows, failed⟩ := h
  refine ⟨fun stays => leaves (stays.mono sub), op, l, r, a, b, ?_, passed _ failed⟩
  exact { overflows with within := sub overflows.within }

theorem Exactly.negate (h : e.Exactly args) (other : ¬Denotes args e (-2 ^ 63)) :
    (Expr.unary .negate e).Exactly args := by
  obtain ⟨stays, n, value, denotes⟩ := h
  have negated : InWord (-n.toInt) := by
    have within := inWord_toInt n
    have least : n.toInt ≠ -2 ^ 63 := fun same => other (same ▸ denotes)
    obtain ⟨low, high⟩ := within
    constructor <;> omega
  refine ⟨staysInWord_negate_iff.2 ⟨stays, ?_⟩, -n, ?_, ?_⟩
  · intro i denotes'
    rwa [denotes'.unique denotes]
  · rw [evaluate, value]
    rfl
  · rw [toInt_neg_of_inWord negated]
    exact .negate denotes

/-- Without a divisor of zero there is an exact result. -/
theorem eq_div_of_integerResult? {x y : Int} (known : op ∈ arithmetic)
    (h : Value.integerResult? op x y = none) : op = .div ∧ y = 0 := by
  simp only [arithmetic, List.mem_cons, List.not_mem_nil, or_false] at known
  rcases known with rfl | rfl | rfl | rfl
  · cases h
  · cases h
  · cases h
  · rw [Value.integerResult?_div] at h
    split at h
    · next zero => exact ⟨rfl, zero⟩
    · cases h

theorem applyBinary_int (known : op ∈ arithmetic) (a b : Int64) :
    (Value.int a).applyBinary op (.int b) =
    match (Value.integerResult? op a.toInt b.toInt).bind int64OfInt? with
    | some n => .ok (.int n)
    | none => .error (.invalid (.overflow a op.sql b)) := by
  simp only [arithmetic, List.mem_cons, List.not_mem_nil, or_false] at known
  rcases known with rfl | rfl | rfl | rfl <;> rfl

/-- An operator whose operands come to their exact values does so too, or fails to fit. -/
theorem Exactly.binary (hl : l.Exactly args) (hr : r.Exactly args) (known : op ∈ arithmetic) :
    (Expr.binary op l r).Exactly args ∨ (Expr.binary op l r).FailsToFit args := by
  obtain ⟨leftStays, a, leftValue, left⟩ := hl
  obtain ⟨rightStays, b, rightValue, right⟩ := hr
  have value : (Expr.binary op l r).evaluate args = (Value.int a).applyBinary op (.int b) := by
    rw [evaluate, leftValue, rightValue]
    rfl
  rw [applyBinary_int known] at value
  have exact_iff (i : Int) : Denotes args (.binary op l r) i ↔
      Value.integerResult? op a.toInt b.toInt = some i := by
    rw [denotes_binary_iff known]
    constructor
    · rintro ⟨x, y, hx, hy, result⟩
      rwa [left.unique hx, right.unique hy]
    · intro result
      exact ⟨_, _, left, right, result⟩
  cases fits : (Value.integerResult? op a.toInt b.toInt).bind int64OfInt? with
  | some n =>
    obtain ⟨i, result, word⟩ := Option.bind_eq_some_iff.1 fits
    obtain rfl := toInt_of_int64OfInt? word
    rw [fits] at value
    refine .inl ⟨staysInWord_binary_iff.2 ⟨leftStays, rightStays, ?_, ?_⟩, n, value,
      (exact_iff _).2 result⟩
    · intro i denotes
      rw [denotes.unique ((exact_iff _).2 result)]
      exact inWord_toInt n
    · rintro rfl zero
      rw [right.unique zero] at result
      cases result
  | none =>
    rw [fits] at value
    refine .inr ⟨?_, op, l, r, a, b, ⟨mem_subterms_self _, left, right, ?_⟩, value⟩
    · intro stays
      obtain ⟨-, -, inWord, divisor⟩ := staysInWord_binary_iff.1 stays
      cases result : Value.integerResult? op a.toInt b.toInt with
      | none =>
        obtain ⟨division, zero⟩ := eq_div_of_integerResult? known result
        exact divisor division (zero ▸ right)
      | some i =>
        rw [result] at fits
        exact not_inWord_of_int64OfInt? fits (inWord i ((exact_iff i).2 result))
    · intro i denotes
      rw [(exact_iff i).1 denotes] at fits
      exact not_inWord_of_int64OfInt? fits

/-- By induction over the expression, one case for each way to build it. -/
theorem IsArithmetic.exactly_or_failsToFit (h : e.IsArithmetic args) :
    e.Exactly args ∨ e.FailsToFit args := by
  induction h with
  | const n => exact .inl ⟨staysInWord_const n, n, rfl, .const n⟩
  | capture read => exact .inl ⟨staysInWord_capture _, _, read, .capture read⟩
  | @negate e _ other ih =>
    rcases ih with exactly | fails
    · exact .inl (exactly.negate other)
    · refine .inr (fails.raise (subterms_subset_unary _ e) fun err failed => ?_)
      rw [evaluate, failed]
      rfl
  | @binary op l r known _ _ ihl ihr =>
    rcases ihl with left | fails
    · rcases ihr with right | fails
      · exact left.binary right known
      · obtain ⟨-, n, value, -⟩ := left
        refine .inr (fails.raise (subterms_subset_right op l r) fun err failed => ?_)
        rw [evaluate, value, failed]
        rfl
    -- The right operand is not asked once the left one has failed.
    · refine .inr (fails.raise (subterms_subset_left op l r) fun err failed => ?_)
      rw [evaluate, failed]
      rfl

/-- Integer arithmetic comes to its exact value if every part of the expression has one that a word
holds and nothing is divided by zero. Otherwise it is invalid, for an operation on two words whose
exact result no word holds. -/
theorem integer_arithmetic_exact (h : e.IsArithmetic args) :
    (e.StaysInWord args → ∃ n : Int64, e.evaluate args = .ok (.int n) ∧
      ∀ i, Denotes args e i ↔ i = n.toInt) ∧
    (¬e.StaysInWord args → ∃ op l r a b, Overflows args e op l r a b ∧
      e.evaluate args = .error (.invalid (.overflow a op.sql b))) := by
  rcases h.exactly_or_failsToFit with ⟨stays, n, value, denotes⟩ | ⟨leaves, failed⟩
  · refine ⟨fun _ => ⟨n, value, fun i => ?_⟩, fun leaves => absurd stays leaves⟩
    constructor
    · exact fun other => other.unique denotes
    · rintro rfl
      exact denotes
  · exact ⟨fun stays => absurd stays leaves, fun _ => failed⟩

/-- The negative of seven by a number that is read from the arguments. -/
def quotient : Expr := .binary .div (.unary .negate (.const (.int 7)))
  (.capture ⟨"by", false, fun args => args "by"⟩)

/-- The greatest word, by way of a quotient that is greater. -/
def detour : Expr := .binary .sub (.binary .div (.const (.int Int64.minValue)) (.const (.int (-1))))
  (.const (.int 1))

/-- Minus seven by two is minus three, and a quotient that leaves the word is not mended by
what is done with it. -/
theorem quotient_exact_detour_invalid :
    quotient.evaluate (some fun _ => some (.int 2)) = .ok (.int (-3)) ∧
    Denotes none detour (2 ^ 63 - 1) ∧ ∃ cause, detour.evaluate none = .error (.invalid cause) := by
  constructor
  · have seven : Denotes (some fun _ => some (.int 2)) (.unary .negate (.const (.int 7))) (-7) :=
      .negate (.const 7)
    have divisor : Denotes (some fun _ => some (.int 2))
        (.capture ⟨"by", false, fun args => args "by"⟩) 2 :=
      .capture (n := 2) rfl
    have denotes : Denotes (some fun _ => some (.int 2)) quotient (-3) :=
      .div seven divisor (by decide)
    have built : quotient.IsArithmetic (some fun _ => some (.int 2)) := by
      refine .binary (by decide) (.negate (.const 7) fun least => ?_) (.capture rfl)
      cases least
    have stays : quotient.StaysInWord (some fun _ => some (.int 2)) := by
      refine staysInWord_binary_iff.2 ⟨staysInWord_negate_iff.2 ⟨staysInWord_const 7, ?_⟩,
        staysInWord_capture _, ?_, ?_⟩
      · intro i operand
        rw [operand.unique (.const 7)]
        exact inWord_toInt (-7)
      · intro i whole
        rw [whole.unique denotes]
        exact inWord_toInt (-3)
      · intro _ zero
        cases zero.unique divisor
    obtain ⟨n, value, exact_iff⟩ := (integer_arithmetic_exact built).1 stays
    have same : (-3 : Int64).toInt = n.toInt := (exact_iff _).1 denotes
    rwa [Int64.toInt_inj.1 same]
  · have least : Denotes none (.binary .div (.const (.int Int64.minValue)) (.const (.int (-1))))
        (2 ^ 63) :=
      .div (.const Int64.minValue) (.const (-1)) (by decide)
    have built : detour.IsArithmetic none :=
      .binary (by decide) (.binary (by decide) (.const _) (.const _)) (.const _)
    refine ⟨.sub least (.const 1), ?_⟩
    have leaves : ¬detour.StaysInWord none := fun stays => by
      have within := (staysInWord_binary_iff.1 stays).1.inWord _ (mem_subterms_self _) _ least
      exact absurd within.2 (by decide)
    obtain ⟨op, l, r, a, b, -, failed⟩ := (integer_arithmetic_exact built).2 leaves
    exact ⟨_, failed⟩

end Expr

end DocStore

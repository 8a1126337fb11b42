import DocStore.Proofs.Rendering

/-!
# Conditions on constants and rows

The truth of a condition in SQL is three-valued: a comparison with null is
unknown, and `AND`, `OR` and `NOT` carry this through. What reaches no row is
decided while compiling instead, where `and` and `or` of a null are null, and
null counts as false. Both agree as long as every constant that the compiler
finds null is unknown where it is asked for positively, or is false: this is
what `Expr.isHarmless` tells. Elsewhere the SQL selects other rows than the condition.
-/

set_option autoImplicit false

namespace DocStore

/-! ## Three truth values -/

/-- `AND`: one false conjunct decides. -/
def bothHold : Option Bool → Option Bool → Option Bool
  | some false, _ => some false
  | _, some false => some false
  | some true, some true => some true
  | _, _ => none

/-- `OR`: one true disjunct decides. -/
def eitherHolds : Option Bool → Option Bool → Option Bool
  | some true, _ => some true
  | _, some true => some true
  | some false, some false => some false
  | _, _ => none

/-- A logical operator with unknown as none. -/
def BinaryOp.kleene (op : BinaryOp) : Option Bool → Option Bool → Option Bool :=
  if op = .or then eitherHolds else bothHold

theorem BinaryOp.kleene_some (op : BinaryOp) (a b : Bool) :
    op.kleene (some a) (some b) = some (if op = .or then a || b else a && b) := by
  unfold kleene
  split
  · cases a <;> cases b <;> rfl
  · cases a <;> cases b <;> rfl

theorem BinaryOp.not_logical_of_comparison {op : BinaryOp} (h : op.isComparison = true) :
    op.isLogical = false := by
  cases op <;> first | rfl | cases h

/-- A row, by alias and column, and how storage compares values that are not
null. Flags are stored as 1 and 0, which it can tell apart. -/
structure Scene where
  column : String → String → Value
  compare : BinaryOp → Value → Value → Bool
  one_eq_one : compare .eq (.int 1) (.int 1) = true
  one_eq_zero : compare .eq (.int 1) (.int 0) = false

/-- A comparison with null is unknown. -/
def Scene.compared (s : Scene) (op : BinaryOp) (v w : Value) : Option Bool :=
  if v.isNull || w.isNull then none else some (s.compare op v w)

/-- An empty row. -/
def Scene.blank : Scene := ⟨fun _ _ => .null, fun _ v w => decide (v = w), rfl, rfl⟩

namespace SqlTree

/-- The value of a placeholder, a column or a literal. -/
def operandIn (s : Scene) (args : Option Arguments) : SqlTree Slot → Value
  | .placeholder slot => slot.value args
  | .column table name => s.column table name
  | .number digits => ((Value.int64OfText? digits).map .int).getD .null
  | .text s => .text s
  | _ => .null

/-- The truth of comparisons and tests for null under `AND`, `OR` and `NOT`. -/
def truthIn (s : Scene) (args : Option Arguments) : SqlTree Slot → Option Bool
  | .binary op l r =>
    if op.isLogical then op.kleene (truthIn s args l) (truthIn s args r)
    else s.compared op (l.operandIn s args) (r.operandIn s args)
  | .not e => (truthIn s args e).map (!·)
  | .isNull e negated => some ((e.operandIn s args).isNull != negated)
  | _ => none

theorem truthIn_truth (s : Scene) (args : Option Arguments) (b : Bool) :
    (truth b).truthIn s args = some b := by
  have one : (SqlTree.number "1").operandIn s args = .int 1 := rfl
  have zero : (SqlTree.number "0").operandIn s args = .int 0 := rfl
  cases b
  · exact congrArg some s.one_eq_zero
  · exact congrArg some s.one_eq_one

end SqlTree

namespace Expr

/-! ## Two truths of a condition -/

/-- The value of a member of the row, or of an expression that reaches no row. -/
def operandIn (s : Scene) (args : Option Arguments) (bs : List Binding) : Expr → Value
  | .member m =>
    s.column (((bs.find? fun b => b.index = m.index).map Binding.tableAlias).getD m.index) m.column
  | e =>
    match e.evaluate args with
    | .ok v => v
    | .error _ => .null

/-- A comparison; equality with an expression that is null on every row tests for null. -/
def comparedIn (s : Scene) (args : Option Arguments) (bs : List Binding) (op : BinaryOp)
    (l r : Expr) : Option Bool :=
  if (op = .eq ∨ op = .ne) ∧ l.isRowDependent = false ∧ l.isNullUnder args = true then
    some ((r.operandIn s args bs).isNull != decide (op = .ne))
  else if (op = .eq ∨ op = .ne) ∧ r.isRowDependent = false ∧ r.isNullUnder args = true then
    some ((l.operandIn s args bs).isNull != decide (op = .ne))
  else s.compared op (l.operandIn s args bs) (r.operandIn s args bs)

/-- The truth of a condition, with null as unknown; a member holds where it is 1. -/
def truthIn (s : Scene) (args : Option Arguments) (bs : List Binding) : Expr → Option Bool
  | .const v => v.bool?
  | .member m => s.compared .eq (operandIn s args bs (.member m)) (.int 1)
  | .unary .not e => (truthIn s args bs e).map (!·)
  | .binary op l r =>
    if op.isLogical then op.kleene (truthIn s args bs l) (truthIn s args bs r)
    else comparedIn s args bs op l r
  | _ => none

/-- The truth of a condition in which what reaches no row is decided beforehand, null as false. -/
def foldedIn (s : Scene) (args : Option Arguments) (bs : List Binding) (e : Expr) : Option Bool :=
  match e with
  | .member m => truthIn s args bs (.member m)
  | .unary op inner =>
    if !e.isRowDependent then some (e.isTrueUnder args)
    else
      match op with
      | .not => (foldedIn s args bs inner).map (!·)
      | .negate => none
  | .binary op l r =>
    if !e.isRowDependent then some (e.isTrueUnder args)
    else if op.isLogical then op.kleene (foldedIn s args bs l) (foldedIn s args bs r)
    else comparedIn s args bs op l r
  | e => some (e.isTrueUnder args)

/-- A member that resolves, or an expression that reaches no row and has a value. -/
inductive Atom (args : Option Arguments) (bs : List Binding) : Expr → Prop where
  | member {m : Member} {b : Binding} (known : m.isKnown = true)
    (bound : (bs.find? fun b => b.index = m.index) = some b) : Atom args bs (.member m)
  | fixed {e : Expr} {v : Value} (reaches : e.isRowDependent = false)
      (value : e.evaluate args = .ok v) : Atom args bs e

/-- Conditions of comparisons on members, with truth values and null as constants. -/
inductive Logical (args : Option Arguments) (bs : List Binding) : Expr → Prop where
  | truth (b : Bool) : Logical args bs (.const (.bool b))
  | unknown : Logical args bs (.const .null)
  | flag {m : Member} (resolves : Atom args bs (.member m)) : Logical args bs (.member m)
  | compares {op : BinaryOp} {l r : Expr} (comparison : op.isComparison = true)
      (left : Atom args bs l) (right : Atom args bs r)
      (row : (Expr.binary op l r).isRowDependent = true) : Logical args bs (.binary op l r)
  | not {e : Expr} (inner : Logical args bs e) : Logical args bs (.unary .not e)
  | joins {op : BinaryOp} {l r : Expr} (logical : op.isLogical = true) (left : Logical args bs l)
    (right : Logical args bs r) : Logical args bs (.binary op l r)

/-- The truth of a condition that reaches no row. -/
def constantTruth (e : Expr) : Option Bool := e.truthIn .blank none []

/-- A constant that the compiler finds null is false, or is unknown and asked for positively. -/
def isHarmlessConstant (positive : Bool) (e : Expr) : Bool :=
  !e.isNullUnder none || decide (e.constantTruth = some false) ||
  (positive && decide (e.constantTruth = none))

/-- The constants of a condition are harmless, each in its place below `not`. -/
def isHarmless (positive : Bool) (e : Expr) : Bool :=
  match e with
  | .member _ => true
  | .unary op inner =>
    if !e.isRowDependent then isHarmlessConstant positive e
    else
      match op with
      | .not => isHarmless (!positive) inner
      | .negate => true
  | .binary op l r =>
    if !e.isRowDependent then isHarmlessConstant positive e
    else if op.isLogical then isHarmless positive l && isHarmless positive r
    else true
  | e => isHarmlessConstant positive e

variable {s : Scene} {args : Option Arguments} {bs : List Binding} {e : Expr}

/-! ## Constants -/

theorem fixed_of_binary {op : BinaryOp} {l r : Expr}
    (h : (Expr.binary op l r).isRowDependent = false) :
    l.isRowDependent = false ∧ r.isRowDependent = false := by
  simpa [isRowDependent] using h

theorem Logical.captures_eq (h : e.Logical args bs) (fixed : e.isRowDependent = false) :
    e.captures = [] := by
  induction h with
  | truth _ | unknown | flag _ => rfl
  | compares _ _ _ row => rw [row] at fixed; cases fixed
  | not _ ih => exact ih fixed
  | joins _ _ _ ihl ihr =>
    obtain ⟨fl, fr⟩ := fixed_of_binary fixed
    exact List.append_eq_nil_iff.2 ⟨ihl fl, ihr fr⟩

/-- A condition that reaches no row has a value: null, or its truth. -/
theorem Logical.evaluate_of_fixed (h : e.Logical args bs)
    (fixed : e.isRowDependent = false) (s : Scene) (given : Option Arguments) :
    ∃ v, e.evaluate given = .ok v ∧
      (v = .null ∨ ∃ b, v = .bool b ∧ e.truthIn s args bs = some b) := by
  induction h with
  | truth b => exact ⟨.bool b, rfl, .inr ⟨b, rfl, rfl⟩⟩
  | unknown => exact ⟨.null, rfl, .inl rfl⟩
  | flag _ => cases fixed
  | compares _ _ _ row => rw [row] at fixed; cases fixed
  | not _ ih =>
    obtain ⟨v, value, rfl | ⟨b, rfl, truth⟩⟩ := ih fixed
    · exact ⟨.null, by simp only [evaluate, value]; rfl, .inl rfl⟩
    · exact ⟨.bool !b, by simp only [evaluate, value]; rfl,
        .inr ⟨!b, rfl, by simp only [truthIn, truth]; rfl⟩⟩
  | @joins op l r logical _ _ ihl ihr =>
    obtain ⟨fl, fr⟩ := fixed_of_binary fixed
    obtain ⟨v, left, hv⟩ := ihl fl
    obtain ⟨w, right, hw⟩ := ihr fr
    have joined : (Expr.binary op l r).evaluate given = Value.applyBinary op v w := by
      simp only [evaluate, left, right]; rfl
    rcases hv with rfl | ⟨a, rfl, ha⟩
    · refine ⟨.null, joined.trans ?_, .inl rfl⟩
      cases op <;> first | rfl | cases logical
    · rcases hw with rfl | ⟨b, rfl, hb⟩
      · refine ⟨.null, joined.trans ?_, .inl rfl⟩
        cases op <;> first | rfl | cases logical
      · refine ⟨.bool (if op = .or then a || b else a && b), joined.trans ?_, .inr ⟨_, rfl, ?_⟩⟩
        · cases op <;> first | rfl | cases logical
        · simp only [truthIn, logical, if_true, ha, hb, BinaryOp.kleene_some]

/-- The truth of a constant is the same for every row. -/
theorem Logical.truthIn_of_fixed (h : e.Logical args bs) (fixed : e.isRowDependent = false) :
    e.truthIn s args bs = e.constantTruth := by
  unfold constantTruth
  induction h with
  | truth _ | unknown => rfl
  | flag _ => cases fixed
  | compares _ _ _ row => rw [row] at fixed; cases fixed
  | not _ ih => simp only [truthIn, ih fixed]
  | joins logical _ _ ihl ihr =>
    obtain ⟨fl, fr⟩ := fixed_of_binary fixed
    simp only [truthIn, logical, if_true, ihl fl, ihr fr]

theorem foldedIn_of_fixed (fixed : e.isRowDependent = false) :
    e.foldedIn s args bs = some (e.isTrueUnder args) := by
  cases e with
  | member _ => cases fixed
  | const _ | capture _ | call _ _ | inQuery _ _ _ _ _ | convert _ _ => rfl
  | unary _ _ | binary _ _ _ => simp [foldedIn, fixed]

theorem isHarmless_of_fixed (positive : Bool) (fixed : e.isRowDependent = false) :
    e.isHarmless positive = e.isHarmlessConstant positive := by
  cases e with
  | member _ => cases fixed
  | const _ | capture _ | call _ _ | inQuery _ _ _ _ _ | convert _ _ => rfl
  | unary _ _ | binary _ _ _ => simp [isHarmless, fixed]

/-! ## Where folding agrees -/

/-- Two truths are the same, except that the first may decide an unknown one
against what is asked for. -/
def Within (positive : Bool) (folded truth : Option Bool) : Prop :=
  folded = truth ∨ folded = some !positive ∧ truth = none

theorem Within.not {positive : Bool} {f r : Option Bool} (h : Within (!positive) f r) :
    Within positive (f.map (!·)) (r.map (!·)) := by
  rcases h with rfl | ⟨rfl, rfl⟩
  · exact .inl rfl
  · exact .inr ⟨congrArg some (by simp), rfl⟩

theorem Within.bothHold {positive : Bool} {f r f' r' : Option Bool} (h : Within positive f r)
    (h' : Within positive f' r') : Within positive (bothHold f f') (bothHold r r') := by
  rcases h with rfl | ⟨rfl, rfl⟩ <;> rcases h' with rfl | ⟨rfl, rfl⟩
  · exact .inl rfl
  · cases positive <;> rcases f with _ | _ | _ <;> simp [Within, DocStore.bothHold]
  · cases positive <;> rcases f' with _ | _ | _ <;> simp [Within, DocStore.bothHold]
  · exact .inr ⟨by cases positive <;> rfl, rfl⟩

/-- A disjunction is the negation of the conjunction of the negations. -/
theorem eitherHolds_eq_not (a b : Option Bool) :
    eitherHolds a b = (DocStore.bothHold (a.map (!·)) (b.map (!·))).map (!·) := by
  rcases a with _ | _ | _ <;> rcases b with _ | _ | _ <;> rfl

/-- `AND` and `OR` do not turn an unknown truth into the one that is asked for. -/
theorem Within.kleene {positive : Bool} (op : BinaryOp) {f r f' r' : Option Bool}
    (h : Within positive f r) (h' : Within positive f' r') :
    Within positive (op.kleene f f') (op.kleene r r') := by
  unfold BinaryOp.kleene
  split
  · have flip : ∀ {f r}, Within positive f r → Within (!positive) (f.map (!·)) (r.map (!·)) :=
      fun h => Within.not (by rwa [Bool.not_not])
    rw [eitherHolds_eq_not, eitherHolds_eq_not]
    exact ((flip h).bothHold (flip h')).not
  · exact h.bothHold h'

theorem Within.eq_some_iff {positive : Bool} {f r : Option Bool} (h : Within positive f r) :
    f = some positive ↔ r = some positive := by
  rcases h with rfl | ⟨rfl, rfl⟩
  · rfl
  · cases positive <;> decide

/-- Deciding a harmless constant. -/
theorem Logical.within_of_fixed {positive : Bool} (h : e.Logical args bs)
    (fixed : e.isRowDependent = false) (harmless : e.isHarmlessConstant positive = true) :
    Within positive (some (e.isTrueUnder args)) (e.truthIn s args bs) := by
  obtain ⟨v, value, rfl | ⟨b, rfl, truth⟩⟩ := h.evaluate_of_fixed fixed s args
  · have null : e.isNullUnder none = true := by
      rw [isNullUnder, evaluate_congr none args e (h.captures_eq fixed), value]
      rfl
    have undecided : e.isTrueUnder args = false := by
      rw [isTrueUnder, value]
      rfl
    rw [undecided, h.truthIn_of_fixed fixed]
    simp only [isHarmlessConstant, null, Bool.not_true, Bool.false_or, Bool.or_eq_true,
      Bool.and_eq_true, decide_eq_true_eq] at harmless
    rcases harmless with false | ⟨rfl, unknown⟩
    · exact .inl false.symm
    · exact .inr ⟨rfl, unknown⟩
  · have decided : e.isTrueUnder args = b := by
      rw [isTrueUnder, value]
      cases b <;> rfl
    rw [decided, truth]
    exact .inl rfl

/-- Deciding harmless constants changes no truth that is asked for. -/
theorem Logical.within (h : e.Logical args bs) {positive : Bool}
    (harmless : e.isHarmless positive = true) :
    Within positive (e.foldedIn s args bs) (e.truthIn s args bs) := by
  have ofFixed : ∀ {e : Expr} {positive}, e.Logical args bs → e.isRowDependent = false →
      e.isHarmless positive = true →
        Within positive (e.foldedIn s args bs) (e.truthIn s args bs) := by
    intro e positive h fixed harmless
    rw [foldedIn_of_fixed fixed]
    rw [isHarmless_of_fixed positive fixed] at harmless
    exact h.within_of_fixed fixed harmless
  induction h generalizing positive with
  | truth b => exact ofFixed (.truth b) rfl harmless
  | unknown => exact ofFixed .unknown rfl harmless
  | flag _ => exact .inl rfl
  | @compares op l r comparison _ _ row =>
    have tight := BinaryOp.not_logical_of_comparison comparison
    exact .inl (by simp [foldedIn, truthIn, row, tight])
  | @not inner h ih =>
    cases row : (Expr.unary .not inner).isRowDependent with
    | false => exact ofFixed h.not row harmless
    | true =>
      simp only [isHarmless, row, Bool.not_true, Bool.false_eq_true, if_false] at harmless
      simp only [foldedIn, truthIn, row, Bool.not_true, Bool.false_eq_true, if_false]
      exact (ih harmless).not
  | @joins op l r logical hl hr ihl ihr =>
    cases row : (Expr.binary op l r).isRowDependent with
    | false => exact ofFixed (.joins logical hl hr) row harmless
    | true =>
      simp only [isHarmless, row, logical, Bool.not_true, Bool.false_eq_true, if_false, if_true,
        Bool.and_eq_true] at harmless
      simp only [foldedIn, truthIn, row, logical, Bool.not_true, Bool.false_eq_true,
        if_false, if_true]
      exact (ihl harmless.1).kleene op (ihr harmless.2)

/-! ## The image of a condition -/

section Images

variable {t : Target}

theorem operandIn_of_fixed {v : Value} (fixed : e.isRowDependent = false)
    (value : e.evaluate args = .ok v) : e.operandIn s args bs = v := by
  cases e with
  | member _ => cases fixed
  | const _ | capture _ | unary _ _ | binary _ _ _ | call _ _ | inQuery _ _ _ _ _ | convert _ _ =>
    simp only [operandIn, value]

theorem image_of_fixed (place : Place) (fixed : e.isRowDependent = false) :
    e.image t bs place = e.fixedImage t.arguments place := by
  cases e with
  | const _ | capture _ => simp only [image]
  | member _ | inQuery _ _ _ _ _ => cases fixed
  | unary _ _ | binary _ _ _ | call _ _ | convert _ _ => simp [image, fixed]

theorem Atom.operandIn_image (h : e.Atom t.arguments bs) :
    (e.image t bs .value).operandIn s t.arguments = e.operandIn s t.arguments bs := by
  cases h with
  | member _ _ => simp only [image, memberImage, SqlTree.operandIn, operandIn]
  | fixed reaches value =>
    rw [image_of_fixed .value reaches, operandIn_of_fixed reaches value]
    simp only [fixedImage, SqlTree.operandIn, Slot.value, value, Affix.apply_exact]

theorem truthIn_operationImage {op : BinaryOp} {l r : Expr} (tight : op.isLogical = false)
    (hl : l.Atom t.arguments bs) (hr : r.Atom t.arguments bs) :
    (operationImage t.arguments op ⟨l, l.image t bs .value⟩ ⟨r, r.image t bs .value⟩).truthIn s
        t.arguments =
      comparedIn s t.arguments bs op l r := by
  unfold operationImage comparedIn
  split
  · simp only [SqlTree.truthIn, hr.operandIn_image]
  · split
    · simp only [SqlTree.truthIn, hl.operandIn_image]
    · simp only [SqlTree.truthIn, tight, Bool.false_eq_true, if_false, hl.operandIn_image,
        hr.operandIn_image]

/-- What a condition stands for in a query is the condition with its constants decided. -/
theorem Logical.truthIn_image (h : e.Logical t.arguments bs) :
    (e.image t bs .condition).truthIn s t.arguments = e.foldedIn s t.arguments bs := by
  have ofFixed : ∀ {e : Expr}, e.Logical t.arguments bs → e.isRowDependent = false →
      (e.image t bs .condition).truthIn s t.arguments = e.foldedIn s t.arguments bs := by
    intro e h fixed
    have reads : e.hasCaptures = false := by
      rw [hasCaptures, h.captures_eq fixed]
      rfl
    rw [image_of_fixed .condition fixed, foldedIn_of_fixed fixed]
    simp only [fixedImage, reads, Bool.false_eq_true, if_false, SqlTree.truthIn_truth]
  induction h with
  | truth b => exact ofFixed (.truth b) rfl
  | unknown => exact ofFixed .unknown rfl
  | flag _ =>
    simp only [image, memberImage]
    rfl
  | @compares op l r comparison hl hr row =>
    have tight := BinaryOp.not_logical_of_comparison comparison
    simp only [image, foldedIn, row, tight, Bool.not_true, Bool.false_eq_true, if_false]
    exact truthIn_operationImage tight hl hr
  | @not inner h ih =>
    cases row : (Expr.unary .not inner).isRowDependent with
    | false => exact ofFixed h.not row
    | true =>
      simp only [image, foldedIn, SqlTree.truthIn, row, Bool.not_true, Bool.false_eq_true,
        if_false, ih]
  | @joins op l r logical hl hr ihl ihr =>
    cases row : (Expr.binary op l r).isRowDependent with
    | false => exact ofFixed (.joins logical hl hr) row
    | true =>
      simp only [image, foldedIn, SqlTree.truthIn, row, logical, Bool.not_true,
        Bool.false_eq_true, if_false, if_true, ihl, ihr]

end Images

end Expr

/-! ## Conditions compile -/

namespace Compile

open DocStore.Expr (Atom Logical)

variable {t : Target} {c : Compilation} {e l r : Expr}

theorem exists_of_gives {x : Compile Sql} (h : ∃ sql d, Gives x c sql d) (f : Sql → Sql) :
    ∃ sql d, Gives (do let e ← x; pure (f e)) c sql d := by
  obtain ⟨sql, d, h⟩ := h
  exact ⟨f sql, d, gives_bind_iff.2 ⟨sql, d, h, gives_pure_iff.2 ⟨rfl, rfl⟩⟩⟩

theorem exists_value (h : e.Atom t.arguments c.bindings) : ∃ sql d, Gives (value t e) c sql d := by
  cases h with
  | member known bound => exact ⟨_, c, gives_member_iff.2 ⟨known, rfl, _, bound, rfl⟩⟩
  | fixed reaches value =>
    rw [value_of_fixed t reaches]
    exact ⟨_, _, gives_bindExpr_iff.2 ⟨_, value, rfl, rfl⟩⟩

/-- Two steps one after another, of which the second succeeds under the same indexes. -/
theorem exists_of_both {x y : Compile Sql} {i : List Binding → SqlTree Slot}
    (hx : ∃ sql d, Gives x c sql d) (renders : RendersPhrase t i x)
    (hy : ∀ d : Compilation, d.bindings = c.bindings → ∃ sql d', Gives y d sql d')
    (f : Sql → Sql → Sql) : ∃ sql d, Gives (do let p ← x; let q ← y; pure (f p q)) c sql d := by
  obtain ⟨p, d, hp⟩ := hx
  obtain ⟨q, d', hq⟩ := hy d (renders hp).1.bindings
  exact ⟨f p q, d',
    gives_bind_iff.2 ⟨p, d, hp, gives_bind_iff.2 ⟨q, d', hq, gives_pure_iff.2 ⟨rfl, rfl⟩⟩⟩⟩

theorem exists_nullTest? (op : BinaryOp) {side other : Expr} (hs : side.Atom t.arguments c.bindings)
    (ho : other.Atom t.arguments c.bindings) :
    ∃ o d, Gives (nullTest? t op ⟨side, value t side⟩ ⟨other, value t other⟩) c o d := by
  unfold nullTest?
  cases hs with
  | member _ _ => exact ⟨none, c, gives_pure_iff.2 ⟨rfl, rfl⟩⟩
  | @fixed _ v reaches evaluated =>
    simp only [reaches, Bool.false_eq_true, if_false]
    obtain ⟨e, d, he⟩ := exists_value ho
    have read := gives_ofExcept_iff.2 ⟨evaluated, Eq.refl c⟩
    cases null : v.isNull with
    | true =>
      refine ⟨some (.isNull e (op = .ne)), d, gives_bind_iff.2 ⟨v, c, read, ?_⟩⟩
      rw [if_pos null]
      exact gives_bind_iff.2 ⟨e, d, he, gives_pure_iff.2 ⟨rfl, rfl⟩⟩
    | false =>
      refine ⟨none, c, gives_bind_iff.2 ⟨v, c, read, ?_⟩⟩
      rw [if_neg (by simp [null])]
      exact gives_pure_iff.2 ⟨rfl, rfl⟩

/-- A test for null that does not apply leaves everything as it was. -/
theorem eq_of_no_nullTest {op : BinaryOp} {side other : Operand} {d : Compilation}
    (h : Gives (nullTest? t op side other) c none d) : d = c := by
  have ways := gives_nullTest? h
  split at ways
  · obtain ⟨_, _, absurd⟩ := ways
    cases absurd
  · exact ways.2

theorem exists_comparison (op : BinaryOp) (hl : l.Atom t.arguments c.bindings)
    (hr : r.Atom t.arguments c.bindings) :
    ∃ sql d, Gives (comparison t op ⟨l, value t l⟩ ⟨r, value t r⟩) c sql d := by
  have plain :
      ∃ sql d, Gives (do let x ← value t l; let y ← value t r; pure (Sql.binary op x y)) c sql d :=
    exists_of_both (exists_value hl) (renders_value l).phrase
      (fun d same => exists_value (by rwa [same])) _
  unfold comparison
  split
  · obtain ⟨first, d, left⟩ := exists_nullTest? op hl hr
    cases first with
    | some test =>
      exact ⟨test, d, gives_bind_iff.2 ⟨some test, d, left, gives_pure_iff.2 ⟨rfl, rfl⟩⟩⟩
    | none =>
      obtain rfl := eq_of_no_nullTest left
      obtain ⟨second, d', right⟩ := exists_nullTest? op hr hl
      cases second with
      | some test =>
        exact ⟨test, d', gives_bind_iff.2 ⟨none, d, left,
          gives_bind_iff.2 ⟨some test, d', right, gives_pure_iff.2 ⟨rfl, rfl⟩⟩⟩⟩
      | none =>
        obtain rfl := eq_of_no_nullTest right
        obtain ⟨sql, d', both⟩ := plain
        exact ⟨sql, d', gives_bind_iff.2 ⟨none, _, left, gives_bind_iff.2 ⟨none, _, right, both⟩⟩⟩
  · exact plain

/-- A condition that reaches no row is decided. -/
theorem exists_fixedCondition {bs : List Binding} (h : e.Logical t.arguments bs)
    (fixed : e.isRowDependent = false) : ∃ sql d, Gives (condition t e) c sql d := by
  have reads : e.hasCaptures = false := by
    rw [Expr.hasCaptures, h.captures_eq fixed]
    rfl
  rw [condition_of_fixed t fixed, fixedCondition, if_neg (by simp [reads])]
  obtain ⟨v, evaluated, kind⟩ := h.evaluate_of_fixed fixed .blank t.arguments
  have read := gives_ofExcept_iff.2 ⟨evaluated, Eq.refl c⟩
  rcases kind with rfl | ⟨b, rfl, _⟩
  · exact ⟨.truth false, c, gives_bind_iff.2 ⟨.null, c, read, gives_pure_iff.2 ⟨rfl, rfl⟩⟩⟩
  · exact ⟨.truth b, c, gives_bind_iff.2 ⟨.bool b, c, read, gives_pure_iff.2 ⟨rfl, rfl⟩⟩⟩

theorem exists_condition {bs : List Binding} (h : e.Logical t.arguments bs)
    (same : c.bindings = bs) : ∃ sql d, Gives (condition t e) c sql d := by
  induction h generalizing c with
  | truth b =>
    have h : (Expr.const (.bool b)).Logical t.arguments bs := .truth b
    exact exists_fixedCondition h rfl
  | unknown =>
    have h : (Expr.const .null).Logical t.arguments bs := .unknown
    exact exists_fixedCondition h rfl
  | flag resolves =>
    subst same
    exact exists_of_gives (exists_value resolves) Sql.isTrue
  | @compares op l r comparison hl hr row =>
    subst same
    have tight := BinaryOp.not_logical_of_comparison comparison
    simp only [condition, row, tight, comparison, Bool.not_true, Bool.false_eq_true,
      if_false, if_true]
    exact exists_comparison op hl hr
  | @not inner h ih =>
    cases row : (Expr.unary .not inner).isRowDependent with
    | false => exact exists_fixedCondition h.not row
    | true =>
      simp only [condition, row, Bool.not_true, Bool.false_eq_true, if_false]
      exact exists_of_gives (ih same) _
  | @joins op l r logical hl hr ihl ihr =>
    cases row : (Expr.binary op l r).isRowDependent with
    | false => exact exists_fixedCondition (.joins logical hl hr) row
    | true =>
      simp only [condition, row, logical, Bool.not_true, Bool.false_eq_true, if_false, if_true]
      exact exists_of_both (ihl same) (renders_condition l)
        (fun d alike => ihr (alike.trans same)) _

/-- A condition of comparisons on members, with truth values and null as
constants, compiles. Its text reads as its image, with the values of the slots
bound in order, and is true where the condition with its constants decided is.
Where the constants are harmless, this is where the condition itself is true. -/
theorem selects_of_isHarmless (dialect : t.dialect = .standard ∨ t.dialect = .sqlite)
    (h : e.Logical t.arguments c.bindings) :
    ∃ sql d, Gives (condition t e) c sql d ∧
      SqlReader.read (sql.text t.dialect) =
        some ((e.image t c.bindings .condition).named t.dialect.parameter c.parameters.size) ∧
      d.parameters = c.parameters.pushAll t.dialect.parameter
        ((e.image t c.bindings .condition).slots.map (Slot.value t.arguments)) ∧
      ∀ s, (e.image t c.bindings .condition).truthIn s t.arguments =
          e.foldedIn s t.arguments c.bindings ∧
        (e.isHarmless true = true →
          ((e.image t c.bindings .condition).truthIn s t.arguments = some true ↔
          e.truthIn s t.arguments c.bindings = some true)) := by
  obtain ⟨sql, d, gives⟩ := exists_condition h rfl
  obtain ⟨binds, phrase⟩ := renders_condition e gives
  refine ⟨sql, d, gives, phrase.read_named dialect, binds.parameters,
    fun s => ⟨h.truthIn_image, fun harmless => ?_⟩⟩
  rw [h.truthIn_image]
  exact (h.within harmless).eq_some_iff

/-- Rows with more than a hundred words that are not published under null or untitled. -/
def longUntitled : Expr :=
  let index : IndexType :=
    ⟨"Article", [⟨"words", .integer, false⟩, ⟨"published", .boolean, false⟩,
      ⟨"title", .text, true⟩], some⟩
  .and (.binary .gt (index.field "words") (.const (.int 100)))
    (.binary .or (.and (index.field "published") (.and (.const .null) (.const (.bool true))))
      (.unary .not (.binary .ne (index.field "title") (.const .null))))

/-- Null stands only where it is asked for, so the rows are those of the condition. -/
theorem selects_longUntitled :
    (Dialect.sqlite = .standard ∨ Dialect.sqlite = .sqlite) ∧
    longUntitled.Logical none [⟨"Article", "Article"⟩] ∧ longUntitled.isHarmless true = true ∧
      ∃ sql d, Gives (condition ⟨.sqlite, ⟨"", ""⟩, none⟩ longUntitled)
          ⟨[⟨"Article", "Article"⟩], ∅, []⟩ sql d ∧
        ∀ s,
          (longUntitled.image ⟨.sqlite, ⟨"", ""⟩, none⟩ [⟨"Article", "Article"⟩] .condition).truthIn
            s none = some true ↔
          longUntitled.truthIn s none [⟨"Article", "Article"⟩] = some true := by
  have resolves : ∀ m : Member, m.isKnown = true → m.index = "Article" →
      (Expr.member m).Atom none [⟨"Article", "Article"⟩] := fun m known index =>
    .member known (b := ⟨"Article", "Article"⟩) (by simp [index])
  have logical : longUntitled.Logical none [⟨"Article", "Article"⟩] :=
    .joins rfl (.compares rfl (resolves _ rfl rfl) (.fixed rfl rfl) rfl)
      (.joins rfl (.joins rfl (.flag (resolves _ rfl rfl)) (.joins rfl .unknown (.truth true)))
        (.not (.compares rfl (resolves _ rfl rfl) (.fixed rfl rfl) rfl)))
  have harmless : longUntitled.isHarmless true = true := by decide
  obtain ⟨sql, d, gives, _, _, truths⟩ :=
    selects_of_isHarmless (t := ⟨.sqlite, ⟨"", ""⟩, none⟩) (c := ⟨[⟨"Article", "Article"⟩], ∅, []⟩)
      (.inr rfl) logical
  exact ⟨.inr rfl, logical, harmless, sql, d, gives, fun s => (truths s).2 harmless⟩

/-- A true disjunct beside null: the condition holds for every row, and the SQL for none. -/
example (s : Scene) :
    let e : Expr := .binary .or (.const (.bool true)) (.const .null)
    e.truthIn s none [] = some true ∧ e.foldedIn s none [] = some false := ⟨rfl, rfl⟩

/-- Null below `not`: a flagged row does not meet the condition, and the SQL selects it. -/
example (s : Scene) (bs : List Binding) (m : Member)
    (flagged : (Expr.member m).truthIn s none bs = some true) :
    let e : Expr := .unary .not (.binary .and (.member m) (.const .null))
    e.truthIn s none bs = none ∧ e.foldedIn s none bs = some true := by
  constructor
  · exact congrArg (fun f => (bothHold f none).map (!·)) flagged
  · exact congrArg (fun f => (bothHold f (some false)).map (!·)) flagged

end Compile

end DocStore

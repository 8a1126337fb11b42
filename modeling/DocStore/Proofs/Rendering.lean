import DocStore.Proofs.NullTests
import DocStore.Proofs.SqlTexts

/-!
# What compiled SQL means

`Expr.image` is the tree that an expression stands for in a query: what reaches
no row is a placeholder, or decided as a condition, and what reaches a row is
its operator over the images of its operands. The text that the compiler
writes for an expression reads as its image, with the placeholders named in the
order in which they stand, and these are the parameters that the compiler binds.
-/

set_option autoImplicit false

namespace DocStore

/-- A fixed expression in the place of a placeholder, and what is put around its value. -/
structure Slot where
  expr : Expr
  affix : Affix

def Slot.value (args : Option Arguments) (s : Slot) : Value :=
  match s.expr.evaluate args with
  | .ok v => s.affix.apply v
  | .error _ => .null

namespace SqlTree

variable {α : Type}

mutual

/-- What stands in the placeholders, from left to right. -/
def slots : SqlTree α → List α
  | .placeholder a => [a]
  | .column _ _ | .number _ | .text _ => []
  | .binary _ l r | .concat l r | .like l r => slots l ++ slots r
  | .not e | .negate e | .isNull e _ => slots e
  | .inList e items _ => slots e ++ slotsAll items
  | .inSelect e selector _ _ condition _ => slots e ++ (slots selector ++ slots condition)
  | .apply _ args => slotsAll args

def slotsAll : List (SqlTree α) → List α
  | [] => []
  | e :: es => slots e ++ slotsAll es

end

mutual

/-- The placeholders named from left to right, the first by the number `n`. -/
def named (name : Nat → String) (n : Nat) : SqlTree α → SqlTree String
  | .placeholder _ => .placeholder (name n)
  | .column table col => .column table col
  | .number digits => .number digits
  | .text s => .text s
  | .binary op l r => .binary op (named name n l) (named name (n + l.slots.length) r)
  | .concat l r => .concat (named name n l) (named name (n + l.slots.length) r)
  | .not e => .not (named name n e)
  | .negate e => .negate (named name n e)
  | .isNull e negated => .isNull (named name n e) negated
  | .like e pattern => .like (named name n e) (named name (n + e.slots.length) pattern)
  | .inList e items negated =>
    .inList (named name n e) (namedAll name (n + e.slots.length) items) negated
  | .inSelect e selector table tableAlias condition negated =>
    .inSelect (named name n e) (named name (n + e.slots.length) selector) table tableAlias
      (named name (n + e.slots.length + selector.slots.length) condition) negated
  | .apply f args => .apply f (namedAll name n args)

def namedAll (name : Nat → String) (n : Nat) : List (SqlTree α) → List (SqlTree String)
  | [] => []
  | e :: es => named name n e :: namedAll name (n + e.slots.length) es

end

/-- A comparison with the literal for true. -/
def isTrue (e : SqlTree α) : SqlTree α := .binary .eq e (.number "1")

/-- A condition that holds for every row, or for none. -/
def truth (holds : Bool) : SqlTree α :=
  .binary .eq (.number "1") (.number (if holds then "1" else "0"))

/-- The operands joined from left to right. -/
def joined : List (SqlTree α) → SqlTree α
  | [] => .text ""
  | e :: es => es.foldl .concat e

theorem slots_foldl_concat (e : SqlTree α) (es : List (SqlTree α)) :
    (es.foldl .concat e).slots = e.slots ++ slotsAll es := by
  induction es generalizing e with
  | nil => simp [slotsAll]
  | cons x es ih => simp [ih, slots, slotsAll]

theorem named_foldl_concat (name : Nat → String) (n : Nat) (e : SqlTree α) (es : List (SqlTree α)) :
    (es.foldl .concat e).named name n = (namedAll name (n + e.slots.length) es).foldl .concat
      (e.named name n) := by
  induction es generalizing e with
  | nil => simp [namedAll]
  | cons x es ih => simp [ih, named, namedAll, slots, Nat.add_assoc]

end SqlTree

/-! ## The image of an expression -/

/-- Where an expression stands. -/
inductive Place where
  | condition
  | value

/-- An operand and its image as a value. -/
structure Depicted where
  expr : Expr
  image : SqlTree Slot

namespace Expr

/-- Whether the expression has a value and this value counts as true. -/
def isTrueUnder (args : Option Arguments) (e : Expr) : Bool :=
  match e.evaluate args with
  | .ok v => v.bool? = some true
  | .error _ => false

/-- An expression that reaches no row. -/
def fixedImage (args : Option Arguments) (place : Place) (e : Expr) : SqlTree Slot :=
  match place with
  | .value => .placeholder ⟨e, .exact⟩
  | .condition => if e.hasCaptures then SqlTree.isTrue (.placeholder ⟨e, .exact⟩)
      else .truth (e.isTrueUnder args)

/-- A column of the innermost binding of the index. -/
def memberImage (bs : List Binding) (place : Place) (m : Member) : SqlTree Slot :=
  let tableAlias := ((bs.find? fun b => b.index = m.index).map Binding.tableAlias).getD m.index
  match place with
  | .value => .column tableAlias m.column
  | .condition => SqlTree.isTrue (.column tableAlias m.column)

/-- An operator between two values. Equality with a fixed null is a test for null. -/
def operationImage (args : Option Arguments) (op : BinaryOp) (l r : Depicted) : SqlTree Slot :=
  if (op = .eq ∨ op = .ne) ∧ l.expr.isRowDependent = false ∧ l.expr.isNullUnder args = true then
    .isNull r.image (op = .ne)
  else if (op = .eq ∨ op = .ne) ∧ r.expr.isRowDependent = false ∧
      r.expr.isNullUnder args = true then
    .isNull l.image (op = .ne)
  else .binary op l.image r.image

/-- A search pattern: a fixed one is bound with its wildcards, another joined with them. -/
def patternImage (affix : Affix) (pattern : Depicted) : SqlTree Slot :=
  if pattern.expr.isRowDependent then
    match affix with
    | .exact => pattern.image
    | .atStart => .concat pattern.image (.text "%")
    | .atEnd => .concat (.text "%") pattern.image
    | .anywhere => .concat (.concat (.text "%") pattern.image) (.text "%")
  else .placeholder ⟨pattern.expr, affix⟩

/-- Membership in a list: nothing is a member of the empty one, and one item is compared. -/
def membershipImage (args : Option Arguments) (negated : Bool) : List Depicted → SqlTree Slot
  | [] | [_] => .truth negated
  | [target, item] => operationImage args (if negated then .ne else .eq) target item
  | target :: items => .inList target.image (items.map Depicted.image) negated

/-- A method over its receiver and arguments; what a method does not take is left out. -/
def methodImage (args : Option Arguments) (method : Method) (os : List Depicted) : SqlTree Slot :=
  match method, os with
  | .startsWith, target :: pattern :: _ => .like target.image (patternImage .atStart pattern)
  | .endsWith, target :: pattern :: _ => .like target.image (patternImage .atEnd pattern)
  | .contains, target :: pattern :: _ => .like target.image (patternImage .anywhere pattern)
  | .isIn, os => membershipImage args false os
  | .isNotIn, os => membershipImage args true os
  | .concat, os => .joined (os.map Depicted.image)
  | .toUpper, target :: _ => .apply "UPPER" [target.image]
  | .toLower, target :: _ => .apply "LOWER" [target.image]
  | method, os => .apply method.name (os.map Depicted.image)

/-- The first of the operands. -/
def receiverImage : List Depicted → SqlTree Slot
  | target :: _ => target.image
  | [] => .text ""

mutual

/-- The tree that an expression stands for, under the indexes that are bound. -/
def image (t : Target) (bs : List Binding) (place : Place) (e : Expr) : SqlTree Slot :=
  match e with
  | .const v => fixedImage t.arguments place (.const v)
  | .capture c => fixedImage t.arguments place (.capture c)
  | .member m => memberImage bs place m
  | .unary op inner =>
    if !e.isRowDependent then fixedImage t.arguments place e
    else
      match op with
      | .not => .not (image t bs .condition inner)
      | .negate => .negate (image t bs .value inner)
  | .binary op l r =>
    if !e.isRowDependent then fixedImage t.arguments place e
    else if op.isLogical then .binary op (image t bs .condition l) (image t bs .condition r)
    else operationImage t.arguments op ⟨l, image t bs .value l⟩ ⟨r, image t bs .value r⟩
  | .call method args =>
    if !e.isRowDependent then fixedImage t.arguments place e
    else methodImage t.arguments method (depictions t bs args)
  | .inQuery negated index selector inner args =>
    let tableAlias := index ++ "_" ++ toString bs.length
    let inside := ⟨index, tableAlias⟩ :: bs
    .inSelect (receiverImage (depictions t bs args)) (memberImage inside .value selector)
      (t.names.index index) tableAlias (image t inside .condition inner) negated
  | .convert inner _ =>
    if !e.isRowDependent then fixedImage t.arguments place e
    else image t bs place inner

def depictions (t : Target) (bs : List Binding) (es : List Expr) : List Depicted :=
  match es with
  | [] => []
  | e :: es => ⟨e, image t bs .value e⟩ :: depictions t bs es

end

end Expr

/-- The two dialects differ in no text an expression is rendered to. -/
theorem Sql.IsPhrase.read_named {sql : Sql} {e : SqlTree Slot} {n : Nat} {d : Dialect}
    (h : sql.IsPhrase (e.named Dialect.standard.parameter n))
    (dialect : d = .standard ∨ d = .sqlite) :
    SqlReader.read (sql.text d) = some (e.named d.parameter n) := by
  rcases dialect with rfl | rfl
  · exact h.read
  · rw [text_sqlite]
    exact h.read

/-! ## What compiling binds -/

/-- Values bound one after another. -/
def Parameters.pushAll (name : Nat → String) (ps : Parameters) (vs : List Value) : Parameters :=
  vs.foldl (fun ps v => ps.push (name ps.size) v) ps

theorem Parameters.size_pushAll (name : Nat → String) (ps : Parameters) (vs : List Value) :
    (ps.pushAll name vs).size = ps.size + vs.length := by
  unfold pushAll
  induction vs generalizing ps with
  | nil => rfl
  | cons v vs ih =>
    rw [List.foldl_cons, ih, Compile.size_push, List.length_cons]
    omega

/-- A compilation that binds the slots and comes back to the same indexes. -/
structure Compilation.Binds (t : Target) (c : Compilation) (slots : List Slot)
    (d : Compilation) : Prop where
  bindings : d.bindings = c.bindings
  parameters : d.parameters = c.parameters.pushAll t.dialect.parameter
    (slots.map (Slot.value t.arguments))

namespace Compilation.Binds

variable {t : Target} {c d e : Compilation} {slots slots' : List Slot}

theorem nothing (t : Target) (c : Compilation) : c.Binds t [] c := ⟨rfl, rfl⟩

theorem trans (h : c.Binds t slots d) (h' : d.Binds t slots' e) :
    c.Binds t (slots ++ slots') e where
  bindings := h'.bindings.trans h.bindings
  parameters := by
    rw [h'.parameters, h.parameters, List.map_append]
    exact List.foldl_append.symm

theorem size_eq (h : c.Binds t slots d) : d.parameters.size = c.parameters.size + slots.length := by
  rw [h.parameters, Parameters.size_pushAll, List.length_map]

end Compilation.Binds

namespace Compile

variable {α β γ : Type} {t : Target}

/-- A step that binds slots and answers something with a meaning, which both
depend on the indexes that are bound, and the meaning on how many parameters are. -/
def Renders (t : Target) (slots : List Binding → List Slot) (means : List Binding → Nat → α → Prop)
    (x : Compile α) : Prop :=
  ∀ ⦃c d : Compilation⦄ ⦃r : α⦄, Gives x c r d →
    c.Binds t (slots c.bindings) d ∧ means c.bindings c.parameters.size r

namespace Renders

variable {s s' : List Binding → List Slot}
variable {m : List Binding → Nat → α → Prop} {k : List Binding → Nat → β → Prop}
variable {o : List Binding → Nat → γ → Prop}

theorem fail {err : Error} : Renders t s m (fail err) := fun _ _ _ h => absurd h not_gives_fail

theorem pure {r : α} (h : ∀ bs n, m bs n r) : Renders t (fun _ => []) m (Pure.pure r) := by
  intro c d r' hx
  obtain ⟨rfl, rfl⟩ := gives_pure_iff.1 hx
  exact ⟨.nothing t d, h _ _⟩

theorem map {x : Compile α} (h : Renders t s m x) {f : α → β}
    (means : ∀ bs n r, m bs n r → k bs n (f r)) :
    Renders t s k (do let r ← x; Pure.pure (f r)) := by
  intro c d r hx
  obtain ⟨p, d, hp, hr⟩ := gives_bind_iff.1 hx
  obtain ⟨rfl, rfl⟩ := gives_pure_iff.1 hr
  obtain ⟨binds, hm⟩ := h hp
  exact ⟨binds, means _ _ _ hm⟩

theorem map₂ {x : Compile α} {y : Compile β} (hx : Renders t s m x) (hy : Renders t s' k y)
    {f : α → β → γ} (means : ∀ bs n p q, m bs n p → k bs (n + (s bs).length) q → o bs n (f p q)) :
    Renders t (fun bs => s bs ++ s' bs) o (do let p ← x; let q ← y; Pure.pure (f p q)) := by
  intro c d r h
  obtain ⟨p, c₁, hp, h₁⟩ := gives_bind_iff.1 h
  obtain ⟨q, c₂, hq, h₂⟩ := gives_bind_iff.1 h₁
  obtain ⟨rfl, rfl⟩ := gives_pure_iff.1 h₂
  obtain ⟨binds, hm⟩ := hx hp
  obtain ⟨binds', hk⟩ := hy hq
  -- The second step starts under the indexes of the first, and after its slots.
  rw [binds.bindings] at binds' hk
  rw [binds.size_eq] at hk
  exact ⟨binds.trans binds', means _ _ _ _ hm hk⟩

end Renders

variable (t) in
/-- A step that answers an operand with an image. -/
def RendersOperand (image : List Binding → SqlTree Slot) (x : Compile Sql) : Prop :=
  Renders t (fun bs => (image bs).slots)
    (fun bs n sql => sql.IsOperand ((image bs).named Dialect.standard.parameter n)) x

variable (t) in
/-- A step that answers a phrase with an image. -/
def RendersPhrase (image : List Binding → SqlTree Slot) (x : Compile Sql) : Prop :=
  Renders t (fun bs => (image bs).slots)
    (fun bs n sql => sql.IsPhrase ((image bs).named Dialect.standard.parameter n)) x

variable (t) in
/-- A step that answers operands with images. -/
def RendersOperands (images : List Binding → List (SqlTree Slot)) (x : Compile (List Sql)) : Prop :=
  Renders t (fun bs => SqlTree.slotsAll (images bs))
    (fun bs n sqls =>
      List.Forall₂ Sql.IsOperand sqls (SqlTree.namedAll Dialect.standard.parameter n (images bs))) x

variable {x y : Compile Sql} {i j : List Binding → SqlTree Slot}

theorem RendersOperand.phrase (h : RendersOperand t i x) : RendersPhrase t i x := by
  intro c d r hx
  obtain ⟨binds, operand⟩ := h hx
  exact ⟨binds, operand.phrase⟩

/-! ### Parts -/

theorem renders_bindExpr (affix : Affix) (e : Expr) :
    RendersOperand t (fun _ => .placeholder ⟨e, affix⟩) (bindExpr t affix e) := by
  intro c d r h
  obtain ⟨v, value, rfl, rfl⟩ := gives_bindExpr_iff.1 h
  refine ⟨⟨rfl, ?_⟩, Sql.isOperand_param c.parameters.size⟩
  have bound : Slot.value t.arguments ⟨e, affix⟩ = affix.apply v := by
    rw [Slot.value, value]
  simp only [SqlTree.slots, List.map_cons, List.map_nil, bound]
  rfl

theorem RendersOperand.isTrue (h : RendersOperand t i x) :
    RendersPhrase t (fun bs => (i bs).isTrue) (do let e ← x; pure e.isTrue) := by
  have same : (fun bs => (i bs).isTrue.slots) = fun bs => (i bs).slots := by
    funext bs
    simp [SqlTree.isTrue, SqlTree.slots]
  unfold RendersPhrase
  rw [same]
  exact h.map fun bs n r operand => Sql.isPhrase_isTrue operand

theorem renders_fixedCondition (e : Expr) :
    RendersPhrase t (fun _ => e.fixedImage t.arguments .condition) (fixedCondition t e) := by
  by_cases reads : e.hasCaptures = true
  · simp only [fixedCondition, Expr.fixedImage, if_pos reads]
    exact (renders_bindExpr .exact e).isTrue
  · intro c d r h
    obtain ⟨rfl, v, value, rfl⟩ := gives_fixedCondition reads h
    have under : e.isTrueUnder t.arguments = decide (v.bool? = some true) := by
      rw [Expr.isTrueUnder, value]
    simp only [Expr.fixedImage, if_neg reads, under]
    exact ⟨.nothing t d, Sql.isPhrase_truth _⟩

theorem renders_member (m : Member) :
    RendersOperand t (fun bs => Expr.memberImage bs .value m) (member m) := by
  intro c d r h
  obtain ⟨_, rfl, b, found, rfl⟩ := gives_member_iff.1 h
  simp only [Expr.memberImage, found]
  exact ⟨.nothing t d, Sql.isOperand_column b.tableAlias m.column⟩

theorem RendersPhrase.paren (h : RendersPhrase t i x) : RendersOperand t i (parenthesized x) :=
  h.map fun _ _ _ phrase => Sql.isOperand_paren phrase

theorem RendersPhrase.negation (h : RendersPhrase t i x) :
    RendersPhrase t (fun bs => .not (i bs)) (negation x) := by
  unfold RendersPhrase
  simp only [SqlTree.slots, SqlTree.named]
  exact h.map fun _ _ _ phrase => Sql.isPhrase_not (Sql.isOperand_paren phrase)

theorem renders_logical {op : BinaryOp} (logical : op.isLogical = true) (hx : RendersPhrase t i x)
    (hy : RendersPhrase t j y) :
    RendersOperand t (fun bs => .binary op (i bs) (j bs)) (Compile.logical op x y) := by
  unfold RendersOperand
  simp only [SqlTree.slots, SqlTree.named]
  exact hx.map₂ hy fun _ _ _ _ hp hq => Sql.isOperand_logical logical hp hq

/-- A comparison of operands as they are. -/
theorem renders_plainly {op : BinaryOp} (tight : op.isLogical = false) (hx : RendersOperand t i x)
    (hy : RendersOperand t j y) :
    RendersPhrase t (fun bs => .binary op (i bs) (j bs))
      (do let l ← x; let r ← y; pure (.binary op l r)) := by
  unfold RendersPhrase
  simp only [SqlTree.slots, SqlTree.named]
  exact hx.map₂ hy fun _ _ _ _ hp hq => Sql.isPhrase_binary tight hp hq

theorem renders_negate (h : RendersOperand t i x) :
    RendersOperand t (fun bs => .negate (i bs)) (do let e ← x; pure (.paren (.negate e))) := by
  unfold RendersOperand
  simp only [SqlTree.slots, SqlTree.named]
  exact h.map fun _ _ _ operand => Sql.isOperand_paren (Sql.isPhrase_negate operand)

theorem renders_arithmetic {op : BinaryOp} (tight : op.isLogical = false)
    (hx : RendersOperand t i x) (hy : RendersOperand t j y) :
    RendersOperand t (fun bs => .binary op (i bs) (j bs))
      (do let l ← x; let r ← y; pure (.paren (.binary op l r))) := by
  unfold RendersOperand
  simp only [SqlTree.slots, SqlTree.named]
  exact hx.map₂ hy fun _ _ _ _ hp hq => Sql.isOperand_paren (Sql.isPhrase_binary tight hp hq)

/-- A test for null binds what the operand does. -/
theorem renders_isNull (negated : Bool) (h : RendersOperand t i x) :
    RendersPhrase t (fun bs => .isNull (i bs) negated)
      (do let e ← x; pure (.isNull e negated)) := by
  unfold RendersPhrase
  simp only [SqlTree.slots, SqlTree.named]
  exact h.map fun _ _ _ operand => Sql.isPhrase_isNull operand negated

theorem renders_comparison {op : BinaryOp} (tight : op.isLogical = false) {l r : Expr}
    (hl : RendersOperand t i (value t l)) (hr : RendersOperand t j (value t r)) :
    RendersPhrase t (fun bs => Expr.operationImage t.arguments op ⟨l, i bs⟩ ⟨r, j bs⟩)
      (comparison t op ⟨l, value t l⟩ ⟨r, value t r⟩) := by
  intro c d e h
  have ways := gives_comparison_under h
  unfold Expr.operationImage
  simp only
  split at ways
  · next left =>
    simp only [if_pos left]
    obtain ⟨x, hx, rfl⟩ := ways
    exact renders_isNull _ hr (gives_bind_iff.2 ⟨x, d, hx, gives_pure_iff.2 ⟨rfl, rfl⟩⟩)
  · next left =>
    simp only [if_neg left]
    split at ways
    · next right =>
      simp only [if_pos right]
      obtain ⟨x, hx, rfl⟩ := ways
      exact renders_isNull _ hl (gives_bind_iff.2 ⟨x, d, hx, gives_pure_iff.2 ⟨rfl, rfl⟩⟩)
    · next right =>
      simp only [if_neg right]
      obtain ⟨x, y, c₁, hx, hy, rfl⟩ := ways
      exact renders_plainly tight hl hr
        (gives_bind_iff.2 ⟨x, c₁, hx, gives_bind_iff.2 ⟨y, d, hy, gives_pure_iff.2 ⟨rfl, rfl⟩⟩⟩)

theorem renders_pattern (affix : Affix) {pattern : Expr}
    (h : RendersOperand t i (value t pattern)) :
    RendersOperand t (fun bs => Expr.patternImage affix ⟨pattern, i bs⟩)
      (patternStep t affix ⟨pattern, value t pattern⟩) := by
  unfold patternStep Expr.patternImage
  by_cases row : pattern.isRowDependent = true
  · simp only [row, if_true]
    have wild := Sql.isOperand_string "%"
    cases affix with
    | exact => exact h.map fun _ _ _ p => Sql.isOperand_concat (.cons p .nil)
    | atStart =>
      unfold RendersOperand
      simp only [SqlTree.slots, SqlTree.named, List.append_nil]
      exact h.map fun _ _ _ p => Sql.isOperand_concat (.cons p (.cons wild .nil))
    | atEnd =>
      unfold RendersOperand
      simp only [SqlTree.slots, SqlTree.named, List.nil_append, List.length_nil, Nat.add_zero]
      exact h.map fun _ _ _ p => Sql.isOperand_concat (.cons wild (.cons p .nil))
    | anywhere =>
      unfold RendersOperand
      simp only [SqlTree.slots, SqlTree.named, List.nil_append, List.append_nil, List.length_nil,
        Nat.add_zero]
      exact h.map fun _ _ _ p => Sql.isOperand_concat (.cons wild (.cons p (.cons wild .nil)))
  · simp only [row]
    exact renders_bindExpr affix pattern

/-! ### Methods -/

section Methods

variable {es : List Expr}
  (operand : ∀ e ∈ es, RendersOperand t (fun bs => e.image t bs .value) (value t e))
include operand

theorem renders_values : RendersOperands t (fun bs => (Expr.depictions t bs es).map Depicted.image)
    (values (operands t es)) := by
  induction es with
  | nil =>
    unfold RendersOperands
    simp only [Expr.depictions, List.map_nil, SqlTree.slotsAll, SqlTree.namedAll]
    exact Renders.pure fun _ _ => .nil
  | cons e es ih =>
    obtain ⟨here, later⟩ := List.forall_mem_cons.1 operand
    unfold RendersOperands
    simp only [Expr.depictions, List.map_cons, SqlTree.slotsAll, SqlTree.namedAll]
    exact Renders.map₂ here (ih later) fun _ _ _ _ hp hq => .cons hp hq

theorem renders_receiver (name : String) :
    RendersOperand t (fun bs => Expr.receiverImage (Expr.depictions t bs es))
      (receiver name (operands t es)) := by
  cases es with
  | nil => exact Renders.fail
  | cons e es =>
    simp only [Expr.depictions, Expr.receiverImage]
    exact operand e List.mem_cons_self

theorem renders_like (affix : Affix) {method : Method}
    (depicts : ∀ target pattern rest,
      Expr.methodImage t.arguments method (target :: pattern :: rest) =
      .like target.image (Expr.patternImage affix pattern)) :
    RendersPhrase t (fun bs => Expr.methodImage t.arguments method (Expr.depictions t bs es))
      (like t affix (operands t es)) := by
  rcases es with _ | ⟨target, _ | ⟨pattern, rest⟩⟩
  · exact Renders.fail
  · exact Renders.fail
  · have left := operand target (by simp)
    have right := renders_pattern affix (operand pattern (by simp))
    simp only [operands, like_eq, Expr.depictions, depicts]
    unfold RendersPhrase
    simp only [SqlTree.slots, SqlTree.named]
    exact Renders.map₂ left right fun _ _ _ _ hp hq => Sql.isPhrase_like hp hq

theorem renders_membership (negated : Bool) :
    RendersPhrase t (fun bs => Expr.membershipImage t.arguments negated (Expr.depictions t bs es))
      (membership t negated (operands t es)) := by
  rcases es with _ | ⟨target, _ | ⟨item, _ | ⟨item', rest⟩⟩⟩
  · exact Renders.fail
  · exact Renders.pure fun _ _ => Sql.isPhrase_truth negated
  · have tight : (if negated then BinaryOp.ne else .eq).isLogical = false := by
      cases negated <;> rfl
    exact renders_comparison tight (operand target (by simp)) (operand item (by simp))
  · obtain ⟨first, items⟩ := List.forall_mem_cons.1 operand
    have listed := renders_values items
    unfold RendersPhrase
    simp only [Expr.depictions, Expr.membershipImage, SqlTree.slots, SqlTree.named]
    refine Renders.map₂ first listed fun bs n p q hp hq => Sql.isPhrase_inList hp hq ?_ negated
    rintro rfl
    cases hq

theorem renders_callCondition (method : Method) :
    RendersPhrase t (fun bs => Expr.methodImage t.arguments method (Expr.depictions t bs es))
      (callCondition t method (operands t es)) := by
  cases method with
  | startsWith => exact renders_like operand .atStart fun _ _ _ => rfl
  | endsWith => exact renders_like operand .atEnd fun _ _ _ => rfl
  | contains => exact renders_like operand .anywhere fun _ _ _ => rfl
  | isIn => exact renders_membership operand false
  | isNotIn => exact renders_membership operand true
  | host _ | concat | toUpper | toLower => exact Renders.fail

theorem renders_callValue (method : Method) (row : Expr.anyRowDependent es = true) :
    RendersOperand t (fun bs => Expr.methodImage t.arguments method (Expr.depictions t bs es))
      (callValue t method (operands t es)) := by
  have condition := (renders_callCondition operand method).paren
  cases es with
  | nil => cases row
  | cons e es =>
    have first := operand e List.mem_cons_self
    cases method with
    | concat =>
      have parts := renders_values operand
      unfold RendersOperands at parts
      unfold RendersOperand
      simp only [Expr.methodImage, Expr.depictions, List.map_cons, SqlTree.joined, SqlTree.slotsAll,
        SqlTree.namedAll, SqlTree.slots_foldl_concat, SqlTree.named_foldl_concat] at parts ⊢
      refine parts.map fun bs n sqls read => ?_
      cases read with
      | cons p ps => exact Sql.isOperand_concat (.cons p ps)
    | toUpper =>
      unfold RendersOperand
      simp only [Expr.depictions, Expr.methodImage, SqlTree.slots, SqlTree.slotsAll, SqlTree.named,
        SqlTree.namedAll, List.append_nil]
      exact first.map fun _ _ _ => Sql.isOperand_upper
    | toLower =>
      unfold RendersOperand
      simp only [Expr.depictions, Expr.methodImage, SqlTree.slots, SqlTree.slotsAll, SqlTree.named,
        SqlTree.namedAll, List.append_nil]
      exact first.map fun _ _ _ => Sql.isOperand_lower
    | startsWith | endsWith | contains | isIn | isNotIn | host _ => exact condition

/-- A subquery has an alias of its own, under which its condition stands. -/
theorem renders_subquery (negated : Bool) (index : String) (selector : Member) {inner : Expr}
    (filter : RendersPhrase t (fun bs => inner.image t bs .condition) (condition t inner)) :
    RendersPhrase t (fun bs =>
        Expr.image t bs .condition (.inQuery negated index selector inner es))
      (subquery t negated index selector (condition t inner) (operands t es)) := by
  intro c d r h
  obtain ⟨left, c₁, binding, inside, c₂, hleft, found, hinside, rfl, rfl⟩ := gives_subquery h
  obtain ⟨binds, target⟩ := renders_receiver operand _ hleft
  obtain ⟨binds', phrase⟩ := filter hinside
  have later : c₁.Binds t _ { c₂ with bindings := c₂.bindings.tail } :=
    ⟨congrArg List.tail binds'.bindings, binds'.parameters⟩
  rw [binds.bindings] at later phrase found ⊢
  rw [binds.size_eq] at phrase
  simp only [Expr.image, Expr.memberImage, found, Option.map_some, Option.getD_some, SqlTree.slots,
    SqlTree.named, List.nil_append, List.length_nil, Nat.add_zero]
  exact ⟨binds.trans later,
    Sql.isPhrase_inSelect target (Sql.isOperand_column _ _) (t.names.index index) _ phrase negated⟩

end Methods

mutual

/-- Conditions have their image as conditions. -/
theorem renders_condition :
    (e : Expr) → RendersPhrase t (fun bs => e.image t bs .condition) (condition t e)
  | .const v => by
    simp only [condition, Expr.image]
    exact renders_fixedCondition (.const v)
  | .capture c => by
    simp only [condition, Expr.image]
    exact renders_fixedCondition (.capture c)
  | .member m => by
    simp only [condition, Expr.image]
    exact (renders_member m).isTrue
  | .unary op inner => by
    simp only [condition, Expr.image]
    cases row : (Expr.unary op inner).isRowDependent with
    | false => exact renders_fixedCondition _
    | true =>
      cases op with
      | not => exact (renders_condition inner).negation
      | negate => exact Renders.fail
  | .binary op l r => by
    simp only [condition, Expr.image]
    cases row : (Expr.binary op l r).isRowDependent with
    | false => exact renders_fixedCondition _
    | true =>
      simp only [Bool.not_true, Bool.false_eq_true, if_false]
      split
      · next logical =>
          exact (renders_logical logical (renders_condition l) (renders_condition r)).phrase
      · next tight =>
        split
        · exact renders_comparison (by simpa using tight) (renders_value l) (renders_value r)
        · exact Renders.fail
  | .call method args => by
    simp only [condition, Expr.image]
    cases row : (Expr.call method args).isRowDependent with
    | false => exact renders_fixedCondition _
    | true => exact renders_callCondition (renders_operands args) method
  | .inQuery negated index selector inner args => by
    simp only [condition]
    exact renders_subquery (renders_operands args) negated index selector (renders_condition inner)
  | .convert inner kind => by
    simp only [condition, Expr.image]
    cases row : (Expr.convert inner kind).isRowDependent with
    | false => exact renders_fixedCondition _
    | true => exact renders_condition inner

/-- Values have their image as values. -/
theorem renders_value : (e : Expr) → RendersOperand t (fun bs => e.image t bs .value) (value t e)
  | .const v => by
    simp only [value, Expr.image]
    exact renders_bindExpr .exact (.const v)
  | .capture c => by
    simp only [value, Expr.image]
    exact renders_bindExpr .exact (.capture c)
  | .member m => by
    simp only [value, Expr.image]
    exact renders_member m
  | .unary op inner => by
    simp only [value, Expr.image]
    cases row : (Expr.unary op inner).isRowDependent with
    | false => exact renders_bindExpr .exact _
    | true =>
      cases op with
      | not => exact (renders_condition inner).negation.paren
      | negate => exact renders_negate (renders_value inner)
  | .binary op l r => by
    simp only [value, Expr.image]
    cases row : (Expr.binary op l r).isRowDependent with
    | false => exact renders_bindExpr .exact _
    | true =>
      simp only [Bool.not_true, Bool.false_eq_true, if_false]
      split
      · next logical =>
          exact (renders_logical logical (renders_condition l) (renders_condition r)).phrase.paren
      · next tight =>
        split
        · exact (renders_comparison (by simpa using tight) (renders_value l)
            (renders_value r)).paren
        · next other =>
          have unequal : ¬(op = .eq ∨ op = .ne) := by
            rintro (rfl | rfl) <;> exact other rfl
          simp only [Expr.operationImage, unequal, false_and, if_false]
          exact renders_arithmetic (by simpa using tight) (renders_value l) (renders_value r)
  | .call method args => by
    simp only [value, Expr.image]
    cases row : (Expr.call method args).isRowDependent with
    | false => exact renders_bindExpr .exact _
    | true => exact renders_callValue (renders_operands args) method row
  | .inQuery negated index selector inner args => by
    simp only [value]
    exact (renders_subquery (renders_operands args) negated index selector
      (renders_condition inner)).paren
  | .convert inner kind => by
    simp only [value, Expr.image]
    cases row : (Expr.convert inner kind).isRowDependent with
    | false => exact renders_bindExpr .exact _
    | true => exact renders_value inner

theorem renders_operands : (es : List Expr) →
    ∀ e ∈ es, RendersOperand t (fun bs => e.image t bs .value) (value t e)
  | [] => fun _ h => by cases h
  | e :: es => List.forall_mem_cons.2 ⟨renders_value e, renders_operands es⟩

end

/-- Rendering an expression in a place. -/
def rendering (t : Target) : Place → Expr → Compile Sql
  | .condition => condition t
  | .value => value t

/-- The text of every expression that compiles, in the standard dialect or
SQLite's, reads as the image of the expression, with the placeholders in order,
and the values of its slots are bound to them in the same order. -/
theorem read_rendering {t : Target} (dialect : t.dialect = .standard ∨ t.dialect = .sqlite)
    {place : Place} {e : Expr} {c d : Compilation} {sql : Sql}
    (h : Gives (rendering t place e) c sql d) : SqlReader.read (sql.text t.dialect) =
        some ((e.image t c.bindings place).named t.dialect.parameter c.parameters.size) ∧
      d.parameters = c.parameters.pushAll t.dialect.parameter
        ((e.image t c.bindings place).slots.map (Slot.value t.arguments)) := by
  have phrase : RendersPhrase t (fun bs => e.image t bs place) (rendering t place e) := by
    cases place with
    | condition => exact renders_condition e
    | value => exact (renders_value e).phrase
  obtain ⟨binds, reads⟩ := phrase h
  exact ⟨reads.read_named dialect, binds.parameters⟩

/-- Rows of a quoted index that are not below a product and are flagged, or
whose name is missing. -/
def quotedCondition : Expr :=
  let index : IndexType :=
    ⟨"Say \"hi\"", [⟨"n", .integer, false⟩, ⟨"it's", .boolean, false⟩, ⟨"name", .text, true⟩], some⟩
  .binary .or
    (.and (.unary .not (.binary .lt (.unary .negate (index.field "n"))
      (.binary .mul (.binary .sub (index.field "n") (.const (.int 1))) (index.field "n"))))
      (index.field "it's"))
    (.eq (index.field "name") (.const .null))

/-- Nested operators and quoted names come back as they were. -/
theorem read_rendering_quoted : ∃ sql d,
    Gives (rendering ⟨.sqlite, ⟨"", ""⟩, none⟩ .condition quotedCondition)
        ⟨[⟨"Say \"hi\"", "Say \"hi\""⟩], ∅, []⟩ sql d ∧
      SqlReader.read (sql.text .sqlite) =
        some (.binary .or
          (.binary .and
            (.not (.binary .lt (.negate (.column "Say \"hi\"" "n"))
              (.binary .mul (.binary .sub (.column "Say \"hi\"" "n") (.placeholder "@p0"))
                (.column "Say \"hi\"" "n"))))
            (.binary .eq (.column "Say \"hi\"" "it's") (.number "1")))
          (.isNull (.column "Say \"hi\"" "name") false)) := by
  obtain ⟨sql, d, h⟩ : ∃ sql d,
    Gives (rendering ⟨.sqlite, ⟨"", ""⟩, none⟩ .condition quotedCondition)
      ⟨[⟨"Say \"hi\"", "Say \"hi\""⟩], ∅, []⟩ sql d := ⟨_, _, rfl⟩
  have reads := (read_rendering (.inr rfl) h).1
  exact ⟨sql, d, h, reads⟩

end Compile

end DocStore

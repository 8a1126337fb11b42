import DocStore.Proofs.NullTests

/-!
# What every compiling step does

Conditions, values and order terms compile to steps that are put together in a
few ways. `Compile.Carries` is a property of steps that all of these keep, whether
a step succeeds or fails, and so has every step that an expression compiles to.
-/

set_option autoImplicit false

namespace DocStore

/-- A property of expressions that all the operands of such an expression have. -/
structure Expr.Inherited (known : Expr → Prop) : Prop where
  unary : ∀ {op e}, known (.unary op e) → known e
  binary : ∀ {op l r}, known (.binary op l r) → known l ∧ known r
  call : ∀ {method args}, known (.call method args) → ∀ e ∈ args, known e
  inQuery : ∀ {negated index selector condition args},
    known (.inQuery negated index selector condition args) →
    known condition ∧ ∀ e ∈ args, known e
  convert : ∀ {e kind}, known (.convert e kind) → known e

namespace Compile

/-- What the compiler itself turns down. -/
inductive TurnsDown : Error → Prop where
  | invalid (cause : Invalid) : TurnsDown (.invalid cause)
  | notTruthValue (v : Value) : TurnsDown (.unsupported (.notTruthValue v))
  | notCondition (what : String) : TurnsDown (.unsupported (.notCondition what))
  | unknownColumn (index column : String) : TurnsDown (.unsupported (.unknownColumn index column))
  | unboundIndex (index : String) : TurnsDown (.unsupported (.unboundIndex index))
  | noSqlForm (method : String) : TurnsDown (.unsupported (.noSqlForm method))

/-- A property of steps that every way of putting steps together keeps, where known expressions are
evaluated if they reach no row. -/
structure Carries (t : Target) (known : Expr → Prop)
    (P : (α : Type) → Compile α → Prop) : Prop where
  pure : ∀ {α : Type} (a : α), P α (Pure.pure a)
  bind : ∀ {α β : Type} {x : Compile α} {f : α → Compile β},
    P α x → (∀ a, P β (f a)) → P β (x >>= f)
  get : P Compilation MonadState.get
  fail : ∀ {α : Type} {err}, TurnsDown err → P α (Compile.fail err)
  withIndex : ∀ {α : Type} {x : Compile α} (index tableAlias : String),
    P α x → P α (Compile.withIndex index tableAlias x)
  evaluate : ∀ {e : Expr}, known e → e.isRowDependent = false →
    P Value (ofExcept (e.evaluate t.arguments))
  bindExpr : ∀ {e : Expr}, known e → e.isRowDependent = false →
    ∀ affix, P Sql (Compile.bindExpr t affix e)

/-- An operand of a known expression, with a step that has the property. -/
structure Operand.Carried (known : Expr → Prop) (P : (α : Type) → Compile α → Prop)
    (o : Operand) : Prop where
  value : P Sql o.value
  known : known o.expr

namespace Carries

variable {t : Target} {known : Expr → Prop} {P : (α : Type) → Compile α → Prop} {e : Expr}
  {x y : Compile Sql}

section Steps

variable (h : Carries t known P)
include h

/-- What a step answers may be made into something else. -/
theorem andThen {α β : Type} {x : Compile α} (hx : P α x) (f : α → β) :
    P β (x >>= fun a => Pure.pure (f a)) :=
  h.bind hx fun a => h.pure (f a)

omit h in
theorem ite {α : Type} {p : Prop} [Decidable p] {x y : Compile α} (hx : p → P α x)
    (hy : ¬p → P α y) : P α (if p then x else y) := by
  split
  · next holds => exact hx holds
  · next fails => exact hy fails

/-- A condition on no row is evaluated, to be decided or to be bound. -/
theorem fixedCondition (he : known e) (fixed : e.isRowDependent = false) :
    P Sql (Compile.fixedCondition t e) := by
  apply ite
  · intro _
    exact h.andThen (h.bindExpr he fixed .exact) Sql.isTrue
  · intro _
    refine h.bind (h.evaluate he fixed) fun v => ?_
    split
    · exact h.pure _
    · split
      · exact h.pure _
      · exact h.fail (.notTruthValue _)

theorem fixedCondition_or (he : known e) (hx : P Sql x) :
    P Sql (if !e.isRowDependent then Compile.fixedCondition t e else x) :=
  ite (fun fixed => h.fixedCondition he (by simpa using fixed)) fun _ => hx

theorem bindExpr_or (he : known e) (hx : P Sql x) (affix : Affix) :
    P Sql (if !e.isRowDependent then Compile.bindExpr t affix e else x) :=
  ite (fun fixed => h.bindExpr he (by simpa using fixed) affix) fun _ => hx

theorem member (m : Member) : P Sql (Compile.member m) := by
  apply ite
  · intro _
    refine h.bind h.get fun c => ?_
    split
    · exact h.pure _
    · exact h.fail (.unboundIndex _)
  · intro _
    exact h.fail (.unknownColumn _ _)

theorem logical (hx : P Sql x) (hy : P Sql y) (op : BinaryOp) : P Sql (Compile.logical op x y) :=
  h.bind hx fun _ => h.andThen hy _

theorem parenthesized (hx : P Sql x) : P Sql (Compile.parenthesized x) := h.andThen hx Sql.paren

theorem negation (hx : P Sql x) : P Sql (Compile.negation x) := h.andThen hx _

theorem nullTest? {side other : Operand} (hs : known side.expr) (ho : P Sql other.value)
    (op : BinaryOp) : P (Option Sql) (Compile.nullTest? t op side other) := by
  apply ite
  · intro _
    exact h.pure none
  · intro fixed
    refine h.bind (h.evaluate hs (by simpa using fixed)) fun v =>
      ite (fun _ => ?_) fun _ => h.pure none
    exact h.andThen ho _

theorem comparison {l r : Operand} (hl : l.Carried known P) (hr : r.Carried known P)
    (op : BinaryOp) : P Sql (Compile.comparison t op l r) := by
  have plain : P Sql (do let x ← l.value; let y ← r.value; Pure.pure (Sql.binary op x y)) :=
    h.bind hl.value fun _ => h.andThen hr.value _
  refine ite (fun _ => h.bind (h.nullTest? hl.known hr.value op) fun first => ?_) fun _ => plain
  cases first with
  | some test => exact h.pure test
  | none =>
    refine h.bind (h.nullTest? hr.known hl.value op) fun second => ?_
    cases second with
    | some test => exact h.pure test
    | none => exact plain

/-! ### Methods -/

variable {os : List Operand} (operands : ∀ o ∈ os, Operand.Carried known P o)
include operands

theorem values : P (List Sql) (Compile.values os) := by
  induction os with
  | nil => exact h.pure []
  | cons o os ih =>
    obtain ⟨first, rest⟩ := List.forall_mem_cons.1 operands
    exact h.bind first.value fun _ => h.andThen (ih rest) _

theorem receiver (method : String) : P Sql (Compile.receiver method os) := by
  cases os with
  | nil => exact h.fail (.invalid _)
  | cons o os => exact (operands o List.mem_cons_self).value

theorem like (affix : Affix) : P Sql (Compile.like t affix os) := by
  rcases os with _ | ⟨target, _ | ⟨pattern, rest⟩⟩
  · exact h.fail (.invalid _)
  · exact h.fail (.invalid _)
  · have sought := operands pattern (by simp)
    have ends : P Sql (patternStep t affix pattern) :=
      ite (fun _ => h.andThen sought.value _) fun fixed =>
        h.bindExpr sought.known (by simpa using fixed) affix
    rw [like_eq]
    exact h.bind (operands target (by simp)).value fun _ => h.andThen ends _

theorem membership (negated : Bool) : P Sql (Compile.membership t negated os) := by
  rcases os with _ | ⟨target, _ | ⟨item, _ | ⟨item', rest⟩⟩⟩
  · exact h.fail (.invalid _)
  · exact h.pure _
  · exact h.comparison (operands target (by simp)) (operands item (by simp)) _
  · obtain ⟨first, items⟩ := List.forall_mem_cons.1 operands
    exact h.bind first.value fun _ => h.andThen (h.values items) _

theorem callCondition (method : Method) : P Sql (Compile.callCondition t method os) := by
  cases method with
  | startsWith | endsWith | contains => exact h.like operands _
  | isIn | isNotIn => exact h.membership operands _
  | host _ => exact h.fail (.noSqlForm _)
  | concat | toUpper | toLower => exact h.fail (.notCondition _)

theorem callValue (method : Method) : P Sql (Compile.callValue t method os) := by
  cases method with
  | concat => exact h.andThen (h.values operands) _
  | toUpper | toLower => exact h.andThen (h.receiver operands _) _
  | startsWith | endsWith | contains | isIn | isNotIn
  | host _ => exact h.andThen (h.callCondition operands _) _

theorem subquery {condition : Compile Sql} (hc : P Sql condition) (negated : Bool) (index : String)
    (selector : Member) : P Sql (Compile.subquery t negated index selector condition os) := by
  refine h.bind (h.receiver operands _) fun _ =>
    h.bind h.get fun c => h.andThen (h.withIndex _ _ ?_) _
  exact h.bind (h.member selector) fun _ => h.andThen hc _

end Steps

/-! ### Expressions -/

mutual

/-- Rendering a condition, by induction over the expression together with values and operands. -/
theorem condition (h : Carries t known P) (inherited : Expr.Inherited known) :
    (e : Expr) → known e → P Sql (Compile.condition t e)
  | .const _, he => h.fixedCondition he rfl
  | .capture _, he => h.fixedCondition he rfl
  | .member m, _ => by
    rw [Compile.condition]
    exact h.andThen (h.member m) Sql.isTrue
  | .unary op inner, he => by
    cases op <;> rw [Compile.condition] <;> refine h.fixedCondition_or he ?_
    · exact h.negation (condition h inherited inner (inherited.unary he))
    · exact h.fail (.notCondition _)
  | .binary op l r, he => by
    obtain ⟨hl, hr⟩ := inherited.binary he
    rw [Compile.condition]
    refine h.fixedCondition_or he (ite (fun _ => ?_) fun _ => ite (fun _ => ?_) fun _ => ?_)
    · exact h.logical (condition h inherited l hl) (condition h inherited r hr) op
    · exact h.comparison ⟨value h inherited l hl, hl⟩ ⟨value h inherited r hr, hr⟩ op
    · exact h.fail (.notCondition _)
  | .call method args, he => by
    rw [Compile.condition]
    exact h.fixedCondition_or he
      (h.callCondition (operands h inherited args (inherited.call he)) method)
  | .inQuery negated index selector inner args, he => by
    obtain ⟨hinner, hargs⟩ := inherited.inQuery he
    rw [Compile.condition]
    exact h.subquery (operands h inherited args hargs) (condition h inherited inner hinner) negated
      index selector
  | .convert inner kind, he => by
    rw [Compile.condition]
    exact h.fixedCondition_or he (condition h inherited inner (inherited.convert he))

theorem value (h : Carries t known P) (inherited : Expr.Inherited known) :
    (e : Expr) → known e → P Sql (Compile.value t e)
  | .const _, he => h.bindExpr he rfl .exact
  | .capture _, he => h.bindExpr he rfl .exact
  | .member m, _ => by
    rw [Compile.value]
    exact h.member m
  | .unary op inner, he => by
    cases op <;> rw [Compile.value] <;> refine h.bindExpr_or he ?_ .exact
    · exact h.parenthesized (h.negation (condition h inherited inner (inherited.unary he)))
    · exact h.andThen (value h inherited inner (inherited.unary he)) _
  | .binary op l r, he => by
    obtain ⟨hl, hr⟩ := inherited.binary he
    rw [Compile.value]
    refine h.bindExpr_or he (ite (fun _ => ?_) fun _ => ite (fun _ => ?_) fun _ => ?_) .exact
    · exact h.parenthesized (h.logical (condition h inherited l hl) (condition h inherited r hr) op)
    · exact h.parenthesized (h.comparison ⟨value h inherited l hl, hl⟩
        ⟨value h inherited r hr, hr⟩ op)
    · exact h.bind (value h inherited l hl) fun _ => h.andThen (value h inherited r hr) _
  | .call method args, he => by
    rw [Compile.value]
    exact h.bindExpr_or he (h.callValue (operands h inherited args (inherited.call he)) method)
      .exact
  | .inQuery negated index selector inner args, he => by
    obtain ⟨hinner, hargs⟩ := inherited.inQuery he
    rw [Compile.value]
    exact h.parenthesized (h.subquery (operands h inherited args hargs)
      (condition h inherited inner hinner) negated index selector)
  | .convert inner kind, he => by
    rw [Compile.value]
    exact h.bindExpr_or he (value h inherited inner (inherited.convert he)) .exact

theorem operands (h : Carries t known P) (inherited : Expr.Inherited known) :
    (es : List Expr) → (∀ e ∈ es, known e) → ∀ o ∈ Compile.operands t es, Operand.Carried known P o
  | [], _ => fun _ none => by rw [Compile.operands] at none; cases none
  | e :: es, all => by
    obtain ⟨here, later⟩ := List.forall_mem_cons.1 all
    rw [Compile.operands]
    exact List.forall_mem_cons.2 ⟨⟨value h inherited e here, here⟩, operands h inherited es later⟩

end

theorem order (h : Carries t known P) (inherited : Expr.Inherited known) {terms : List OrderTerm}
    (all : ∀ term ∈ terms, known term.expr) : P (List SqlOrder) (Compile.order t terms) := by
  induction terms with
  | nil => exact h.pure []
  | cons term terms ih =>
    obtain ⟨here, later⟩ := List.forall_mem_cons.1 all
    exact h.bind (h.value inherited term.expr here) fun _ => h.andThen (ih later) _

end Carries

end Compile

end DocStore

import DocStore.Proofs.Rebinding
import DocStore.Proofs.Rendering

/-!
# SQL without the contents of constants

What a constant holds reaches SQL as a parameter. `Expr.outline` forgets it, and
two expressions of one outline have the same operands that are tested for null
and the same conditions that are decided while compiling, place by place. If
these are null alike and true alike, the two expressions have the same SQL and
bind parameters of the same names: nothing else that a constant holds can
change a statement.
-/

set_option autoImplicit false

namespace DocStore

namespace Expr

mutual

/-- The expression without what its constants hold. -/
def outline : Expr → Expr
  | .const _ => .const .null
  | .capture c => .capture c
  | .member m => .member m
  | .unary op e => .unary op (outline e)
  | .binary op l r => .binary op (outline l) (outline r)
  | .call method args => .call method (outlines args)
  | .inQuery negated index selector inner args =>
    .inQuery negated index selector (outline inner) (outlines args)
  | .convert e kind => .convert (outline e) kind

def outlines : List Expr → List Expr
  | [] => []
  | e :: es => outline e :: outlines es

end

mutual

theorem isRowDependent_outline : (e : Expr) → e.outline.isRowDependent = e.isRowDependent
  | .const _ | .capture _ | .member _ | .inQuery _ _ _ _ _ => rfl
  | .unary _ e | .convert e _ => isRowDependent_outline e
  | .binary _ l r => by
    simp only [outline, isRowDependent, isRowDependent_outline l, isRowDependent_outline r]
  | .call _ args => anyRowDependent_outlines args

theorem anyRowDependent_outlines :
    (es : List Expr) → anyRowDependent (outlines es) = anyRowDependent es
  | [] => rfl
  | e :: es => by
    simp only [outlines, anyRowDependent, isRowDependent_outline e, anyRowDependent_outlines es]

end

mutual

theorem captures_outline : (e : Expr) → e.outline.captures = e.captures
  | .const _ | .capture _ | .member _ => rfl
  | .unary _ e | .convert e _ => captures_outline e
  | .binary _ l r => by simp only [outline, captures, captures_outline l, captures_outline r]
  | .call _ args => capturesOf_outlines args
  | .inQuery _ _ _ inner args => by
    simp only [outline, captures, captures_outline inner, capturesOf_outlines args]

theorem capturesOf_outlines : (es : List Expr) → capturesOf (outlines es) = capturesOf es
  | [] => rfl
  | e :: es => by simp only [outlines, capturesOf, captures_outline e, capturesOf_outlines es]

end

theorem hasCaptures_outline (e : Expr) : e.outline.hasCaptures = e.hasCaptures := by
  simp only [hasCaptures, captures_outline]

/-! ### Expressions of one outline -/

section SameOutline

variable {e e' : Expr}

theorem isRowDependent_eq (same : e.outline = e'.outline) :
    e.isRowDependent = e'.isRowDependent := by
  rw [← isRowDependent_outline, same, isRowDependent_outline]

theorem hasCaptures_eq (same : e.outline = e'.outline) : e.hasCaptures = e'.hasCaptures := by
  rw [← hasCaptures_outline, same, hasCaptures_outline]

theorem outline_member {m : Member} (same : (member m).outline = e'.outline) : e' = .member m := by
  cases e' <;> simp_all [outline]

theorem outline_unary {op : UnaryOp} (same : (unary op e).outline = e'.outline) :
    ∃ i, e' = .unary op i ∧ e.outline = i.outline := by
  cases e' <;> simp_all [outline]

theorem outline_binary {op : BinaryOp} {l r : Expr} (same : (binary op l r).outline = e'.outline) :
    ∃ x y, e' = .binary op x y ∧ l.outline = x.outline ∧ r.outline = y.outline := by
  cases e' <;> simp_all [outline]

theorem outline_call {method : Method} {args : List Expr}
    (same : (call method args).outline = e'.outline) :
    ∃ es, e' = .call method es ∧ outlines args = outlines es := by
  cases e' <;> simp_all [outline]

theorem outline_inQuery {negated : Bool} {index : String} {selector : Member} {args : List Expr}
    (same : (inQuery negated index selector e args).outline = e'.outline) :
    ∃ i es, e' = .inQuery negated index selector i es ∧
      e.outline = i.outline ∧ outlines args = outlines es := by
  cases e' <;> simp_all [outline]

theorem outline_convert {kind : ColumnKind} (same : (convert e kind).outline = e'.outline) :
    ∃ i, e' = .convert i kind ∧ e.outline = i.outline := by
  cases e' <;> simp_all [outline]

theorem outlines_cons {es es' : List Expr} (same : outlines (e :: es) = outlines es') :
    ∃ x xs, es' = x :: xs ∧ e.outline = x.outline ∧ outlines es = outlines xs := by
  cases es' <;> simp_all [outlines]

theorem outlines_nil {es' : List Expr} (same : outlines [] = outlines es') : es' = [] := by
  cases es' <;> simp_all [outlines]

end SameOutline

/-! ### Conditions that are decided while compiling -/

/-- The operands of a membership that its SQL is written from; a target without
items is not written. -/
def writtenMembers {α : Type} : List α → List α
  | [_] => []
  | os => os

/-- The operands of a method that its SQL is written from. -/
def writtenOperands {α : Type} (method : Method) (os : List α) : List α :=
  match method with
  | .startsWith | .endsWith | .contains => os.take 2
  | .isIn | .isNotIn => writtenMembers os
  | .concat => os
  | .toUpper | .toLower => os.take 1
  | .host _ => []

/-- A fixed condition is decided while compiling unless it reads captures. -/
def decidedAlone (e : Expr) : List Expr := if e.hasCaptures then [] else [e]

mutual

/-- The fixed conditions whose truth decides the SQL of an expression as a condition. -/
def conditionDecisions (e : Expr) : List Expr :=
  match e with
  | .const v => decidedAlone (.const v)
  | .capture c => decidedAlone (.capture c)
  | .member _ => []
  | .unary op inner =>
    if !e.isRowDependent then decidedAlone e
    else
      match op with
      | .not => conditionDecisions inner
      | .negate => []
  | .binary op l r =>
    if !e.isRowDependent then decidedAlone e
    else if op.isLogical then conditionDecisions l ++ conditionDecisions r
    else valueDecisions l ++ valueDecisions r
  | .call method args =>
    if !e.isRowDependent then decidedAlone e
      else (writtenOperands method (decisionsOfAll args)).flatten
  | .inQuery _ _ _ inner args => ((decisionsOfAll args).take 1).flatten ++ conditionDecisions inner
  | .convert inner _ => if !e.isRowDependent then decidedAlone e else conditionDecisions inner

/-- The fixed conditions whose truth decides the SQL of an expression as a value. -/
def valueDecisions (e : Expr) : List Expr :=
  match e with
  | .const _ | .capture _ | .member _ => []
  | .unary op inner =>
    if !e.isRowDependent then []
    else
      match op with
      | .not => conditionDecisions inner
      | .negate => valueDecisions inner
  | .binary op l r =>
    if !e.isRowDependent then []
    else if op.isLogical then conditionDecisions l ++ conditionDecisions r
    else valueDecisions l ++ valueDecisions r
  | .call method args => if !e.isRowDependent then []
      else (writtenOperands method (decisionsOfAll args)).flatten
  | .inQuery _ _ _ inner args => ((decisionsOfAll args).take 1).flatten ++ conditionDecisions inner
  | .convert inner _ => if !e.isRowDependent then [] else valueDecisions inner

def decisionsOfAll (es : List Expr) : List (List Expr) :=
  match es with
  | [] => []
  | e :: es => valueDecisions e :: decisionsOfAll es

end

/-! ### What decides the SQL of an outline -/

end Expr

def Tested.outline (o : Tested) : Tested := ⟨o.expr.outline, o.tests.map Expr.outline⟩

namespace Expr

theorem allTests_outline (os : List Tested) :
    allTests (os.map Tested.outline) = (allTests os).map outline := by
  simp only [allTests, List.flatMap_map, List.map_flatMap, Tested.outline]

theorem comparisonTests_outline (op : BinaryOp) (l r : Tested) :
    comparisonTests op l.outline r.outline = (comparisonTests op l r).map outline := by
  have fixed : ∀ es : List Expr, (es.map outline).filter (fun e => !e.isRowDependent) =
      (es.filter fun e => !e.isRowDependent).map outline := by
    intro es
    rw [List.filter_map]
    congr 2
    funext e
    simp only [Function.comp, isRowDependent_outline]
  have both := fixed [l.expr, r.expr]
  unfold comparisonTests
  rw [List.map_append, List.map_append]
  split
  · rw [← both]
    rfl
  · rfl

theorem membershipTests_outline (os : List Tested) :
    membershipTests (os.map Tested.outline) = (membershipTests os).map outline := by
  match os with
  | [] | [_] => rfl
  | [target, item] => exact comparisonTests_outline .eq target item
  | target :: item :: item' :: rest => exact allTests_outline (target :: item :: item' :: rest)

theorem methodConditionTests_outline (method : Method) (os : List Tested) :
    methodConditionTests method (os.map Tested.outline) =
    (methodConditionTests method os).map outline := by
  cases method with
  | startsWith | endsWith | contains =>
    simp only [methodConditionTests, ← List.map_take]
    exact allTests_outline _
  | isIn | isNotIn => exact membershipTests_outline os
  | concat | toUpper | toLower | host _ => rfl

theorem methodValueTests_outline (method : Method) (os : List Tested) :
    methodValueTests method (os.map Tested.outline) = (methodValueTests method os).map outline := by
  cases method with
  | concat => exact allTests_outline os
  | toUpper | toLower =>
    simp only [methodValueTests, ← List.map_take]
    exact allTests_outline _
  | startsWith | endsWith | contains | isIn | isNotIn | host _ =>
    simp only [methodValueTests]
    exact methodConditionTests_outline _ os

section Rows

/-! A node of an outline reaches a row if the node itself does. -/

theorem row_unary (op : UnaryOp) (e : Expr) :
    (unary op e.outline).isRowDependent = (unary op e).isRowDependent :=
  isRowDependent_outline (.unary op e)

theorem row_binary (op : BinaryOp) (l r : Expr) :
    (binary op l.outline r.outline).isRowDependent = (binary op l r).isRowDependent :=
  isRowDependent_outline (.binary op l r)

theorem row_call (method : Method) (es : List Expr) :
    (call method (outlines es)).isRowDependent = (call method es).isRowDependent :=
  isRowDependent_outline (.call method es)

theorem row_convert (e : Expr) (kind : ColumnKind) :
    (convert e.outline kind).isRowDependent = (convert e kind).isRowDependent :=
  isRowDependent_outline (.convert e kind)

end Rows

mutual

theorem conditionTests_outline :
    (e : Expr) → e.outline.conditionTests = e.conditionTests.map outline
  | .const _ | .capture _ | .member _ => rfl
  | .unary op inner => by
    simp only [outline, conditionTests, row_unary]
    split
    · rfl
    · cases op with
      | not => exact conditionTests_outline inner
      | negate => rfl
  | .binary op l r => by
    simp only [outline, conditionTests, row_binary]
    split
    · rfl
    · split
      · rw [conditionTests_outline l, conditionTests_outline r, List.map_append]
      · split
        · rw [valueTests_outline l, valueTests_outline r]
          exact comparisonTests_outline op ⟨l, l.valueTests⟩ ⟨r, r.valueTests⟩
        · rfl
  | .call method args => by
    simp only [outline, conditionTests, row_call]
    split
    · rfl
    · rw [testedAll_outlines args, methodConditionTests_outline]
  | .inQuery _ _ _ inner args => by
    simp only [outline, conditionTests]
    rw [testedAll_outlines args, ← List.map_take, allTests_outline, conditionTests_outline inner,
      List.map_append]
  | .convert inner _ => by
    simp only [outline, conditionTests, row_convert]
    split
    · rfl
    · exact conditionTests_outline inner

theorem valueTests_outline : (e : Expr) → e.outline.valueTests = e.valueTests.map outline
  | .const _ | .capture _ | .member _ => rfl
  | .unary op inner => by
    simp only [outline, valueTests, row_unary]
    split
    · rfl
    · cases op with
      | not => exact conditionTests_outline inner
      | negate => exact valueTests_outline inner
  | .binary op l r => by
    simp only [outline, valueTests, row_binary]
    split
    · rfl
    · split
      · rw [conditionTests_outline l, conditionTests_outline r, List.map_append]
      · split
        · rw [valueTests_outline l, valueTests_outline r]
          exact comparisonTests_outline op ⟨l, l.valueTests⟩ ⟨r, r.valueTests⟩
        · rw [valueTests_outline l, valueTests_outline r, List.map_append]
  | .call method args => by
    simp only [outline, valueTests, row_call]
    split
    · rfl
    · rw [testedAll_outlines args, methodValueTests_outline]
  | .inQuery _ _ _ inner args => by
    simp only [outline, valueTests]
    rw [testedAll_outlines args, ← List.map_take, allTests_outline, conditionTests_outline inner,
      List.map_append]
  | .convert inner _ => by
    simp only [outline, valueTests, row_convert]
    split
    · rfl
    · exact valueTests_outline inner

theorem testedAll_outlines :
    (es : List Expr) → testedAll (outlines es) = (testedAll es).map Tested.outline
  | [] => rfl
  | e :: es => by
    simp only [outlines, testedAll, List.map_cons, testedAll_outlines es, valueTests_outline e,
      Tested.outline]

end

theorem decidedAlone_outline (e : Expr) :
    decidedAlone e.outline = (decidedAlone e).map outline := by
  unfold decidedAlone
  rw [hasCaptures_outline]
  split <;> rfl

theorem writtenOperands_map {α β : Type} (method : Method) (f : α → β) (os : List α) :
    writtenOperands method (os.map f) = (writtenOperands method os).map f := by
  cases method with
  | startsWith | endsWith | contains | toUpper | toLower => exact List.map_take.symm
  | isIn | isNotIn =>
    match os with
    | [] | [_] | _ :: _ :: _ => rfl
  | concat | host _ => rfl

mutual

theorem conditionDecisions_outline :
    (e : Expr) → e.outline.conditionDecisions = e.conditionDecisions.map outline
  | .const _ => rfl
  | .capture c => decidedAlone_outline (.capture c)
  | .member _ => rfl
  | .unary op inner => by
    simp only [outline, conditionDecisions, row_unary]
    split
    · exact decidedAlone_outline (.unary op inner)
    · cases op with
      | not => exact conditionDecisions_outline inner
      | negate => rfl
  | .binary op l r => by
    simp only [outline, conditionDecisions, row_binary]
    split
    · exact decidedAlone_outline (.binary op l r)
    · split
      · rw [conditionDecisions_outline l, conditionDecisions_outline r, List.map_append]
      · rw [valueDecisions_outline l, valueDecisions_outline r, List.map_append]
  | .call method args => by
    simp only [outline, conditionDecisions, row_call]
    split
    · exact decidedAlone_outline (.call method args)
    · rw [decisionsOfAll_outlines args, writtenOperands_map, List.map_flatten]
  | .inQuery _ _ _ inner args => by
    simp only [outline, conditionDecisions]
    rw [decisionsOfAll_outlines args, ← List.map_take, conditionDecisions_outline inner,
      List.map_append, List.map_flatten]
  | .convert inner kind => by
    simp only [outline, conditionDecisions, row_convert]
    split
    · exact decidedAlone_outline (.convert inner kind)
    · exact conditionDecisions_outline inner

theorem valueDecisions_outline :
    (e : Expr) → e.outline.valueDecisions = e.valueDecisions.map outline
  | .const _ | .capture _ | .member _ => rfl
  | .unary op inner => by
    simp only [outline, valueDecisions, row_unary]
    split
    · rfl
    · cases op with
      | not => exact conditionDecisions_outline inner
      | negate => exact valueDecisions_outline inner
  | .binary op l r => by
    simp only [outline, valueDecisions, row_binary]
    split
    · rfl
    · split
      · rw [conditionDecisions_outline l, conditionDecisions_outline r, List.map_append]
      · rw [valueDecisions_outline l, valueDecisions_outline r, List.map_append]
  | .call method args => by
    simp only [outline, valueDecisions, row_call]
    split
    · rfl
    · rw [decisionsOfAll_outlines args, writtenOperands_map, List.map_flatten]
  | .inQuery _ _ _ inner args => by
    simp only [outline, valueDecisions]
    rw [decisionsOfAll_outlines args, ← List.map_take, conditionDecisions_outline inner,
      List.map_append, List.map_flatten]
  | .convert inner _ => by
    simp only [outline, valueDecisions, row_convert]
    split
    · rfl
    · exact valueDecisions_outline inner

theorem decisionsOfAll_outlines : (es : List Expr) →
    decisionsOfAll (outlines es) = (decisionsOfAll es).map (List.map outline)
  | [] => rfl
  | e :: es => by
    simp only [outlines, decisionsOfAll, List.map_cons, decisionsOfAll_outlines es,
      valueDecisions_outline e]

end

end Expr

end DocStore

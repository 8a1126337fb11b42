import DocStore.Proofs.Compiling
import DocStore.Proofs.Departures

/-!
# Which operands decide the SQL

A compiled query is compiled again for other arguments, and the SQL can differ
in one way only: a fixed operand of `=` or `<>` that is null turns the
comparison into a test for null. `Expr.conditionTests` and `Expr.valueTests`
list these operands. Compiling for two arguments gives the same SQL if each of
them is null for both or for neither, and SQL that departs otherwise.
-/

set_option autoImplicit false

namespace DocStore

/-- An expression together with the operands that its rendering as a value tests for null. -/
structure Tested where
  expr : Expr
  tests : List Expr

/-- The expression is the operand, or is tested in its rendering. -/
def Tested.Holds (o : Tested) (t : Expr) : Prop := t = o.expr ∨ t ∈ o.tests

namespace Expr

/-- Whether the expression has a value for the arguments and this value is null. -/
def isNullFor (args : Arguments) (e : Expr) : Bool :=
  match e.evaluate (some args) with
  | .ok v => v.isNull
  | .error _ => false

/-- Whether the expression has a value, with or without arguments, and this value is null. -/
def isNullUnder (args : Option Arguments) (e : Expr) : Bool :=
  match e.evaluate args with
  | .ok v => v.isNull
  | .error _ => false

def isCapture : Expr → Bool
  | .capture _ => true
  | _ => false

theorem eq_capture_of_isCapture {e : Expr} (h : e.isCapture = true) : ∃ c, e = .capture c := by
  cases e with
  | capture c => exact ⟨c, rfl⟩
  | _ => cases h

def comparisonTests (op : BinaryOp) (l r : Tested) : List Expr :=
  (if op = .eq ∨ op = .ne then [l.expr, r.expr].filter fun e => !e.isRowDependent else []) ++
  (l.tests ++ r.tests)

def allTests (os : List Tested) : List Expr := os.flatMap Tested.tests

def membershipTests : List Tested → List Expr
  | [target, item] => comparisonTests .eq target item
  | [] | [_] => []
  | os => allTests os

def methodConditionTests (method : Method) (os : List Tested) : List Expr :=
  match method with
  | .startsWith | .endsWith | .contains => allTests (os.take 2)
  | .isIn | .isNotIn => membershipTests os
  | _ => []

def methodValueTests (method : Method) (os : List Tested) : List Expr :=
  match method with
  | .concat => allTests os
  | .toUpper | .toLower => allTests (os.take 1)
  | method => methodConditionTests method os

mutual

/-- The fixed operands whose nullness decides the SQL of an expression as a condition. -/
def conditionTests (e : Expr) : List Expr :=
  match e with
  | .const _ | .capture _ | .member _ => []
  | .unary op inner =>
    if !e.isRowDependent then []
    else
      match op with
      | .not => conditionTests inner
      | .negate => []
  | .binary op l r =>
    if !e.isRowDependent then []
    else if op.isLogical then conditionTests l ++ conditionTests r
    else if op.isComparison then comparisonTests op ⟨l, valueTests l⟩ ⟨r, valueTests r⟩
    else []
  | .call method args => if !e.isRowDependent then []
      else methodConditionTests method (testedAll args)
  | .inQuery _ _ _ inner args => allTests ((testedAll args).take 1) ++ conditionTests inner
  | .convert inner _ => if !e.isRowDependent then [] else conditionTests inner

/-- The fixed operands whose nullness decides the SQL of an expression as a value. -/
def valueTests (e : Expr) : List Expr :=
  match e with
  | .const _ | .capture _ | .member _ => []
  | .unary op inner =>
    if !e.isRowDependent then []
    else
      match op with
      | .not => conditionTests inner
      | .negate => valueTests inner
  | .binary op l r =>
    if !e.isRowDependent then []
    else if op.isLogical then conditionTests l ++ conditionTests r
    else if op.isComparison then comparisonTests op ⟨l, valueTests l⟩ ⟨r, valueTests r⟩
    else valueTests l ++ valueTests r
  | .call method args => if !e.isRowDependent then [] else methodValueTests method (testedAll args)
  | .inQuery _ _ _ inner args => allTests ((testedAll args).take 1) ++ conditionTests inner
  | .convert inner _ => if !e.isRowDependent then [] else valueTests inner

def testedAll (es : List Expr) : List Tested :=
  match es with
  | [] => []
  | e :: es => ⟨e, valueTests e⟩ :: testedAll es

end

theorem valueTests_of_fixed {e : Expr} (h : e.isRowDependent = false) : e.valueTests = [] := by
  cases e with
  | const _ | capture _ => rfl
  | member _ | inQuery _ _ _ _ _ => cases h
  | unary _ _ | binary _ _ _ | call _ _ | convert _ _ => simp [valueTests, h]

/-! ### Tested operands are part of the expression -/

theorem holds_of_mem_comparisonTests {op : BinaryOp} {l r : Tested} {t : Expr}
    (h : t ∈ comparisonTests op l r) : l.Holds t ∨ r.Holds t := by
  unfold comparisonTests at h
  rcases List.mem_append.1 h with h | h
  · split at h
    · have here := (List.mem_filter.1 h).1
      simp only [List.mem_cons, List.not_mem_nil, or_false] at here
      exact here.imp Or.inl Or.inl
    · cases h
  · exact (List.mem_append.1 h).imp Or.inr Or.inr

theorem holds_of_mem_allTests {os os' : List Tested} {t : Expr} (h : t ∈ allTests os)
    (sub : ∀ o ∈ os, o ∈ os') : ∃ o ∈ os', o.Holds t := by
  obtain ⟨o, ho, h⟩ := List.mem_flatMap.1 h
  exact ⟨o, sub o ho, .inr h⟩

theorem holds_of_mem_methodConditionTests {method : Method} {os : List Tested} {t : Expr}
    (h : t ∈ methodConditionTests method os) : ∃ o ∈ os, o.Holds t := by
  have membership : t ∈ membershipTests os → ∃ o ∈ os, o.Holds t := by
    intro h
    match os, h with
    | [target, item], h =>
      rcases holds_of_mem_comparisonTests h with h | h
      · exact ⟨target, by simp, h⟩
      · exact ⟨item, by simp, h⟩
    | _ :: _ :: _ :: _, h => exact holds_of_mem_allTests h fun _ => id
  cases method with
  | startsWith | endsWith | contains => exact holds_of_mem_allTests h fun _ => List.mem_of_mem_take
  | isIn | isNotIn => exact membership h
  | concat | toUpper | toLower | host _ => cases h

theorem holds_of_mem_methodValueTests {method : Method} {os : List Tested} {t : Expr}
    (h : t ∈ methodValueTests method os) : ∃ o ∈ os, o.Holds t := by
  cases method with
  | concat => exact holds_of_mem_allTests h fun _ => id
  | toUpper | toLower => exact holds_of_mem_allTests h fun _ => List.mem_of_mem_take
  | startsWith | endsWith | contains | isIn | isNotIn | host _ =>
    unfold methodValueTests at h
    exact holds_of_mem_methodConditionTests h

section Captures

variable {t : Expr} {c : Capture}

mutual

theorem mem_captures_of_conditionTests (reads : c ∈ t.captures) :
    (e : Expr) → t ∈ e.conditionTests → c ∈ e.captures
  | .const _, h => nomatch h
  | .capture _, h => nomatch h
  | .member _, h => nomatch h
  | .unary op inner, h => by
    simp only [conditionTests] at h
    split at h
    · cases h
    · cases op with
      | not => exact mem_captures_of_conditionTests reads inner h
      | negate => cases h
  | .binary op l r, h => by
    simp only [conditionTests] at h
    split at h
    · cases h
    · split at h
      · exact List.mem_append.2 ((List.mem_append.1 h).imp (mem_captures_of_conditionTests reads l)
          (mem_captures_of_conditionTests reads r))
      · split at h
        · exact List.mem_append.2 ((holds_of_mem_comparisonTests h).imp
            (mem_captures_of_holds reads l)
            (mem_captures_of_holds reads r))
        · cases h
  | .call method args, h => by
    simp only [conditionTests] at h
    split at h
    · cases h
    · obtain ⟨o, ho, h⟩ := holds_of_mem_methodConditionTests h
      exact mem_capturesOf_of_holds reads args o ho h
  | .inQuery _ _ _ inner args, h => by
    simp only [conditionTests] at h
    refine List.mem_append.2 ((List.mem_append.1 h).symm.imp
      (mem_captures_of_conditionTests reads inner) fun h => ?_)
    obtain ⟨o, ho, h⟩ := holds_of_mem_allTests h fun _ => List.mem_of_mem_take
    exact mem_capturesOf_of_holds reads args o ho h
  | .convert inner _, h => by
    simp only [conditionTests] at h
    split at h
    · cases h
    · exact mem_captures_of_conditionTests reads inner h

theorem mem_captures_of_valueTests (reads : c ∈ t.captures) :
    (e : Expr) → t ∈ e.valueTests → c ∈ e.captures
  | .const _, h => nomatch h
  | .capture _, h => nomatch h
  | .member _, h => nomatch h
  | .unary op inner, h => by
    simp only [valueTests] at h
    split at h
    · cases h
    · cases op with
      | not => exact mem_captures_of_conditionTests reads inner h
      | negate => exact mem_captures_of_valueTests reads inner h
  | .binary op l r, h => by
    simp only [valueTests] at h
    split at h
    · cases h
    · split at h
      · exact List.mem_append.2 ((List.mem_append.1 h).imp (mem_captures_of_conditionTests reads l)
          (mem_captures_of_conditionTests reads r))
      · split at h
        · exact List.mem_append.2 ((holds_of_mem_comparisonTests h).imp
            (mem_captures_of_holds reads l)
            (mem_captures_of_holds reads r))
        · exact List.mem_append.2 ((List.mem_append.1 h).imp (mem_captures_of_valueTests reads l)
            (mem_captures_of_valueTests reads r))
  | .call method args, h => by
    simp only [valueTests] at h
    split at h
    · cases h
    · obtain ⟨o, ho, h⟩ := holds_of_mem_methodValueTests h
      exact mem_capturesOf_of_holds reads args o ho h
  | .inQuery _ _ _ inner args, h => by
    simp only [valueTests] at h
    refine List.mem_append.2 ((List.mem_append.1 h).symm.imp
      (mem_captures_of_conditionTests reads inner) fun h => ?_)
    obtain ⟨o, ho, h⟩ := holds_of_mem_allTests h fun _ => List.mem_of_mem_take
    exact mem_capturesOf_of_holds reads args o ho h
  | .convert inner _, h => by
    simp only [valueTests] at h
    split at h
    · cases h
    · exact mem_captures_of_valueTests reads inner h

theorem mem_captures_of_holds (reads : c ∈ t.captures) (e : Expr)
    (h : Tested.Holds ⟨e, e.valueTests⟩ t) : c ∈ e.captures := by
  rcases h with rfl | h
  · exact reads
  · exact mem_captures_of_valueTests reads e h

theorem mem_capturesOf_of_holds (reads : c ∈ t.captures) :
    (es : List Expr) → ∀ o ∈ testedAll es, o.Holds t → c ∈ capturesOf es
  | [] => fun _ h => nomatch h
  | e :: es =>
    List.forall_mem_cons.2 ⟨fun h => List.mem_append_left _ (mem_captures_of_holds reads e h),
      fun o ho h => List.mem_append_right _ (mem_capturesOf_of_holds reads es o ho h)⟩

end

end Captures

end Expr

/-- Two arguments that make the same operands null. -/
def SameNulls (a b : Arguments) (tests : List Expr) : Prop :=
  ∀ e ∈ tests, e.isNullFor a = e.isNullFor b

instance (a b : Arguments) (tests : List Expr) : Decidable (SameNulls a b tests) :=
  inferInstanceAs (Decidable (∀ e ∈ tests, e.isNullFor a = e.isNullFor b))

theorem sameNulls_nil (a b : Arguments) : SameNulls a b [] := fun _ h => nomatch h

theorem sameNulls_comm {a b : Arguments} {tests : List Expr} :
    SameNulls a b tests ↔ SameNulls b a tests :=
  ⟨fun h t ht => (h t ht).symm, fun h t ht => (h t ht).symm⟩

theorem sameNulls_append_iff {a b : Arguments} {xs ys : List Expr} :
    SameNulls a b (xs ++ ys) ↔ SameNulls a b xs ∧ SameNulls a b ys := by
  simp only [SameNulls, List.mem_append, or_imp, forall_and]

/-- Equality and inequality test their fixed operands; the other operators test none. -/
theorem sameNulls_comparisonTests_iff {a b : Arguments} {op : BinaryOp} {l r : Tested} :
    SameNulls a b (Expr.comparisonTests op l r) ↔
      (op = .eq ∨ op = .ne →
        (l.expr.isRowDependent = false → l.expr.isNullFor a = l.expr.isNullFor b) ∧
          (r.expr.isRowDependent = false → r.expr.isNullFor a = r.expr.isNullFor b)) ∧
      SameNulls a b l.tests ∧ SameNulls a b r.tests := by
  unfold Expr.comparisonTests
  rw [sameNulls_append_iff, sameNulls_append_iff]
  refine and_congr_left fun _ => ?_
  by_cases equality : op = .eq ∨ op = .ne
  · rw [if_pos equality]
    simp only [SameNulls, List.mem_filter, List.mem_cons, List.not_mem_nil, or_false,
      Bool.not_eq_true', and_imp, forall_eq_or_imp, forall_eq, equality, true_implies]
  · rw [if_neg equality]
    exact ⟨fun _ h => absurd h equality, fun _ => sameNulls_nil a b⟩

/-- Compilations that go on alike: the same aliases and as many parameters. -/
structure Compilation.Alike (c c' : Compilation) : Prop where
  bindings : c.bindings = c'.bindings
  size : c.parameters.size = c'.parameters.size

theorem Compilation.Alike.symm {c c' : Compilation} (h : c.Alike c') : c'.Alike c :=
  ⟨h.bindings.symm, h.size.symm⟩

namespace Compile

section Twins

variable {α β γ : Type}

/-- Two steps that, from compilations that are alike, give the same and go on
alike if a condition holds, and give answers apart from each other if it does not. -/
def Twin (same : Prop) (apart : α → α → Prop) (x y : Compile α) : Prop :=
  ∀ ⦃c c' d d' : Compilation⦄ ⦃r s : α⦄, c.Alike c' → Gives x c r d → Gives y c' s d' →
    (same → r = s ∧ d.Alike d') ∧ (¬same → apart r s)

namespace Twin

variable {same same₁ same₂ : Prop} {apart : α → α → Prop} {apart₁ : β → β → Prop}
  {apart₂ : γ → γ → Prop}
variable {x y : Compile α} {u v : Compile β} {w z : Compile γ}

theorem of_iff {same' : Prop} (h : Twin same apart x y) (iff : same ↔ same') :
    Twin same' apart x y := by
  intro c c' d d' r s alike hx hy
  rw [← iff]
  exact h alike hx hy

/-- Both steps answer the same and keep the compilation. -/
theorem pure (r : α) : Twin True apart (pure r : Compile α) (Pure.pure r) := by
  intro c c' d d' s s' alike hx hy
  obtain ⟨rfl, rfl⟩ := gives_pure_iff.1 hx
  obtain ⟨rfl, rfl⟩ := gives_pure_iff.1 hy
  exact ⟨fun _ => ⟨rfl, alike⟩, fun h => absurd trivial h⟩

theorem fail {err : Error} : Twin same apart (fail err : Compile α) y := by
  intro c c' d d' r s alike hx hy
  exact absurd hx not_gives_fail

/-- A value known to both decides how they go on. -/
theorem decided {e : Except Error β} {f g : β → Compile α} (h : ∀ v, Twin same apart (f v) (g v)) :
    Twin same apart (do let v ← ofExcept e; f v) (do let v ← ofExcept e; g v) := by
  intro c c' d d' r s alike hx hy
  obtain ⟨v, _, hv, hx⟩ := gives_bind_iff.1 hx
  obtain ⟨w, _, hw, hy⟩ := gives_bind_iff.1 hy
  obtain ⟨rfl, rfl⟩ := gives_ofExcept_iff.1 hv
  obtain ⟨hw, rfl⟩ := gives_ofExcept_iff.1 hw
  cases hw
  exact h v alike hx hy

theorem map (h : Twin same apart₁ u v) (f : β → α) (lift : ∀ r s, apart₁ r s → apart (f r) (f s)) :
    Twin same apart (do let r ← u; Pure.pure (f r)) (do let r ← v; Pure.pure (f r)) := by
  intro c c' d d' r s alike hx hy
  obtain ⟨p, e, hu, hr⟩ := gives_bind_iff.1 hx
  obtain ⟨q, e', hv, hs⟩ := gives_bind_iff.1 hy
  obtain ⟨rfl, rfl⟩ := gives_pure_iff.1 hr
  obtain ⟨rfl, rfl⟩ := gives_pure_iff.1 hs
  obtain ⟨together, differ⟩ := h alike hu hv
  refine ⟨fun hsame => ?_, fun hnot => lift _ _ (differ hnot)⟩
  obtain ⟨rfl, alike⟩ := together hsame
  exact ⟨rfl, alike⟩

/-- Two steps in a row: what the first gives decides, and otherwise the second. -/
theorem map₂ (h₁ : Twin same₁ apart₁ u v) (h₂ : Twin same₂ apart₂ w z) (f : β → γ → α)
    (first : ∀ r s p q, apart₁ r s → apart (f r p) (f s q))
    (second : ∀ r p q, apart₂ p q → apart (f r p) (f r q)) :
    Twin (same₁ ∧ same₂) apart (do let r ← u; let p ← w; Pure.pure (f r p))
      (do let r ← v; let p ← z; Pure.pure (f r p)) := by
  intro c c' d d' r s alike hx hy
  obtain ⟨r₁, e, hu, hr⟩ := gives_bind_iff.1 hx
  obtain ⟨s₁, e', hv, hs⟩ := gives_bind_iff.1 hy
  obtain ⟨r₂, e₂, hw, hr⟩ := gives_bind_iff.1 hr
  obtain ⟨s₂, e₂', hz, hs⟩ := gives_bind_iff.1 hs
  obtain ⟨rfl, rfl⟩ := gives_pure_iff.1 hr
  obtain ⟨rfl, rfl⟩ := gives_pure_iff.1 hs
  obtain ⟨together, differ⟩ := h₁ alike hu hv
  by_cases here : same₁
  · obtain ⟨rfl, alike⟩ := together here
    obtain ⟨together, differ⟩ := h₂ alike hw hz
    refine ⟨fun hsame => ?_, fun hnot => second _ _ _ (differ fun h => hnot ⟨here, h⟩)⟩
    obtain ⟨rfl, alike⟩ := together hsame.2
    exact ⟨rfl, alike⟩
  · exact ⟨fun hsame => absurd hsame.1 here, fun _ => first _ _ _ _ (differ here)⟩

end Twin

end Twins

/-! ## What the parts of a rendering decide -/

section Parts

variable {dialect : Dialect} {names : TableNames} {a b : Arguments}

/-- A test of an operand answers the test for null of the other operand where the
first is fixed and null. -/
theorem gives_nullTest? {t : Target} {op : BinaryOp} {side other : Operand} {c d : Compilation}
    {o : Option Sql} (h : Gives (nullTest? t op side other) c o d) :
    if side.expr.isRowDependent = false ∧ side.expr.isNullUnder t.arguments = true then
      ∃ e, Gives other.value c e d ∧ o = some (.isNull e (op = .ne))
    else o = none ∧ d = c := by
  unfold nullTest? at h
  rw [gives_ite_iff] at h
  by_cases row : side.expr.isRowDependent = true
  · rw [if_pos row] at h
    rw [if_neg (by simp [row])]
    exact gives_pure_iff.1 h
  · rw [if_neg row] at h
    obtain ⟨v, _, hv, h₁⟩ := gives_bind_iff.1 h
    obtain ⟨value, rfl⟩ := gives_ofExcept_iff.1 hv
    have null : side.expr.isNullUnder t.arguments = v.isNull := by
      rw [Expr.isNullUnder, value]
    rw [gives_ite_iff] at h₁
    rw [null]
    by_cases hnull : v.isNull = true
    · rw [if_pos hnull] at h₁
      rw [if_pos ⟨by simpa using row, hnull⟩]
      obtain ⟨e, _, he, h₂⟩ := gives_bind_iff.1 h₁
      obtain ⟨rfl, rfl⟩ := gives_pure_iff.1 h₂
      exact ⟨e, he, rfl⟩
    · rw [if_neg hnull] at h₁
      rw [if_neg (by simp [hnull])]
      exact gives_pure_iff.1 h₁

/-- Both operands of a comparison, rendered as they are. -/
def Plainly (op : BinaryOp) (l r : Compile Sql) (c : Compilation) (e : Sql)
    (d : Compilation) : Prop :=
  ∃ x y c', Gives l c x c' ∧ Gives r c' y d ∧ e = .binary op x y

/-- A comparison tests one operand for null if the other is fixed and null, the left one first. -/
theorem gives_comparison_under {t : Target} {op : BinaryOp} {l r : Operand}
    {c d : Compilation} {e : Sql} (h : Gives (comparison t op l r) c e d) :
    if (op = .eq ∨ op = .ne) ∧ l.expr.isRowDependent = false ∧
        l.expr.isNullUnder t.arguments = true then
      ∃ x, Gives r.value c x d ∧ e = .isNull x (op = .ne)
    else if (op = .eq ∨ op = .ne) ∧ r.expr.isRowDependent = false ∧
        r.expr.isNullUnder t.arguments = true then
      ∃ x, Gives l.value c x d ∧ e = .isNull x (op = .ne)
    else Plainly op l.value r.value c e d := by
  have plainly :
      ∀ {c e d}, Gives (do let x ← l.value; let y ← r.value; pure (.binary op x y)) c e d →
      Plainly op l.value r.value c e d := by
    intro c e d h
    obtain ⟨x, c', hx, h₁⟩ := gives_bind_iff.1 h
    obtain ⟨y, _, hy, h₂⟩ := gives_bind_iff.1 h₁
    obtain ⟨rfl, rfl⟩ := gives_pure_iff.1 h₂
    exact ⟨x, y, c', hx, hy, rfl⟩
  unfold comparison at h
  rw [gives_ite_iff] at h
  by_cases equality : op = .eq ∨ op = .ne
  · rw [if_pos equality] at h
    obtain ⟨o, c₁, ho, h₁⟩ := gives_bind_iff.1 h
    have left := gives_nullTest? ho
    simp only [equality, true_and]
    by_cases hl : l.expr.isRowDependent = false ∧ l.expr.isNullUnder t.arguments = true
    · rw [if_pos hl] at left ⊢
      obtain ⟨x, hx, rfl⟩ := left
      obtain ⟨rfl, rfl⟩ := gives_pure_iff.1 h₁
      exact ⟨x, hx, rfl⟩
    · rw [if_neg hl] at left ⊢
      obtain ⟨rfl, rfl⟩ := left
      obtain ⟨o, c₂, ho, h₂⟩ := gives_bind_iff.1 h₁
      have right := gives_nullTest? ho
      by_cases hr : r.expr.isRowDependent = false ∧ r.expr.isNullUnder t.arguments = true
      · rw [if_pos hr] at right ⊢
        obtain ⟨x, hx, rfl⟩ := right
        obtain ⟨rfl, rfl⟩ := gives_pure_iff.1 h₂
        exact ⟨x, hx, rfl⟩
      · rw [if_neg hr] at right ⊢
        obtain ⟨rfl, rfl⟩ := right
        exact plainly h₂
  · rw [if_neg equality] at h
    simp only [equality, false_and, if_false]
    exact plainly h

theorem gives_comparison {args : Arguments} {op : BinaryOp} {l r : Operand}
    {c d : Compilation} {e : Sql}
    (h : Gives (comparison ⟨dialect, names, some args⟩ op l r) c e d) :
    if (op = .eq ∨ op = .ne) ∧ l.expr.isRowDependent = false ∧ l.expr.isNullFor args = true then
      ∃ x, Gives r.value c x d ∧ e = .isNull x (op = .ne)
    else if (op = .eq ∨ op = .ne) ∧ r.expr.isRowDependent = false ∧
        r.expr.isNullFor args = true then
      ∃ x, Gives l.value c x d ∧ e = .isNull x (op = .ne)
    else Plainly op l.value r.value c e d :=
  gives_comparison_under h

theorem value_of_fixed (t : Target) {e : Expr} (h : e.isRowDependent = false) :
    value t e = bindExpr t .exact e := by
  cases e with
  | const _ | capture _ => rfl
  | member _ | inQuery _ _ _ _ _ => cases h
  | unary _ _ | binary _ _ _ | call _ _ | convert _ _ => simp [value, h]

theorem condition_of_fixed (t : Target) {e : Expr} (h : e.isRowDependent = false) :
    condition t e = fixedCondition t e := by
  cases e with
  | const _ | capture _ => rfl
  | member _ | inQuery _ _ _ _ _ => cases h
  | unary _ _ | binary _ _ _ | call _ _ | convert _ _ => simp [condition, h]

theorem opens_of_gives_map {α : Type} {x : Compile α} {f : α → Sql} {c d : Compilation} {e : Sql}
    (h : Gives (do let r ← x; pure (f r)) c e d) (opens : ∀ r, (f r).Opens) : e.Opens := by
  obtain ⟨r, _, _, h₁⟩ := gives_bind_iff.1 h
  obtain ⟨rfl, rfl⟩ := gives_pure_iff.1 h₁
  exact opens r

/-- A value that reaches a row does not begin with a placeholder. -/
theorem opens_of_gives_value (t : Target) : (e : Expr) → e.isRowDependent = true →
    ∀ {c d : Compilation} {r : Sql}, Gives (value t e) c r d → r.Opens
  | .const _, h => by cases h
  | .capture _, h => by cases h
  | .member m, _ => fun h => by
    rw [value] at h
    obtain ⟨_, _, _, _, rfl⟩ := gives_member_iff.1 h
    trivial
  | .unary .not inner, row => fun h => by
    simp only [value, row, Bool.not_true, Bool.false_eq_true, if_false] at h
    exact opens_of_gives_map h fun _ => trivial
  | .unary .negate inner, row => fun h => by
    simp only [value, row, Bool.not_true, Bool.false_eq_true, if_false] at h
    exact opens_of_gives_map h fun _ => trivial
  | .binary op l r, row => fun h => by
    simp only [value, row, Bool.not_true, Bool.false_eq_true, if_false] at h
    split at h
    · exact opens_of_gives_map h fun _ => trivial
    · split at h
      · exact opens_of_gives_map h fun _ => trivial
      · obtain ⟨left, _, _, h₁⟩ := gives_bind_iff.1 h
        exact opens_of_gives_map h₁ fun _ => trivial
  | .call method args, row => fun h => by
    simp only [value, row, Bool.not_true, Bool.false_eq_true, if_false] at h
    cases method <;> exact opens_of_gives_map h fun _ => trivial
  | .inQuery _ _ _ _ _, _ => fun h => by
    rw [value] at h
    exact opens_of_gives_map h fun _ => trivial
  | .convert inner _, row => fun h => by
    simp only [value, row, Bool.not_true, Bool.false_eq_true, if_false] at h
    exact opens_of_gives_value t inner row h

theorem twin_bindExpr (affix : Affix) (e : Expr) {apart : Sql → Sql → Prop} :
    Twin True apart (bindExpr ⟨dialect, names, some a⟩ affix e)
      (bindExpr ⟨dialect, names, some b⟩ affix e) := by
  intro c c' d d' r s alike hx hy
  obtain ⟨rfl, bindings, _, _, bound⟩ := gives_bindExpr hx
  obtain ⟨rfl, bindings', _, _, bound'⟩ := gives_bindExpr hy
  refine ⟨fun _ => ⟨by rw [alike.size], ?_, ?_⟩, fun h => absurd trivial h⟩
  · rw [bindings, bindings', alike.bindings]
  · rw [bound, bound', size_push, size_push, alike.size]

variable (dialect names a b) in
/-- Rendering an expression as a value for one argument and for another. -/
def ValueTwin (e : Expr) : Prop :=
  Twin (SameNulls a b e.valueTests) Sql.Departs (value ⟨dialect, names, some a⟩ e)
    (value ⟨dialect, names, some b⟩ e)

variable (dialect names a b) in
/-- Rendering an expression as a condition for one argument and for another. -/
def ConditionTwin (e : Expr) : Prop :=
  Twin (SameNulls a b e.conditionTests) Sql.Departs (condition ⟨dialect, names, some a⟩ e)
    (condition ⟨dialect, names, some b⟩ e)

/-- Operands rendered as they are are a twin of each other. -/
theorem Plainly.twin {op : BinaryOp} {l r : Expr} {c c' d d' : Compilation} {e e' : Sql}
    (hl : ValueTwin dialect names a b l) (hr : ValueTwin dialect names a b r) (alike : c.Alike c')
    (h : Plainly op (value ⟨dialect, names, some a⟩ l) (value ⟨dialect, names, some a⟩ r) c e d)
    (h' : Plainly op (value ⟨dialect, names, some b⟩ l)
      (value ⟨dialect, names, some b⟩ r) c' e' d') :
    (SameNulls a b l.valueTests ∧ SameNulls a b r.valueTests → e = e' ∧ d.Alike d') ∧
      (¬(SameNulls a b l.valueTests ∧ SameNulls a b r.valueTests) → e.Departs e') := by
  obtain ⟨x, y, c₁, hx, hy, rfl⟩ := h
  obtain ⟨x', y', c₁', hx', hy', rfl⟩ := h'
  have both := Twin.map₂ hl hr (Sql.binary op) (fun _ _ _ _ => Sql.Departs.left) fun _ _ _ =>
    Sql.Departs.right
  exact both alike
    (gives_bind_iff.2 ⟨x, c₁, hx, gives_bind_iff.2 ⟨y, d, hy, gives_pure_iff.2 ⟨rfl, rfl⟩⟩⟩)
    (gives_bind_iff.2 ⟨x', c₁', hx', gives_bind_iff.2 ⟨y', d', hy', gives_pure_iff.2 ⟨rfl, rfl⟩⟩⟩)

/-- A comparison with a null on the left of one argument only. -/
theorem departs_nullLeft {op : BinaryOp} {l r : Expr} {args args' : Arguments}
    {c c' d d' : Compilation} {x e : Sql} (fixed : l.isRowDependent = false)
    (row : r.isRowDependent = true) (hx : Gives (value ⟨dialect, names, some args⟩ r) c x d)
    (he : Plainly op (value ⟨dialect, names, some args'⟩ l)
      (value ⟨dialect, names, some args'⟩ r) c' e d') :
    (Sql.isNull x (op = .ne)).Departs e := by
  obtain ⟨p, y, c₁, hp, hy, rfl⟩ := he
  rw [value_of_fixed _ fixed] at hp
  obtain ⟨rfl, _⟩ := gives_bindExpr hp
  exact .nullLeft (opens_of_gives_value _ r row hx)

/-- A comparison with a null on the right of one argument only. -/
theorem departs_nullRight {op : BinaryOp} {l r : Expr} {c c' d d' : Compilation} {x e : Sql}
    (equality : op = .eq ∨ op = .ne) (hl : ValueTwin dialect names a b l) (alike : c.Alike c')
    (hx : Gives (value ⟨dialect, names, some a⟩ l) c x d)
    (he : Plainly op (value ⟨dialect, names, some b⟩ l)
      (value ⟨dialect, names, some b⟩ r) c' e d') :
    (Sql.isNull x (op = .ne)).Departs e := by
  obtain ⟨y, p, c₁, hy, _, rfl⟩ := he
  obtain ⟨together, differ⟩ := hl alike hx hy
  by_cases same : SameNulls a b l.valueTests
  · obtain ⟨rfl, _⟩ := together same
    exact .nullRight equality
  · exact .before (differ same)

theorem ValueTwin.symm {e : Expr} (h : ValueTwin dialect names a b e) :
    ValueTwin dialect names b a e := by
  intro c c' d d' r s alike hx hy
  obtain ⟨together, differ⟩ := h alike.symm hy hx
  rw [sameNulls_comm]
  refine ⟨fun same => ?_, fun apart => (differ apart).symm⟩
  obtain ⟨rfl, after⟩ := together same
  exact ⟨rfl, after.symm⟩

/-- Tests of one operand for null. -/
theorem twin_isNull {e : Expr} {negated : Bool} (h : ValueTwin dialect names a b e)
    {c c' d d' : Compilation} {x y : Sql} (alike : c.Alike c')
    (hx : Gives (value ⟨dialect, names, some a⟩ e) c x d)
    (hy : Gives (value ⟨dialect, names, some b⟩ e) c' y d') :
    (SameNulls a b e.valueTests → Sql.isNull x negated = .isNull y negated ∧ d.Alike d') ∧
      (¬SameNulls a b e.valueTests → (Sql.isNull x negated).Departs (.isNull y negated)) := by
  obtain ⟨together, differ⟩ := h alike hx hy
  refine ⟨fun same => ?_, fun apart => .isNull (differ apart)⟩
  obtain ⟨rfl, after⟩ := together same
  exact ⟨rfl, after⟩

/-- A comparison that reaches a row has at most one fixed operand, and this one decides it. -/
theorem twin_comparison {op : BinaryOp} {l r : Expr}
    (row : l.isRowDependent = true ∨ r.isRowDependent = true) (hl : ValueTwin dialect names a b l)
    (hr : ValueTwin dialect names a b r) :
    Twin (SameNulls a b (Expr.comparisonTests op ⟨l, l.valueTests⟩ ⟨r, r.valueTests⟩)) Sql.Departs
      (comparison ⟨dialect, names, some a⟩ op ⟨l, value ⟨dialect, names, some a⟩ l⟩
        ⟨r, value ⟨dialect, names, some a⟩ r⟩)
      (comparison ⟨dialect, names, some b⟩ op ⟨l, value ⟨dialect, names, some b⟩ l⟩
        ⟨r, value ⟨dialect, names, some b⟩ r⟩) := by
  intro c c' d d' e e' alike hx hy
  have hx := gives_comparison hx
  have hy := gives_comparison hy
  rw [sameNulls_comparisonTests_iff]
  simp only at hx hy ⊢
  by_cases equality : op = .eq ∨ op = .ne
  · simp only [equality, true_and, true_implies] at hx hy ⊢
    cases fl : l.isRowDependent with
    | false =>
      have fr : r.isRowDependent = true := by simpa [fl] using row
      simp only [fl, fr, true_and, Bool.true_eq_false, false_and, if_false, true_implies,
        false_implies, and_true, Expr.valueTests_of_fixed fl, sameNulls_nil] at hx hy ⊢
      cases na : l.isNullFor a <;> cases nb : l.isNullFor b <;>
        simp only [na, nb, if_true, if_false, Bool.false_eq_true, Bool.true_eq_false,
        true_and, false_and, not_false_eq_true, false_implies, true_implies] at hx hy ⊢
      · simpa only [Expr.valueTests_of_fixed fl, sameNulls_nil,
          true_and] using Plainly.twin hl hr alike hx hy
      · obtain ⟨x, hx', rfl⟩ := hy
        exact (departs_nullLeft fl fr hx' hx).symm
      · obtain ⟨x, hx', rfl⟩ := hx
        exact departs_nullLeft fl fr hx' hy
      · obtain ⟨x, hx', rfl⟩ := hx
        obtain ⟨y, hy', rfl⟩ := hy
        exact twin_isNull hr alike hx' hy'
    | true =>
      cases fr : r.isRowDependent with
      | true =>
        simp only [fl, fr, Bool.true_eq_false, false_and, if_false, false_implies,
          true_and] at hx hy ⊢
        exact Plainly.twin hl hr alike hx hy
      | false =>
        simp only [fl, fr, true_and, Bool.true_eq_false, false_and, if_false, true_implies,
          false_implies, and_true, Expr.valueTests_of_fixed fr, sameNulls_nil] at hx hy ⊢
        cases na : r.isNullFor a <;> cases nb : r.isNullFor b <;>
          simp only [na, nb, if_true, if_false, Bool.false_eq_true, Bool.true_eq_false,
          true_and, false_and, not_false_eq_true, false_implies, true_implies] at hx hy ⊢
        · simpa only [Expr.valueTests_of_fixed fr, sameNulls_nil,
            and_true] using Plainly.twin hl hr alike hx hy
        · obtain ⟨x, hx', rfl⟩ := hy
          exact (departs_nullRight equality hl.symm alike.symm hx' hx).symm
        · obtain ⟨x, hx', rfl⟩ := hx
          exact departs_nullRight equality hl alike hx' hy
        · obtain ⟨x, hx', rfl⟩ := hx
          obtain ⟨y, hy', rfl⟩ := hy
          exact twin_isNull hl alike hx' hy'
  · simp only [equality, false_and, if_false, false_implies, true_and] at hx hy ⊢
    exact Plainly.twin hl hr alike hx hy

/-- The rows of a subquery are selected under an alias that tells how many indexes are bound. -/
theorem gives_subquery {t : Target} {negated : Bool} {index : String} {selector : Member}
    {filter : Compile Sql} {args : List Operand} {c d : Compilation} {e : Sql}
    (h : Gives (subquery t negated index selector filter args) c e d) :
    ∃ left c₁ binding condition c₂,
      Gives (receiver (if negated then "is_not_in_query" else "is_in_query") args) c left c₁ ∧
      ((⟨index, index ++ "_" ++ toString c₁.bindings.length⟩ :: c₁.bindings).find? fun b =>
          b.index = selector.index)
        = some binding ∧
      Gives filter
        { c₁ with bindings := ⟨index, index ++ "_" ++ toString c₁.bindings.length⟩ :: c₁.bindings }
        condition c₂ ∧
      d = { c₂ with bindings := c₂.bindings.tail } ∧
      e = .inList left [.select (.column binding.tableAlias selector.column) (t.names.index index)
        (index ++ "_" ++ toString c₁.bindings.length) condition] negated := by
  unfold subquery at h
  obtain ⟨left, c₁, hleft, h₁⟩ := gives_bind_iff.1 h
  obtain ⟨_, _, hget, h₂⟩ := gives_bind_iff.1 h₁
  obtain ⟨rfl, rfl⟩ := gives_get_iff.1 hget
  obtain ⟨select, c₂, hselect, h₃⟩ := gives_bind_iff.1 h₂
  obtain ⟨rfl, rfl⟩ := gives_pure_iff.1 h₃
  obtain ⟨c₃, hinside, rfl⟩ := gives_withIndex_iff.1 hselect
  obtain ⟨selected, _, hmember, h₄⟩ := gives_bind_iff.1 hinside
  obtain ⟨_, rfl, binding, found, rfl⟩ := gives_member_iff.1 hmember
  obtain ⟨condition, _, hcondition, h₅⟩ := gives_bind_iff.1 h₄
  obtain ⟨rfl, rfl⟩ := gives_pure_iff.1 h₅
  exact ⟨left, _, binding, condition, _, hleft, found, hcondition, rfl, rfl⟩

/-- The pattern of a text search, with its wildcards. -/
def patternStep (t : Target) (affix : Affix) (pattern : Operand) : Compile Sql :=
  if pattern.expr.isRowDependent then do
    let p ← pattern.value
    pure (wildcards affix p)
  else bindExpr t affix pattern.expr

theorem like_eq (t : Target) (affix : Affix) (target pattern : Operand) (rest : List Operand) :
    like t affix (target :: pattern :: rest) = (do
      let left ← target.value
      let right ← patternStep t affix pattern
      pure (.like left right)) := by
  unfold like patternStep
  by_cases row : pattern.expr.isRowDependent = true
  · simp [row]
  · simp [row]

theorem twin_pattern (affix : Affix) {pattern : Expr} (h : ValueTwin dialect names a b pattern) :
    Twin (SameNulls a b pattern.valueTests) Sql.Departs
      (patternStep ⟨dialect, names, some a⟩ affix ⟨pattern, value ⟨dialect, names, some a⟩ pattern⟩)
      (patternStep ⟨dialect, names, some b⟩ affix ⟨pattern,
        value ⟨dialect, names, some b⟩ pattern⟩) := by
  unfold patternStep
  by_cases row : pattern.isRowDependent = true
  · rw [if_pos row, if_pos row]
    refine Twin.map h (wildcards affix) fun p q h => ?_
    cases affix
    · exact (FirstApart.head h [] []).concat
    · exact (FirstApart.head h _ _).concat
    · exact ((FirstApart.head h [] []).tail _).concat
    · exact ((FirstApart.head h _ _).tail _).concat
  · rw [if_neg row, if_neg row, Expr.valueTests_of_fixed (by simpa using row)]
    exact (twin_bindExpr affix pattern).of_iff (iff_of_true trivial (sameNulls_nil a b))

section Methods

variable {es : List Expr} (twins : ∀ e ∈ es, ValueTwin dialect names a b e)
include twins

theorem twin_values :
    Twin (SameNulls a b (Expr.allTests (Expr.testedAll es))) (FirstApart Sql.Departs)
    (values (operands ⟨dialect, names, some a⟩ es))
    (values (operands ⟨dialect, names, some b⟩ es)) := by
  induction es with
  | nil => exact (Twin.pure []).of_iff (iff_of_true trivial (sameNulls_nil a b))
  | cons e es ih =>
    have rest := ih fun e he => twins e (List.mem_cons_of_mem _ he)
    have both := Twin.map₂ (twins e (by simp)) rest List.cons
      (fun r s p q (h : r.Departs s) => FirstApart.head h p q) fun r p q h => FirstApart.tail h r
    exact both.of_iff sameNulls_append_iff.symm

theorem twin_receiver (method : String) :
    Twin (SameNulls a b (Expr.allTests ((Expr.testedAll es).take 1)))
    Sql.Departs (receiver method (operands ⟨dialect, names, some a⟩ es))
    (receiver method (operands ⟨dialect, names, some b⟩ es)) := by
  cases es with
  | nil => exact Twin.fail
  | cons e es =>
    refine (twins e (by simp)).of_iff ?_
    simp [Expr.testedAll, Expr.allTests]

theorem twin_like (affix : Affix) :
    Twin (SameNulls a b (Expr.allTests ((Expr.testedAll es).take 2))) Sql.Departs
    (like ⟨dialect, names, some a⟩ affix (operands ⟨dialect, names, some a⟩ es))
    (like ⟨dialect, names, some b⟩ affix (operands ⟨dialect, names, some b⟩ es)) := by
  match es with
  | [] => exact Twin.fail
  | [_] => exact Twin.fail
  | target :: pattern :: rest =>
    have both :=
      Twin.map₂ (twins target (by simp)) (twin_pattern affix (twins pattern (by simp))) Sql.like
      (fun r s p q (h : r.Departs s) => Sql.Departs.subject h) fun r p q => Sql.Departs.pattern
    simp only [operands, like_eq]
    refine both.of_iff ?_
    rw [← sameNulls_append_iff]
    simp [Expr.testedAll, Expr.allTests]

/-- A list that reaches a row: one item is compared, and of several none is tested. -/
theorem twin_membership (negated : Bool) (row : Expr.anyRowDependent es = true) :
    Twin (SameNulls a b (Expr.membershipTests (Expr.testedAll es))) Sql.Departs
      (membership ⟨dialect, names, some a⟩ negated (operands ⟨dialect, names, some a⟩ es))
      (membership ⟨dialect, names, some b⟩ negated (operands ⟨dialect, names, some b⟩ es)) := by
  match es with
  | [] => exact Twin.fail
  | [_] => exact (Twin.pure _).of_iff (iff_of_true trivial (sameNulls_nil a b))
  | [target, item] =>
    have either : target.isRowDependent = true ∨ item.isRowDependent = true := by
      simpa [Expr.anyRowDependent] using row
    refine (twin_comparison either (twins target (by simp)) (twins item (by simp))).of_iff ?_
    cases negated <;> simp [Expr.testedAll, Expr.membershipTests, Expr.comparisonTests]
  | target :: item :: item' :: rest =>
    have items := twin_values fun e he => twins e (List.mem_cons_of_mem target he)
    have both := Twin.map₂ (twins target (by simp)) items
      (fun l items => Sql.inList l items negated)
      (fun r s p q (h : r.Departs s) => Sql.Departs.target h) fun l p q h =>
        FirstApart.inList h l negated
    exact both.of_iff sameNulls_append_iff.symm

theorem twin_callCondition (method : Method) (row : Expr.anyRowDependent es = true) :
    Twin (SameNulls a b (Expr.methodConditionTests method (Expr.testedAll es))) Sql.Departs
      (callCondition ⟨dialect, names, some a⟩ method (operands ⟨dialect, names, some a⟩ es))
      (callCondition ⟨dialect, names, some b⟩ method (operands ⟨dialect, names, some b⟩ es)) := by
  cases method with
  | startsWith => exact twin_like twins .atStart
  | endsWith => exact twin_like twins .atEnd
  | contains => exact twin_like twins .anywhere
  | isIn => exact twin_membership twins false row
  | isNotIn => exact twin_membership twins true row
  | host _ | concat | toUpper | toLower => exact Twin.fail

theorem twin_callValue (method : Method) (row : Expr.anyRowDependent es = true) :
    Twin (SameNulls a b (Expr.methodValueTests method (Expr.testedAll es))) Sql.Departs
      (callValue ⟨dialect, names, some a⟩ method (operands ⟨dialect, names, some a⟩ es))
      (callValue ⟨dialect, names, some b⟩ method (operands ⟨dialect, names, some b⟩ es)) := by
  have parens := fun method => Twin.map (twin_callCondition twins method row) Sql.paren fun _ _ =>
    Sql.Departs.paren
  cases method with
  | concat => exact Twin.map (twin_values twins) Sql.concat fun _ _ => FirstApart.concat
  | toUpper => exact Twin.map (twin_receiver twins _) Sql.upper fun _ _ => Sql.Departs.upper
  | toLower => exact Twin.map (twin_receiver twins _) Sql.lower fun _ _ => Sql.Departs.lower
  | startsWith | endsWith | contains | isIn | isNotIn | host _ => exact parens _

/-- A subquery has the same alias for both arguments, since as many indexes are bound. -/
theorem twin_subquery {inner : Expr} (negated : Bool) (index : String) (selector : Member)
    (filter : ConditionTwin dialect names a b inner) :
    Twin (SameNulls a b (Expr.allTests ((Expr.testedAll es).take 1) ++ inner.conditionTests))
      Sql.Departs
      (subquery ⟨dialect, names, some a⟩ negated index selector
        (condition ⟨dialect, names, some a⟩ inner) (operands ⟨dialect, names, some a⟩ es))
      (subquery ⟨dialect, names, some b⟩ negated index selector
        (condition ⟨dialect, names, some b⟩ inner) (operands ⟨dialect, names, some b⟩ es)) := by
  intro c c' d d' r s alike hx hy
  obtain ⟨left, c₁, binding, condition, c₂, hleft, found, hcondition, rfl, rfl⟩ := gives_subquery hx
  obtain ⟨left', c₁', binding', condition', c₂', hleft', found', hcondition', rfl, rfl⟩ :=
    gives_subquery hy
  obtain ⟨together, differ⟩ := twin_receiver twins _ alike hleft hleft'
  rw [sameNulls_append_iff]
  by_cases here : SameNulls a b (Expr.allTests ((Expr.testedAll es).take 1))
  · obtain ⟨rfl, alike₁⟩ := together here
    have inside := alike₁.bindings
    rw [inside] at found hcondition ⊢
    rw [found', Option.some.injEq] at found
    subst found
    obtain ⟨together, differ⟩ := filter (by exact ⟨rfl, alike₁.size⟩) hcondition hcondition'
    refine ⟨fun same => ?_, fun apart => ?_⟩
    · obtain ⟨rfl, alike₂⟩ := together same.2
      exact ⟨rfl, congrArg List.tail alike₂.bindings, alike₂.size⟩
    · exact (FirstApart.head (.select (differ fun h => apart ⟨here, h⟩)) [] []).inList left negated
  · exact ⟨fun same => absurd same.1 here, fun _ => .target (differ here)⟩

end Methods

/-- A condition on no row is decided alike, or bound. -/
theorem twin_fixedCondition (e : Expr) {apart : Sql → Sql → Prop} :
    Twin True apart (fixedCondition ⟨dialect, names, some a⟩ e)
      (fixedCondition ⟨dialect, names, some b⟩ e) := by
  unfold fixedCondition
  by_cases reads : e.hasCaptures = true
  · rw [if_pos reads, if_pos reads]
    exact Twin.map (twin_bindExpr .exact e) Sql.isTrue fun _ _ => id
  · rw [if_neg reads, if_neg reads]
    have none : e.captures = [] := by simpa [Expr.hasCaptures] using reads
    simp only [Expr.evaluate_congr (some a) (some b) e none]
    refine Twin.decided fun v => ?_
    cases v with
    | null => exact Twin.pure _
    | bool _ | int _ => exact Twin.pure _
    | float _ | text _ => exact Twin.fail

theorem twin_member (m : Member) {apart : Sql → Sql → Prop} :
    Twin True apart (member m) (member m) := by
  intro c c' d d' r s alike hx hy
  obtain ⟨_, rfl, binding, found, rfl⟩ := gives_member_iff.1 hx
  obtain ⟨_, rfl, binding', found', rfl⟩ := gives_member_iff.1 hy
  rw [alike.bindings, found', Option.some.injEq] at found
  subst found
  exact ⟨fun _ => ⟨rfl, alike⟩, fun h => absurd trivial h⟩

theorem twin_logical (op : BinaryOp) {l r : Expr} (hl : ConditionTwin dialect names a b l)
    (hr : ConditionTwin dialect names a b r) :
    Twin (SameNulls a b l.conditionTests ∧ SameNulls a b r.conditionTests) Sql.Departs
      (logical op (condition ⟨dialect, names, some a⟩ l) (condition ⟨dialect, names, some a⟩ r))
      (logical op (condition ⟨dialect, names, some b⟩ l) (condition ⟨dialect, names, some b⟩ r)) :=
  Twin.map₂ hl hr (fun l r => Sql.paren (.binary op l r))
    (fun _ _ _ _ (h : Sql.Departs _ _) => h.left.paren)
    fun _ _ _ (h : Sql.Departs _ _) => h.right.paren

mutual

/-- Conditions compiled for two arguments are the same exactly if the operands
that decide them are null alike; otherwise they depart. -/
theorem twin_condition : (e : Expr) → ConditionTwin dialect names a b e
  | .const v => (twin_fixedCondition (.const v)).of_iff (iff_of_true trivial (sameNulls_nil a b))
  | .capture c =>
    (twin_fixedCondition (.capture c)).of_iff (iff_of_true trivial (sameNulls_nil a b))
  | .member m => by
    simp only [ConditionTwin, condition, Expr.conditionTests]
    exact ((twin_member m).map Sql.isTrue fun _ _ => Sql.Departs.left).of_iff
      (iff_of_true trivial (sameNulls_nil a b))
  | .unary op inner => by
    simp only [ConditionTwin, condition, Expr.conditionTests]
    cases row : (Expr.unary op inner).isRowDependent with
    | false => exact (twin_fixedCondition _).of_iff (iff_of_true trivial (sameNulls_nil a b))
    | true =>
      cases op with
      | not =>
        exact (twin_condition inner).map (fun e => Sql.not (.paren e))
          fun _ _ (h : Sql.Departs _ _) => h.paren.not
      | negate => exact Twin.fail
  | .binary op l r => by
    simp only [ConditionTwin, condition, Expr.conditionTests]
    cases row : (Expr.binary op l r).isRowDependent with
    | false => exact (twin_fixedCondition _).of_iff (iff_of_true trivial (sameNulls_nil a b))
    | true =>
      simp only [Bool.not_true, Bool.false_eq_true, if_false]
      split
      · exact (twin_logical op (twin_condition l) (twin_condition r)).of_iff
          sameNulls_append_iff.symm
      · split
        · exact twin_comparison (by simpa [Expr.isRowDependent] using row) (twin_value l)
            (twin_value r)
        · exact Twin.fail
  | .call method args => by
    simp only [ConditionTwin, condition, Expr.conditionTests]
    cases row : (Expr.call method args).isRowDependent with
    | false => exact (twin_fixedCondition _).of_iff (iff_of_true trivial (sameNulls_nil a b))
    | true => exact twin_callCondition (twin_operands args) method row
  | .inQuery negated index selector inner args => by
    simp only [ConditionTwin, condition, Expr.conditionTests]
    exact twin_subquery (twin_operands args) negated index selector (twin_condition inner)
  | .convert inner kind => by
    simp only [ConditionTwin, condition, Expr.conditionTests]
    cases row : (Expr.convert inner kind).isRowDependent with
    | false => exact (twin_fixedCondition _).of_iff (iff_of_true trivial (sameNulls_nil a b))
    | true => exact twin_condition inner

/-- Values compiled for two arguments, in the same way. -/
theorem twin_value : (e : Expr) → ValueTwin dialect names a b e
  | .const v => (twin_bindExpr .exact (.const v)).of_iff (iff_of_true trivial (sameNulls_nil a b))
  | .capture c =>
    (twin_bindExpr .exact (.capture c)).of_iff (iff_of_true trivial (sameNulls_nil a b))
  | .member m => by
    simp only [ValueTwin, value, Expr.valueTests]
    exact (twin_member m).of_iff (iff_of_true trivial (sameNulls_nil a b))
  | .unary op inner => by
    simp only [ValueTwin, value, Expr.valueTests]
    cases row : (Expr.unary op inner).isRowDependent with
    | false => exact (twin_bindExpr .exact _).of_iff (iff_of_true trivial (sameNulls_nil a b))
    | true =>
      cases op with
      | not =>
        exact ((twin_condition inner).map (fun e => Sql.not (.paren e))
            fun _ _ (h : Sql.Departs _ _) => h.paren.not).map Sql.paren
          fun _ _ => Sql.Departs.paren
      | negate =>
        exact (twin_value inner).map (fun e => Sql.paren (.negate e))
          fun _ _ (h : Sql.Departs _ _) => h.negate.paren
  | .binary op l r => by
    simp only [ValueTwin, value, Expr.valueTests]
    cases row : (Expr.binary op l r).isRowDependent with
    | false => exact (twin_bindExpr .exact _).of_iff (iff_of_true trivial (sameNulls_nil a b))
    | true =>
      simp only [Bool.not_true, Bool.false_eq_true, if_false]
      split
      · exact ((twin_logical op (twin_condition l) (twin_condition r)).of_iff
            sameNulls_append_iff.symm).map Sql.paren
          fun _ _ => Sql.Departs.paren
      · split
        · exact (twin_comparison (by simpa [Expr.isRowDependent] using row) (twin_value l)
              (twin_value r)).map
            Sql.paren fun _ _ => Sql.Departs.paren
        · have both := (twin_value l).map₂ (twin_value r) (fun l r => Sql.paren (.binary op l r))
            (fun _ _ _ _ (h : Sql.Departs _ _) => h.left.paren) fun _ _ _ (h : Sql.Departs _ _) =>
              h.right.paren
          exact both.of_iff sameNulls_append_iff.symm
  | .call method args => by
    simp only [ValueTwin, value, Expr.valueTests]
    cases row : (Expr.call method args).isRowDependent with
    | false => exact (twin_bindExpr .exact _).of_iff (iff_of_true trivial (sameNulls_nil a b))
    | true => exact twin_callValue (twin_operands args) method row
  | .inQuery negated index selector inner args => by
    simp only [ValueTwin, value, Expr.valueTests]
    exact (twin_subquery (twin_operands args) negated index selector (twin_condition inner)).map
      Sql.paren fun _ _ => Sql.Departs.paren
  | .convert inner kind => by
    simp only [ValueTwin, value, Expr.valueTests]
    cases row : (Expr.convert inner kind).isRowDependent with
    | false => exact (twin_bindExpr .exact _).of_iff (iff_of_true trivial (sameNulls_nil a b))
    | true => exact twin_value inner

theorem twin_operands : (es : List Expr) → ∀ e ∈ es, ValueTwin dialect names a b e
  | [] => fun _ h => nomatch h
  | e :: es => List.forall_mem_cons.2 ⟨twin_value e, twin_operands es⟩

end

end Parts

end Compile

end DocStore

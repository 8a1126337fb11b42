import DocStore.Proofs.Outlines

/-!
# Constants that SQL cannot tell apart

Two expressions are indistinct if they differ only in what their constants hold,
and what decides their SQL is decided alike: the operands that are tested for
null, and the conditions that are fixed. Compiling them from one state, each
step of the one beside the same step of the other, gives one SQL tree and binds
parameters of the same names, in every place of a statement.
-/

set_option autoImplicit false

namespace DocStore

namespace Expr

/-- The fixed operands of `=` and `<>` whose nullness decides the SQL. -/
def tests : Place → Expr → List Expr
  | .condition => conditionTests
  | .value => valueTests

/-- The fixed conditions without captures whose truth decides the SQL. -/
def decisions : Place → Expr → List Expr
  | .condition => conditionDecisions
  | .value => valueDecisions

/-- Expressions that differ only in what their constants hold, with the same
operands null and the same conditions true. -/
structure Indistinct (a b : Option Arguments) (place : Place) (e e' : Expr) : Prop where
  outline : e.outline = e'.outline
  nulls : (e.tests place).map (isNullUnder a) = (e'.tests place).map (isNullUnder b)
  truths : (e.decisions place).map (isTrueUnder a) = (e'.decisions place).map (isTrueUnder b)

theorem length_tests (place : Place) {e e' : Expr} (same : e.outline = e'.outline) :
    (e.tests place).length = (e'.tests place).length := by
  have mapped : (e.tests place).map Expr.outline = (e'.tests place).map Expr.outline := by
    cases place with
    | condition => simp only [tests, ← conditionTests_outline, same]
    | value => simp only [tests, ← valueTests_outline, same]
  simpa using congrArg List.length mapped

theorem length_decisions (place : Place) {e e' : Expr} (same : e.outline = e'.outline) :
    (e.decisions place).length = (e'.decisions place).length := by
  have mapped : (e.decisions place).map Expr.outline = (e'.decisions place).map Expr.outline := by
    cases place with
    | condition => simp only [decisions, ← conditionDecisions_outline, same]
    | value => simp only [decisions, ← valueDecisions_outline, same]
  simpa using congrArg List.length mapped

theorem length_receiverTests {es es' : List Expr} (same : outlines es = outlines es') :
    (allTests ((testedAll es).take 1)).length = (allTests ((testedAll es').take 1)).length := by
  have mapped : ∀ xs, (allTests ((testedAll xs).take 1)).map Expr.outline =
      allTests ((testedAll (outlines xs)).take 1) := by
    intro xs
    rw [← allTests_outline, List.map_take, testedAll_outlines]
  have both := congrArg List.length (mapped es)
  rw [same, ← mapped es', List.length_map, List.length_map] at both
  exact both

theorem length_receiverDecisions {es es' : List Expr} (same : outlines es = outlines es') :
    ((decisionsOfAll es).take 1).flatten.length = ((decisionsOfAll es').take 1).flatten.length := by
  have mapped : ∀ xs, ((decisionsOfAll xs).take 1).flatten.map Expr.outline =
      ((decisionsOfAll (outlines xs)).take 1).flatten := by
    intro xs
    rw [List.map_flatten, List.map_take, decisionsOfAll_outlines]
  have both := congrArg List.length (mapped es)
  rw [same, ← mapped es', List.length_map, List.length_map] at both
  exact both

/-- Lists put together from parts of the same lengths are mapped alike only part by part. -/
theorem map_append_eq {α β γ : Type} {f : α → γ} {g : β → γ} {xs ys : List α} {us vs : List β}
    (length : xs.length = us.length) (h : (xs ++ ys).map f = (us ++ vs).map g) :
    xs.map f = us.map g ∧ ys.map f = vs.map g := by
  rw [List.map_append, List.map_append] at h
  exact List.append_inj h (by simpa using length)

variable {a b : Option Arguments}

/-- Two parts of an expression, one after the other, are indistinct if together they are. -/
theorem Indistinct.parts {p q : Place} {l r x y : Expr} (left : l.outline = x.outline)
    (right : r.outline = y.outline)
    (nulls : (l.tests p ++ r.tests q).map (isNullUnder a) =
      (x.tests p ++ y.tests q).map (isNullUnder b))
    (truths : (l.decisions p ++ r.decisions q).map (isTrueUnder a) =
      (x.decisions p ++ y.decisions q).map (isTrueUnder b)) :
    Indistinct a b p l x ∧ Indistinct a b q r y := by
  obtain ⟨ln, rn⟩ := map_append_eq (length_tests p left) nulls
  obtain ⟨lt, rt⟩ := map_append_eq (length_decisions p left) truths
  exact ⟨⟨left, ln, lt⟩, right, rn, rt⟩

/-- The operands of a list are indistinct one by one if together they are. -/
theorem Indistinct.operands {es es' : List Expr} (same : outlines es = outlines es')
    (nulls : (allTests (testedAll es)).map (isNullUnder a) =
      (allTests (testedAll es')).map (isNullUnder b))
    (truths : (decisionsOfAll es).flatten.map (isTrueUnder a) =
      (decisionsOfAll es').flatten.map (isTrueUnder b)) :
    List.Forall₂ (Indistinct a b .value) es es' := by
  induction es generalizing es' with
  | nil =>
    obtain rfl := outlines_nil same
    exact .nil
  | cons e es ih =>
    obtain ⟨x, xs, rfl, first, rest⟩ := outlines_cons same
    have tests : ∀ (y : Expr) (ys : List Expr),
        allTests (testedAll (y :: ys)) = y.tests .value ++ allTests (testedAll ys) :=
      fun _ _ => rfl
    rw [tests, tests] at nulls
    obtain ⟨nulls, restNulls⟩ := map_append_eq (length_tests .value first) nulls
    obtain ⟨truths, restTruths⟩ := map_append_eq (length_decisions .value first) truths
    exact .cons ⟨first, nulls, truths⟩ (ih rest restNulls restTruths)

/-- What decides a comparison: its fixed operands, and what decides the others. -/
theorem Indistinct.comparison {op : BinaryOp} {l r x y : Expr} (left : l.outline = x.outline)
    (right : r.outline = y.outline)
    (nulls : (comparisonTests op ⟨l, l.valueTests⟩ ⟨r, r.valueTests⟩).map (isNullUnder a) =
      (comparisonTests op ⟨x, x.valueTests⟩ ⟨y, y.valueTests⟩).map (isNullUnder b))
    (truths : (l.valueDecisions ++ r.valueDecisions).map (isTrueUnder a) =
      (x.valueDecisions ++ y.valueDecisions).map (isTrueUnder b)) :
    Indistinct a b .value l x ∧ Indistinct a b .value r y ∧
      (op = .eq ∨ op = .ne → l.isRowDependent = false → l.isNullUnder a = x.isNullUnder b) ∧
      (op = .eq ∨ op = .ne → r.isRowDependent = false → r.isNullUnder a = y.isNullUnder b) := by
  have fl := isRowDependent_eq left
  have fr := isRowDependent_eq right
  unfold comparisonTests at nulls
  have length :
      (if op = .eq ∨ op = .ne then [l, r].filter fun e => !e.isRowDependent else []).length =
      (if op = .eq ∨ op = .ne then [x, y].filter fun e => !e.isRowDependent else []).length := by
    split
    · cases lf : x.isRowDependent <;> cases rf : y.isRowDependent <;> simp [fl, fr, lf, rf]
    · rfl
  obtain ⟨fixed, inside⟩ := map_append_eq length nulls
  obtain ⟨hl, hr⟩ := Indistinct.parts (p := .value) (q := .value) left right inside truths
  refine ⟨hl, hr, fun equality lf => ?_, fun equality rf => ?_⟩
  · rw [if_pos equality, if_pos equality] at fixed
    rw [fl] at lf
    cases rf : y.isRowDependent <;> simp_all
  · rw [if_pos equality, if_pos equality] at fixed
    rw [fr] at rf
    cases lf : x.isRowDependent <;> simp_all

end Expr

/-! ## Compiling side by side -/

/-- Compilations that have bound the same indexes, and parameters of the same names. -/
structure Compilation.Matches (c c' : Compilation) : Prop where
  bindings : c.bindings = c'.bindings
  names : c.parameters.names = c'.parameters.names

theorem Compilation.Matches.refl (c : Compilation) : c.Matches c := ⟨rfl, rfl⟩

theorem Compilation.Matches.size {c c' : Compilation} (h : c.Matches c') :
    c.parameters.size = c'.parameters.size := by
  simpa [Parameters.names, Parameters.size] using congrArg List.length h.names

namespace Compile

section Steps

variable {α β : Type}

/-- Two steps that, from compilations that match, answer the same and leave
compilations that match. -/
def Parallel (x y : Compile α) : Prop :=
  ∀ ⦃c c' d d' : Compilation⦄ ⦃r s : α⦄, c.Matches c' →
    Gives x c r d → Gives y c' s d' → r = s ∧ d.Matches d'

namespace Parallel

variable {x y : Compile α} {f g : α → Compile β}

theorem pure (r : α) : Parallel (pure r : Compile α) (Pure.pure r) := by
  intro c c' d d' s s' matching hx hy
  obtain ⟨rfl, rfl⟩ := gives_pure_iff.1 hx
  obtain ⟨rfl, rfl⟩ := gives_pure_iff.1 hy
  exact ⟨rfl, matching⟩

theorem fail {err : Error} : Parallel (fail err : Compile α) y :=
  fun _ _ _ _ _ _ _ h => absurd h not_gives_fail

theorem bind (h : Parallel x y) (later : ∀ r, Parallel (f r) (g r)) :
    Parallel (x >>= f) (y >>= g) := by
  intro c c' e e' r s matching hx hy
  obtain ⟨p, d, hp, hr⟩ := gives_bind_iff.1 hx
  obtain ⟨q, d', hq, hs⟩ := gives_bind_iff.1 hy
  obtain ⟨rfl, matching⟩ := h matching hp hq
  exact later p matching hr hs

theorem map (h : Parallel x y) (f : α → β) :
    Parallel (do let r ← x; Pure.pure (f r)) (do let r ← y; Pure.pure (f r)) :=
  h.bind fun r => Parallel.pure (f r)

end Parallel

end Steps

variable {dialect : Dialect} {names : TableNames} {a b : Option Arguments}

/-- Binding any two values binds one parameter more, under the name of its place. -/
theorem parallel_bindExpr (affix : Affix) (e e' : Expr) :
    Parallel (bindExpr ⟨dialect, names, a⟩ affix e) (bindExpr ⟨dialect, names, b⟩ affix e') := by
  intro c c' d d' r s matching hx hy
  obtain ⟨rfl, bindings, _, _, bound⟩ := gives_bindExpr hx
  obtain ⟨rfl, bindings', _, _, bound'⟩ := gives_bindExpr hy
  refine ⟨by rw [matching.size], ?_, ?_⟩
  · rw [bindings, bindings', matching.bindings]
  · rw [bound, bound', Parameters.names_push, Parameters.names_push, matching.names, matching.size]

theorem parallel_member (m : Member) : Parallel (member m) (member m) := by
  intro c c' d d' r s matching hx hy
  obtain ⟨_, rfl, binding, found, rfl⟩ := gives_member_iff.1 hx
  obtain ⟨_, rfl, binding', found', rfl⟩ := gives_member_iff.1 hy
  rw [matching.bindings, found', Option.some.injEq] at found
  subst found
  exact ⟨rfl, matching⟩

/-- A fixed condition is bound if it reads captures, and otherwise only its truth counts. -/
theorem parallel_fixedCondition {e e' : Expr} (same : e.outline = e'.outline)
    (truths : (Expr.decidedAlone e).map (Expr.isTrueUnder a) =
      (Expr.decidedAlone e').map (Expr.isTrueUnder b)) :
    Parallel (fixedCondition ⟨dialect, names, a⟩ e) (fixedCondition ⟨dialect, names, b⟩ e') := by
  have reading := Expr.hasCaptures_eq same
  by_cases reads : e'.hasCaptures = true
  · rw [reads] at reading
    unfold fixedCondition
    rw [if_pos reading, if_pos reads]
    exact (parallel_bindExpr .exact e e').map Sql.isTrue
  · intro c c' d d' r s matching hx hy
    rw [Bool.not_eq_true] at reads
    rw [reads] at reading
    obtain ⟨rfl, v, value, rfl⟩ := gives_fixedCondition (by simp [reading]) hx
    obtain ⟨rfl, w, value', rfl⟩ := gives_fixedCondition (by simp [reads]) hy
    simp only [Expr.decidedAlone, reading, reads, Bool.false_eq_true, if_false, List.map_cons,
      List.map_nil, List.cons.injEq, and_true, Expr.isTrueUnder, value, value'] at truths
    exact ⟨congrArg Sql.truth truths, matching⟩

section Operands

variable {l r l' r' : Expr}

/-- Comparisons whose fixed operands are null alike test the same operand for null, or none. -/
theorem parallel_comparison {op : BinaryOp} (left : l.outline = l'.outline)
    (right : r.outline = r'.outline)
    (leftNull : op = .eq ∨ op = .ne → l.isRowDependent = false → l.isNullUnder a = l'.isNullUnder b)
    (rightNull : op = .eq ∨ op = .ne → r.isRowDependent = false →
      r.isNullUnder a = r'.isNullUnder b)
    (hl : Parallel (value ⟨dialect, names, a⟩ l) (value ⟨dialect, names, b⟩ l'))
    (hr : Parallel (value ⟨dialect, names, a⟩ r) (value ⟨dialect, names, b⟩ r')) : Parallel
      (comparison ⟨dialect, names, a⟩ op ⟨l, value ⟨dialect, names, a⟩ l⟩
        ⟨r, value ⟨dialect, names, a⟩ r⟩)
      (comparison ⟨dialect, names, b⟩ op ⟨l', value ⟨dialect, names, b⟩ l'⟩
        ⟨r', value ⟨dialect, names, b⟩ r'⟩) := by
  intro c c' d d' e e' matching hx hy
  have ways := gives_comparison_under hx
  have ways' := gives_comparison_under hy
  have tested : ∀ {o o' : Expr}, o.outline = o'.outline →
      (op = .eq ∨ op = .ne → o.isRowDependent = false → o.isNullUnder a = o'.isNullUnder b) →
      ((op = .eq ∨ op = .ne) ∧ o.isRowDependent = false ∧ o.isNullUnder a = true ↔
        (op = .eq ∨ op = .ne) ∧ o'.isRowDependent = false ∧ o'.isNullUnder b = true) := by
    intro o o' same null
    rw [← Expr.isRowDependent_eq same]
    refine and_congr_right fun equality => and_congr_right fun fixed => ?_
    rw [null equality fixed]
  simp only at ways ways'
  rw [if_congr (tested left leftNull) rfl (if_congr (tested right rightNull) rfl rfl)] at ways
  split at ways
  · next first =>
    rw [if_pos first] at ways'
    obtain ⟨x, gives, rfl⟩ := ways
    obtain ⟨y, gives', rfl⟩ := ways'
    obtain ⟨rfl, matching⟩ := hr matching gives gives'
    exact ⟨rfl, matching⟩
  · next first =>
    rw [if_neg first] at ways'
    split at ways
    · next second =>
      rw [if_pos second] at ways'
      obtain ⟨x, gives, rfl⟩ := ways
      obtain ⟨y, gives', rfl⟩ := ways'
      obtain ⟨rfl, matching⟩ := hl matching gives gives'
      exact ⟨rfl, matching⟩
    · next second =>
      rw [if_neg second] at ways'
      obtain ⟨x, y, _, gives, later, rfl⟩ := ways
      obtain ⟨z, w, _, gives', later', rfl⟩ := ways'
      obtain ⟨rfl, matching⟩ := hl matching gives gives'
      obtain ⟨rfl, matching⟩ := hr matching later later'
      exact ⟨rfl, matching⟩

theorem parallel_values {es es' : List Expr}
    (h : List.Forall₂ (fun e e' =>
      Parallel (value ⟨dialect, names, a⟩ e) (value ⟨dialect, names, b⟩ e')) es es') :
    Parallel (values (operands ⟨dialect, names, a⟩ es))
      (values (operands ⟨dialect, names, b⟩ es')) := by
  induction h with
  | nil => exact Parallel.pure []
  | cons first _ ih => exact first.bind fun e => ih.map (List.cons e)

theorem parallel_pattern (affix : Affix) {p p' : Expr} (same : p.outline = p'.outline)
    (h : Parallel (value ⟨dialect, names, a⟩ p) (value ⟨dialect, names, b⟩ p')) :
    Parallel (patternStep ⟨dialect, names, a⟩ affix ⟨p, value ⟨dialect, names, a⟩ p⟩)
      (patternStep ⟨dialect, names, b⟩ affix ⟨p', value ⟨dialect, names, b⟩ p'⟩) := by
  unfold patternStep
  simp only [Expr.isRowDependent_eq same]
  split
  · exact h.map (wildcards affix)
  · exact parallel_bindExpr affix p p'

end Operands

variable (dialect names a b) in
/-- Rendering one of two expressions as a value, and the other. -/
def ValueParallel (e e' : Expr) : Prop :=
  Expr.Indistinct a b .value e e' →
  Parallel (value ⟨dialect, names, a⟩ e) (value ⟨dialect, names, b⟩ e')

variable (dialect names a b) in
/-- Rendering one of two expressions as a condition, and the other. -/
def ConditionParallel (e e' : Expr) : Prop :=
  Expr.Indistinct a b .condition e e' →
  Parallel (condition ⟨dialect, names, a⟩ e) (condition ⟨dialect, names, b⟩ e')

section Methods

variable {es es' : List Expr} (parallel : ∀ e ∈ es, ∀ e', ValueParallel dialect names a b e e')
variable (same : Expr.outlines es = Expr.outlines es')
include parallel same

/-- Operands that are decided alike are rendered alike, one by one. -/
theorem parallel_operands
    (nulls : (Expr.allTests (Expr.testedAll es)).map (Expr.isNullUnder a) =
      (Expr.allTests (Expr.testedAll es')).map (Expr.isNullUnder b))
    (truths : (Expr.decisionsOfAll es).flatten.map (Expr.isTrueUnder a) =
      (Expr.decisionsOfAll es').flatten.map (Expr.isTrueUnder b)) :
    List.Forall₂ (fun e e' => Parallel (value ⟨dialect, names, a⟩ e) (value ⟨dialect, names, b⟩ e'))
      es es' := by
  have indistinct := Expr.Indistinct.operands same nulls truths
  clear nulls truths same
  induction indistinct with
  | nil => exact .nil
  | cons first _ ih =>
    obtain ⟨here, later⟩ := List.forall_mem_cons.1 parallel
    exact .cons (here _ first) (ih later)

theorem parallel_receiver (name : String)
    (nulls : (Expr.allTests ((Expr.testedAll es).take 1)).map (Expr.isNullUnder a) =
      (Expr.allTests ((Expr.testedAll es').take 1)).map (Expr.isNullUnder b))
    (truths : ((Expr.decisionsOfAll es).take 1).flatten.map (Expr.isTrueUnder a) =
      ((Expr.decisionsOfAll es').take 1).flatten.map (Expr.isTrueUnder b)) :
    Parallel (receiver name (operands ⟨dialect, names, a⟩ es))
      (receiver name (operands ⟨dialect, names, b⟩ es')) := by
  cases es with
  | nil => exact Parallel.fail
  | cons e es =>
    obtain ⟨e', xs, rfl, first, _⟩ := Expr.outlines_cons same
    obtain ⟨here, _⟩ := List.forall_mem_cons.1 parallel
    have alone : List.Forall₂ _ [e] [e'] :=
      parallel_operands (List.forall_mem_singleton.2 here) (by simp only [Expr.outlines, first])
        nulls truths
    cases alone with
    | cons first _ => exact first

theorem parallel_like (affix : Affix)
    (nulls : (Expr.allTests ((Expr.testedAll es).take 2)).map (Expr.isNullUnder a) =
      (Expr.allTests ((Expr.testedAll es').take 2)).map (Expr.isNullUnder b))
    (truths : ((Expr.decisionsOfAll es).take 2).flatten.map (Expr.isTrueUnder a) =
      ((Expr.decisionsOfAll es').take 2).flatten.map (Expr.isTrueUnder b)) :
    Parallel (like ⟨dialect, names, a⟩ affix (operands ⟨dialect, names, a⟩ es))
      (like ⟨dialect, names, b⟩ affix (operands ⟨dialect, names, b⟩ es')) := by
  match es with
  | [] => exact Parallel.fail
  | [_] => exact Parallel.fail
  | target :: pattern :: rest =>
    obtain ⟨target', xs, rfl, first, others⟩ := Expr.outlines_cons same
    obtain ⟨pattern', xs, rfl, second, _⟩ := Expr.outlines_cons others
    have both : List.Forall₂ _ [target, pattern] [target', pattern'] :=
      parallel_operands (fun e he => parallel e (by simp only [List.mem_cons] at he ⊢; tauto))
        (by simp only [Expr.outlines, first, second]) nulls truths
    simp only [operands, like_eq]
    cases both with
    | cons left right =>
      cases right with
      | cons right _ =>
        exact left.bind fun l => (parallel_pattern affix second right).map (Sql.like l)

/-- A list of one item is compared, and of several each is rendered. -/
theorem parallel_membership (negated : Bool)
    (nulls : (Expr.membershipTests (Expr.testedAll es)).map (Expr.isNullUnder a) =
      (Expr.membershipTests (Expr.testedAll es')).map (Expr.isNullUnder b))
    (truths : (Expr.writtenMembers (Expr.decisionsOfAll es)).flatten.map (Expr.isTrueUnder a) =
      (Expr.writtenMembers (Expr.decisionsOfAll es')).flatten.map (Expr.isTrueUnder b)) :
    Parallel (membership ⟨dialect, names, a⟩ negated (operands ⟨dialect, names, a⟩ es))
      (membership ⟨dialect, names, b⟩ negated (operands ⟨dialect, names, b⟩ es')) := by
  match es with
  | [] => exact Parallel.fail
  | [_] =>
    obtain ⟨target', xs, rfl, _, others⟩ := Expr.outlines_cons same
    obtain rfl := Expr.outlines_nil others
    exact Parallel.pure _
  | [target, item] =>
    obtain ⟨target', xs, rfl, first, others⟩ := Expr.outlines_cons same
    obtain ⟨item', xs, rfl, second, others⟩ := Expr.outlines_cons others
    obtain rfl := Expr.outlines_nil others
    have compared :
        (Expr.comparisonTests .eq ⟨target, target.valueTests⟩ ⟨item, item.valueTests⟩).map
          (Expr.isNullUnder a) =
        (Expr.comparisonTests .eq ⟨target', target'.valueTests⟩ ⟨item', item'.valueTests⟩).map
          (Expr.isNullUnder b) := nulls
    obtain ⟨left, right, leftNull, rightNull⟩ := Expr.Indistinct.comparison first second compared
      (by simpa [Expr.writtenMembers, Expr.decisionsOfAll] using truths)
    exact parallel_comparison first second (fun _ => leftNull (.inl rfl))
      (fun _ => rightNull (.inl rfl))
      (parallel target (by simp) _ left) (parallel item (by simp) _ right)
  | target :: item :: item₂ :: rest =>
    obtain ⟨target', xs, rfl, first, others⟩ := Expr.outlines_cons same
    obtain ⟨item', xs, rfl, second, others⟩ := Expr.outlines_cons others
    obtain ⟨item₂', xs, rfl, third, others⟩ := Expr.outlines_cons others
    have all := parallel_operands parallel same nulls truths
    cases all with
    | cons target items =>
      exact target.bind fun l => (parallel_values items).map fun items => Sql.inList l items negated

theorem parallel_callCondition (method : Method)
    (nulls : (Expr.methodConditionTests method (Expr.testedAll es)).map (Expr.isNullUnder a) =
      (Expr.methodConditionTests method (Expr.testedAll es')).map (Expr.isNullUnder b))
    (truths : (Expr.writtenOperands method (Expr.decisionsOfAll es)).flatten.map
        (Expr.isTrueUnder a) =
      (Expr.writtenOperands method (Expr.decisionsOfAll es')).flatten.map (Expr.isTrueUnder b)) :
    Parallel (callCondition ⟨dialect, names, a⟩ method (operands ⟨dialect, names, a⟩ es))
      (callCondition ⟨dialect, names, b⟩ method (operands ⟨dialect, names, b⟩ es')) := by
  cases method with
  | startsWith => exact parallel_like parallel same .atStart nulls truths
  | endsWith => exact parallel_like parallel same .atEnd nulls truths
  | contains => exact parallel_like parallel same .anywhere nulls truths
  | isIn => exact parallel_membership parallel same false nulls truths
  | isNotIn => exact parallel_membership parallel same true nulls truths
  | host _ | concat | toUpper | toLower => exact Parallel.fail

theorem parallel_callValue (method : Method)
    (nulls : (Expr.methodValueTests method (Expr.testedAll es)).map (Expr.isNullUnder a) =
      (Expr.methodValueTests method (Expr.testedAll es')).map (Expr.isNullUnder b))
    (truths : (Expr.writtenOperands method (Expr.decisionsOfAll es)).flatten.map
        (Expr.isTrueUnder a) =
      (Expr.writtenOperands method (Expr.decisionsOfAll es')).flatten.map (Expr.isTrueUnder b)) :
    Parallel (callValue ⟨dialect, names, a⟩ method (operands ⟨dialect, names, a⟩ es))
      (callValue ⟨dialect, names, b⟩ method (operands ⟨dialect, names, b⟩ es')) := by
  cases method with
  | concat => exact (parallel_values (parallel_operands parallel same nulls truths)).map Sql.concat
  | toUpper => exact (parallel_receiver parallel same _ nulls truths).map Sql.upper
  | toLower => exact (parallel_receiver parallel same _ nulls truths).map Sql.lower
  | startsWith | endsWith | contains | isIn | isNotIn | host _ =>
    simp only [Expr.methodValueTests] at nulls
    exact (parallel_callCondition parallel same _ nulls truths).map Sql.paren

/-- A subquery has the same alias on both sides, since the same indexes are bound. -/
theorem parallel_subquery (negated : Bool) (index : String) (selector : Member)
    {inner inner' : Expr}
    (filter : Parallel (condition ⟨dialect, names, a⟩ inner) (condition ⟨dialect, names, b⟩ inner'))
    (nulls : (Expr.allTests ((Expr.testedAll es).take 1)).map (Expr.isNullUnder a) =
      (Expr.allTests ((Expr.testedAll es').take 1)).map (Expr.isNullUnder b))
    (truths : ((Expr.decisionsOfAll es).take 1).flatten.map (Expr.isTrueUnder a) =
      ((Expr.decisionsOfAll es').take 1).flatten.map (Expr.isTrueUnder b)) :
    Parallel
      (subquery ⟨dialect, names, a⟩ negated index selector (condition ⟨dialect, names, a⟩ inner)
        (operands ⟨dialect, names, a⟩ es))
      (subquery ⟨dialect, names, b⟩ negated index selector (condition ⟨dialect, names, b⟩ inner')
        (operands ⟨dialect, names, b⟩ es')) := by
  intro c c' d d' r s matching hx hy
  obtain ⟨left, c₁, binding, inside, c₂, hleft, found, hinside, rfl, rfl⟩ := gives_subquery hx
  obtain ⟨left', c₁', binding', inside', c₂', hleft', found', hinside', rfl, rfl⟩ :=
    gives_subquery hy
  obtain ⟨rfl, matching₁⟩ := parallel_receiver parallel same _ nulls truths matching hleft hleft'
  rw [matching₁.bindings] at found hinside ⊢
  rw [found', Option.some.injEq] at found
  subst found
  obtain ⟨rfl, matching₂⟩ := filter (by exact ⟨rfl, matching₁.names⟩) hinside hinside'
  exact ⟨rfl, congrArg List.tail matching₂.bindings, matching₂.names⟩

end Methods

section Rows

variable {e e' : Expr}

/-- Only conditions that reach a row are looked into. -/
theorem parallel_condition_of_row (h : Expr.Indistinct a b .condition e e')
    (reaches : e.isRowDependent = true → e'.isRowDependent = true →
      Parallel (condition ⟨dialect, names, a⟩ e) (condition ⟨dialect, names, b⟩ e')) :
    Parallel (condition ⟨dialect, names, a⟩ e) (condition ⟨dialect, names, b⟩ e') := by
  have rows := Expr.isRowDependent_eq h.outline
  cases row : e'.isRowDependent with
  | true => exact reaches (rows.trans row) row
  | false =>
    have alone : ∀ {x : Expr}, x.isRowDependent = false →
        x.decisions .condition = x.decidedAlone := by
      intro x fixed
      cases x with
      | const _ | capture _ => rfl
      | member _ | inQuery _ _ _ _ _ => cases fixed
      | unary _ _ | binary _ _ _ | call _ _
      | convert _ _ => simp [Expr.decisions, Expr.conditionDecisions, fixed]
    have truths := h.truths
    rw [alone (rows.trans row), alone row] at truths
    rw [condition_of_fixed _ (rows.trans row), condition_of_fixed _ row]
    exact parallel_fixedCondition h.outline truths

/-- Only values that reach a row are looked into. -/
theorem parallel_value_of_row (same : e.outline = e'.outline)
    (reaches : e.isRowDependent = true → e'.isRowDependent = true →
      Parallel (value ⟨dialect, names, a⟩ e) (value ⟨dialect, names, b⟩ e')) :
    Parallel (value ⟨dialect, names, a⟩ e) (value ⟨dialect, names, b⟩ e') := by
  have rows := Expr.isRowDependent_eq same
  cases row : e'.isRowDependent with
  | true => exact reaches (rows.trans row) row
  | false =>
    rw [value_of_fixed _ (rows.trans row), value_of_fixed _ row]
    exact parallel_bindExpr .exact e e'

end Rows

mutual

/-- Indistinct conditions are compiled to one SQL tree. -/
theorem parallel_condition : (e e' : Expr) → ConditionParallel dialect names a b e e'
  | .const _, e' => fun h => parallel_condition_of_row h fun row => nomatch row
  | .capture _, e' => fun h => parallel_condition_of_row h fun row => nomatch row
  | .member m, e' => fun h => by
    obtain rfl := Expr.outline_member h.outline
    exact (parallel_member m).map Sql.isTrue
  | .unary op inner, e' => fun h => by
    obtain ⟨inner', rfl, same⟩ := Expr.outline_unary h.outline
    refine parallel_condition_of_row h fun row row' => ?_
    obtain ⟨_, nulls, truths⟩ := h
    simp only [Expr.tests, Expr.decisions, Expr.conditionTests, Expr.conditionDecisions,
      condition, row, row', Bool.not_true, Bool.false_eq_true, if_false] at nulls truths ⊢
    cases op with
    | not =>
      exact (parallel_condition inner inner' ⟨same, nulls, truths⟩).map fun e => Sql.not (.paren e)
    | negate => exact Parallel.fail
  | .binary op l r, e' => fun h => by
    obtain ⟨l', r', rfl, left, right⟩ := Expr.outline_binary h.outline
    refine parallel_condition_of_row h fun row row' => ?_
    obtain ⟨_, nulls, truths⟩ := h
    simp only [Expr.tests, Expr.decisions, Expr.conditionTests, Expr.conditionDecisions,
      condition, row, row', Bool.not_true, Bool.false_eq_true, if_false] at nulls truths ⊢
    split
    · next logical =>
      rw [if_pos logical, if_pos logical] at nulls truths
      obtain ⟨hl, hr⟩ := Expr.Indistinct.parts (p := .condition) (q := .condition) left right
        nulls truths
      exact (parallel_condition l l' hl).bind fun x =>
        (parallel_condition r r' hr).map fun y => Sql.paren (.binary op x y)
    · next tight =>
      rw [if_neg tight, if_neg tight] at nulls truths
      split
      · next compares =>
        rw [if_pos compares, if_pos compares] at nulls
        obtain ⟨hl, hr, leftNull, rightNull⟩ := Expr.Indistinct.comparison left right nulls truths
        exact parallel_comparison left right leftNull rightNull (parallel_value l l' hl)
          (parallel_value r r' hr)
      · exact Parallel.fail
  | .call method args, e' => fun h => by
    obtain ⟨args', rfl, same⟩ := Expr.outline_call h.outline
    refine parallel_condition_of_row h fun row row' => ?_
    obtain ⟨_, nulls, truths⟩ := h
    simp only [Expr.tests, Expr.decisions, Expr.conditionTests, Expr.conditionDecisions,
      condition, row, row', Bool.not_true, Bool.false_eq_true, if_false] at nulls truths ⊢
    exact parallel_callCondition (parallel_each args) same method nulls truths
  | .inQuery negated index selector inner args, e' => fun h => by
    obtain ⟨inner', args', rfl, within, same⟩ := Expr.outline_inQuery h.outline
    obtain ⟨nulls, innerNulls⟩ := Expr.map_append_eq (Expr.length_receiverTests same) h.nulls
    obtain ⟨truths, innerTruths⟩ := Expr.map_append_eq (Expr.length_receiverDecisions same) h.truths
    have filter := parallel_condition inner inner' ⟨within, innerNulls, innerTruths⟩
    exact parallel_subquery (parallel_each args) same negated index selector filter nulls truths
  | .convert inner _, e' => fun h => by
    obtain ⟨inner', rfl, same⟩ := Expr.outline_convert h.outline
    refine parallel_condition_of_row h fun row row' => ?_
    obtain ⟨_, nulls, truths⟩ := h
    simp only [Expr.tests, Expr.decisions, Expr.conditionTests, Expr.conditionDecisions,
      condition, row, row', Bool.not_true, Bool.false_eq_true, if_false] at nulls truths ⊢
    exact parallel_condition inner inner' ⟨same, nulls, truths⟩

/-- Indistinct values are compiled to one SQL tree. -/
theorem parallel_value : (e e' : Expr) → ValueParallel dialect names a b e e'
  | .const _, e' => fun h => parallel_value_of_row h.outline fun row => nomatch row
  | .capture _, e' => fun h => parallel_value_of_row h.outline fun row => nomatch row
  | .member m, e' => fun h => by
    obtain rfl := Expr.outline_member h.outline
    exact parallel_member m
  | .unary op inner, e' => fun h => by
    obtain ⟨inner', rfl, same⟩ := Expr.outline_unary h.outline
    refine parallel_value_of_row h.outline fun row row' => ?_
    obtain ⟨_, nulls, truths⟩ := h
    simp only [Expr.tests, Expr.decisions, Expr.valueTests, Expr.valueDecisions, value, row, row',
      Bool.not_true, Bool.false_eq_true, if_false] at nulls truths ⊢
    cases op with
    | not =>
      exact ((parallel_condition inner inner' ⟨same, nulls, truths⟩).map fun e =>
        Sql.not (.paren e)).map Sql.paren
    | negate =>
      exact (parallel_value inner inner' ⟨same, nulls, truths⟩).map fun e => Sql.paren (.negate e)
  | .binary op l r, e' => fun h => by
    obtain ⟨l', r', rfl, left, right⟩ := Expr.outline_binary h.outline
    refine parallel_value_of_row h.outline fun row row' => ?_
    obtain ⟨_, nulls, truths⟩ := h
    simp only [Expr.tests, Expr.decisions, Expr.valueTests, Expr.valueDecisions, value, row, row',
      Bool.not_true, Bool.false_eq_true, if_false] at nulls truths ⊢
    split
    · next logical =>
      rw [if_pos logical, if_pos logical] at nulls truths
      obtain ⟨hl, hr⟩ := Expr.Indistinct.parts (p := .condition) (q := .condition) left right
        nulls truths
      exact ((parallel_condition l l' hl).bind fun x =>
        (parallel_condition r r' hr).map fun y => Sql.paren (.binary op x y)).map Sql.paren
    · next tight =>
      rw [if_neg tight, if_neg tight] at nulls truths
      split
      · next compares =>
        rw [if_pos compares, if_pos compares] at nulls
        obtain ⟨hl, hr, leftNull, rightNull⟩ := Expr.Indistinct.comparison left right nulls truths
        exact (parallel_comparison left right leftNull rightNull (parallel_value l l' hl)
          (parallel_value r r' hr)).map Sql.paren
      · next arithmetic =>
        rw [if_neg arithmetic, if_neg arithmetic] at nulls
        obtain ⟨hl, hr⟩ := Expr.Indistinct.parts (p := .value) (q := .value) left right nulls truths
        exact (parallel_value l l' hl).bind fun x =>
          (parallel_value r r' hr).map fun y => Sql.paren (.binary op x y)
  | .call method args, e' => fun h => by
    obtain ⟨args', rfl, same⟩ := Expr.outline_call h.outline
    refine parallel_value_of_row h.outline fun row row' => ?_
    obtain ⟨_, nulls, truths⟩ := h
    simp only [Expr.tests, Expr.decisions, Expr.valueTests, Expr.valueDecisions, value, row, row',
      Bool.not_true, Bool.false_eq_true, if_false] at nulls truths ⊢
    exact parallel_callValue (parallel_each args) same method nulls truths
  | .inQuery negated index selector inner args, e' => fun h => by
    obtain ⟨inner', args', rfl, within, same⟩ := Expr.outline_inQuery h.outline
    obtain ⟨nulls, innerNulls⟩ := Expr.map_append_eq (Expr.length_receiverTests same) h.nulls
    obtain ⟨truths, innerTruths⟩ := Expr.map_append_eq (Expr.length_receiverDecisions same) h.truths
    have filter := parallel_condition inner inner' ⟨within, innerNulls, innerTruths⟩
    exact (parallel_subquery (parallel_each args) same negated index selector filter nulls
      truths).map Sql.paren
  | .convert inner _, e' => fun h => by
    obtain ⟨inner', rfl, same⟩ := Expr.outline_convert h.outline
    refine parallel_value_of_row h.outline fun row row' => ?_
    obtain ⟨_, nulls, truths⟩ := h
    simp only [Expr.tests, Expr.decisions, Expr.valueTests, Expr.valueDecisions, value, row, row',
      Bool.not_true, Bool.false_eq_true, if_false] at nulls truths ⊢
    exact parallel_value inner inner' ⟨same, nulls, truths⟩

theorem parallel_each : (es : List Expr) → ∀ e ∈ es, ∀ e', ValueParallel dialect names a b e e'
  | [] => fun _ h => nomatch h
  | e :: es => List.forall_mem_cons.2 ⟨parallel_value e, parallel_each es⟩

end

/-! ## Order terms, and the whole -/

theorem parallel_rendering (place : Place) {e e' : Expr} (h : Expr.Indistinct a b place e e') :
    Parallel (rendering ⟨dialect, names, a⟩ place e) (rendering ⟨dialect, names, b⟩ place e') := by
  cases place with
  | condition => exact parallel_condition e e' h
  | value => exact parallel_value e e' h

end Compile

/-- Order terms that ask for one direction, over indistinct values. -/
structure OrderTerm.Indistinct (a b : Option Arguments) (o o' : OrderTerm) : Prop where
  direction : o.descending = o'.descending
  expr : Expr.Indistinct a b .value o.expr o'.expr

namespace Compile

variable {dialect : Dialect} {names : TableNames} {a b : Option Arguments}

theorem parallel_order {terms terms' : List OrderTerm}
    (h : List.Forall₂ (OrderTerm.Indistinct a b) terms terms') :
    Parallel (order ⟨dialect, names, a⟩ terms) (order ⟨dialect, names, b⟩ terms') := by
  induction h with
  | nil => exact Parallel.pure []
  | @cons term term' _ _ first _ ih =>
    unfold order
    rw [first.direction]
    exact (parallel_value _ _ first.expr).bind fun e =>
      ih.map fun rest => ⟨e, term'.descending⟩ :: rest

/-- What constants hold does not reach the text of a statement, in any dialect
and from any state of the compiler: an expression, in any place, and the order
terms compiled after it have the texts and the parameter names of every
expression and order terms that they are indistinct from. -/
theorem text_eq_of_indistinct {place : Place} {e e' : Expr} {terms terms' : List OrderTerm}
    (same : Expr.Indistinct a b place e e')
    (ordered : List.Forall₂ (OrderTerm.Indistinct a b) terms terms') {c d d' f f' : Compilation}
    {sql sql' : Sql} {keys keys' : List SqlOrder}
    (he : Gives (rendering ⟨dialect, names, a⟩ place e) c sql d)
    (ho : Gives (order ⟨dialect, names, a⟩ terms) d keys f)
    (he' : Gives (rendering ⟨dialect, names, b⟩ place e') c sql' d')
    (ho' : Gives (order ⟨dialect, names, b⟩ terms') d' keys' f') :
    sql.text dialect = sql'.text dialect ∧
      (∀ grouped, SqlOrder.clause dialect grouped keys = SqlOrder.clause dialect grouped keys') ∧
      d.parameters.names = d'.parameters.names ∧ f.parameters.names = f'.parameters.names := by
  obtain ⟨rfl, matching⟩ := parallel_rendering place same (.refl c) he he'
  obtain ⟨rfl, matching'⟩ := parallel_order ordered matching ho ho'
  exact ⟨rfl, fun _ => rfl, matching.names, matching'.names⟩

/-- Titles that start with a text, are among some, or are the title of a row
whose title is the text. -/
def searchFor (text : String) : Expr :=
  let index : IndexType := ⟨"ByTitle", [⟨"title", .text, true⟩], some⟩
  let title := index.field "title"
  .binary .or (.call .startsWith [title, .const (.text text)])
    (.binary .or (.call .isIn [title.concat (.const (.text text)), .const (.text text),
        .const .null])
      (title.isInQuery false index "title" (.eq title (.const (.text text)))))

/-- Rows ordered by what stands before their title. -/
def searchOrder (text : String) : List OrderTerm :=
  let index : IndexType := ⟨"ByTitle", [⟨"title", .text, true⟩], some⟩
  [⟨.concat (.const (.text text)) (index.field "title"), true⟩]

/-- A text that would end the statement if it stood in it is searched for in the same
statement as any other. -/
theorem text_eq_of_indistinct_search :
    let t : Target := ⟨.standard, ⟨"", ""⟩, none⟩
    let c : Compilation := ⟨[⟨"ByTitle", "ByTitle"⟩], ∅, []⟩
    let text := "'; DROP TABLE \"Document\" --"
    ∃ sql d order f sql' d' order' f',
      Gives (rendering t .condition (searchFor "Lean")) c sql d ∧
        Gives (Compile.order t (searchOrder "Lean")) d order f ∧
        Gives (rendering t .condition (searchFor text)) c sql' d' ∧
        Gives (Compile.order t (searchOrder text)) d' order' f' ∧
        sql.text .standard = sql'.text .standard ∧
        SqlOrder.clause .standard false order = SqlOrder.clause .standard false order' ∧
        f.parameters.names = f'.parameters.names ∧ f.parameters ≠ f'.parameters := by
  intro t c text
  obtain ⟨sql, d, order, f, sql', d', order', f', he, ho, he', ho', differ⟩ :
    ∃ sql d order f sql' d' order' f',
      Gives (rendering t .condition (searchFor "Lean")) c sql d ∧
        Gives (Compile.order t (searchOrder "Lean")) d order f ∧
        Gives (rendering t .condition (searchFor text)) c sql' d' ∧
        Gives (Compile.order t (searchOrder text)) d' order' f' ∧ f.parameters ≠ f'.parameters :=
    ⟨_, _, _, _, _, _, _, _, rfl, rfl, rfl, rfl, by decide⟩
  have same : Expr.Indistinct none none .condition (searchFor "Lean") (searchFor text) :=
    ⟨rfl, rfl, rfl⟩
  have ordered : List.Forall₂ (OrderTerm.Indistinct none none) (searchOrder "Lean")
      (searchOrder text) :=
    .cons ⟨rfl, rfl, rfl, rfl⟩ .nil
  obtain ⟨texts, clauses, _, names⟩ := text_eq_of_indistinct same ordered he ho he' ho'
  exact ⟨sql, d, order, f, sql', d', order', f', he, ho, he', ho', texts, clauses false,
    names, differ⟩

end Compile

end DocStore

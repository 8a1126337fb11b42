import DocStore.Query
import DocStore.Proofs.NullTests

/-!
# SQL made of parts

What the compiler makes of an expression it puts together from what it makes of
the parts, under the indexes that are bound there. So a property that goes from
the parts of SQL to the whole of it, and holds of the columns of bound members,
holds of everything that compiles (`Compile.Composes`).
-/

set_option autoImplicit false

namespace DocStore

namespace Expr

mutual

/-- The members of an expression are of a kind, and so are the indexes in whose rows
it asks for membership. -/
def Over (known : Member → Prop) (asked : String → Prop) : Expr → Prop
  | .const _ | .capture _ => True
  | .member m => known m
  | .unary _ e | .convert e _ => Over known asked e
  | .binary _ l r => Over known asked l ∧ Over known asked r
  | .call _ args => OverAll known asked args
  | .inQuery _ index selector condition args =>
    (asked index ∧ known selector) ∧ Over known asked condition ∧ OverAll known asked args

def OverAll (known : Member → Prop) (asked : String → Prop) : List Expr → Prop
  | [] => True
  | e :: es => Over known asked e ∧ OverAll known asked es

end

end Expr

namespace Compile

variable {α β : Type}

/-! ## Steps under some bindings -/

/-- Under some bindings a step leaves these, and what it answers is of a kind. -/
def MakesUnder (bs : List Binding) (P : α → Prop) (x : Compile α) : Prop :=
  ∀ ⦃c : Compilation⦄ ⦃r : α⦄ ⦃d : Compilation⦄, c.bindings = bs →
    Gives x c r d → d.bindings = bs ∧ P r

section Steps

variable {bs : List Binding} {P : α → Prop} {Q : β → Prop}

theorem under_pure {r : α} (h : P r) : MakesUnder bs P (pure r : Compile α) := by
  intro c s d same gives
  obtain ⟨rfl, rfl⟩ := gives_pure_iff.1 gives
  exact ⟨same, h⟩

theorem under_fail {err : Error} : MakesUnder bs P (fail err : Compile α) :=
  fun _ _ _ _ gives => absurd gives not_gives_fail

theorem MakesUnder.bind {x : Compile β} {f : β → Compile α} (hx : MakesUnder bs Q x)
    (hf : ∀ r, Q r → MakesUnder bs P (f r)) : MakesUnder bs P (x >>= f) := by
  intro c s e same gives
  obtain ⟨r, d, first, next⟩ := gives_bind_iff.1 gives
  obtain ⟨kept, made⟩ := hx same first
  exact hf r made kept next

theorem under_ite {p : Prop} [Decidable p] {x y : Compile α} (hx : MakesUnder bs P x)
    (hy : MakesUnder bs P y) : MakesUnder bs P (if p then x else y) := by
  split
  · exact hx
  · exact hy

theorem under_ofExcept_bind {x : Except Error β} {f : β → Compile α}
    (h : ∀ r, MakesUnder bs P (f r)) : MakesUnder bs P (ofExcept x >>= f) := by
  intro c s e same gives
  obtain ⟨r, d, first, next⟩ := gives_bind_iff.1 gives
  obtain ⟨_, rfl⟩ := gives_ofExcept_iff.1 first
  exact h r same next

/-- What a step looks up has the bindings that are there. -/
theorem under_get_bind {f : Compilation → Compile α}
    (h : ∀ c : Compilation, c.bindings = bs → MakesUnder bs P (f c)) :
    MakesUnder bs P (get >>= f) := by
  intro c s e same gives
  obtain ⟨_, _, first, next⟩ := gives_bind_iff.1 gives
  obtain ⟨rfl, rfl⟩ := gives_get_iff.1 first
  exact h _ same same next

theorem under_withIndex {index tableAlias : String} {x : Compile α}
    (h : MakesUnder (⟨index, tableAlias⟩ :: bs) P x) :
    MakesUnder bs P (withIndex index tableAlias x) := by
  rintro c r d rfl gives
  obtain ⟨e, inside, rfl⟩ := gives_withIndex_iff.1 gives
  obtain ⟨kept, made⟩ := h rfl inside
  exact ⟨congrArg List.tail kept, made⟩

end Steps

/-! ## Parts and wholes -/

/-- The alias of the rows of a subquery over an index, when so many indexes are bound around it. -/
def subqueryAlias (index : String) (bound : Nat) : String := index ++ "_" ++ toString bound

/-- A property of SQL under a stack of bindings: it goes from the parts to the whole, and holds of
the columns of known members and of subqueries over indexes that may be asked. -/
structure Composes (t : Target) (known : Member → Prop) (asked : String → Prop)
    (P : List Binding → Sql → Prop) : Prop where
  param : ∀ bs n, P bs (.param n)
  boolean : ∀ bs b, P bs (.boolean b)
  string : ∀ bs s, P bs (.string s)
  truth : ∀ bs holds, P bs (.truth holds)
  column : ∀ {bs m b}, known m → m.isKnown = true → (bs.find? fun b => b.index = m.index) = some b →
    P bs (.column b.tableAlias m.column)
  binary : ∀ {bs l r}, P bs l → P bs r → ∀ op, P bs (.binary op l r)
  like : ∀ {bs l r}, P bs l → P bs r → P bs (.like l r)
  not : ∀ {bs e}, P bs e → P bs (.not e)
  negate : ∀ {bs e}, P bs e → P bs (.negate e)
  isNull : ∀ {bs e}, P bs e → ∀ negated, P bs (.isNull e negated)
  paren : ∀ {bs e}, P bs e → P bs (.paren e)
  upper : ∀ {bs e}, P bs e → P bs (.upper e)
  lower : ∀ {bs e}, P bs e → P bs (.lower e)
  concat : ∀ {bs es}, (∀ e ∈ es, P bs e) → P bs (.concat es)
  inList : ∀ {bs e items}, P bs e → (∀ item ∈ items, P bs item) →
    ∀ negated, P bs (.inList e items negated)
  select : ∀ {bs index selector condition}, asked index →
    P (⟨index, subqueryAlias index bs.length⟩ :: bs) selector →
    P (⟨index, subqueryAlias index bs.length⟩ :: bs) condition →
      P bs (.select selector (t.names.index index) (subqueryAlias index bs.length) condition)

namespace Composes

variable {t : Target} {known : Member → Prop} {asked : String → Prop}
  {P : List Binding → Sql → Prop} {bs : List Binding}

/-- Two properties that go from parts to wholes do so together. -/
theorem and {Q : List Binding → Sql → Prop} (h : Composes t known asked P)
    (h' : Composes t known asked Q) : Composes t known asked fun bs e => P bs e ∧ Q bs e where
  param bs n := ⟨h.param bs n, h'.param bs n⟩
  boolean bs b := ⟨h.boolean bs b, h'.boolean bs b⟩
  string bs s := ⟨h.string bs s, h'.string bs s⟩
  truth bs holds := ⟨h.truth bs holds, h'.truth bs holds⟩
  column hm isKnown found := ⟨h.column hm isKnown found, h'.column hm isKnown found⟩
  binary l r op := ⟨h.binary l.1 r.1 op, h'.binary l.2 r.2 op⟩
  like l r := ⟨h.like l.1 r.1, h'.like l.2 r.2⟩
  not e := ⟨h.not e.1, h'.not e.2⟩
  negate e := ⟨h.negate e.1, h'.negate e.2⟩
  isNull e negated := ⟨h.isNull e.1 negated, h'.isNull e.2 negated⟩
  paren e := ⟨h.paren e.1, h'.paren e.2⟩
  upper e := ⟨h.upper e.1, h'.upper e.2⟩
  lower e := ⟨h.lower e.1, h'.lower e.2⟩
  concat es := ⟨h.concat fun e he => (es e he).1, h'.concat fun e he => (es e he).2⟩
  inList e items negated := ⟨h.inList e.1 (fun i hi => (items i hi).1) negated,
    h'.inList e.2 (fun i hi => (items i hi).2) negated⟩
  select here selector condition := ⟨h.select here selector.1 condition.1,
    h'.select here selector.2 condition.2⟩

section Parts

variable (h : Composes t known asked P)
include h

theorem isTrue {e : Sql} (he : P bs e) : P bs e.isTrue := h.binary he (h.boolean bs true) .eq

theorem wildcards (affix : Affix) {pattern : Sql} (hp : P bs pattern) :
    P bs (Compile.wildcards affix pattern) := by
  have sign := h.string bs "%"
  cases affix <;> refine h.concat ?_ <;> simp [hp, sign]

theorem makes_bindExpr (affix : Affix) (e : Expr) : MakesUnder bs (P bs) (bindExpr t affix e) := by
  intro c r d same gives
  obtain ⟨rfl, kept, _⟩ := gives_bindExpr gives
  exact ⟨kept.trans same, h.param bs _⟩

theorem makes_member {m : Member} (hm : known m) : MakesUnder bs (P bs) (member m) := by
  rintro c r d rfl gives
  obtain ⟨isKnown, rfl, b, found, rfl⟩ := gives_member_iff.1 gives
  exact ⟨rfl, h.column hm isKnown found⟩

theorem makes_fixedCondition (e : Expr) : MakesUnder bs (P bs) (fixedCondition t e) := by
  refine under_ite ((h.makes_bindExpr .exact e).bind fun _ he => under_pure (h.isTrue he))
    (under_ofExcept_bind fun v => ?_)
  split
  · exact under_pure (h.truth bs _)
  · split
    · exact under_pure (h.truth bs _)
    · exact under_fail

theorem makes_nullTest? {op : BinaryOp} {side other : Operand}
    (ho : MakesUnder bs (P bs) other.value) :
    MakesUnder bs (fun test => ∀ e, test = some e → P bs e) (nullTest? t op side other) := by
  have untested : MakesUnder bs (fun test => ∀ e, test = some e → P bs e)
      (pure none : Compile (Option Sql)) :=
    under_pure fun _ impossible => by cases impossible
  refine under_ite untested (under_ofExcept_bind fun v =>
    under_ite (ho.bind fun e he => under_pure ?_) untested)
  rintro _ ⟨⟩
  exact h.isNull he _

theorem makes_comparison {op : BinaryOp} {l r : Operand} (hl : MakesUnder bs (P bs) l.value)
    (hr : MakesUnder bs (P bs) r.value) : MakesUnder bs (P bs) (comparison t op l r) := by
  have plain : MakesUnder bs (P bs) (do let x ← l.value; let y ← r.value; pure (.binary op x y)) :=
    hl.bind fun _ hx => hr.bind fun _ hy => under_pure (h.binary hx hy op)
  refine under_ite ((h.makes_nullTest? hr).bind fun first hfirst => ?_) plain
  cases first with
  | some test => exact under_pure (hfirst test rfl)
  | none =>
    refine (h.makes_nullTest? hl).bind fun second hsecond => ?_
    cases second with
    | some test => exact under_pure (hsecond test rfl)
    | none => exact plain

theorem makes_logical {op : BinaryOp} {x y : Compile Sql} (hx : MakesUnder bs (P bs) x)
    (hy : MakesUnder bs (P bs) y) : MakesUnder bs (P bs) (logical op x y) :=
  hx.bind fun _ hl => hy.bind fun _ hr => under_pure (h.paren (h.binary hl hr op))

theorem makes_parenthesized {x : Compile Sql} (hx : MakesUnder bs (P bs) x) :
    MakesUnder bs (P bs) (parenthesized x) :=
  hx.bind fun _ he => under_pure (h.paren he)

theorem makes_negation {x : Compile Sql} (hx : MakesUnder bs (P bs) x) :
    MakesUnder bs (P bs) (negation x) :=
  hx.bind fun _ he => under_pure (h.not (h.paren he))

/-! ### Methods -/

section Operands

variable {os : List Operand} (operands : ∀ o ∈ os, MakesUnder bs (P bs) o.value)
include operands

omit h in
theorem makes_values : MakesUnder bs (fun es => ∀ e ∈ es, P bs e) (values os) := by
  induction os with
  | nil => exact under_pure fun _ h => by cases h
  | cons o os ih =>
    obtain ⟨first, rest⟩ := List.forall_mem_cons.1 operands
    exact first.bind fun e he => (ih rest).bind fun es hes =>
      under_pure (List.forall_mem_cons.2 ⟨he, hes⟩)

omit h in
theorem makes_receiver (method : String) : MakesUnder bs (P bs) (receiver method os) := by
  cases os with
  | nil => exact under_fail
  | cons o os => exact operands o List.mem_cons_self

theorem makes_like (affix : Affix) : MakesUnder bs (P bs) (Compile.like t affix os) := by
  rcases os with _ | ⟨target, _ | ⟨pattern, rest⟩⟩
  · exact under_fail
  · exact under_fail
  · rw [like_eq]
    refine (operands target (by simp)).bind fun left hleft =>
      MakesUnder.bind (Q := P bs) ?_ fun right hright =>
        under_pure (h.like hleft hright)
    exact under_ite ((operands pattern (by simp)).bind fun _ hp =>
      under_pure (h.wildcards affix hp)) (h.makes_bindExpr _ _)

theorem makes_membership (negated : Bool) : MakesUnder bs (P bs) (membership t negated os) := by
  rcases os with _ | ⟨target, _ | ⟨item, _ | ⟨item', rest⟩⟩⟩
  · exact under_fail
  · exact under_pure (h.truth bs _)
  · exact h.makes_comparison (operands target (by simp)) (operands item (by simp))
  · obtain ⟨first, items⟩ := List.forall_mem_cons.1 operands
    exact first.bind fun left hleft => (makes_values items).bind fun es hes =>
      under_pure (h.inList hleft hes negated)

theorem makes_callCondition (method : Method) :
    MakesUnder bs (P bs) (callCondition t method os) := by
  cases method with
  | startsWith | endsWith | contains => exact h.makes_like operands _
  | isIn | isNotIn => exact h.makes_membership operands _
  | host _ | concat | toUpper | toLower => exact under_fail

theorem makes_callValue (method : Method) : MakesUnder bs (P bs) (callValue t method os) := by
  cases method with
  | concat => exact (makes_values operands).bind fun es hes => under_pure (h.concat hes)
  | toUpper => exact (makes_receiver operands _).bind fun _ he => under_pure (h.upper he)
  | toLower => exact (makes_receiver operands _).bind fun _ he => under_pure (h.lower he)
  | startsWith | endsWith | contains | isIn | isNotIn | host _ =>
    exact (h.makes_callCondition operands _).bind fun _ he => under_pure (h.paren he)

/-- The rows of a subquery have one binding more, and its operand has not. -/
theorem makes_subquery {index : String} {selector : Member} (here : asked index ∧ known selector)
    (negated : Bool) {condition : Compile Sql}
    (inner : MakesUnder (⟨index, subqueryAlias index bs.length⟩ :: bs)
      (P (⟨index, subqueryAlias index bs.length⟩ :: bs)) condition) :
    MakesUnder bs (P bs) (subquery t negated index selector condition os) := by
  refine (makes_receiver operands _).bind fun left hleft => under_get_bind fun c same => ?_
  subst same
  refine (under_withIndex ((h.makes_member here.2).bind fun selected hselected =>
    inner.bind fun filter hfilter =>
      under_pure (h.select here.1 hselected hfilter))).bind fun select hselect => ?_
  exact under_pure (h.inList hleft (List.forall_mem_singleton.2 hselect) negated)

end Operands

end Parts

/-! ### Expressions -/

mutual

/-- A condition over known members and indexes is made of parts. -/
theorem makes_condition (h : Composes t known asked P) :
    (e : Expr) → e.Over known asked → ∀ bs, MakesUnder bs (P bs) (condition t e)
  | .const v, _, bs => h.makes_fixedCondition (.const v)
  | .capture c, _, bs => h.makes_fixedCondition (.capture c)
  | .member m, hm, bs => by
    rw [condition]
    exact (h.makes_member hm).bind fun _ he => under_pure (h.isTrue he)
  | .unary op inner, he, bs => by
    cases op <;> rw [condition] <;> refine under_ite (h.makes_fixedCondition _) ?_
    · exact h.makes_negation (makes_condition h inner he bs)
    · exact under_fail
  | .binary op l r, ⟨hl, hr⟩, bs => by
    rw [condition]
    refine under_ite (h.makes_fixedCondition _) (under_ite ?_ (under_ite ?_ under_fail))
    · exact h.makes_logical (makes_condition h l hl bs) (makes_condition h r hr bs)
    · exact h.makes_comparison (makes_value h l hl bs) (makes_value h r hr bs)
  | .call method args, hargs, bs => by
    rw [condition]
    exact under_ite (h.makes_fixedCondition _)
      (h.makes_callCondition (makes_operands h args hargs bs) method)
  | .inQuery negated index selector inner args, ⟨here, hinner, hargs⟩, bs => by
    rw [condition]
    exact h.makes_subquery (makes_operands h args hargs bs) here negated
      (makes_condition h inner hinner _)
  | .convert inner kind, he, bs => by
    rw [condition]
    exact under_ite (h.makes_fixedCondition _) (makes_condition h inner he bs)

theorem makes_value (h : Composes t known asked P) :
    (e : Expr) → e.Over known asked → ∀ bs, MakesUnder bs (P bs) (value t e)
  | .const v, _, bs => h.makes_bindExpr .exact (.const v)
  | .capture c, _, bs => h.makes_bindExpr .exact (.capture c)
  | .member m, hm, bs => by
    rw [value]
    exact h.makes_member hm
  | .unary op inner, he, bs => by
    cases op <;> rw [value] <;> refine under_ite (h.makes_bindExpr .exact _) ?_
    · exact h.makes_parenthesized (h.makes_negation (makes_condition h inner he bs))
    · exact (makes_value h inner he bs).bind fun _ made => under_pure (h.paren (h.negate made))
  | .binary op l r, ⟨hl, hr⟩, bs => by
    rw [value]
    refine under_ite (h.makes_bindExpr .exact _) (under_ite ?_ (under_ite ?_ ?_))
    · exact h.makes_parenthesized (h.makes_logical (makes_condition h l hl bs)
        (makes_condition h r hr bs))
    · exact h.makes_parenthesized (h.makes_comparison (makes_value h l hl bs)
        (makes_value h r hr bs))
    · exact (makes_value h l hl bs).bind fun _ hx =>
        (makes_value h r hr bs).bind fun _ hy => under_pure (h.paren (h.binary hx hy op))
  | .call method args, hargs, bs => by
    rw [value]
    exact under_ite (h.makes_bindExpr .exact _)
      (h.makes_callValue (makes_operands h args hargs bs) method)
  | .inQuery negated index selector inner args, ⟨here, hinner, hargs⟩, bs => by
    rw [value]
    exact h.makes_parenthesized (h.makes_subquery (makes_operands h args hargs bs) here negated
      (makes_condition h inner hinner _))
  | .convert inner kind, he, bs => by
    rw [value]
    exact under_ite (h.makes_bindExpr .exact _) (makes_value h inner he bs)

theorem makes_operands (h : Composes t known asked P) :
    (es : List Expr) → Expr.OverAll known asked es →
    ∀ bs, ∀ o ∈ operands t es, MakesUnder bs (P bs) o.value
  | [], _, _ => fun _ member => by rw [operands] at member; cases member
  | e :: es, ⟨here, later⟩, bs => by
    rw [operands]
    exact List.forall_mem_cons.2 ⟨makes_value h e here bs, makes_operands h es later bs⟩

end

variable (h : Composes t known asked P)
include h

theorem makes_order {terms : List OrderTerm} (within : ∀ term ∈ terms, term.expr.Over known asked) :
    MakesUnder bs (fun order => ∀ o ∈ order, P bs o.term) (order t terms) := by
  induction terms with
  | nil => exact under_pure fun _ h => by cases h
  | cons term terms ih =>
    obtain ⟨here, later⟩ := List.forall_mem_cons.1 within
    refine (h.makes_value term.expr here bs).bind fun e he =>
      (ih later).bind fun es hes => under_pure ?_
    exact List.forall_mem_cons.2 ⟨he, hes⟩

/-- The conditions on joined indexes. -/
theorem makes_joinConditions {conditions : List (String × Expr)}
    (within : ∀ j ∈ conditions, j.2.Over known asked) :
    MakesUnder bs (fun es => ∀ e ∈ es, P bs e) (DocumentQuery.joinConditions t conditions) := by
  induction conditions with
  | nil => exact under_pure fun _ h => by cases h
  | cons j rest ih =>
    obtain ⟨here, later⟩ := List.forall_mem_cons.1 within
    refine (h.makes_condition j.2 here bs).bind fun e he =>
      (ih later).bind fun es hes => under_pure ?_
    exact List.forall_mem_cons.2 ⟨he, hes⟩

end Composes

end Compile

end DocStore

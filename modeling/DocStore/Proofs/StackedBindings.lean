import DocStore.Proofs.CompiledParts
import DocStore.Proofs.SqlMeaning

/-!
# Bindings by their place in the stack

While a predicate is compiled, indexes are bound one inside the other, and a
member is of the innermost binding of its index. `Expr.placed` is the tree of an
expression with the bindings known by their place in this stack instead of by an
alias: it is what the compiler means, however it calls things.

The image of whatever compiles is related to this tree by every relation that
goes from the parts of a tree to the whole of it and holds of the columns of
bound members (`Compile.Congruence`).
-/

set_option autoImplicit false

namespace DocStore

/-- The place of the innermost binding of an index: how many bindings are below it. -/
def innermost? (index : String) : List String → Option Nat
  | [] => none
  | i :: stack => if i = index then some stack.length else innermost? index stack

namespace Expr

/-- A column of the innermost binding of the index, if there is one. -/
def placedMember (name : Option Nat → String) (stack : List String) (place : Place) (m : Member) :
    SqlTree Slot :=
  match place with
  | .value => .column (name (innermost? m.index stack)) m.column
  | .condition => SqlTree.isTrue (.column (name (innermost? m.index stack)) m.column)

mutual

/-- The tree that an expression stands for, with names for the places in the
stack of bound indexes. -/
def placed (name : Option Nat → String) (t : Target) (stack : List String) (place : Place)
    (e : Expr) : SqlTree Slot :=
  match e with
  | .const v => fixedImage t.arguments place (.const v)
  | .capture c => fixedImage t.arguments place (.capture c)
  | .member m => placedMember name stack place m
  | .unary op inner =>
    if !e.isRowDependent then fixedImage t.arguments place e
    else
      match op with
      | .not => .not (placed name t stack .condition inner)
      | .negate => .negate (placed name t stack .value inner)
  | .binary op l r =>
    if !e.isRowDependent then fixedImage t.arguments place e
    else if op.isLogical then .binary op (placed name t stack .condition l)
      (placed name t stack .condition r)
    else operationImage t.arguments op ⟨l, placed name t stack .value l⟩
      ⟨r, placed name t stack .value r⟩
  | .call method args =>
    if !e.isRowDependent then fixedImage t.arguments place e
    else methodImage t.arguments method (placedAll name t stack args)
  | .inQuery negated index selector inner args =>
    .inSelect (receiverImage (placedAll name t stack args))
      (placedMember name (index :: stack) .value selector)
      (t.names.index index) (name (some stack.length))
      (placed name t (index :: stack) .condition inner) negated
  | .convert inner _ =>
    if !e.isRowDependent then fixedImage t.arguments place e
    else placed name t stack place inner

def placedAll (name : Option Nat → String) (t : Target) (stack : List String) (es : List Expr) :
    List Depicted :=
  match es with
  | [] => []
  | e :: es => ⟨e, placed name t stack .value e⟩ :: placedAll name t stack es

end

end Expr

namespace Compile

/-- A relation between trees under a stack of bindings, as the compiler makes them and with the
bindings named by their places: it goes from the parts of a tree to the whole. -/
structure Congruence (name : Option Nat → String)
    (R : List Binding → SqlTree Slot → SqlTree Slot → Prop) : Prop where
  placeholder : ∀ bs s, R bs (.placeholder s) (.placeholder s)
  number : ∀ bs digits, R bs (.number digits) (.number digits)
  text : ∀ bs s, R bs (.text s) (.text s)
  column : ∀ {bs index b}, (bs.find? fun b => b.index = index) = some b → ∀ column,
    R bs (.column b.tableAlias column)
      (.column (name (innermost? index (bs.map Binding.index))) column)
  binary : ∀ {bs l l' r r'}, R bs l l' → R bs r r' → ∀ op, R bs (.binary op l r) (.binary op l' r')
  concat : ∀ {bs l l' r r'}, R bs l l' → R bs r r' → R bs (.concat l r) (.concat l' r')
  not : ∀ {bs e e'}, R bs e e' → R bs (.not e) (.not e')
  negate : ∀ {bs e e'}, R bs e e' → R bs (.negate e) (.negate e')
  isNull : ∀ {bs e e'}, R bs e e' → ∀ negated, R bs (.isNull e negated) (.isNull e' negated)
  like : ∀ {bs l l' r r'}, R bs l l' → R bs r r' → R bs (.like l r) (.like l' r')
  inList : ∀ {bs e e' items items'}, R bs e e' → List.Forall₂ (R bs) items items' → ∀ negated,
    R bs (.inList e items negated) (.inList e' items' negated)
  inSelect : ∀ {bs index e e' s s' f f'}, R bs e e' →
    R (⟨index, subqueryAlias index bs.length⟩ :: bs) s s' →
      R (⟨index, subqueryAlias index bs.length⟩ :: bs) f f' →
    ∀ table negated, R bs (.inSelect e s table (subqueryAlias index bs.length) f negated)
      (.inSelect e' s' table (name (some bs.length)) f' negated)
  apply : ∀ {bs args args'}, List.Forall₂ (R bs) args args' →
    ∀ f, R bs (.apply f args) (.apply f args')

variable {R : List Binding → SqlTree Slot → SqlTree Slot → Prop} {name : Option Nat → String}
  {t : Target}

section Pieces

variable (h : Congruence name R) {bs : List Binding} {l l' r r' : SqlTree Slot}
include h

theorem Congruence.isTrue (related : R bs l l') : R bs l.isTrue l'.isTrue :=
  h.binary related (h.number bs "1") .eq

theorem Congruence.truth (holds : Bool) : R bs (.truth holds) (.truth holds) :=
  h.binary (h.number bs _) (h.number bs _) .eq

theorem Congruence.joined {es es' : List (SqlTree Slot)} (related : List.Forall₂ (R bs) es es') :
    R bs (.joined es) (.joined es') := by
  cases related with
  | nil => exact h.text bs ""
  | @cons e e' _ _ first rest =>
    rw [SqlTree.joined, SqlTree.joined]
    induction rest generalizing e e' with
    | nil => exact first
    | cons next _ ih => exact ih (h.concat first next)

theorem Congruence.fixedImage (args : Option Arguments) (place : Place) (e : Expr) :
    R bs (e.fixedImage args place) (e.fixedImage args place) := by
  cases place with
  | value => exact h.placeholder bs _
  | condition =>
    unfold Expr.fixedImage
    simp only
    split
    · exact h.isTrue (h.placeholder bs _)
    · exact h.truth _

theorem Congruence.patternImage (affix : Affix) {e : Expr}
    (related : e.isRowDependent = true → R bs l l') :
    R bs (Expr.patternImage affix ⟨e, l⟩) (Expr.patternImage affix ⟨e, l'⟩) := by
  unfold Expr.patternImage
  cases row : e.isRowDependent with
  | false => exact h.placeholder bs _
  | true =>
    have inner := related row
    have wildcard := h.text bs "%"
    simp only [if_true]
    cases affix with
    | exact => exact inner
    | atStart => exact h.concat inner wildcard
    | atEnd => exact h.concat wildcard inner
    | anywhere => exact h.concat (h.concat wildcard inner) wildcard

end Pieces

/-- Wherever a step succeeds, two images are related. -/
def Related (R : List Binding → SqlTree Slot → SqlTree Slot → Prop)
    (i j : List Binding → SqlTree Slot) (x : Compile Sql) : Prop :=
  ∀ ⦃c : Compilation⦄ ⦃sql : Sql⦄ ⦃d : Compilation⦄, Gives x c sql d →
    R c.bindings (i c.bindings) (j c.bindings)

section Steps

variable {x y : Compile Sql} {i j i' j' : List Binding → SqlTree Slot}

theorem Related.fail {err : Error} : Related R i j (fail err) :=
  fun _ _ _ h => absurd h not_gives_fail

/-- A step whose images are made from those of the step it begins with. -/
theorem Related.map (h : Related R i j x) {f : Sql → Sql} {g g' : SqlTree Slot → SqlTree Slot}
    (related : ∀ {bs e e'}, R bs e e' → R bs (g e) (g' e')) :
    Related R (fun bs => g (i bs)) (fun bs => g' (j bs)) (do let e ← x; pure (f e)) := by
  intro c sql d gives
  obtain ⟨_, _, first, _⟩ := gives_bind_iff.1 gives
  exact related (h first)

/-- A step whose outcome has the image of the step it begins with. -/
theorem Related.same (h : Related R i j x) {f : Sql → Sql} :
    Related R i j (do let e ← x; pure (f e)) :=
  h.map fun related => related

/-- Two steps one after another, of which the first leaves the indexes bound as they are. -/
theorem Related.both (hx : Related R i i' x) (hy : Related R j j' y) (renders : RendersPhrase t i x)
    {c d e : Compilation} {p q : Sql} (first : Gives x c p d) (second : Gives y d q e) :
    R c.bindings (i c.bindings) (i' c.bindings) ∧ R c.bindings (j c.bindings) (j' c.bindings) := by
  have same := (renders first).1.bindings
  have related := hy second
  rw [same] at related
  exact ⟨hx first, related⟩

end Steps

/-! ## Expressions -/

variable (R name t) in
/-- Wherever an expression is rendered, its image and the tree with the places of
bindings are related. -/
def Relates (place : Place) (e : Expr) : Prop :=
  Related R (fun bs => e.image t bs place) (fun bs => e.placed name t (bs.map Binding.index) place)
    (rendering t place e)

section Expressions

variable (h : Congruence name R) {l r e : Expr} {es : List Expr}
include h

theorem related_fixed (args : Option Arguments) (place : Place) (e : Expr) {x : Compile Sql} :
    Related R (fun _ => e.fixedImage args place) (fun _ => e.fixedImage args place) x :=
  fun _ _ _ _ => h.fixedImage args place e

theorem related_member (m : Member) :
    Related R (fun bs => Expr.memberImage bs .value m) (fun bs =>
        Expr.placedMember name (bs.map Binding.index) .value m)
      (member m) := by
  intro c sql d gives
  obtain ⟨_, rfl, b, found, rfl⟩ := gives_member_iff.1 gives
  simp only [Expr.memberImage, found]
  exact h.column found m.column

section Operators

theorem related_logical {op : BinaryOp} (hl : Relates R name t .condition l)
    (hr : Relates R name t .condition r) :
    Related R (fun bs => .binary op (l.image t bs .condition) (r.image t bs .condition))
      (fun bs => .binary op (l.placed name t (bs.map Binding.index) .condition)
        (r.placed name t (bs.map Binding.index) .condition))
      (logical op (condition t l) (condition t r)) := by
  intro c sql d gives
  obtain ⟨_, _, first, gives⟩ := gives_bind_iff.1 gives
  obtain ⟨_, _, second, _⟩ := gives_bind_iff.1 gives
  obtain ⟨left, right⟩ := hl.both hr (renders_condition l) first second
  exact h.binary left right op

variable (hl : Relates R name t .value l) (hr : Relates R name t .value r)
include hl hr

theorem related_arithmetic (op : BinaryOp) :
    Related R (fun bs => .binary op (l.image t bs .value) (r.image t bs .value))
      (fun bs => .binary op (l.placed name t (bs.map Binding.index) .value)
        (r.placed name t (bs.map Binding.index) .value))
      (do let left ← value t l; let right ← value t r; pure (.paren (.binary op left right))) := by
  intro c sql d gives
  obtain ⟨_, _, first, gives⟩ := gives_bind_iff.1 gives
  obtain ⟨_, _, second, _⟩ := gives_bind_iff.1 gives
  obtain ⟨left, right⟩ := hl.both hr (renders_value l).phrase first second
  exact h.binary left right op

theorem related_comparison (op : BinaryOp) :
    Related R (fun bs => Expr.operationImage t.arguments op ⟨l, l.image t bs .value⟩
        ⟨r, r.image t bs .value⟩)
      (fun bs =>
        Expr.operationImage t.arguments op ⟨l, l.placed name t (bs.map Binding.index) .value⟩
        ⟨r, r.placed name t (bs.map Binding.index) .value⟩)
      (comparison t op ⟨l, value t l⟩ ⟨r, value t r⟩) := by
  intro c sql d gives
  have ways := gives_comparison_under gives
  unfold Expr.operationImage
  simp only
  split at ways
  · next left =>
    obtain ⟨_, second, _⟩ := ways
    rw [if_pos left, if_pos left]
    exact h.isNull (hr second) _
  · next left =>
    rw [if_neg left, if_neg left]
    split at ways
    · next right =>
      obtain ⟨_, first, _⟩ := ways
      rw [if_pos right, if_pos right]
      exact h.isNull (hl first) _
    · next right =>
      obtain ⟨_, _, _, first, second, _⟩ := ways
      rw [if_neg right, if_neg right]
      obtain ⟨left, right⟩ := hl.both hr (renders_value l).phrase first second
      exact h.binary left right op

end Operators

theorem related_pattern (affix : Affix) {pattern : Expr} (inner : Relates R name t .value pattern) :
    Related R (fun bs => Expr.patternImage affix ⟨pattern, pattern.image t bs .value⟩)
      (fun bs =>
        Expr.patternImage affix ⟨pattern, pattern.placed name t (bs.map Binding.index) .value⟩)
      (patternStep t affix ⟨pattern, value t pattern⟩) := by
  intro c sql d gives
  refine h.patternImage affix fun row => ?_
  unfold patternStep at gives
  simp only [row, if_true] at gives
  obtain ⟨_, _, first, _⟩ := gives_bind_iff.1 gives
  exact inner first

/-! ### Methods -/

section Methods

variable (operand : ∀ e ∈ es, Relates R name t .value e)
include operand

omit h in
theorem related_values {c d : Compilation} {sqls : List Sql}
    (gives : Gives (values (operands t es)) c sqls d) :
    List.Forall₂ (R c.bindings) ((Expr.depictions t c.bindings es).map Depicted.image)
      ((Expr.placedAll name t (c.bindings.map Binding.index) es).map Depicted.image) := by
  induction es generalizing c sqls d with
  | nil => exact .nil
  | cons e es ih =>
    obtain ⟨here, later⟩ := List.forall_mem_cons.1 operand
    obtain ⟨_, _, first, gives⟩ := gives_bind_iff.1 gives
    obtain ⟨_, _, rest, _⟩ := gives_bind_iff.1 gives
    have related := ih later rest
    rw [(renders_value e first).1.bindings] at related
    exact .cons (here first) related

omit h in
theorem related_receiver (method : String) :
    Related R (fun bs => Expr.receiverImage (Expr.depictions t bs es))
      (fun bs => Expr.receiverImage (Expr.placedAll name t (bs.map Binding.index) es))
      (receiver method (operands t es)) := by
  cases es with
  | nil => exact .fail
  | cons e es => exact operand e List.mem_cons_self

/-- The images of a method over arguments. -/
abbrev RelatesMethod (R : List Binding → SqlTree Slot → SqlTree Slot → Prop)
    (name : Option Nat → String) (t : Target) (method : Method) (es : List Expr)
    (x : Compile Sql) : Prop :=
  Related R (fun bs => Expr.methodImage t.arguments method (Expr.depictions t bs es))
    (fun bs =>
      Expr.methodImage t.arguments method (Expr.placedAll name t (bs.map Binding.index) es)) x

theorem related_like (affix : Affix) {method : Method}
    (depicts : ∀ target pattern rest,
      Expr.methodImage t.arguments method (target :: pattern :: rest) =
      .like target.image (Expr.patternImage affix pattern)) :
    RelatesMethod R name t method es (like t affix (operands t es)) := by
  intro c sql d gives
  rcases es with _ | ⟨target, _ | ⟨pattern, rest⟩⟩
  · exact absurd gives not_gives_fail
  · exact absurd gives not_gives_fail
  · simp only [operands, like_eq] at gives
    simp only [Expr.depictions, Expr.placedAll, depicts]
    obtain ⟨_, _, first, gives⟩ := gives_bind_iff.1 gives
    obtain ⟨_, _, second, _⟩ := gives_bind_iff.1 gives
    obtain ⟨left, right⟩ :=
      (operand target (by simp)).both (related_pattern h affix (operand pattern (by simp)))
      (renders_value target).phrase first second
    exact h.like left right

theorem related_membership (negated : Bool) :
    Related R (fun bs => Expr.membershipImage t.arguments negated (Expr.depictions t bs es))
      (fun bs => Expr.membershipImage t.arguments negated
        (Expr.placedAll name t (bs.map Binding.index) es))
      (membership t negated (operands t es)) := by
  rcases es with _ | ⟨target, _ | ⟨item, _ | ⟨second, rest⟩⟩⟩
  · exact .fail
  · exact fun _ _ _ _ => h.truth negated
  · exact related_comparison h (operand target (by simp)) (operand item (by simp)) _
  · intro c sql d gives
    obtain ⟨here, items⟩ := List.forall_mem_cons.1 operand
    obtain ⟨_, _, first, gives⟩ := gives_bind_iff.1 gives
    obtain ⟨_, _, listed, _⟩ := gives_bind_iff.1 gives
    have related := related_values items listed
    rw [(renders_value target first).1.bindings] at related
    exact h.inList (here first) related negated

theorem related_callCondition (method : Method) :
    RelatesMethod R name t method es (callCondition t method (operands t es)) := by
  cases method with
  | startsWith => exact related_like h operand .atStart fun _ _ _ => rfl
  | endsWith => exact related_like h operand .atEnd fun _ _ _ => rfl
  | contains => exact related_like h operand .anywhere fun _ _ _ => rfl
  | isIn => exact related_membership h operand false
  | isNotIn => exact related_membership h operand true
  | host _ | concat | toUpper | toLower => exact .fail

theorem related_callValue (method : Method) (row : Expr.anyRowDependent es = true) :
    RelatesMethod R name t method es (callValue t method (operands t es)) := by
  have condition := (related_callCondition h operand method).same (f := .paren)
  cases es with
  | nil => cases row
  | cons e es =>
    have first := operand e List.mem_cons_self
    cases method with
    | concat =>
      intro c sql d gives
      obtain ⟨_, _, listed, _⟩ := gives_bind_iff.1 gives
      exact h.joined (related_values operand listed)
    | toUpper =>
      exact first.map (g := fun e => .apply "UPPER" [e]) fun related =>
        h.apply (.cons related .nil) _
    | toLower =>
      exact first.map (g := fun e => .apply "LOWER" [e]) fun related =>
        h.apply (.cons related .nil) _
    | startsWith | endsWith | contains | isIn | isNotIn | host _ => exact condition

/-- The rows of a subquery stand under one binding more. -/
theorem related_subquery (negated : Bool) (index : String) (selector : Member) {inner : Expr}
    (filter : Relates R name t .condition inner) :
    Related R (fun bs => Expr.image t bs .condition (.inQuery negated index selector inner es))
      (fun bs => Expr.placed name t (bs.map Binding.index) .condition
        (.inQuery negated index selector inner es))
      (subquery t negated index selector (condition t inner) (operands t es)) := by
  intro c sql d gives
  obtain ⟨left, c₁, binding, _, _, first, found, inside, _, _⟩ := gives_subquery gives
  have same : c₁.bindings = c.bindings :=
    (renders_receiver (fun e member => renders_operands es e member) _ first).1.bindings
  have condition := filter inside
  rw [same] at condition found
  have selected := h.column found selector.column
  simp only [Expr.image, Expr.placed, Expr.memberImage, Expr.placedMember, found, List.length_map]
  exact h.inSelect (related_receiver operand _ first) selected condition _ negated

end Methods

end Expressions

mutual

theorem relates_condition (h : Congruence name R) : (e : Expr) → Relates R name t .condition e
  | .const v => by
    simp only [Relates, rendering, condition, Expr.image, Expr.placed]
    exact related_fixed h t.arguments .condition _
  | .capture c => by
    simp only [Relates, rendering, condition, Expr.image, Expr.placed]
    exact related_fixed h t.arguments .condition _
  | .member m => by
    simp only [Relates, rendering, condition, Expr.image, Expr.placed]
    exact (related_member h m).map h.isTrue
  | .unary op inner => by
    simp only [Relates, rendering, condition, Expr.image, Expr.placed]
    cases row : (Expr.unary op inner).isRowDependent with
    | false => exact related_fixed h t.arguments .condition _
    | true =>
      cases op with
      | not => exact (relates_condition h inner).map h.not
      | negate => exact .fail
  | .binary op l r => by
    simp only [Relates, rendering, condition, Expr.image, Expr.placed]
    cases row : (Expr.binary op l r).isRowDependent with
    | false => exact related_fixed h t.arguments .condition _
    | true =>
      simp only [Bool.not_true, Bool.false_eq_true, if_false]
      split
      · exact related_logical h (relates_condition h l) (relates_condition h r)
      · split
        · exact related_comparison h (relates_value h l) (relates_value h r) op
        · exact .fail
  | .call method args => by
    simp only [Relates, rendering, condition, Expr.image, Expr.placed]
    cases row : (Expr.call method args).isRowDependent with
    | false => exact related_fixed h t.arguments .condition _
    | true => exact related_callCondition h (relates_operands h args) method
  | .inQuery negated index selector inner args => by
    simp only [Relates, rendering, condition]
    exact related_subquery h (relates_operands h args) negated index selector
      (relates_condition h inner)
  | .convert inner kind => by
    simp only [Relates, rendering, condition, Expr.image, Expr.placed]
    cases row : (Expr.convert inner kind).isRowDependent with
    | false => exact related_fixed h t.arguments .condition _
    | true => exact relates_condition h inner

theorem relates_value (h : Congruence name R) : (e : Expr) → Relates R name t .value e
  | .const v => by
    simp only [Relates, rendering, value, Expr.image, Expr.placed]
    exact related_fixed h t.arguments .value _
  | .capture c => by
    simp only [Relates, rendering, value, Expr.image, Expr.placed]
    exact related_fixed h t.arguments .value _
  | .member m => by
    simp only [Relates, rendering, value, Expr.image, Expr.placed]
    exact related_member h m
  | .unary op inner => by
    simp only [Relates, rendering, value, Expr.image, Expr.placed]
    cases row : (Expr.unary op inner).isRowDependent with
    | false => exact related_fixed h t.arguments .value _
    | true =>
      cases op with
      | not => exact ((relates_condition h inner).map h.not).same
      | negate => exact (relates_value h inner).map h.negate
  | .binary op l r => by
    simp only [Relates, rendering, value, Expr.image, Expr.placed]
    cases row : (Expr.binary op l r).isRowDependent with
    | false => exact related_fixed h t.arguments .value _
    | true =>
      simp only [Bool.not_true, Bool.false_eq_true, if_false]
      split
      · exact (related_logical h (relates_condition h l) (relates_condition h r)).same
      · split
        · exact (related_comparison h (relates_value h l) (relates_value h r) op).same
        · next other =>
          have unequal : ¬(op = .eq ∨ op = .ne) := by
            rintro (rfl | rfl) <;> exact other rfl
          simp only [Expr.operationImage, unequal, false_and, if_false]
          exact related_arithmetic h (relates_value h l) (relates_value h r) op
  | .call method args => by
    simp only [Relates, rendering, value, Expr.image, Expr.placed]
    cases row : (Expr.call method args).isRowDependent with
    | false => exact related_fixed h t.arguments .value _
    | true => exact related_callValue h (relates_operands h args) method row
  | .inQuery negated index selector inner args => by
    simp only [Relates, rendering, value]
    exact (related_subquery h (relates_operands h args) negated index selector
      (relates_condition h inner)).same
  | .convert inner kind => by
    simp only [Relates, rendering, value, Expr.image, Expr.placed]
    cases row : (Expr.convert inner kind).isRowDependent with
    | false => exact related_fixed h t.arguments .value _
    | true => exact relates_value h inner

theorem relates_operands (h : Congruence name R) :
    (es : List Expr) → ∀ e ∈ es, Relates R name t .value e
  | [] => fun _ member => by cases member
  | e :: es => List.forall_mem_cons.2 ⟨relates_value h e, relates_operands h es⟩

end

end Compile

end DocStore

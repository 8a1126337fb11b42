import DocStore.Proofs.CompiledShapes
import DocStore.Proofs.CompilingSteps

/-!
# Values before a query runs

The compiler evaluates parts of an expression, while it compiles and again when
a compiled query is bound to other arguments. It only ever evaluates what
reaches no row: asked for such a value, the evaluator answers it, turns it down
as invalid, or passes on what a host function reports, and never has to say that
a row or a subquery has no value yet.
-/

set_option autoImplicit false

namespace DocStore

/-- The evaluator was asked for a value that only the rows of a query have. -/
def Error.WantsRow (err : Error) : Prop :=
  (∃ index column, err = .unsupported (.memberValue index column)) ∨
  err = .unsupported .correlatedSubquery

/-- One of some host functions reports an error. -/
def HostFunction.Report (hosts : List HostFunction) (err : Error) : Prop :=
  ∃ f ∈ hosts, ∃ vs, f.call vs = .error err

def Method.hosts : Method → List HostFunction
  | .host f => [f]
  | _ => []

namespace Expr

mutual

/-- The host functions that an expression calls. -/
def hosts : Expr → List HostFunction
  | .const _ | .capture _ | .member _ => []
  | .unary _ e | .convert e _ => hosts e
  | .binary _ l r => hosts l ++ hosts r
  | .call method args => method.hosts ++ hostsOf args
  | .inQuery _ _ _ condition args => hosts condition ++ hostsOf args

def hostsOf : List Expr → List HostFunction
  | [] => []
  | e :: es => hosts e ++ hostsOf es

end

end Expr

theorem HostFunction.Report.mono {hosts hosts' : List HostFunction} {err : Error}
    (h : Report hosts err) (sub : hosts ⊆ hosts') : Report hosts' err := by
  obtain ⟨f, hf, reported⟩ := h
  exact ⟨f, sub hf, reported⟩

/-! ## The evaluator -/

variable {α β : Type} {hosts hosts' : List HostFunction}

/-- An outcome is a value, an error of validation, or an error that a host function reports. -/
def Ordinary (hosts : List HostFunction) (outcome : Except Error α) : Prop :=
  (∃ a, outcome = .ok a) ∨ (∃ cause, outcome = .error (.invalid cause)) ∨
    ∃ err, outcome = .error err ∧ HostFunction.Report hosts err

namespace Ordinary

theorem ok (a : α) : Ordinary hosts (.ok a : Except Error α) := .inl ⟨a, rfl⟩

theorem invalid (cause : Invalid) : Ordinary hosts (.error (.invalid cause) : Except Error α) :=
  .inr (.inl ⟨cause, rfl⟩)

theorem mono {outcome : Except Error α} (h : Ordinary hosts outcome) (sub : hosts ⊆ hosts') :
    Ordinary hosts' outcome := by
  refine h.imp_right (Or.imp_right ?_)
  rintro ⟨err, failed, reported⟩
  exact ⟨err, failed, reported.mono sub⟩

theorem bind {x : Except Error α} {f : α → Except Error β} (hx : Ordinary hosts x)
    (hf : ∀ a, Ordinary hosts (f a)) : Ordinary hosts (x >>= f) := by
  rcases hx with ⟨a, rfl⟩ | ⟨cause, rfl⟩ | ⟨err, rfl, reported⟩
  · exact hf a
  · exact invalid cause
  · exact .inr (.inr ⟨err, rfl, reported⟩)

theorem map {x : Except Error α} (hx : Ordinary hosts x) (f : α → β) :
    Ordinary hosts (x.map f) := by
  rcases hx with ⟨a, rfl⟩ | ⟨cause, rfl⟩ | ⟨err, rfl, reported⟩
  · exact ok (f a)
  · exact invalid cause
  · exact .inr (.inr ⟨err, rfl, reported⟩)

/-- Whoever asks for the value of a row gets no ordinary answer, unless a host
function reports just that. -/
theorem not_wantsRow {err : Error} (h : Ordinary hosts (.error err : Except Error α)) :
    ¬err.WantsRow ∨ HostFunction.Report hosts err := by
  rcases h with ⟨_, ⟨⟩⟩ | ⟨cause, same⟩ | ⟨err', same, reported⟩
  · cases same
    exact .inl (by simp [Error.WantsRow])
  · cases same
    exact .inr reported

end Ordinary

namespace Value

theorem ordinary_applyUnary (op : UnaryOp) (v : Value) : Ordinary hosts (v.applyUnary op) := by
  unfold applyUnary
  split
  · exact .ok _
  · split
    · exact .ok _
    · exact .invalid _
  · exact .ok _
  · exact .ok _
  · exact .invalid _

theorem ordinary_arithmetic (op : BinaryOp) (l r : Value) : Ordinary hosts (arithmetic op l r) := by
  unfold arithmetic
  split
  · exact .ok _
  · exact .ok _
  · split
    · exact .ok _
    · exact .invalid _
  · split
    · exact .ok _
    · exact .invalid _
    · exact .invalid _

theorem ordinary_applyBinary (op : BinaryOp) (l r : Value) :
    Ordinary hosts (l.applyBinary op r) := by
  cases op with
  | and | or | lt | le | gt | ge =>
    unfold applyBinary
    dsimp only
    split <;> exact .ok _
  | eq | ne => exact .ok _
  | add | sub | mul | div => exact ordinary_arithmetic _ l r

theorem ordinary_convert (kind : ColumnKind) (v : Value) : Ordinary hosts (v.convert kind) := by
  unfold convert
  split
  · exact .ok _
  · exact .invalid _

end Value

namespace Method

theorem ordinary_textArgument (method : Method) (args : List Value) (i : Nat) :
    Ordinary hosts (method.textArgument args i) := by
  unfold textArgument
  split
  · exact .ok _
  · exact .invalid _
  · exact .invalid _

theorem ordinary_search (method : Method) (args : List Value)
    (test : List Char → List Char → Bool) : Ordinary hosts (method.search args test) :=
  (method.ordinary_textArgument args 0).bind fun _ =>
    (method.ordinary_textArgument args 1).bind fun _ => .ok _

theorem ordinary_membership (expected : Bool) (args : List Value) :
    Ordinary hosts (membership expected args) := by
  cases args with
  | nil => exact .invalid _
  | cons target items => exact .ok _

/-- Only a host function reports errors of its own. -/
theorem ordinary_apply (method : Method) (args : List Value) :
    Ordinary method.hosts (method.apply args) := by
  unfold apply
  split
  · exact .ok _
  · cases method with
    | startsWith | endsWith | contains => exact ordinary_search _ args _
    | toUpper | toLower => exact (ordinary_textArgument _ args 0).map _
    | concat => exact .ok _
    | isIn => exact ordinary_membership true args
    | isNotIn => exact ordinary_membership false args
    | host f =>
      cases called : f.call args with
      | ok v => exact .inl ⟨v, called⟩
      | error err => exact .inr (.inr ⟨err, called, f, List.mem_singleton_self f, args, called⟩)

end Method

theorem Capture.ordinary_value (c : Capture) (args : Option Arguments) :
    Ordinary hosts (c.value args) := by
  cases args with
  | none => exact .invalid _
  | some args =>
    unfold value
    dsimp only
    split
    · exact .ok _
    · exact .invalid _

namespace Expr

mutual

/-- Evaluating what reaches no row comes to an ordinary outcome. -/
theorem ordinary_evaluate (args : Option Arguments) :
    (e : Expr) → e.isRowDependent = false → Ordinary e.hosts (e.evaluate args)
  | .const v, _ => .ok v
  | .capture c, _ => c.ordinary_value args
  | .member _, fixed => by cases fixed
  | .unary op e, fixed => by
    rw [evaluate]
    exact (ordinary_evaluate args e fixed).bind (Value.ordinary_applyUnary op)
  | .binary op l r, fixed => by
    obtain ⟨hl, hr⟩ := Bool.or_eq_false_iff.1 fixed
    rw [evaluate]
    exact ((ordinary_evaluate args l hl).mono (List.subset_append_left _ _)).bind fun v =>
      ((ordinary_evaluate args r hr).mono (List.subset_append_right _ _)).bind
        (Value.ordinary_applyBinary op v)
  | .call method es, fixed => by
    rw [evaluate]
    exact ((ordinary_evaluateAll args es fixed).mono (List.subset_append_right _ _)).bind fun vs =>
      (method.ordinary_apply vs).mono (List.subset_append_left _ _)
  | .inQuery .., fixed => by cases fixed
  | .convert e kind, fixed => by
    rw [evaluate]
    exact (ordinary_evaluate args e fixed).bind (Value.ordinary_convert kind)

theorem ordinary_evaluateAll (args : Option Arguments) :
    (es : List Expr) → anyRowDependent es = false → Ordinary (hostsOf es) (evaluateAll args es)
  | [], _ => .ok []
  | e :: es, fixed => by
    obtain ⟨first, rest⟩ := Bool.or_eq_false_iff.1 fixed
    rw [evaluateAll]
    exact ((ordinary_evaluate args e first).mono (List.subset_append_left _ _)).bind fun v =>
      ((ordinary_evaluateAll args es rest).mono (List.subset_append_right _ _)).bind fun vs =>
        .ok (v :: vs)

end

end Expr

/-! ## The compiler -/

/-- What a rebinder evaluates reaches no row, and calls none but some host functions. -/
structure Rebinder.Fixed (hosts : List HostFunction) (r : Rebinder) : Prop where
  reachesNoRow : r.expr.isRowDependent = false
  hosts : r.expr.hosts ⊆ hosts

namespace Compile

variable {t : Target} {e : Expr}

/-- Whatever was compiled before it, a step does not fail for want of a row, unless a host function
reports just that, and it adds rebinders that reach no row. -/
def AsksNoRow (hosts : List HostFunction) (x : Compile α) : Prop := ∀ c : Compilation,
  (∀ err, (x.run.run c).1 = .error err → ¬err.WantsRow ∨ HostFunction.Report hosts err) ∧
    ∃ new, (x.run.run c).2.rebinders = c.rebinders ++ new ∧ ∀ r ∈ new, r.Fixed hosts

/-- A step that ends in one of these ways and adds no rebinders. -/
theorem AsksNoRow.of_run {x : Compile α} (run : ∀ c, (x.run.run c).2.rebinders = c.rebinders)
    (fails : ∀ c err, (x.run.run c).1 = .error err → ¬err.WantsRow ∨
      HostFunction.Report hosts err) : AsksNoRow hosts x :=
  fun c => ⟨fails c, [], by rw [run, List.append_nil], fun _ h => (by cases h)⟩

theorem asksNoRow_pure (a : α) : AsksNoRow hosts (pure a : Compile α) :=
  .of_run (fun _ => rfl) fun _ _ h => (by cases h)

theorem asksNoRow_get : AsksNoRow hosts (get : Compile Compilation) :=
  .of_run (fun _ => rfl) fun _ _ h => (by cases h)

theorem asksNoRow_bindIndex (index tableAlias : String) :
    AsksNoRow hosts (bindIndex index tableAlias) :=
  .of_run (fun _ => rfl) fun _ _ h => (by cases h)

theorem asksNoRow_fail {err : Error} (other : ¬err.WantsRow) :
    AsksNoRow hosts (fail err : Compile α) :=
  .of_run (fun _ => rfl) fun _ _ h => .inl ((Except.error.inj h) ▸ other)

theorem asksNoRow_ofExcept {x : Except Error α} (h : Ordinary hosts x) :
    AsksNoRow hosts (ofExcept x) := by
  cases x with
  | ok a => exact asksNoRow_pure a
  | error err =>
    refine .of_run (fun _ => rfl) fun _ _ failed => ?_
    obtain rfl := Except.error.inj failed
    exact h.not_wantsRow

theorem AsksNoRow.bind {x : Compile β} {f : β → Compile α} (hx : AsksNoRow hosts x)
    (hf : ∀ b, AsksNoRow hosts (f b)) : AsksNoRow hosts (x >>= f) := by
  intro c
  rw [run_bind]
  obtain ⟨fails, new, added, fixed⟩ := hx c
  rcases ran : x.run.run c with ⟨err | b, d⟩
  · rw [ran] at fails added
    exact ⟨fun err' failed => fails err' (by cases failed; rfl), new, added, fixed⟩
  · rw [ran] at added
    obtain ⟨fails', new', added', fixed'⟩ := hf b d
    refine ⟨fails', new ++ new', ?_, List.forall_mem_append.2 ⟨fixed, fixed'⟩⟩
    rw [← List.append_assoc, ← added]
    exact added'

/-- Binding a value never fails. -/
theorem asksNoRow_bind (t : Target) (v : Value) : AsksNoRow hosts (Compile.bind t v) :=
  .of_run (fun _ => rfl) fun _ _ h => (by cases h)

theorem asksNoRow_withIndex {index tableAlias : String} {x : Compile α} (h : AsksNoRow hosts x) :
    AsksNoRow hosts (withIndex index tableAlias x) := by
  intro c
  rw [run_withIndex]
  obtain ⟨fails, new, added, fixed⟩ := h { c with bindings := ⟨index, tableAlias⟩ :: c.bindings }
  rcases ran : x.run.run { c with bindings := ⟨index, tableAlias⟩ :: c.bindings } with ⟨err | a, d⟩
  · rw [ran] at fails added
    exact ⟨fun err' failed => fails err' (by cases failed; rfl), new, added, fixed⟩
  · rw [ran] at added
    exact ⟨fun _ failed => (by cases failed), new, added, fixed⟩

theorem asksNoRow_evaluate (fixed : e.isRowDependent = false) (sub : e.hosts ⊆ hosts)
    (args : Option Arguments) : AsksNoRow hosts (ofExcept (e.evaluate args)) :=
  asksNoRow_ofExcept ((e.ordinary_evaluate args fixed).mono sub)

/-- A value is bound with a rebinder of the expression that it is the value of. -/
theorem asksNoRow_bindExpr (fixed : e.isRowDependent = false) (sub : e.hosts ⊆ hosts)
    (affix : Affix) : AsksNoRow hosts (bindExpr t affix e) := by
  refine (asksNoRow_evaluate fixed sub t.arguments).bind fun v => asksNoRow_get.bind fun c => ?_
  refine (asksNoRow_bind t _).bind fun placeholder => ?_
  have noted : AsksNoRow hosts (modify fun d => { d with
      rebinders := d.rebinders ++ [⟨t.dialect.parameter c.parameters.size, e, affix⟩] } :
      Compile Unit) :=
    fun _ => ⟨fun _ h => (by cases h), [_], rfl, List.forall_mem_singleton.2 ⟨fixed, sub⟩⟩
  split
  · exact noted.bind fun _ => asksNoRow_pure placeholder
  · exact asksNoRow_pure placeholder

theorem hosts_subset_hostsOf {es : List Expr} (h : e ∈ es) : e.hosts ⊆ Expr.hostsOf es := by
  induction es with
  | nil => cases h
  | cons first rest ih =>
    rcases List.mem_cons.1 h with rfl | h
    · exact List.subset_append_left _ _
    · exact List.subset_append_of_subset_right _ (ih h)

/-- Operands call no other host functions. -/
theorem inherited_hosts (hosts : List HostFunction) : Expr.Inherited fun e => e.hosts ⊆ hosts where
  unary sub := sub
  binary sub := List.append_subset.1 sub
  call sub _ arg := List.Subset.trans (hosts_subset_hostsOf arg) (List.append_subset.1 sub).2
  inQuery sub :=
    ⟨(List.append_subset.1 sub).1, fun _ arg =>
      List.Subset.trans (hosts_subset_hostsOf arg) (List.append_subset.1 sub).2⟩
  convert sub := sub

/-- However steps are put together. -/
theorem carries_asksNoRow (t : Target) (hosts : List HostFunction) :
    Carries t (fun e => e.hosts ⊆ hosts) fun _ x => AsksNoRow hosts x where
  pure := asksNoRow_pure
  bind := AsksNoRow.bind
  get := asksNoRow_get
  fail turned := asksNoRow_fail (by cases turned <;> simp [Error.WantsRow])
  withIndex _ _ := asksNoRow_withIndex
  evaluate sub fixed := asksNoRow_evaluate fixed sub t.arguments
  bindExpr sub fixed := asksNoRow_bindExpr fixed sub

/-- Rendering a condition asks for the value of no row. -/
theorem asksNoRow_condition (e : Expr) (sub : e.hosts ⊆ hosts) : AsksNoRow hosts (condition t e) :=
  (carries_asksNoRow t hosts).condition (inherited_hosts hosts) e sub

/-- Nor does rendering a value. -/
theorem asksNoRow_value (e : Expr) (sub : e.hosts ⊆ hosts) : AsksNoRow hosts (value t e) :=
  (carries_asksNoRow t hosts).value (inherited_hosts hosts) e sub

/-- Nor does rendering order terms. -/
theorem asksNoRow_order {terms : List OrderTerm}
    (sub : terms.flatMap (fun term => term.expr.hosts) ⊆ hosts) :
    AsksNoRow hosts (order t terms) := by
  refine (carries_asksNoRow t hosts).order (inherited_hosts hosts) fun term member => ?_
  intro f called
  exact sub (List.mem_flatMap_of_mem member called)

end Compile

/-! ## Compiled queries -/

/-- Binding again what reaches no row comes to parameters, an error of validation or one that a
host function reports. -/
theorem CompiledSql.ordinary_bind {sql : CompiledSql} (fixed : ∀ r ∈ sql.rebinders, r.Fixed hosts)
    (args : Arguments) : Ordinary hosts (sql.bind args) := by
  obtain ⟨query, ps, rebinders⟩ := sql
  change Ordinary hosts (rebind args rebinders ps)
  induction rebinders generalizing ps with
  | nil => exact .ok ps
  | cons r rs ih =>
    obtain ⟨first, rest⟩ := List.forall_mem_cons.1 fixed
    rw [rebind]
    exact ((r.expr.ordinary_evaluate (some args) first.reachesNoRow).mono first.hosts).bind
      fun v => ih _ rest

/-- The host functions that a query calls. -/
def CompiledQuery.calls (q : CompiledQuery) : List HostFunction :=
  q.condition.hosts ++ q.order.flatMap fun term => term.expr.hosts

/-- Generating SQL does not fail for want of a row, and what the SQL
evaluates again reaches none. -/
theorem CompiledQuery.cases_of_compile (q : CompiledQuery) (dialect : Dialect) (names : TableNames)
    (args : Arguments) :
    (∃ sql, q.compile dialect names args = .ok sql ∧ ∀ r ∈ sql.rebinders, r.Fixed q.calls) ∨
      ∃ err, q.compile dialect names args = .error err ∧
        (¬err.WantsRow ∨ HostFunction.Report q.calls err) := by
  have asks : Compile.AsksNoRow q.calls (do
      Compile.bindIndex q.index.name q.index.name
      let filter ← Compile.condition ⟨dialect, names, some args⟩ q.condition
      let order ← Compile.order ⟨dialect, names, some args⟩ q.order
      pure (Query.indexRows q.index.name (names.index q.index.name) filter order
          (some q.paging))) :=
    (Compile.asksNoRow_bindIndex _ _).bind fun _ =>
      (Compile.asksNoRow_condition q.condition (List.subset_append_left _ _)).bind fun _ =>
        (Compile.asksNoRow_order (List.subset_append_right _ _)).bind fun _ =>
          Compile.asksNoRow_pure _
  obtain ⟨fails, new, added, fixed⟩ := asks .start
  unfold compile
  dsimp only
  split
  · next query c ran =>
    refine .inl ⟨_, rfl, ?_⟩
    have noted : c.rebinders = new :=
      (congrArg (fun result => result.2.rebinders) ran).symm.trans added
    exact noted ▸ fixed
  · next err c ran => exact .inr ⟨err, rfl, fails err (congrArg Prod.fst ran)⟩

/-- What reaches no row has a value, or an error of validation or of one of its host functions.
Neither rendering conditions, values and order terms, from whatever was compiled before, nor
generating SQL and binding it to other arguments fails for want of a row, unless a host function
reports just that, and whatever is evaluated again reaches no row. -/
theorem evaluator_asked_for_no_row :
    (∀ (args : Option Arguments) (e : Expr), e.isRowDependent = false →
      Ordinary e.hosts (e.evaluate args)) ∧
    (∀ t e, Compile.AsksNoRow e.hosts (Compile.condition t e) ∧
      Compile.AsksNoRow e.hosts (Compile.value t e)) ∧
    (∀ t terms, Compile.AsksNoRow (terms.flatMap fun term => term.expr.hosts)
      (Compile.order t terms)) ∧
    ∀ (q : CompiledQuery) (dialect : Dialect) (names : TableNames) (args : Arguments),
      (∃ sql, q.compile dialect names args = .ok sql ∧ (∀ r ∈ sql.rebinders, r.Fixed q.calls) ∧
        ∀ others, Ordinary q.calls (sql.bind others)) ∨
      ∃ err, q.compile dialect names args = .error err ∧
        (¬err.WantsRow ∨ HostFunction.Report q.calls err) := by
  refine ⟨fun args e => e.ordinary_evaluate args, fun t e => ?_, fun t terms => ?_,
    fun q dialect names args => ?_⟩
  · exact ⟨Compile.asksNoRow_condition e (List.Subset.refl _),
      Compile.asksNoRow_value e (List.Subset.refl _)⟩
  · exact Compile.asksNoRow_order (List.Subset.refl _)
  · refine (q.cases_of_compile dialect names args).imp_left ?_
    rintro ⟨sql, compiled, fixed⟩
    exact ⟨sql, compiled, fixed, CompiledSql.ordinary_bind fixed⟩

end DocStore

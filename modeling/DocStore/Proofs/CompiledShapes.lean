import DocStore.Store
import DocStore.Proofs.Discriminators
import DocStore.Proofs.NullTests

/-!
# When cached SQL is the SQL

SQL is kept per discriminator, which tells the nullable captures of the condition
apart by whether they are null. Compiling for two arguments of one discriminator
gives the same SQL exactly if the operands that the discriminator does not tell
are null for both or for neither: compound operands of the condition, and
operands in order terms. Without such operands the kept SQL is always right.
-/

set_option autoImplicit false

namespace DocStore

/-! ## What decides the SQL -/

namespace CompiledQuery

variable {a b args : Arguments}

/-- The operands that order terms test for null. -/
def orderTests (terms : List OrderTerm) : List Expr :=
  terms.flatMap fun term => term.expr.valueTests

/-- The operands that decide the SQL and that the discriminator does not tell:
those of the condition that are more than a capture, and those of order terms. -/
def untracked (q : CompiledQuery) : List Expr :=
  (q.condition.conditionTests.filter fun e => e.hasCaptures && !e.isCapture) ++
    (orderTests q.order).filter Expr.hasCaptures

theorem isNullFor_eq_of_fixed {e : Expr} (h : e.hasCaptures = false) :
    e.isNullFor a = e.isNullFor b := by
  have none : e.captures = [] := by simpa [Expr.hasCaptures] using h
  rw [Expr.isNullFor, Expr.isNullFor, Expr.evaluate_congr (some a) (some b) e none]

/-- Under one discriminator only the untracked operands can differ. -/
theorem sameNulls_untracked_iff {q : CompiledQuery} (built : q.Built) {d : UInt64}
    (ha : q.discriminator a = .ok d) (hb : q.discriminator b = .ok d) :
    SameNulls a b q.untracked ↔
      SameNulls a b q.condition.conditionTests ∧ SameNulls a b (orderTests q.order) := by
  have tracked := isNull_eq_of_discriminator built ha hb
  unfold untracked
  rw [sameNulls_append_iff]
  constructor
  · rintro ⟨inCondition, inOrder⟩
    constructor
    · intro e he
      cases reads : e.hasCaptures with
      | false => exact isNullFor_eq_of_fixed reads
      | true =>
        cases bare : e.isCapture with
        | false => exact inCondition e (List.mem_filter.2 ⟨he, by simp [reads, bare]⟩)
        | true =>
          obtain ⟨c, rfl⟩ := Expr.eq_capture_of_isCapture bare
          obtain ⟨v, w, hv, hw, same⟩ :=
            tracked c (Expr.mem_captures_of_conditionTests (List.mem_singleton_self c)
              q.condition he)
          simp [Expr.isNullFor, Expr.evaluate, Capture.value, hv, hw, same]
    · intro e he
      cases reads : e.hasCaptures with
      | false => exact isNullFor_eq_of_fixed reads
      | true => exact inOrder e (List.mem_filter.2 ⟨he, reads⟩)
  · rintro ⟨inCondition, inOrder⟩
    exact ⟨fun e he => inCondition e (List.mem_filter.1 he).1,
      fun e he => inOrder e (List.mem_filter.1 he).1⟩

theorem twin_order {dialect : Dialect} {names : TableNames} (terms : List OrderTerm) :
    Compile.Twin (SameNulls a b (orderTests terms)) (FirstApart SqlOrder.Departs)
      (Compile.order ⟨dialect, names, some a⟩ terms)
      (Compile.order ⟨dialect, names, some b⟩ terms) := by
  induction terms with
  | nil => exact (Compile.Twin.pure []).of_iff (iff_of_true trivial (sameNulls_nil a b))
  | cons term terms ih =>
    have here : Compile.ValueTwin dialect names a b term.expr := Compile.twin_value term.expr
    have both := Compile.Twin.map₂ here ih (fun e rest => SqlOrder.mk e term.descending :: rest)
      (fun r s p q (h : r.Departs s) =>
        FirstApart.head (show SqlOrder.Departs ⟨r, _⟩ ⟨s, _⟩ from h) p q)
      fun r p q h => FirstApart.tail h _
    exact both.of_iff sameNulls_append_iff.symm

/-- A query that compiles gives the rows of its index under a condition and an
order, with the parameters and rebinders that the two have left. -/
theorem gives_of_compile {q : CompiledQuery} {dialect : Dialect} {names : TableNames}
    {sql : CompiledSql} (h : q.compile dialect names args = .ok sql) : ∃ filter order c d,
      Compile.Gives (Compile.condition ⟨dialect, names, some args⟩ q.condition)
        { Compilation.start with bindings := [⟨q.index.name, q.index.name⟩] } filter c ∧
      Compile.Gives (Compile.order ⟨dialect, names, some args⟩ q.order) c order d ∧
      sql = ⟨.indexRows q.index.name (names.index q.index.name) filter order (some q.paging),
        d.parameters, d.rebinders⟩ := by
  unfold compile at h
  dsimp only at h
  split at h
  · next query c hstep =>
    cases h
    obtain ⟨_, c₁, hbind, h₁⟩ := Compile.gives_bind_iff.1 hstep
    obtain rfl := Compile.gives_bindIndex_iff.1 hbind
    obtain ⟨filter, c₂, hfilter, h₂⟩ := Compile.gives_bind_iff.1 h₁
    obtain ⟨order, c₃, horder, h₃⟩ := Compile.gives_bind_iff.1 h₂
    obtain ⟨rfl, rfl⟩ := Compile.gives_pure_iff.1 h₃
    exact ⟨filter, order, c₂, _, hfilter, horder, rfl⟩
  · cases h

/-- The parts of a query that compiling for other arguments can change: they stay
the same, or the condition departs, or otherwise an order term does. -/
theorem parts_of_compile {q : CompiledQuery} {dialect : Dialect} {names : TableNames}
    {sql sql' : CompiledSql} (h : q.compile dialect names a = .ok sql)
    (h' : q.compile dialect names b = .ok sql') : ∃ filter order filter' order',
      sql.query = .indexRows q.index.name (names.index q.index.name) filter order (some q.paging) ∧
      sql'.query = .indexRows q.index.name (names.index q.index.name) filter' order'
        (some q.paging) ∧
      if SameNulls a b q.condition.conditionTests ∧ SameNulls a b (orderTests q.order) then
        filter = filter' ∧ order = order'
      else filter.Departs filter' ∨ filter = filter' ∧
        FirstApart SqlOrder.Departs order order' := by
  obtain ⟨filter, order, c, e, hfilter, horder, rfl⟩ := gives_of_compile h
  obtain ⟨filter', order', c', e', hfilter', horder', rfl⟩ := gives_of_compile h'
  refine ⟨filter, order, filter', order', rfl, rfl, ?_⟩
  obtain ⟨together, departs⟩ := Compile.twin_condition q.condition ⟨rfl, rfl⟩ hfilter hfilter'
  by_cases inCondition : SameNulls a b q.condition.conditionTests
  · obtain ⟨rfl, alike⟩ := together inCondition
    obtain ⟨together, apart⟩ := twin_order q.order alike horder horder'
    by_cases inOrder : SameNulls a b (orderTests q.order)
    · rw [if_pos ⟨inCondition, inOrder⟩]
      exact ⟨rfl, (together inOrder).1⟩
    · rw [if_neg fun same => inOrder same.2]
      exact .inr ⟨rfl, apart inOrder⟩
  · rw [if_neg fun same => inCondition same.1]
    exact .inl (departs inCondition)

/-- Queries whose condition or order departs have different texts. -/
theorem text_ne {dialect : Dialect} (conv : dialect.Conventional) {index table : String}
    {filter filter' : Sql} {order order' : List SqlOrder} {paging : Option Paging}
    (apart : filter.Departs filter' ∨ filter = filter' ∧ FirstApart SqlOrder.Departs order order') :
    (Query.indexRows index table filter order paging).text dialect ≠
      (Query.indexRows index table filter' order' paging).text dialect := by
  have text : ∀ f o, (Query.indexRows index table f o paging).text dialect =
      "SELECT " ++ dialect.quote index ++ ".* FROM " ++ dialect.quote table ++ " AS " ++
        dialect.quote index ++ " WHERE " ++
        (f.text dialect ++ (SqlOrder.clause dialect false o ++ paging.elim "" dialect.paging)) := by
    intro f o
    unfold Query.text
    simp only [String.append_assoc]
  rw [text, text]
  rcases apart with departs | ⟨rfl, departs⟩
  · exact (((departs.diverge conv).then_ _ _).after _).ne
  · exact ((((SqlOrder.diverge_clause conv departs).then_ _ _).after _).after _).ne

/-- SQL compiled for one argument is served for every other argument of its discriminator. -/
theorem compiledSql_served {q : CompiledQuery} {store : Store} {collection : String} {d : UInt64}
    (ha : q.discriminator a = .ok d) (hb : q.discriminator b = .ok d) {sql : CompiledSql}
    (fresh : store.compiled.get? (d, collection) = none)
    (hsql : q.compile store.settings.dialect (store.settings.names collection) a = .ok sql) :
    ∃ store', store.compiledSql q collection a = (.ok sql, store') ∧
      store'.compiledSql q collection b = (.ok sql, store') := by
  refine ⟨{ store with compiled := store.compiled.insert (d, collection) sql }, ?_, ?_⟩
  · simp only [Store.compiledSql, ha, fresh, hsql]
  · simp only [Store.compiledSql, hb, Assoc.get?_insert, if_true]

/-- Compiling for two arguments of one discriminator gives the same SQL exactly
if the operands that the discriminator does not tell are null alike, and in a
dialect that writes conditions in the standard way exactly then the same text.
A store that has compiled for the first argument serves its SQL to the second. -/
theorem same_sql_iff_untracked_same {q : CompiledQuery} (built : q.Built) (store : Store)
    (collection : String) {d : UInt64} (ha : q.discriminator a = .ok d)
    (hb : q.discriminator b = .ok d) {sql sql' : CompiledSql}
    (hsql : q.compile store.settings.dialect (store.settings.names collection) a = .ok sql)
    (hsql' : q.compile store.settings.dialect (store.settings.names collection) b = .ok sql') :
    (sql.query = sql'.query ↔ SameNulls a b q.untracked) ∧
      (store.settings.dialect.Conventional →
        (sql.query.text store.settings.dialect = sql'.query.text store.settings.dialect ↔
          SameNulls a b q.untracked)) ∧
      (store.compiled.get? (d, collection) = none → ∃ store',
        store.compiledSql q collection a = (.ok sql, store') ∧
          store'.compiledSql q collection b = (.ok sql, store')) := by
  obtain ⟨filter, order, filter', order', query, query', parts⟩ := parts_of_compile hsql hsql'
  rw [sameNulls_untracked_iff built ha hb, query, query']
  have served := fun fresh : store.compiled.get? (d, collection) = none =>
    compiledSql_served ha hb fresh hsql
  by_cases same : SameNulls a b q.condition.conditionTests ∧ SameNulls a b (orderTests q.order)
  · rw [if_pos same] at parts
    obtain ⟨rfl, rfl⟩ := parts
    exact ⟨iff_of_true rfl same, fun _ => iff_of_true rfl same, served⟩
  · rw [if_neg same] at parts
    refine ⟨iff_of_false (fun equal => ?_) same, fun conv =>
      iff_of_false (text_ne conv parts) same, served⟩
    rw [Query.indexRows.injEq] at equal
    rcases parts with departs | ⟨_, departs⟩
    · exact departs.ne equal.2.2.1
    · exact departs.ne SqlOrder.not_departs_self equal.2.2.2.1

/-- A text that may be absent. -/
def optionalText (name : String) : Capture :=
  ⟨name, true, fun args => some ((args name).getD .null)⟩

/-- Rows ordered by whether their title is the one given. -/
def byGivenTitle : CompiledQuery :=
  let index : IndexType := ⟨"ByTitle", [⟨"title", .text, true⟩], some⟩
  ⟨0, index, .const (.bool true),
    [⟨.binary .eq (.capture (optionalText "t")) (index.field "title"), false⟩], ⟨none, none⟩⟩

theorem built_byGivenTitle : byGivenTitle.Built := by
  have start : CompiledQuery.create 0 byGivenTitle.index (.const (.bool true)) =
      .ok ⟨0, byGivenTitle.index, .const (.bool true), [], ⟨none, none⟩⟩ := rfl
  exact .orderBy _ false (.create start)

/-- The discriminator of a query without captures in its condition is the same
with a title and without, but the order term then tests the column for null. -/
theorem byGivenTitle_conflates : ∃ d sql sql',
    byGivenTitle.discriminator (fun _ => some (.text "a")) = .ok d ∧
      byGivenTitle.discriminator (fun _ => none) = .ok d ∧
      byGivenTitle.compile .standard ⟨"", ""⟩ (fun _ => some (.text "a")) = .ok sql ∧
      byGivenTitle.compile .standard ⟨"", ""⟩ (fun _ => none) = .ok sql' ∧
      sql.query.text .standard ≠ sql'.query.text .standard := by
  let store : Store := .create ⟨.default, .standard, .json⟩ []
  obtain ⟨sql, hsql⟩ : ∃ sql, byGivenTitle.compile .standard ⟨"", ""⟩ (fun _ => some (.text "a")) =
    .ok sql := ⟨_, rfl⟩
  obtain ⟨sql', hsql'⟩ : ∃ sql, byGivenTitle.compile .standard ⟨"", ""⟩ (fun _ => none) = .ok sql :=
    ⟨_, rfl⟩
  refine ⟨0, sql, sql', rfl, rfl, hsql, hsql', ?_⟩
  have shapes := same_sql_iff_untracked_same built_byGivenTitle store "" rfl rfl hsql hsql'
  intro same
  have null := (shapes.2.1 Dialect.conventional_standard).1 same
  revert null
  decide

end CompiledQuery

end DocStore

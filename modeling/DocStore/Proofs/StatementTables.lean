import DocStore.Proofs.CompiledParts
import DocStore.Proofs.CompiledShapes
import DocStore.Proofs.PhysicalNames

/-!
# Tables of statements

Which tables a statement names: the one it is about, those it joins, and those
that the subqueries in its conditions and order terms select from. A compiled
expression names the tables of the indexes it asks for membership in, and
nothing else of a query comes from an expression; so a query names tables of its
own collection only.
-/

set_option autoImplicit false

namespace DocStore

/-! ## The tables that are named -/

namespace Sql

mutual

/-- The tables that the subqueries of a condition or of a value select from. -/
def tables : Sql → List String
  | .param _ | .column _ _ | .boolean _ | .string _ | .truth _ => []
  | .binary _ l r | .like l r => tables l ++ tables r
  | .not e | .negate e | .isNull e _ | .paren e | .upper e | .lower e => tables e
  | .concat parts => tablesOf parts
  | .inList e items _ => tables e ++ tablesOf items
  | .select selector table _ condition => table :: (tables selector ++ tables condition)

def tablesOf : List Sql → List String
  | [] => []
  | e :: es => tables e ++ tablesOf es

end

/-- Every table that is selected from is allowed. -/
def ReadsOnly (allowed : String → Prop) (e : Sql) : Prop := ∀ name ∈ e.tables, allowed name

variable {allowed : String → Prop}

theorem forall_mem_tablesOf_iff {es : List Sql} :
    (∀ name ∈ tablesOf es, allowed name) ↔ ∀ e ∈ es, ReadsOnly allowed e := by
  induction es with
  | nil => simp [tablesOf]
  | cons e es ih => rw [tablesOf, List.forall_mem_append, ih, List.forall_mem_cons, ReadsOnly]

theorem readsOnly_binary_iff {op : BinaryOp} {l r : Sql} :
    ReadsOnly allowed (.binary op l r) ↔ ReadsOnly allowed l ∧ ReadsOnly allowed r := by
  rw [ReadsOnly, tables, List.forall_mem_append, ReadsOnly, ReadsOnly]

theorem readsOnly_like_iff {e pattern : Sql} :
    ReadsOnly allowed (.like e pattern) ↔ ReadsOnly allowed e ∧ ReadsOnly allowed pattern := by
  rw [ReadsOnly, tables, List.forall_mem_append, ReadsOnly, ReadsOnly]

theorem readsOnly_concat_iff {parts : List Sql} :
    ReadsOnly allowed (.concat parts) ↔ ∀ e ∈ parts, ReadsOnly allowed e := by
  rw [ReadsOnly, tables, forall_mem_tablesOf_iff]

theorem readsOnly_inList_iff {e : Sql} {items : List Sql} {negated : Bool} :
    ReadsOnly allowed (.inList e items negated) ↔
    ReadsOnly allowed e ∧ ∀ item ∈ items, ReadsOnly allowed item := by
  rw [ReadsOnly, tables, List.forall_mem_append, ← ReadsOnly, forall_mem_tablesOf_iff]

theorem readsOnly_select_iff {selector condition : Sql} {table tableAlias : String} :
    ReadsOnly allowed (.select selector table tableAlias condition) ↔
      allowed table ∧ ReadsOnly allowed selector ∧ ReadsOnly allowed condition := by
  rw [ReadsOnly, tables, List.forall_mem_cons, List.forall_mem_append, ReadsOnly, ReadsOnly]

/-- What selects from no table at all. -/
theorem readsOnly_of_nil {e : Sql} (none : e.tables = []) : ReadsOnly allowed e := fun name h => by
  rw [none] at h
  cases h

end Sql

def Join.tables (join : Join) : List String := join.table :: join.bridge.toList

def DocumentSource.tables (source : DocumentSource) : List String :=
  source.table :: (source.joins.flatMap Join.tables ++ Sql.tablesOf source.conditions)

def Query.tables : Query → List String
  | .indexRows _ table filter order _ =>
    table :: (filter.tables ++ Sql.tablesOf (order.map SqlOrder.term))
  | .indexCount _ table filter => table :: filter.tables
  | .documentById table | .maxId table => [table]
  | .documents source order _ => source.tables ++ Sql.tablesOf (order.map SqlOrder.term)
  | .documentCount source => source.tables

def DocumentSource.ReadsOnly (allowed : String → Prop) (source : DocumentSource) : Prop :=
  ∀ name ∈ source.tables, allowed name

def Query.ReadsOnly (allowed : String → Prop) (q : Query) : Prop := ∀ name ∈ q.tables, allowed name

/-- The tables that are created, dropped, indexed or referred to. -/
def SchemaCommand.tables : SchemaCommand → List String
  | .createTable table => table.name :: table.foreignKeys.map ForeignKey.table
  | .dropTable name => [name]
  | .createIndex index => [index.table]

def Statement.tables : Statement → List String
  | .insert table _ | .insertReturning table _ | .update table _ _ | .delete table _ => [table]
  | .query q _ => q.tables
  | .schema command => command.tables

/-- The physical name of one of some tables of a collection. -/
def TableNames.Named (names : TableNames) (scope : List LogicalTable) (name : String) : Prop :=
  ∃ t ∈ scope, name = names.table t

/-- The statement names no tables but some of one collection. -/
def Statement.Over (names : TableNames) (scope : List LogicalTable) (s : Statement) : Prop :=
  ∀ name ∈ s.tables, names.Named scope name

/-- A change names the one table that it is made to. -/
theorem Statement.tables_of_table? {s : Statement} {table : String} (h : s.table? = some table) :
    s.tables = [table] := by
  cases s with
  | query | schema => cases h
  | insert | insertReturning | update | delete =>
    cases h
    rfl

/-! ## Expressions -/

namespace Expr

mutual

/-- The indexes in whose rows an expression asks for membership. -/
def queried : Expr → List String
  | .const _ | .capture _ | .member _ => []
  | .unary _ e | .convert e _ => queried e
  | .binary _ l r => queried l ++ queried r
  | .call _ args => queriedOf args
  | .inQuery _ index _ condition args => index :: (queried condition ++ queriedOf args)

def queriedOf : List Expr → List String
  | [] => []
  | e :: es => queried e ++ queriedOf es

end

end Expr

namespace Compile

variable {α β : Type}

/-- What a step answers is of a kind, whatever was compiled before it. -/
def Makes (P : α → Prop) (x : Compile α) : Prop :=
  ∀ ⦃c : Compilation⦄ ⦃r : α⦄ ⦃d : Compilation⦄, Gives x c r d → P r

section Makes

variable {P : α → Prop} {Q : β → Prop}

theorem makes_pure {r : α} (h : P r) : Makes P (pure r : Compile α) := by
  intro c s d gives
  obtain ⟨rfl, _⟩ := gives_pure_iff.1 gives
  exact h

theorem Makes.bind {x : Compile β} {f : β → Compile α} (hx : Makes Q x)
    (hf : ∀ r, Q r → Makes P (f r)) : Makes P (x >>= f) := by
  intro c s e gives
  obtain ⟨r, d, first, next⟩ := gives_bind_iff.1 gives
  exact hf r (hx first) next

/-- Of a step whose answer does not matter nothing need be known. -/
theorem makes_bind {x : Compile β} {f : β → Compile α} (hf : ∀ r, Makes P (f r)) :
    Makes P (x >>= f) :=
  Makes.bind (Q := fun _ => True) (fun _ _ _ _ => trivial) fun r _ => hf r

theorem makes_of_under {x : Compile α} (h : ∀ bs, MakesUnder bs P x) : Makes P x :=
  fun c _ _ gives => (h c.bindings rfl gives).2

end Makes

section Parts

variable {t : Target} {allowed : String → Prop}

theorem composes_readsOnly {known : Member → Prop} {asked : String → Prop}
    (reads : ∀ i, asked i → allowed (t.names.index i)) :
    Composes t known asked fun _ => Sql.ReadsOnly allowed where
  param _ _ := Sql.readsOnly_of_nil rfl
  boolean _ _ := Sql.readsOnly_of_nil rfl
  string _ _ := Sql.readsOnly_of_nil rfl
  truth _ _ := Sql.readsOnly_of_nil rfl
  column _ _ _ := Sql.readsOnly_of_nil rfl
  binary hl hr _ := Sql.readsOnly_binary_iff.2 ⟨hl, hr⟩
  like hl hr := Sql.readsOnly_like_iff.2 ⟨hl, hr⟩
  not h := h
  negate h := h
  isNull h _ := h
  paren h := h
  upper h := h
  lower h := h
  concat h := Sql.readsOnly_concat_iff.2 h
  inList h items _ := Sql.readsOnly_inList_iff.2 ⟨h, items⟩
  select here selector condition := Sql.readsOnly_select_iff.2 ⟨reads _ here, selector, condition⟩

/-- The tables of the indexes that an expression asks for membership in are allowed. -/
def Allows (t : Target) (allowed : String → Prop) (indexes : List String) : Prop :=
  ∀ i ∈ indexes, allowed (t.names.index i)

theorem allows_append_iff {is js : List String} :
    Allows t allowed (is ++ js) ↔ Allows t allowed is ∧ Allows t allowed js :=
  List.forall_mem_append

mutual

theorem Allows.within : (e : Expr) → Allows t allowed e.queried →
    e.Over (fun _ => True) fun i => allowed (t.names.index i)
  | .const _, _ | .capture _, _ | .member _, _ => trivial
  | .unary _ e, h | .convert e _, h => Allows.within e h
  | .binary _ l r, h => ⟨Allows.within l (allows_append_iff.1 h).1,
      Allows.within r (allows_append_iff.1 h).2⟩
  | .call _ args, h => Allows.withinAll args h
  | .inQuery _ _ _ condition args, h => by
    obtain ⟨here, inside⟩ := List.forall_mem_cons.1 h
    obtain ⟨inner, outer⟩ := allows_append_iff.1 inside
    exact ⟨⟨here, trivial⟩, Allows.within condition inner, Allows.withinAll args outer⟩

theorem Allows.withinAll : (es : List Expr) → Allows t allowed (Expr.queriedOf es) →
    Expr.OverAll (fun _ => True) (fun i => allowed (t.names.index i)) es
  | [], _ => trivial
  | e :: es, h => ⟨Allows.within e (allows_append_iff.1 h).1,
      Allows.withinAll es (allows_append_iff.1 h).2⟩

end

/-- A condition selects from the tables of the indexes that it asks for membership in. -/
theorem makes_condition (e : Expr) (h : Allows t allowed e.queried) :
    Makes (Sql.ReadsOnly allowed) (condition t e) :=
  makes_of_under ((composes_readsOnly fun _ read => read).makes_condition e h.within)

theorem Allows.of_flatMap {α : Type} {xs : List α} {f : α → List String}
    (h : Allows t allowed (xs.flatMap f)) :
    ∀ x ∈ xs, Allows t allowed (f x) := fun x hx i hi => h i (List.mem_flatMap.2 ⟨x, hx, hi⟩)

theorem makes_order {terms : List OrderTerm}
    (h : Allows t allowed (terms.flatMap fun term => term.expr.queried)) :
    Makes (fun es => ∀ e ∈ es, e.term.ReadsOnly allowed) (order t terms) :=
  makes_of_under fun _ => (composes_readsOnly fun _ read => read).makes_order fun term member =>
    (h.of_flatMap term member).within

theorem makes_joinConditions {conditions : List (String × Expr)}
    (h : Allows t allowed (conditions.flatMap fun join => join.2.queried)) :
    Makes (fun es => ∀ e ∈ es, Sql.ReadsOnly allowed e)
      (DocumentQuery.joinConditions t conditions) :=
  makes_of_under fun _ =>
    (composes_readsOnly fun _ read => read).makes_joinConditions fun join member =>
      (h.of_flatMap join member).within

end Parts

/-- A step makes a statement from its query and the parameters it bound. -/
theorem toStatement_eq_ok_iff {step : Compile Query} {s : Statement} :
    step.toStatement = .ok s ↔ ∃ query c, Gives step .start query c ∧
    s = .query query c.parameters := by
  unfold Compile.toStatement
  constructor
  · intro made
    split at made
    · next query c ran =>
      cases made
      exact ⟨query, c, ran, rfl⟩
    · cases made
  · rintro ⟨query, c, gives, rfl⟩
    have ran : ExceptT.run step Compilation.start = (.ok query, c) := gives
    rw [ran]

/-- A query that a step makes becomes a statement as it is. -/
theorem Makes.toStatement {P : Query → Prop} {step : Compile Query} (h : Makes P step)
    {s : Statement} (made : step.toStatement = .ok s) : ∃ q ps, s = .query q ps ∧ P q := by
  obtain ⟨query, c, gives, rfl⟩ := toStatement_eq_ok_iff.1 made
  exact ⟨query, c.parameters, rfl, h gives⟩

end Compile

/-! ## Queries -/

section Queries

variable {names : TableNames} {ts : List LogicalTable} {dialect : Dialect}
  {arguments : Option Arguments} {settings : Settings} {s : Statement}

theorem TableNames.named_of_mem {t : LogicalTable} (h : t ∈ ts) : names.Named ts (names.table t) :=
  ⟨t, h, rfl⟩

/-- Asking for membership in indexes whose tables are in scope. -/
theorem allows_of_mem {indexes : List String} (h : ∀ i ∈ indexes, .rows i ∈ ts) :
    Compile.Allows ⟨dialect, names, arguments⟩ (names.Named ts) indexes :=
  fun i hi => names.named_of_mem (h i hi)

theorem tablesOf_order_of_forall {allowed : String → Prop} {order : List SqlOrder}
    (h : ∀ o ∈ order, o.term.ReadsOnly allowed) :
    ∀ name ∈ Sql.tablesOf (order.map SqlOrder.term), allowed name :=
  Sql.forall_mem_tablesOf_iff.2 (List.forall_mem_map.2 h)

theorem Statement.over_documentById (ps : Parameters) :
    (query (.documentById names.document) ps).Over names [.documents] :=
  List.forall_mem_singleton.2 (names.named_of_mem (List.mem_singleton_self _))

theorem Statement.over_maxId (ps : Parameters) :
    (query (.maxId names.document) ps).Over names [.documents] :=
  List.forall_mem_singleton.2 (names.named_of_mem (List.mem_singleton_self _))

/-- The indexes in whose rows order terms ask for membership. -/
def OrderTerm.queriedOf (terms : List OrderTerm) : List String :=
  terms.flatMap fun term => term.expr.queried

namespace IndexQuery

/-- The tables of the index and of those that the filter and the order ask for membership in. -/
def scope (q : IndexQuery) : List LogicalTable :=
  (q.index.name :: (q.filter.elim [] Expr.queried ++ OrderTerm.queriedOf q.order)).map .rows

theorem mem_scope (q : IndexQuery) : .rows q.index.name ∈ q.scope := List.mem_cons_self

theorem makes_condition (q : IndexQuery) :
    Compile.Makes (Sql.ReadsOnly ((settings.names q.collection).Named q.scope))
      (q.condition (q.target settings)) := by
  refine Compile.makes_bind fun _ => ?_
  cases hf : q.filter with
  | none => exact Compile.makes_pure (Sql.readsOnly_of_nil rfl)
  | some e =>
    refine Compile.makes_condition e (allows_of_mem fun i hi => ?_)
    simp [scope, hf, hi]

theorem over_statement {q : IndexQuery} (h : q.statement settings = .ok s) :
    s.Over (settings.names q.collection) q.scope := by
  have ordered : ∀ i ∈ OrderTerm.queriedOf q.order, .rows i ∈ q.scope :=
    fun i hi => by simp [scope, hi]
  have makes : Compile.Makes (Query.ReadsOnly ((settings.names q.collection).Named q.scope)) (do
      let filter ← q.condition (q.target settings)
      let order ← Compile.order (q.target settings) q.order
      pure (.indexRows q.index.name ((settings.names q.collection).index q.index.name) filter order
          (some q.paging))) :=
    q.makes_condition.bind fun filter hfilter =>
      (Compile.makes_order (allows_of_mem ordered)).bind fun order horder =>
        Compile.makes_pure (List.forall_mem_cons.2 ⟨TableNames.named_of_mem q.mem_scope,
          List.forall_mem_append.2 ⟨hfilter, tablesOf_order_of_forall horder⟩⟩)
  obtain ⟨query, ps, rfl, named⟩ := makes.toStatement h
  exact named

theorem over_countStatement {q : IndexQuery} (h : q.countStatement settings = .ok s) :
    s.Over (settings.names q.collection) q.scope := by
  have makes : Compile.Makes (Query.ReadsOnly ((settings.names q.collection).Named q.scope)) (do
      let filter ← q.condition (q.target settings)
      pure (.indexCount q.index.name ((settings.names q.collection).index q.index.name) filter)) :=
    q.makes_condition.bind fun filter hfilter =>
      Compile.makes_pure (List.forall_mem_cons.2 ⟨TableNames.named_of_mem q.mem_scope, hfilter⟩)
  obtain ⟨query, ps, rfl, named⟩ := makes.toStatement h
  exact named

end IndexQuery

namespace CompiledQuery

/-- The tables of the index and of those that the condition and the order ask for membership in. -/
def scope (q : CompiledQuery) : List LogicalTable :=
  (q.index.name :: (q.condition.queried ++ OrderTerm.queriedOf q.order)).map .rows

theorem over_of_compile {q : CompiledQuery} {args : Arguments} {sql : CompiledSql}
    (h : q.compile dialect names args = .ok sql) (ps : Parameters) :
    (Statement.query sql.query ps).Over names q.scope := by
  obtain ⟨filter, order, c, d, hfilter, horder, rfl⟩ := gives_of_compile h
  have inCondition : ∀ i ∈ q.condition.queried, .rows i ∈ q.scope := fun i hi => by simp [scope, hi]
  have inOrder : ∀ i ∈ OrderTerm.queriedOf q.order, .rows i ∈ q.scope :=
    fun i hi => by simp [scope, hi]
  have rows : .rows q.index.name ∈ q.scope := List.mem_cons_self
  refine List.forall_mem_cons.2 ⟨names.named_of_mem rows, ?_⟩
  refine List.forall_mem_append.2 ⟨?_, tablesOf_order_of_forall ?_⟩
  · exact Compile.makes_condition q.condition (allows_of_mem inCondition) hfilter
  · exact Compile.makes_order (allows_of_mem inOrder) horder

end CompiledQuery

namespace DocumentQuery

/-- The documents, the tables of the indexes joined, and those of the indexes that the conditions
and the order ask for membership in. -/
def scope (q : DocumentQuery) : List LogicalTable :=
  .documents :: (q.joins.flatMap (fun join => [.rows join.1, .links join.1]) ++
    (q.joins.flatMap (fun join => join.2.queried) ++ OrderTerm.queriedOf q.order).map .rows)

variable {q : DocumentQuery} {joins : List Join}

/-- Every table of a join is one of the collection. -/
def Joins (q : DocumentQuery) (names : TableNames) (joins : List Join) : Prop :=
  ∀ join ∈ joins, ∀ name ∈ join.tables, names.Named q.scope name

theorem tables_joinOf {index : String} (h : index ∈ q.joins.map Prod.fst) (kind : IndexKind) :
    ∀ name ∈ (joinOf names index kind).tables, names.Named q.scope name := by
  obtain ⟨join, hjoin, rfl⟩ := List.mem_map.1 h
  have named : ∀ t ∈ [LogicalTable.rows join.1, .links join.1],
      names.Named q.scope (names.table t) := fun t ht =>
    names.named_of_mem (List.mem_cons_of_mem _
      (List.mem_append_left _ (List.mem_flatMap.2 ⟨join, hjoin, ht⟩)))
  have rows := named (.rows join.1) (by simp)
  have links := named (.links join.1) (by simp)
  cases kind with
  | map => exact List.forall_mem_singleton.2 rows
  | reduce => exact List.forall_mem_cons.2 ⟨rows, List.forall_mem_singleton.2 links⟩

theorem makes_source (joined : q.Joins (settings.names q.collection) joins) :
    Compile.Makes (DocumentSource.ReadsOnly ((settings.names q.collection).Named q.scope))
      (q.source (q.target settings) joins) := by
  have conditions : ∀ i ∈ q.joins.flatMap fun join => join.2.queried, .rows i ∈ q.scope :=
    fun i hi =>
      List.mem_cons_of_mem _
        (List.mem_append_right _ (List.mem_map_of_mem (List.mem_append_left _ hi)))
  have documents : .documents ∈ q.scope := List.mem_cons_self
  have bound : Compile.Makes (Sql.ReadsOnly ((settings.names q.collection).Named q.scope))
      (Compile.bind (q.target settings) (.text q.entity.name)) :=
    Compile.makes_bind fun _ => Compile.makes_bind fun _ =>
      Compile.makes_pure (Sql.readsOnly_of_nil rfl)
  refine Compile.makes_bind fun _ => bound.bind fun entity hentity => ?_
  refine (Compile.makes_joinConditions (allows_of_mem conditions)).bind fun es hes =>
    Compile.makes_pure ?_
  refine List.forall_mem_cons.2 ⟨TableNames.named_of_mem documents,
    List.forall_mem_append.2 ⟨?_, ?_⟩⟩
  · intro name hname
    obtain ⟨join, hjoin, inside⟩ := List.mem_flatMap.1 hname
    exact joined join hjoin name inside
  · refine Sql.forall_mem_tablesOf_iff.2 (List.forall_mem_cons.2 ⟨?_, hes⟩)
    exact Sql.readsOnly_binary_iff.2 ⟨Sql.readsOnly_of_nil rfl, hentity⟩

theorem over_compile (joined : q.Joins (settings.names q.collection) joins)
    (h : q.compile settings joins = .ok s) : s.Over (settings.names q.collection) q.scope := by
  have ordered : ∀ i ∈ OrderTerm.queriedOf q.order, .rows i ∈ q.scope :=
    fun i hi => by simp [scope, hi]
  have makes : Compile.Makes (Query.ReadsOnly ((settings.names q.collection).Named q.scope)) (do
      let source ← q.source (q.target settings) joins
      let order ← Compile.order (q.target settings) q.order
      pure (.documents source order q.paging)) :=
    (makes_source joined).bind fun source hsource =>
      (Compile.makes_order (allows_of_mem ordered)).bind fun order horder =>
        Compile.makes_pure (List.forall_mem_append.2 ⟨hsource, tablesOf_order_of_forall horder⟩)
  obtain ⟨query, ps, rfl, named⟩ := makes.toStatement h
  exact named

theorem over_compileCount (joined : q.Joins (settings.names q.collection) joins)
    (h : q.compileCount settings joins = .ok s) : s.Over (settings.names q.collection) q.scope := by
  have makes : Compile.Makes (Query.ReadsOnly ((settings.names q.collection).Named q.scope)) (do
      let source ← q.source (q.target settings) joins
      pure (.documentCount source)) :=
    (makes_source joined).bind fun source hsource => Compile.makes_pure hsource
  obtain ⟨query, ps, rfl, named⟩ := makes.toStatement h
  exact named

end DocumentQuery

end Queries

end DocStore

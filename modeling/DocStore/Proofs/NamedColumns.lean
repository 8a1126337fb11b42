import DocStore.Proofs.ColumnReferences
import DocStore.Proofs.StatementTables

/-!
# The columns that statements name

A change names columns of its one table. A query names a column by an alias, and
it is one of the table of that alias in the innermost `FROM` clause that has it;
columns that are named without an alias are of the only table there is. Where no
subquery hides an alias, the columns of a compiled query are those of the members
it was made of, in the tables of their indexes.
-/

set_option autoImplicit false

namespace DocStore

/-! ## Tables in scope -/

/-- The tables of `FROM` clauses under their aliases, from the innermost clause outwards. -/
abbrev Sources := List (List (String × String))

namespace Sources

/-- The table that an alias denotes: that of the first clause that has the alias, where it has to be
that of one table only. -/
def table? : Sources → String → Option String
  | [], _ => none
  | clause :: outer, a =>
    match clause.filter fun source => source.1 = a with
    | [] => table? outer a
    | [source] => some source.2
    | _ :: _ :: _ => none

variable {clause : List (String × String)} {sources : Sources} {a b table other : String}

theorem filter_of_not_mem (h : a ∉ clause.map Prod.fst) :
    (clause.filter fun source => source.1 = a) = [] :=
  List.filter_eq_nil_iff.2 fun source member same =>
    h (List.mem_map.2 ⟨source, member, of_decide_eq_true same⟩)

theorem filter_of_mem (unique : (clause.map Prod.fst).Nodup) (h : (a, table) ∈ clause) :
    (clause.filter fun source => source.1 = a) = [(a, table)] := by
  induction clause with
  | nil => cases h
  | cons source clause ih =>
    obtain ⟨fresh, unique⟩ := List.nodup_cons.1 unique
    rcases List.mem_cons.1 h with rfl | h
    · rw [List.filter_cons, if_pos (decide_eq_true rfl), filter_of_not_mem fresh]
    · have other : source.1 ≠ a := fun same => fresh (List.mem_map.2 ⟨_, h, same.symm⟩)
      rw [List.filter_cons, if_neg (by simpa using other), ih unique h]

theorem table?_of_mem (unique : (clause.map Prod.fst).Nodup) (h : (a, table) ∈ clause)
    (outer : Sources) : table? (clause :: outer) a = some table := by
  rw [table?, filter_of_mem unique h]

theorem table?_of_not_mem (h : a ∉ clause.map Prod.fst) (outer : Sources) :
    table? (clause :: outer) a = table? outer a := by
  rw [table?, filter_of_not_mem h]

theorem table?_self (a table : String) (outer : Sources) :
    table? ([(a, table)] :: outer) a = some table := by
  simp [table?]

theorem exists_of_table? (h : table? sources a = some table) :
    ∃ clause ∈ sources, a ∈ clause.map Prod.fst := by
  induction sources with
  | nil => cases h
  | cons clause outer ih =>
    by_cases member : a ∈ clause.map Prod.fst
    · exact ⟨clause, List.mem_cons_self, member⟩
    · rw [table?_of_not_mem member] at h
      obtain ⟨c, inner, has⟩ := ih h
      exact ⟨c, List.mem_cons_of_mem _ inner, has⟩

/-- An alias that no clause has hides none. -/
theorem table?_cons_fresh (fresh : ∀ clause ∈ sources, b ∉ clause.map Prod.fst)
    (h : table? sources a = some table) : table? ([(b, other)] :: sources) a = some table := by
  obtain ⟨clause, member, has⟩ := exists_of_table? h
  rw [table?_of_not_mem _ sources, h]
  rw [List.map_singleton, List.mem_singleton]
  rintro rfl
  exact fresh clause member has

end Sources

/-! ## Columns -/

/-- A column as it is named, with the table that it is one of, if there is one. -/
structure NamedColumn where
  table : Option String
  name : String
deriving DecidableEq

/-- The column is one that the table has. -/
def NamedColumn.In (has : String → String → Prop) (c : NamedColumn) : Prop :=
  ∃ table, c.table = some table ∧ has table c.name

namespace Sql

mutual

/-- The columns in a condition or a value under some clauses. -/
def columns (sources : Sources) : Sql → List NamedColumn
  | .param _ | .boolean _ | .string _ | .truth _ => []
  | .column a name => [⟨sources.table? a, name⟩]
  | .binary _ l r | .like l r => columns sources l ++ columns sources r
  | .not e | .negate e | .isNull e _ | .paren e | .upper e | .lower e => columns sources e
  | .concat parts => columnsOf sources parts
  | .inList e items _ => columns sources e ++ columnsOf sources items
  | .select selector table a condition =>
    columns ([(a, table)] :: sources) selector ++ columns ([(a, table)] :: sources) condition

def columnsOf (sources : Sources) : List Sql → List NamedColumn
  | [] => []
  | e :: es => columns sources e ++ columnsOf sources es

end

mutual

/-- The aliases of the subqueries in a condition or a value. -/
def aliases : Sql → List String
  | .param _ | .column _ _ | .boolean _ | .string _ | .truth _ => []
  | .binary _ l r | .like l r => aliases l ++ aliases r
  | .not e | .negate e | .isNull e _ | .paren e | .upper e | .lower e => aliases e
  | .concat parts => aliasesOf parts
  | .inList e items _ => aliases e ++ aliasesOf items
  | .select selector _ a condition => a :: (aliases selector ++ aliases condition)

def aliasesOf : List Sql → List String
  | [] => []
  | e :: es => aliases e ++ aliasesOf es

end

theorem forall_mem_columnsOf_iff {sources : Sources} {P : NamedColumn → Prop} {es : List Sql} :
    (∀ c ∈ columnsOf sources es, P c) ↔ ∀ e ∈ es, ∀ c ∈ e.columns sources, P c := by
  induction es with
  | nil => simp [columnsOf]
  | cons e es ih => rw [columnsOf, List.forall_mem_append, ih, List.forall_mem_cons]

theorem forall_mem_aliasesOf_iff {P : String → Prop} {es : List Sql} :
    (∀ a ∈ aliasesOf es, P a) ↔ ∀ e ∈ es, ∀ a ∈ e.aliases, P a := by
  induction es with
  | nil => simp [aliasesOf]
  | cons e es ih => rw [aliasesOf, List.forall_mem_append, ih, List.forall_mem_cons]

end Sql

/-- The columns of a joined table and of the one before that are equated. -/
def InnerJoin.columns (sources : Sources) (j : InnerJoin) : List NamedColumn :=
  [⟨sources.table? j.tableAlias, j.column⟩, ⟨sources.table? j.other, j.otherColumn⟩]

/-- The tables of the `FROM` clause under their aliases. -/
def DocumentSource.clause (source : DocumentSource) : List (String × String) :=
  (Join.documentAlias, source.table) :: source.innerJoins.map fun j => (j.tableAlias, j.table)

/-- The columns that the joins equate. -/
def DocumentSource.columns (source : DocumentSource) : List NamedColumn :=
  source.innerJoins.flatMap (InnerJoin.columns [source.clause])

namespace Query

/-- The tables of the `FROM` clause of a query that has aliases. -/
def clause : Query → List (String × String)
  | .indexRows index table _ _ _ | .indexCount index table _ => [(index, table)]
  | .documents source _ _ | .documentCount source => source.clause
  | .documentById _ | .maxId _ => []

/-- The columns that are selected, looked up by or equated, besides those in
conditions and order terms. -/
def ownColumns : Query → List NamedColumn
  | .indexRows .. | .indexCount .. => []
  | .documentById table =>
    (Document.columnNames ++ [Column.idName]).map (NamedColumn.mk (some table))
  | .documents source _ _ =>
    Document.columnNames.map (NamedColumn.mk (Sources.table? [source.clause] Join.documentAlias)) ++
    source.columns
  | .documentCount source => ⟨Sources.table? [source.clause] Join.documentAlias, Column.idName⟩ ::
      source.columns
  | .maxId table => [⟨some table, Column.idName⟩]

def columns (q : Query) : List NamedColumn := q.ownColumns ++ Sql.columnsOf [q.clause] q.pieces

/-- Every table of the `FROM` clause has an alias of its own, and no subquery hides one. -/
structure Unhidden (q : Query) : Prop where
  unique : (q.clause.map Prod.fst).Nodup
  apart : ∀ a ∈ Sql.aliasesOf q.pieces, a ∉ q.clause.map Prod.fst

end Query

def Cells.columns (table : String) (cells : Cells) : List NamedColumn :=
  cells.map fun cell => ⟨some table, cell.1⟩

/-- The columns that are created, that refer or are referred to, or that are indexed. -/
def SchemaCommand.columns : SchemaCommand → List NamedColumn
  | .createTable table => table.columns.map (fun c => ⟨some table.name, c.name⟩) ++
    table.foreignKeys.flatMap fun key =>
      [⟨some table.name, key.column⟩, ⟨some key.table, key.references⟩]
  | .dropTable _ => []
  | .createIndex index => index.columns.map (NamedColumn.mk (some index.table))

namespace Statement

def columns : Statement → List NamedColumn
  | .insert table cells => cells.columns table
  | .insertReturning table cells => ⟨some table, Column.idName⟩ :: cells.columns table
  | .update table cells keys => cells.columns table ++ keys.columns table
  | .delete table keys => keys.columns table
  | .query q _ => q.columns
  | .schema command => command.columns

/-- If it is a query, its aliases are told apart. -/
def Unhidden (s : Statement) : Prop := ∀ q ps, s = .query q ps → q.Unhidden

end Statement

theorem Cells.forall_mem_columns_iff {table : String} {cells : Cells} {P : NamedColumn → Prop} :
    (∀ c ∈ cells.columns table, P c) ↔ ∀ name ∈ cells.map Prod.fst, P ⟨some table, name⟩ := by
  rw [Cells.columns, List.forall_mem_map, List.forall_mem_map]

/-! ## What compiles -/

namespace Sources

/-- Every binding has an alias that denotes the table of its index. The clauses are the outermost
one and those of subqueries, of which the aliases are numbered by the bindings around them. -/
structure Grounds (names : TableNames) (clause : List (String × String)) (sources : Sources)
    (bs : List Binding) : Prop where
  denotes : ∀ {index b}, (bs.find? fun b => b.index = index) = some b →
    sources.table? b.tableAlias = some (names.index index)
  clauses : ∀ c ∈ sources, c = clause ∨
    ∃ index n table, n < bs.length ∧ c = [(Compile.subqueryAlias index n, table)]

namespace Grounds

variable {names : TableNames} {clause : List (String × String)} {sources : Sources}
  {bs : List Binding} {index : String}

theorem fresh (h : Grounds names clause sources bs)
    (other : Compile.subqueryAlias index bs.length ∉ clause.map Prod.fst) :
    ∀ c ∈ sources, Compile.subqueryAlias index bs.length ∉ c.map Prod.fst := by
  intro c member
  obtain rfl | ⟨i, n, table, before, rfl⟩ := h.clauses c member
  · exact other
  · rw [List.map_singleton, List.mem_singleton]
    intro same
    have equal := Compile.eq_of_subqueryAlias_eq same
    omega

/-- A subquery adds a clause and a binding. -/
theorem push (h : Grounds names clause sources bs)
    (other : Compile.subqueryAlias index bs.length ∉ clause.map Prod.fst) :
    Grounds names clause ([(Compile.subqueryAlias index bs.length, names.index index)] :: sources)
      (⟨index, Compile.subqueryAlias index bs.length⟩ :: bs) where
  denotes := by
    intro i b found
    rw [List.find?_cons] at found
    by_cases here : index = i
    · simp only [here, decide_true] at found
      cases found
      rw [here]
      exact table?_self _ _ _
    · simp only [here, decide_false] at found
      exact table?_cons_fresh (h.fresh other) (h.denotes found)
  clauses := by
    refine List.forall_mem_cons.2 ⟨.inr ⟨index, bs.length, _, Nat.lt_succ_self _, rfl⟩,
      fun c member => ?_⟩
    obtain rfl | ⟨i, n, table, before, rfl⟩ := h.clauses c member
    · exact .inl rfl
    · exact .inr ⟨i, n, table, Nat.lt_succ_of_lt before, rfl⟩

/-- The clause of a query over one index. -/
theorem ofIndex (names : TableNames) (index : String) :
    Grounds names [(index, names.index index)] [[(index, names.index index)]] [⟨index, index⟩] where
  denotes := by
    intro i b found
    obtain rfl := List.mem_singleton.1 (List.mem_of_find?_eq_some found)
    have same := List.find?_some found
    obtain rfl := of_decide_eq_true same
    exact table?_self _ _ _
  clauses c member := .inl (List.mem_singleton.1 member)

/-- That of a query over documents, if every table has an alias of its own. -/
theorem ofJoins {source : DocumentSource} (unique : (source.clause.map Prod.fst).Nodup)
    (named : ∀ join ∈ source.joins, join.table = names.index join.index) :
    Grounds names source.clause [source.clause] (DocumentQuery.bindingsOf source.joins) where
  denotes := by
    intro index b found
    have same := List.find?_some found
    obtain ⟨join, hjoin, rfl⟩ :=
      DocumentQuery.mem_bindingsOf_iff.1 (List.mem_of_find?_eq_some found)
    obtain rfl := of_decide_eq_true same
    refine table?_of_mem unique (List.mem_cons_of_mem _ ?_) []
    rw [DocumentSource.innerJoins, List.map_flatMap]
    refine List.mem_flatMap.2 ⟨join, hjoin, ?_⟩
    rw [← named join hjoin, Join.innerJoins]
    cases join.bridge <;> simp
  clauses c member := .inl (List.mem_singleton.1 member)

end Grounds

end Sources

namespace Compile

variable {t : Target} {known : Member → Prop} {asked : String → Prop} {has : String → String → Prop}

/-- What is compiled under some bindings names columns that are there, unless a subquery in it hides
an alias of the outermost clause. -/
def Finds (names : TableNames) (has : String → String → Prop) (bs : List Binding)
    (e : Sql) : Prop :=
  ∀ ⦃clause sources⦄, Sources.Grounds names clause sources bs →
    (∀ a ∈ e.aliases, a ∉ clause.map Prod.fst) → ∀ c ∈ e.columns sources, c.In has

theorem finds_all {names : TableNames} {bs : List Binding} {es : List Sql}
    (h : ∀ e ∈ es, Finds names has bs e) {clause : List (String × String)} {sources : Sources}
    (grounds : Sources.Grounds names clause sources bs)
    (other : ∀ a ∈ Sql.aliasesOf es, a ∉ clause.map Prod.fst) :
    ∀ c ∈ Sql.columnsOf sources es, c.In has :=
  Sql.forall_mem_columnsOf_iff.2 fun e he =>
    h e he grounds (Sql.forall_mem_aliasesOf_iff.1 other e he)

/-- If the tables of indexes have the columns of known members, what is
compiled finds its columns. -/
theorem composes_finds
  (here : ∀ m, known m → m.isKnown = true → has (t.names.index m.index) m.column) :
    Composes t known asked (Finds t.names has) := by
  have none : ∀ c ∈ ([] : List NamedColumn), c.In has := fun _ member => by cases member
  have both {bs : List Binding} {l r : Sql} (hl : Finds t.names has bs l)
      (hr : Finds t.names has bs r) :
      ∀ ⦃clause sources⦄, Sources.Grounds t.names clause sources bs →
        (∀ a ∈ l.aliases ++ r.aliases, a ∉ clause.map Prod.fst) →
        ∀ c ∈ l.columns sources ++ r.columns sources, c.In has :=
    fun clause sources grounds other =>
      List.forall_mem_append.2 ⟨hl grounds (List.forall_mem_append.1 other).1,
        hr grounds (List.forall_mem_append.1 other).2⟩
  exact {
    param := fun _ _ _ _ _ _ => none
    boolean := fun _ _ _ _ _ _ => none
    string := fun _ _ _ _ _ _ => none
    truth := fun _ _ _ _ _ _ => none
    column := fun {bs m b} hm isKnown found clause sources grounds _ =>
      List.forall_mem_singleton.2 ⟨t.names.index m.index, grounds.denotes found, here m hm isKnown⟩
    binary := fun hl hr _ => both hl hr
    like := fun hl hr => both hl hr
    not := fun h => h
    negate := fun h => h
    isNull := fun h _ => h
    paren := fun h => h
    upper := fun h => h
    lower := fun h => h
    concat := fun h _ _ grounds other => finds_all h grounds other
    inList := fun h items _ _ _ grounds other =>
      List.forall_mem_append.2 ⟨h grounds (List.forall_mem_append.1 other).1,
        finds_all items grounds (List.forall_mem_append.1 other).2⟩
    select := by
      intro bs index selector condition _ hselector hcondition clause sources grounds other
      obtain ⟨apart, inside⟩ := List.forall_mem_cons.1 other
      exact both hselector hcondition (grounds.push apart) inside }

/-- Where no index may be asked, there are no subqueries. -/
theorem composes_flat : Composes t known (fun _ => False) fun _ e => e.aliases = [] := by
  have all {es : List Sql} (h : ∀ e ∈ es, e.aliases = []) : Sql.aliasesOf es = [] := by
    induction es with
    | nil => rfl
    | cons e es ih =>
      obtain ⟨first, rest⟩ := List.forall_mem_cons.1 h
      rw [Sql.aliasesOf, first, ih rest]
      rfl
  exact {
    param := fun _ _ => rfl
    boolean := fun _ _ => rfl
    string := fun _ _ => rfl
    truth := fun _ _ => rfl
    column := fun _ _ _ => rfl
    binary := fun hl hr _ => List.append_eq_nil_iff.2 ⟨hl, hr⟩
    like := fun hl hr => List.append_eq_nil_iff.2 ⟨hl, hr⟩
    not := fun h => h
    negate := fun h => h
    isNull := fun h _ => h
    paren := fun h => h
    upper := fun h => h
    lower := fun h => h
    concat := all
    inList := fun h items _ => List.append_eq_nil_iff.2 ⟨h, all items⟩
    select := fun impossible => impossible.elim }

end Compile

/-! ## What queries are made of -/

/-- The expressions of a query over an index are over some members and indexes. -/
structure IndexQuery.Over (known : Member → Prop) (asked : String → Prop)
    (q : IndexQuery) : Prop where
  filter : ∀ e, q.filter = some e → e.Over known asked
  order : ∀ term ∈ q.order, term.expr.Over known asked

structure CompiledQuery.Over (known : Member → Prop) (asked : String → Prop)
    (q : CompiledQuery) : Prop where
  condition : q.condition.Over known asked
  order : ∀ term ∈ q.order, term.expr.Over known asked

structure DocumentQuery.Over (known : Member → Prop) (asked : String → Prop)
    (q : DocumentQuery) : Prop where
  joins : ∀ j ∈ q.joins, j.2.Over known asked
  order : ∀ term ∈ q.order, term.expr.Over known asked

/-- Documents of a type, which is the first condition on them. -/
def DocumentSource.ofType (names : TableNames) (joins : List Join) (n : Nat)
    (conditions : List Sql) : DocumentSource :=
  ⟨names.document, joins, .binary .eq (.column Join.documentAlias Column.typeName) (.param n) ::
    conditions⟩

namespace Compile.Composes

variable {t : Target} {known : Member → Prop} {asked : String → Prop}
  {P : List Binding → Sql → Prop} {s : Statement}

theorem of_compileCondition (h : Composes t known asked P) {index : String} {e : Expr}
    (within : e.Over known asked) {compiled : CompiledCondition}
    (made : compileCondition t index e = .ok compiled) : P [⟨index, index⟩] compiled.condition := by
  unfold compileCondition at made
  dsimp only at made
  split at made
  · next sql c ran =>
    cases made
    obtain ⟨_, c₁, bound, gives⟩ := gives_bind_iff.1 ran
    obtain rfl := gives_bindIndex_iff.1 bound
    exact (h.makes_condition e within _ rfl gives).2
  · cases made

section Index

variable {settings : Settings} {q : IndexQuery} (h : Composes (q.target settings) known asked P)
  (within : q.Over known asked)
include h within

theorem of_filter {filter : Sql} {d : Compilation}
    (gives : Gives (q.condition (q.target settings)) .start filter d) :
    d.bindings = [q.binding] ∧ P [q.binding] filter := by
  obtain ⟨_, c₁, bound, gives⟩ := gives_bind_iff.1 gives
  obtain rfl := gives_bindIndex_iff.1 bound
  cases some : q.filter with
  | none =>
    rw [some] at gives
    obtain ⟨rfl, rfl⟩ := gives_pure_iff.1 gives
    exact ⟨rfl, h.truth _ _⟩
  | some e =>
    rw [some] at gives
    exact h.makes_condition e (within.filter e some) _ rfl gives

theorem of_statement (made : q.statement settings = .ok s) : ∃ filter order ps,
    s = .query (.indexRows q.index.name ((settings.names q.collection).index q.index.name) filter
        order (some q.paging)) ps ∧
      P [q.binding] filter ∧ ∀ o ∈ order, P [q.binding] o.term := by
  obtain ⟨query, c, gives, rfl⟩ := toStatement_eq_ok_iff.1 made
  obtain ⟨filter, c₁, filtered, gives⟩ := gives_bind_iff.1 gives
  obtain ⟨order, c₂, ordered, gives⟩ := gives_bind_iff.1 gives
  obtain ⟨rfl, rfl⟩ := gives_pure_iff.1 gives
  obtain ⟨bound, hfilter⟩ := h.of_filter within filtered
  exact ⟨filter, order, _, rfl, hfilter, (h.makes_order within.order bound ordered).2⟩

theorem of_countStatement (made : q.countStatement settings = .ok s) : ∃ filter ps,
    s = .query (.indexCount q.index.name ((settings.names q.collection).index q.index.name) filter)
      ps ∧ P [q.binding] filter := by
  obtain ⟨query, c, gives, rfl⟩ := toStatement_eq_ok_iff.1 made
  obtain ⟨filter, c₁, filtered, gives⟩ := gives_bind_iff.1 gives
  obtain ⟨rfl, rfl⟩ := gives_pure_iff.1 gives
  exact ⟨filter, _, rfl, (h.of_filter within filtered).2⟩

end Index

theorem of_compile {dialect : Dialect} {names : TableNames} {args : Arguments}
    (h : Composes ⟨dialect, names, some args⟩ known asked P) {q : CompiledQuery}
    (within : q.Over known asked) {sql : CompiledSql}
    (made : q.compile dialect names args = .ok sql) :
    ∃ filter order,
      sql.query = .indexRows q.index.name (names.index q.index.name) filter order (some q.paging) ∧
      P [⟨q.index.name, q.index.name⟩] filter ∧
        ∀ o ∈ order, P [⟨q.index.name, q.index.name⟩] o.term := by
  obtain ⟨filter, order, c, d, hfilter, horder, rfl⟩ := CompiledQuery.gives_of_compile made
  obtain ⟨bound, hmade⟩ := h.makes_condition q.condition within.condition _ rfl hfilter
  exact ⟨filter, order, rfl, hmade, (h.makes_order within.order bound horder).2⟩

section Documents

variable {settings : Settings} {q : DocumentQuery} {joins : List Join}
  (h : Composes (q.target settings) known asked P) (within : q.Over known asked)
include h within

/-- The other conditions are made of those on indexes. -/
theorem of_source {source : DocumentSource} {d : Compilation}
    (gives : Gives (q.source (q.target settings) joins) .start source d) :
    d.bindings = DocumentQuery.bindingsOf joins ∧
    ∃ n conditions, source = .ofType (settings.names q.collection) joins n conditions ∧
      ∀ e ∈ conditions, P (DocumentQuery.bindingsOf joins) e := by
  obtain ⟨_, c₁, bound, gives⟩ := gives_bind_iff.1 gives
  obtain rfl := DocumentQuery.gives_bindJoins_iff.1 bound
  obtain ⟨entity, c₂, typed, gives⟩ := gives_bind_iff.1 gives
  obtain ⟨conditions, c₃, listed, gives⟩ := gives_bind_iff.1 gives
  obtain ⟨rfl, rfl⟩ := gives_pure_iff.1 gives
  obtain ⟨rfl, rfl⟩ := gives_bindValue_iff.1 typed
  obtain ⟨bound, made⟩ := h.makes_joinConditions within.joins (List.append_nil _) listed
  exact ⟨bound, _, conditions, rfl, made⟩

end Documents

end Compile.Composes

end DocStore

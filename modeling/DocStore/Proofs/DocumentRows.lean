import DocStore.Proofs.AskedConditions
import DocStore.Proofs.DocumentTexts
import DocStore.Proofs.Events

/-!
# Each document once

A query over documents is sent as three statements: one that lists them, one that
lists them in an order, and one that counts them. All three join the indexes and
keep the scopes in which every condition is true. A document may stand in many of
these, as often as it has rows that meet the conditions together; the first
statement drops what shows the same columns again, the second groups by them, and
the third counts ids. With distinct ids these are the same: the documents of the
entity type for which some choice of one linked row of every index meets all
conditions. A statement needs an alias of its own for every table, and the aliases
are made from the names of the indexes: an index that is called as the alias of the
documents or of another index's bridge leaves all three without a meaning.
-/

set_option autoImplicit false

namespace DocStore

/-- The columns of a document as a statement shows them. -/
def Row.asDocument (row : Row) : Row := ⟨Document.columnNames.map fun name => (name, row.cell name)⟩

/-! ## Documents with distinct ids -/

/-- Documents have ids, no two of them the same. -/
structure UniqueIds (rows : List Row) : Prop where
  integer : ∀ row ∈ rows, ∃ id, row.cell Column.idName = .int id
  distinct : (rows.map fun row => row.cell Column.idName).Nodup

section Distinct

variable {rows documents : List Row} {scopes : List Scope}

theorem UniqueIds.sublist (unique : UniqueIds rows) (sub : documents.Sublist rows) :
    UniqueIds documents where
  integer row member := unique.integer row (sub.mem member)
  distinct := unique.distinct.sublist (sub.map _)

/-- Documents that differ in their ids differ in what is shown of them. -/
theorem UniqueIds.nodup_asDocument (unique : UniqueIds rows) : (rows.map Row.asDocument).Nodup := by
  refine List.Nodup.of_map (fun row => row.cell Column.idName) ?_
  rw [List.map_map]
  exact unique.distinct

/-- The documents are those that stand in the scopes. -/
def Covers (documents : List Row) (scopes : List Scope) : Prop :=
  ∀ document, document ∈ documents ↔ ∃ s ∈ scopes, s Join.documentAlias = document

end Distinct

/-! ## Documents in scopes -/

section Documents

variable {b : Backend} {documents : List Row} {scopes : List Scope}

theorem shown_columnRefs (s : Scope) :
    s.shown Document.columnRefs = (s Join.documentAlias).asDocument := rfl

/-- Documents are the same to `DISTINCT` and to `GROUP BY` if they show the same. -/
theorem Covers.sameIn_iff (covers : Covers documents scopes) (unique : UniqueIds documents)
    {s s' : Scope} (member : s ∈ scopes) (member' : s' ∈ scopes) :
    s.SameIn b Document.columnRefs s' ↔
    s.shown Document.columnRefs = s'.shown Document.columnRefs := by
  constructor
  · intro same
    have stored := (covers _).2 ⟨s, member, rfl⟩
    have stored' := (covers _).2 ⟨s', member', rfl⟩
    obtain ⟨i, hi⟩ := unique.integer _ stored
    obtain ⟨j, hj⟩ := unique.integer _ stored'
    have ids : b.Same ((s Join.documentAlias).cell Column.idName)
        ((s' Join.documentAlias).cell Column.idName) :=
      same ⟨Join.documentAlias, Column.idName⟩ (by decide)
    rw [hi, hj, Backend.same_int_iff, ← hi, ← hj] at ids
    rw [shown_columnRefs, shown_columnRefs,
      List.inj_on_of_nodup_map unique.distinct stored stored' ids]
  · exact fun equal c listed => .inl (Scope.shown_eq_iff.1 equal c listed)

/-- One scope of all that show the same document: the documents in any order. -/
theorem Covers.exists_shown_iff (covers : Covers documents scopes) (unique : UniqueIds documents)
    (rows : List Row) : (∃ listed, Represents (Scope.SameIn b Document.columnRefs) scopes listed ∧
      rows.Perm (listed.map (Scope.shown Document.columnRefs))) ↔
      rows.Perm (documents.map Row.asDocument) := by
  have same_iff : ∀ s ∈ scopes, ∀ s' ∈ scopes, s.SameIn b Document.columnRefs s' ↔
      s.shown Document.columnRefs = s'.shown Document.columnRefs :=
    fun _ member _ member' => covers.sameIn_iff unique member member'
  have images : ∀ row, row ∈ documents.map Row.asDocument ↔
      ∃ s ∈ scopes, s.shown Document.columnRefs = row := by
    intro row
    rw [List.mem_map]
    constructor
    · rintro ⟨document, stored, rfl⟩
      obtain ⟨s, member, rfl⟩ := (covers _).1 stored
      exact ⟨s, member, rfl⟩
    · rintro ⟨s, member, rfl⟩
      exact ⟨_, (covers _).2 ⟨s, member, rfl⟩, rfl⟩
  constructor
  · rintro ⟨listed, represents, arranged⟩
    exact arranged.trans (represents.perm_map same_iff unique.nodup_asDocument images)
  · intro arranged
    obtain ⟨listed, represents, equal⟩ := exists_represents same_iff unique.nodup_asDocument images
    exact ⟨listed, represents, equal ▸ arranged⟩

/-- The ids of the documents in scopes, without nulls. -/
def idsOf (scopes : List Scope) : List Value :=
  (scopes.map fun s => s.value ⟨Join.documentAlias, Column.idName⟩).filter fun id => !id.isNull

theorem Covers.mem_idsOf_iff (covers : Covers documents scopes) (unique : UniqueIds documents)
    {id : Value} : id ∈ idsOf scopes ↔ id ∈ documents.map fun row => row.cell Column.idName := by
  rw [idsOf, List.mem_filter, List.mem_map, List.mem_map]
  constructor
  · rintro ⟨⟨s, member, rfl⟩, _⟩
    exact ⟨_, (covers _).2 ⟨s, member, rfl⟩, rfl⟩
  · rintro ⟨document, stored, rfl⟩
    obtain ⟨_, integer⟩ := unique.integer document stored
    obtain ⟨s, member, rfl⟩ := (covers _).1 stored
    refine ⟨⟨s, member, rfl⟩, ?_⟩
    rw [integer]
    rfl

/-- One id of all that are the same: as many as there are documents. -/
theorem Covers.exists_counted_iff (covers : Covers documents scopes)
    (unique : UniqueIds documents) (n : Nat) :
    (∃ ids : List Value, Represents b.Same (idsOf scopes) ids ∧ n = ids.length) ↔
    n = documents.length := by
  have integer : ∀ id ∈ idsOf scopes, ∃ i, id = .int i := by
    intro id member
    obtain ⟨document, stored, rfl⟩ := List.mem_map.1 ((covers.mem_idsOf_iff unique).1 member)
    exact unique.integer document stored
  have same_iff : ∀ v ∈ idsOf scopes, ∀ w ∈ idsOf scopes, b.Same v w ↔ v = w := by
    intro v hv w hw
    obtain ⟨i, rfl⟩ := integer v hv
    obtain ⟨j, rfl⟩ := integer w hw
    exact Backend.same_int_iff
  have images : ∀ id, id ∈ documents.map (fun row => row.cell Column.idName) ↔
      ∃ v ∈ idsOf scopes, v = id := by
    intro id
    rw [exists_eq_right, covers.mem_idsOf_iff unique]
  constructor
  · rintro ⟨ids, represents, rfl⟩
    have perm := represents.perm_map same_iff unique.distinct images
    rw [List.map_id'] at perm
    rw [perm.length_eq, List.length_map]
  · rintro rfl
    obtain ⟨ids, represents, equal⟩ := exists_represents same_iff unique.distinct images
    rw [List.map_id'] at equal
    exact ⟨ids, represents, by rw [equal, List.length_map]⟩

end Documents

/-! ## The answers to a statement -/

namespace Statement

variable (b : Backend) (d : Dialect) (s : Statement)

/-- The rows that answer the text of a statement in a dialect. -/
def Answers (rows : List Row) : Prop := (s.bound d).Answers b rows

/-- The count that answers the text of a statement in a dialect. -/
def Counts (n : Nat) : Prop := (s.bound d).Counts b n

variable {b d} {q : Query} {ps : Parameters} {t : SelectTree}
  (reads : SqlReader.statement (q.text d) = some t)
include reads

theorem answers_query_iff {rows : List Row} :
    (query q ps).Answers b d rows ↔ t.Answers b ps.given rows := by
  have read : SqlReader.statement ((query q ps).bound d).sql = some t := reads
  exact BoundSql.answers_iff read

theorem counts_query_iff {n : Nat} : (query q ps).Counts b d n ↔ t.Counts b ps.given n := by
  have read : SqlReader.statement ((query q ps).bound d).sql = some t := reads
  exact BoundSql.counts_iff read

end Statement

section Answers

variable {b : Backend} {d : Dialect} (dialect : d = .standard ∨ d = .sqlite) {ps : Parameters}
  {source : DocumentSource} {es : List (SqlTree String)}
  (phrases : List.Forall₂ Sql.IsPhrase source.conditions es) (nonempty : source.conditions ≠ [])
include dialect phrases nonempty

/-- With an order or without, a statement over documents shows one scope of all that
show the same document. -/
theorem answers_documents_iff {order : List SqlOrder} {terms : List (SqlTree String)}
    (ordered : List.Forall₂ Sql.IsPhrase (order.map SqlOrder.term) terms) {paging : Paging}
    (unpaged : paging = ⟨none, none⟩) (rows : List Row) :
    (Statement.query (.documents source order paging) ps).Answers b d rows ↔ source.aliases.Nodup ∧
      ∃ listed, Represents (Scope.SameIn b Document.columnRefs)
          ((source.tree (.conjunction es)).kept b ps.given) listed ∧
        rows.Perm (listed.map (Scope.shown Document.columnRefs)) := by
  subst unpaged
  rw [← source.aliases_tree (.conjunction es)]
  cases order with
  | nil =>
    have reads := Query.statement_distinct dialect phrases nonempty
    exact (Statement.answers_query_iff reads).trans SelectTree.answers_distinct_iff
  | cons o order =>
    obtain ⟨os, reads, single⟩ := Query.statement_grouped dialect phrases nonempty ordered
    exact (Statement.answers_query_iff reads).trans (SelectTree.answers_grouped_iff (single _))

theorem counts_documentCount_iff (n : Nat) :
    (Statement.query (.documentCount source) ps).Counts b d n ↔
    source.aliases.Nodup ∧ ∃ ids : List Value,
      Represents b.Same (idsOf ((source.tree (.conjunction es)).kept b ps.given)) ids ∧
      n = ids.length := by
  rw [← source.aliases_tree (.conjunction es)]
  have reads := Query.statement_count dialect phrases nonempty
  exact (Statement.counts_query_iff reads).trans (and_congr_right fun _ => and_iff_right rfl)

end Answers

namespace DocumentQuery

/-! ## The documents of a query -/

/-- A document of the entity type, for which some choice of one linked row of every joined index
meets all conditions. -/
def Selects (b : Backend) (t : Target) (entity : EntityType) (joins : List Join)
    (conditions : List Expr) (document : Row) : Prop :=
  document ∈ b.tables t.names.document ∧ IsTyped b entity document ∧
    ∃ choice : Scope, (∀ join ∈ joins, join.Links b document (choice join.index)) ∧
      Meets b t joins conditions choice

section Source

variable {b : Backend} {t : Target} {q : DocumentQuery} {joins : List Join}
  {source : DocumentSource} {c : Compilation}

/-- The scopes that a source keeps are those of the documents it selects,
whatever is bound after it. -/
theorem Describes.covers (describes : Describes t q joins source c)
    (dialect : t.dialect = .standard ∨ t.dialect = .sqlite)
    (distinct : (Join.tableAliases joins).Nodup) {documents : List Row}
    (selected : ∀ document, document ∈ documents ↔
      Selects b t q.entity joins (q.joins.map Prod.snd) document) {slots : List Slot}
    {e : Compilation} (later : c.Binds t slots e) :
    Covers documents ((source.tree (conditionTree t q joins)).kept b e.parameters.given) := by
  obtain rfl := describes.joined
  have holds := describes.truth?_conditionTree dialect later b
  intro document
  rw [selected, Selects, ← and_left_comm, ← describes.table,
    ← DocumentSource.exists_joined_iff distinct fun _ _ agree => describes.meets_congr agree]
  simp only [SourceTree.kept, List.mem_filter, decide_eq_true_eq]
  constructor
  · rintro ⟨typed, s, member, rfl, meets⟩
    exact ⟨s, ⟨member, (holds s).2 ⟨typed, meets⟩⟩, rfl⟩
  · rintro ⟨s, ⟨member, true⟩, rfl⟩
    obtain ⟨typed, meets⟩ := (holds s).1 true
    exact ⟨typed, s, member, rfl, meets⟩

section Selected

variable (describes : Describes t q joins source c)
  (dialect : t.dialect = .standard ∨ t.dialect = .sqlite) {documents : List Row}
  (unique : UniqueIds documents) (selected : ∀ document, document ∈ documents ↔
    Selects b t q.entity joins (q.joins.map Prod.snd) document)
include describes dialect unique selected

/-- With an order or without, the selected documents are listed once each, if no two
tables have the same alias. -/
theorem Describes.answers_iff {terms : List OrderTerm} {order : List SqlOrder} {e : Compilation}
    (ordered : Compile.Gives (Compile.order t terms) c order e) {paging : Paging}
    (unpaged : paging = ⟨none, none⟩) (rows : List Row) :
    (Statement.query (.documents source order paging) e.parameters).Answers b t.dialect rows ↔
      (Join.tableAliases joins).Nodup ∧ rows.Perm (documents.map Row.asDocument) := by
  obtain ⟨later, sorts⟩ := Compile.renders_order _ ordered
  have aliases : source.aliases = Join.tableAliases joins :=
    congrArg Join.tableAliases describes.joined
  rw [answers_documents_iff dialect describes.phrases describes.conditions_ne_nil sorts unpaged,
    aliases]
  exact and_congr_right fun distinct =>
    (describes.covers dialect distinct selected later).exists_shown_iff unique rows

/-- They are counted once each. -/
theorem Describes.counts_iff (n : Nat) :
    (Statement.query (.documentCount source) c.parameters).Counts b t.dialect n ↔
    (Join.tableAliases joins).Nodup ∧ n = documents.length := by
  have aliases : source.aliases = Join.tableAliases joins :=
    congrArg Join.tableAliases describes.joined
  rw [counts_documentCount_iff dialect describes.phrases describes.conditions_ne_nil, aliases]
  exact and_congr_right fun distinct =>
    (describes.covers dialect distinct selected (.nothing t c)).exists_counted_iff unique n

end Selected

end Source

section Statements

variable {settings : Settings} {q : DocumentQuery} {joins : List Join} {s : Statement}

end Statements

/-! ## How the indexes are joined -/

/-- How the indexes of a query are joined if they are of these kinds. -/
def joinsOf (q : DocumentQuery) (settings : Settings) (kinds : String → IndexKind) : List Join :=
  q.joins.map fun j => joinOf (settings.names q.collection) j.1 (kinds j.1)

theorem ensures_lookupJoins_kinds (entity collection : String) (names : TableNames)
    {indexes : List String} (distinct : indexes.Nodup) :
    (lookupJoins entity collection names indexes).Ensures (fun _ => True) fun joins =>
      ∃ kinds : String → IndexKind,
        joins = indexes.map fun index => joinOf names index (kinds index) := by
  induction indexes with
  | nil => exact Action.ensures_pure ⟨fun _ => .map, rfl⟩
  | cons index indexes ih =>
    obtain ⟨fresh, rest⟩ := List.nodup_cons.1 distinct
    refine Action.Asks.bind_ensures (Program.asks_request trivial) fun ds => ?_
    split
    · exact Action.ensures_throw _
    · next d _ =>
      refine (ih rest).bind fun joins ⟨kinds, same⟩ =>
        Action.ensures_pure ⟨Function.update kinds index d.kind, ?_⟩
      rw [List.map_cons, Function.update_self, same]
      refine congrArg _ (List.map_congr_left fun other member => ?_)
      rw [Function.update_of_ne (ne_of_mem_of_not_mem member fresh)]

/-- Whatever is answered about the indexes, each of them is joined as of some kind. -/
theorem ensures_requestJoins_asking (settings : Settings) (entity : EntityType)
    (collection : String) (asks : List (IndexType × Expr)) :
    ((asking entity collection asks).requestJoins settings).Ensures (fun _ => True) fun joins =>
      ∃ kinds, joins = (asking entity collection asks).joinsOf settings kinds := by
  refine Program.Ensures.mono (ensures_lookupJoins_kinds _ _ _ nodup_asking)
    fun result found joins same => ?_
  obtain ⟨kinds, rfl⟩ := found joins same
  exact ⟨kinds, List.map_map⟩

/-! ## The three statements -/

end DocumentQuery

/-! ## Two titles of one article -/

namespace Titled

def settings : Settings := ⟨.default, .sqlite, .json⟩

def articles : EntityType := ⟨"Article", some, fun _ => 0, fun _ json => json⟩

def byTitle : IndexType := ⟨"ByTitle", [⟨"title", .text, true⟩], some⟩

def byDay : IndexType := ⟨"ByDay", [⟨"day", .integer, false⟩, ⟨"count", .integer, false⟩], some⟩

def kinds (index : String) : IndexKind := if index = "ByDay" then .reduce else .map

def article (id : Int64) : Row :=
  ⟨[("Id", .int id), ("Type", .text "Article"), ("Content", .text ""), ("Version", .int 1)]⟩

def title (id document : Int64) (t : String) : Row :=
  ⟨[("Id", .int id), ("DocumentId", .int document), ("title", .text t)]⟩

def titles : List Row := [title 1 1 "b", title 2 1 "c"]

def day : Row := ⟨[("Id", .int 5), ("day", .int 7), ("count", .int 2)]⟩

def link (document : Int64) : Row := ⟨[("DocumentId", .int document), ("ByDayId", .int 5)]⟩

/-- Two articles of one day, of which only the first has titles, and two of them. -/
def backend : Backend := .plain fun table =>
  if table = "Document" then [article 1, article 2]
  else if table = "ByTitle" then titles
  else if table = "ByDay" then [day]
  else if table = "ByDay_Document" then [link 1, link 2]
  else []

/-- Titles other than `a`, on days with more than one article. -/
def asks : List (IndexType × Expr) :=
  [(byTitle, .binary .ne (byTitle.field "title") (.const (.text "a"))),
    (byDay, .binary .gt (byDay.field "count") (.const (.int 1)))]

end Titled

namespace DocumentQuery

end DocumentQuery

/-! ## An index with the alias of the documents -/

namespace Titled

end Titled

namespace DocumentQuery

end DocumentQuery

end DocStore

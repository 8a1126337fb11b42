import DocStore.Proofs.Counting
import DocStore.Proofs.NamedColumns
import DocStore.Proofs.SentStatements

/-!
# Tables that statements rely on

The tables of a collection are created in one place, and named in several others:
by the commands of a flush, by look-ups and queries, and by conditions, for which
every index has the columns `Id` and `DocumentId` besides those that it declares.
All of these agree on the tables and on their columns but for one: the rows of a
reduce index have no column `DocumentId`, since the bridge links them to documents.
-/

set_option autoImplicit false

namespace DocStore

/-! ## What is created -/

namespace Catalog

variable {catalog : Catalog} {names : TableNames} {index : IndexType} {kind : IndexKind}
  {column : String}

/-- An index is registered in a collection as one of a kind. -/
def Registers (catalog : Catalog) (names : TableNames) (index : IndexType)
    (kind : IndexKind) : Prop :=
  ∃ entity, ∃ d ∈ catalog.descriptors names entity, d.index = index ∧ d.kind = kind

/-- The plans that create the tables of a collection: that of the documents,
and one for every index. -/
inductive Plans (catalog : Catalog) (names : TableNames) : SchemaPlan → Prop where
  | documents : Plans catalog names (SchemaPlan.start names).createDocumentTable
  | map {index : IndexType} : catalog.Registers names index .map →
      Plans catalog names ((SchemaPlan.start names).createMapTable index)
  | reduce {index : IndexType} : catalog.Registers names index .reduce →
    Plans catalog names ((SchemaPlan.start names).createReduceTable index)

def Creates (catalog : Catalog) (names : TableNames) (t : TableDef) : Prop :=
  ∃ plan, catalog.Plans names plan ∧ .createTable t ∈ plan.commands

def HasTable (catalog : Catalog) (names : TableNames) (table : String) : Prop :=
  ∃ t, catalog.Creates names t ∧ t.name = table

def HasColumn (catalog : Catalog) (names : TableNames) (table column : String) : Prop :=
  ∃ t, catalog.Creates names t ∧ t.name = table ∧ column ∈ t.columns.map ColumnDef.name

theorem HasColumn.hasTable {table : String} (h : catalog.HasColumn names table column) :
    catalog.HasTable names table :=
  let ⟨t, creates, same, _⟩ := h
  ⟨t, creates, same⟩

theorem creates_documents : catalog.Creates names (SchemaPlan.documentTable names) :=
  ⟨_, .documents, List.mem_cons_self⟩

theorem creates_map (h : catalog.Registers names index .map) :
    catalog.Creates names (SchemaPlan.mapTable names index) :=
  ⟨_, .map h, List.mem_cons_self⟩

theorem creates_reduce (h : catalog.Registers names index .reduce) :
    catalog.Creates names (SchemaPlan.reduceTable names index) :=
  ⟨_, .reduce h, List.mem_cons_self⟩

theorem creates_bridge (h : catalog.Registers names index .reduce) :
    catalog.Creates names (SchemaPlan.bridgeTable names index) :=
  ⟨_, .reduce h, List.mem_cons_of_mem _ List.mem_cons_self⟩

/-- The documents have the columns of a document. -/
theorem hasColumn_document (h : column ∈ Document.columnNames) :
    catalog.HasColumn names names.document column :=
  ⟨_, creates_documents, rfl, h⟩

theorem hasTable_document : catalog.HasTable names names.document := ⟨_, creates_documents, rfl⟩

theorem hasTable_rows (h : catalog.Registers names index kind) :
    catalog.HasTable names (names.index index.name) := by
  cases kind with
  | map => exact ⟨_, creates_map h, rfl⟩
  | reduce => exact ⟨_, creates_reduce h, rfl⟩

theorem map_name_ofColumn (columns : List Column) :
    (columns.map ColumnDef.ofColumn).map ColumnDef.name = columns.map Column.name := by
  rw [List.map_map]
  rfl

/-- The rows of every index have an id and the columns declared. -/
theorem hasColumn_rows (h : catalog.Registers names index kind)
    (hc : column = Column.idName ∨ column ∈ index.columns.map Column.name) :
    catalog.HasColumn names (names.index index.name) column := by
  cases kind with
  | map =>
    refine ⟨_, creates_map h, rfl, ?_⟩
    rw [SchemaPlan.mapTable, List.map_cons, List.map_cons, map_name_ofColumn]
    exact List.mem_cons.2 (hc.imp_right (List.mem_cons_of_mem _))
  | reduce =>
    refine ⟨_, creates_reduce h, rfl, ?_⟩
    rw [SchemaPlan.reduceTable, List.map_cons, map_name_ofColumn]
    exact List.mem_cons.2 hc

/-- Those of a map index have a document. -/
theorem hasColumn_documentId (h : catalog.Registers names index .map) :
    catalog.HasColumn names (names.index index.name) Column.documentIdName :=
  ⟨_, creates_map h, rfl, List.mem_cons_of_mem _ List.mem_cons_self⟩

/-- The bridge of a reduce index has an aggregate row and a document. -/
theorem hasColumn_bridge (h : catalog.Registers names index .reduce)
    (hc : column ∈ [TableNames.bridgeColumn index.name, Column.documentIdName]) :
    catalog.HasColumn names (names.bridge index.name) column := ⟨_, creates_bridge h, rfl, hc⟩

/-! ## What is taken to be there -/

/-- The rows of a reduce index that does not declare it have no `DocumentId`. -/
def Lacks (catalog : Catalog) (names : TableNames) (table column : String) : Prop :=
  column = Column.documentIdName ∧ ∃ index, catalog.Registers names index .reduce ∧
  table = names.index index.name ∧ column ∉ index.columns.map Column.name

/-- The columns that conditions are compiled for. -/
def Presumes (catalog : Catalog) (names : TableNames) (table column : String) : Prop :=
  catalog.HasColumn names table column ∨ catalog.Lacks names table column

/-- A member of a registered index. -/
def Knows (catalog : Catalog) (names : TableNames) (m : Member) : Prop :=
  ∃ index kind, catalog.Registers names index kind ∧
    m.index = index.name ∧ m.columns = index.columns

def Asks (catalog : Catalog) (names : TableNames) (i : String) : Prop :=
  ∃ index kind, catalog.Registers names index kind ∧ index.name = i

/-- A known member of a registered index is a column that is created, or the one
that reduce indexes lack. -/
theorem Knows.presumes {m : Member} (h : catalog.Knows names m) (isKnown : m.isKnown = true) :
    catalog.Presumes names (names.index m.index) m.column := by
  obtain ⟨index, kind, registers, named, columns⟩ := h
  rw [Member.isKnown, Bool.or_eq_true, Bool.or_eq_true, decide_eq_true_iff, decide_eq_true_iff,
    List.any_eq_true, columns] at isKnown
  rw [named]
  have declared (h : m.column ∈ index.columns.map Column.name) :
      catalog.Presumes names (names.index index.name) m.column :=
    .inl (hasColumn_rows registers (.inr h))
  rcases isKnown with (id | document) | ⟨c, hc, same⟩
  · exact .inl (hasColumn_rows registers (.inl id))
  · cases kind with
    | map => exact .inl (document ▸ hasColumn_documentId registers)
    | reduce =>
      by_cases there : m.column ∈ index.columns.map Column.name
      · exact declared there
      · exact .inr ⟨document, index, registers, rfl, there⟩
  · exact declared (List.mem_map.2 ⟨c, hc, of_decide_eq_true same⟩)

theorem Asks.hasTable {i : String} (h : catalog.Asks names i) :
    catalog.HasTable names (names.index i) := by
  obtain ⟨index, kind, registers, rfl⟩ := h
  exact hasTable_rows registers

end Catalog

/-- Every table that a statement names is created, and every column that it
names is one of its table. -/
structure Statement.Fits (catalog : Catalog) (names : TableNames) (has : String → String → Prop)
    (s : Statement) : Prop where
  tables : ∀ table ∈ s.tables, catalog.HasTable names table
  columns : ∀ c ∈ s.columns, c.In has

/-! ## Schemas -/

section Schemas

open Catalog

variable {catalog : Catalog} {names : TableNames}

/-- A table is created with the columns that refer, and after those that are referred to. -/
theorem Catalog.Creates.fits {t : TableDef} (h : catalog.Creates names t)
    (refers : ∀ key ∈ t.foreignKeys, key.column ∈ t.columns.map ColumnDef.name ∧
      catalog.HasColumn names key.table key.references) :
    (Statement.schema (.createTable t)).Fits catalog names (catalog.HasColumn names) where
  tables := List.forall_mem_cons.2 ⟨⟨t, h, rfl⟩,
    List.forall_mem_map.2 fun key hkey => (refers key hkey).2.hasTable⟩
  columns := by
    refine List.forall_mem_append.2 ⟨List.forall_mem_map.2 fun c hc => ?_, fun c hc => ?_⟩
    · exact ⟨t.name, rfl, t, h, rfl, List.mem_map_of_mem hc⟩
    · obtain ⟨key, hkey, hc⟩ := List.mem_flatMap.1 hc
      obtain ⟨own, other⟩ := refers key hkey
      rcases List.mem_pair.1 hc with rfl | rfl
      · exact ⟨t.name, rfl, t, h, rfl, own⟩
      · exact ⟨key.table, rfl, other⟩

theorem Statement.fits_createIndex {index : TableIndex} (table : catalog.HasTable names index.table)
    (columns : ∀ c ∈ index.columns, catalog.HasColumn names index.table c) :
    (Statement.schema (.createIndex index)).Fits catalog names (catalog.HasColumn names) where
  tables := List.forall_mem_singleton.2 table
  columns := List.forall_mem_map.2 fun c hc => ⟨index.table, rfl, columns c hc⟩

/-- What a plan refers to and indexes is created by the plans of the collection. -/
theorem Catalog.Plans.fits {plan : SchemaPlan} (h : catalog.Plans names plan) :
    ∀ command ∈ plan.commands, (Statement.schema command).Fits catalog names
      (catalog.HasColumn names) := by
  have document : catalog.HasColumn names names.document Column.idName :=
    hasColumn_document (by decide)
  cases h with
  | documents =>
    have typed : catalog.HasColumn names names.document Column.typeName :=
      hasColumn_document (by decide)
    refine List.forall_mem_cons.2 ⟨creates_documents.fits fun _ h => (by cases h),
      List.forall_mem_singleton.2 ?_⟩
    exact Statement.fits_createIndex typed.hasTable (List.forall_mem_singleton.2 typed)
  | map registers =>
    have column := hasColumn_documentId registers
    refine List.forall_mem_cons.2 ⟨(creates_map registers).fits (List.forall_mem_singleton.2 ?_),
      List.forall_mem_singleton.2 ?_⟩
    · exact ⟨List.mem_cons_of_mem _ List.mem_cons_self, document⟩
    · exact Statement.fits_createIndex column.hasTable (List.forall_mem_singleton.2 column)
  | @reduce index registers =>
    have rows : catalog.HasColumn names (names.index index.name) Column.idName :=
      hasColumn_rows registers (.inl rfl)
    have row := hasColumn_bridge registers List.mem_cons_self
    have linked := hasColumn_bridge registers (List.mem_cons_of_mem _ (List.mem_singleton_self _))
    refine List.forall_mem_cons.2 ⟨(creates_reduce registers).fits fun _ h => (by cases h), ?_⟩
    refine List.forall_mem_cons.2 ⟨(creates_bridge registers).fits ?_,
      List.forall_mem_singleton.2 ?_⟩
    · exact List.forall_mem_cons.2 ⟨⟨List.mem_cons_self, rows⟩,
        List.forall_mem_singleton.2 ⟨List.mem_cons_of_mem _ (List.mem_singleton_self _), document⟩⟩
    · exact Statement.fits_createIndex row.hasTable
        (List.forall_mem_cons.2 ⟨row, List.forall_mem_singleton.2 linked⟩)

end Schemas

/-! ## Commands -/

/-- A change of a table that is there. -/
theorem Statement.fits_change {catalog : Catalog} {names : TableNames}
    {has : String → String → Prop} {s : Statement} {table : String}
    (changes : s.table? = some table) (there : catalog.HasTable names table)
    (columns : ∀ c ∈ s.columns, c.In has) : s.Fits catalog names has where
  tables := by
    rw [tables_of_table? changes]
    exact List.forall_mem_singleton.2 there
  columns := columns

theorem Cells.in_of_forall {has : String → String → Prop} {table : String} {cells : Cells}
    (h : ∀ name ∈ cells.map Prod.fst, has table name) : ∀ c ∈ cells.columns table, c.In has :=
  Cells.forall_mem_columns_iff.2 fun name member => ⟨table, rfl, h name member⟩

namespace Command

open Catalog

variable {catalog : Catalog}

/-- A command on rows is about an index that is registered, and writes the columns
that the index declares. -/
def Registered (catalog : Catalog) : Command → Prop
  | .createDocument .. | .updateDocument .. | .deleteDocument .. => True
  | .createMapRow names i _ cells =>
    ∃ index, catalog.Registers names index .map ∧
      index.name = i ∧ cells.map Prod.fst = index.columns.map Column.name
  | .deleteMapRows names i _ => ∃ index, catalog.Registers names index .map ∧ index.name = i
  | .createReduceRow names i cells _ | .updateReduceRow names i _ cells _ _ =>
    ∃ index, catalog.Registers names index .reduce ∧
      index.name = i ∧ cells.map Prod.fst = index.columns.map Column.name
  | .deleteReduceRow names i _ => ∃ index, catalog.Registers names index .reduce ∧ index.name = i

section Links

variable {names : TableNames} {index : IndexType} (h : catalog.Registers names index .reduce)
  (id document : Int64)
include h

theorem fits_bridge {s : Statement} (changes : s.table? = some (names.bridge index.name))
    {cells : Cells} (columns : s.columns = cells.columns (names.bridge index.name))
    (linked : cells.map Prod.fst ⊆ [TableNames.bridgeColumn index.name, Column.documentIdName]) :
    s.Fits catalog names (catalog.HasColumn names) := by
  refine Statement.fits_change changes (hasColumn_bridge h List.mem_cons_self).hasTable ?_
  rw [columns]
  exact Cells.in_of_forall fun name member => hasColumn_bridge h (linked member)

theorem fits_link :
    (linkStatement names index.name id document).Fits catalog names (catalog.HasColumn names) :=
  fits_bridge h rfl rfl (List.Subset.refl _)

theorem fits_unlink :
    (unlinkStatement names index.name id document).Fits catalog names (catalog.HasColumn names) :=
  fits_bridge h rfl rfl (List.Subset.refl _)

end Links

theorem in_documents {names : TableNames} {cells : Cells}
    (h : cells.map Prod.fst ⊆ Document.columnNames) :
    ∀ column ∈ cells.columns names.document, column.In (catalog.HasColumn names) :=
  Cells.in_of_forall fun _ member => hasColumn_document (h member)

/-- Cells of the declared columns of an index. -/
theorem in_rows {names : TableNames} {index : IndexType} {kind : IndexKind} {cells : Cells}
    (h : catalog.Registers names index kind)
    (columns : cells.map Prod.fst = index.columns.map Column.name) :
    ∀ column ∈ cells.columns (names.index index.name), column.In (catalog.HasColumn names) :=
  Cells.in_of_forall fun _ member => hasColumn_rows h (.inr (columns ▸ member))

theorem in_rowId {names : TableNames} {index : IndexType} {kind : IndexKind}
    (h : catalog.Registers names index kind) (id : Int64) :
    ∀ column ∈ Cells.columns (names.index index.name) [idCell id],
      column.In (catalog.HasColumn names) :=
  Cells.in_of_forall (List.forall_mem_singleton.2 (hasColumn_rows h (.inl rfl)))

/-- What a command on a registered index sends first fits the tables that are created. -/
theorem fits_statement {c : Command} (h : c.Registered catalog) :
    c.statement.Fits catalog c.names (catalog.HasColumn c.names) := by
  cases c with
  | createDocument names id typeName content =>
    exact Statement.fits_change rfl hasTable_document (in_documents (List.Subset.refl _))
  | updateDocument names id typeName content version expected =>
    refine Statement.fits_change rfl hasTable_document (List.forall_mem_append.2 ⟨?_, ?_⟩)
    · exact in_documents (by decide : [Column.contentName, Column.versionName] ⊆
        Document.columnNames)
    · cases expected with
      | none => exact in_documents (by decide : [Column.idName] ⊆ Document.columnNames)
      | some _ =>
        exact in_documents (by decide : [Column.idName, Column.versionName] ⊆ Document.columnNames)
  | deleteDocument names id =>
    exact Statement.fits_change rfl hasTable_document
      (in_documents (by decide : [Column.idName] ⊆ Document.columnNames))
  | createMapRow names i document cells =>
    obtain ⟨index, registers, rfl, columns⟩ := h
    refine Statement.fits_change rfl (hasTable_rows registers)
      (List.forall_mem_cons.2 ⟨?_, in_rows registers columns⟩)
    exact ⟨_, rfl, hasColumn_documentId registers⟩
  | deleteMapRows names i document =>
    obtain ⟨index, registers, rfl⟩ := h
    refine Statement.fits_change rfl (hasTable_rows registers) (List.forall_mem_singleton.2 ?_)
    exact ⟨_, rfl, hasColumn_documentId registers⟩
  | createReduceRow names i cells link =>
    obtain ⟨index, registers, rfl, columns⟩ := h
    refine Statement.fits_change rfl (hasTable_rows registers)
      (List.forall_mem_cons.2 ⟨?_, in_rows registers columns⟩)
    exact ⟨_, rfl, hasColumn_rows registers (.inl rfl)⟩
  | updateReduceRow names i id cells link unlink =>
    obtain ⟨index, registers, rfl, columns⟩ := h
    refine Statement.fits_change rfl (hasTable_rows registers) ?_
    exact List.forall_mem_append.2 ⟨in_rows registers columns, in_rowId registers id⟩
  | deleteReduceRow names i id =>
    obtain ⟨index, registers, rfl⟩ := h
    exact fits_bridge registers rfl rfl (List.cons_subset_cons _ (List.nil_subset _))

/-- Whatever a command on a registered index is answered, all that it sends fits the
tables that are created. -/
theorem asks_fitting (conn : Connection) {c : Command} (h : c.Registered catalog) :
    (c.run conn).Asks (Request.Carries (Statement.Fits catalog c.names
      (catalog.HasColumn c.names))) := by
  have first := fits_statement h
  have executes {s : Statement} (fits : s.Fits catalog c.names (catalog.HasColumn c.names)) :
      Request.Carries (Statement.Fits catalog c.names (catalog.HasColumn c.names))
        (.execute conn s) :=
    Request.carries_of_some rfl fits
  cases c with
  | createDocument | deleteDocument | createMapRow | deleteMapRows =>
    exact Action.asks_executeAll_of (List.forall_mem_singleton.2 (executes first))
  | updateDocument =>
    refine Action.Asks.bind (Program.asks_request (executes first)) fun affected => ?_
    split
    · exact Action.asks_throw _
    · exact Action.asks_pure ()
  | createReduceRow names i cells link =>
    obtain ⟨index, registers, rfl, _⟩ := h
    refine Action.Asks.bind (Action.asks_carries rfl first) fun answer => ?_
    split
    · exact Action.asks_executeAll_of (List.forall_mem_map.2 fun document _ =>
        executes (fits_link registers _ document))
    · exact Action.asks_throw _
  | updateReduceRow names i id cells link unlink =>
    obtain ⟨index, registers, rfl, _⟩ := h
    refine Action.Asks.bind
      (Action.asks_executeAll_of (List.forall_mem_cons.2 ⟨executes first, ?_⟩)) fun _ => ?_
    · exact List.forall_mem_map.2 fun document _ => executes (fits_unlink registers id document)
    · exact Action.asks_executeAll_of (List.forall_mem_map.2 fun document _ =>
        executes (fits_link registers id document))
  | deleteReduceRow names i id =>
    obtain ⟨index, registers, rfl⟩ := h
    have rows : (Statement.delete (names.index index.name) [idCell id]).Fits catalog names
        (catalog.HasColumn names) :=
      Statement.fits_change rfl (hasTable_rows registers) (in_rowId registers id)
    exact Action.asks_executeAll_of (List.forall_mem_cons.2 ⟨executes first,
      List.forall_mem_singleton.2 (executes rows)⟩)

end Command

/-! ## Flushes -/

namespace Edit

variable {catalog : Catalog} {e : Edit} {d : Descriptor} {c : Command}

theorem registered_documentCommand (e : Edit) (check : Bool) :
    (e.documentCommand check).Registered catalog := by
  cases e <;> exact trivial

/-- Commands on the rows of a described map index. -/
theorem registered_of_mem_mapCommands (hd : d ∈ catalog.descriptors e.names e.entity)
    (h : c ∈ e.mapCommands d) : c.Registered catalog := by
  unfold mapCommands at h
  split at h
  · cases h
  · next kind =>
    have registers : catalog.Registers e.names d.index .map := ⟨e.entity, d, hd, rfl, kind⟩
    rcases List.mem_append.1 h with h | h
    · split at h
      · obtain rfl := List.mem_singleton.1 h
        exact ⟨d.index, registers, rfl⟩
      · cases h
    · cases after : e.after with
      | none =>
        rw [after] at h
        cases h
      | some json =>
        rw [after] at h
        obtain ⟨cells, hcells, rfl⟩ := List.mem_map.1 h
        refine ⟨d.index, registers, rfl, ?_⟩
        unfold Descriptor.cellRows at hcells
        split at hcells
        · obtain ⟨row, _, converts⟩ := List.mem_filterMap.1 hcells
          exact IndexType.names_cells (toOption_eq_some_iff.1 converts)
        · cases hcells

end Edit

/-- What is decided on for a group of a described reduce index. -/
theorem Buffer.registered_of_outcome {catalog : Catalog} {b : Buffer} {key : Value}
    {found : List Row} {c : Command}
    (registers : catalog.Registers b.names b.descriptor.index .reduce)
    (h : b.outcome key found = .ok (some c)) : c.Registered catalog := by
  rcases found_of_outcome h with rfl | ⟨row, rfl⟩
  · obtain ⟨_, _, _, _, ⟨_, none⟩ | ⟨r, cells, _, hcells, same⟩⟩ := outcome_nil h
    · cases none
    · cases same
      exact ⟨_, registers, rfl, IndexType.names_cells hcells⟩
  · obtain ⟨_, id, _, _, _, _, _, _, ⟨_, same⟩ | ⟨r, cells, _, hcells, same⟩⟩ := outcome_singleton h
    · cases same
      exact ⟨_, registers, rfl⟩
    · cases same
      exact ⟨_, registers, rfl, IndexType.names_cells hcells⟩

/-- A flush of edits in a catalog runs commands on registered indexes. -/
theorem Arena.Finishes.registered {check : Bool} {catalog : Catalog} {edits : List Edit}
    {p : FlushPlan} {commands : List Command} (h : p.arena.Finishes commands)
    (planned : Edit.planAll check catalog edits = .ok p)
    (used : ∀ e ∈ edits, catalog.collections e.names) : ∀ c ∈ commands, c.Registered catalog := by
  intro c hc
  obtain ⟨emitted, rfl, sources⟩ := h
  rcases List.mem_append.1 (Command.mem_inOrder_iff.1 hc) with hc | hc
  · rw [Edit.commands_of_planAll planned] at hc
    obtain ⟨e, he, hc⟩ := List.mem_flatMap.1 hc
    obtain rfl | ⟨d, hd, hc⟩ := Edit.mem_commands_iff.1 hc
    · exact e.registered_documentCommand check
    · exact Edit.registered_of_mem_mapCommands hd hc
  · obtain ⟨b, hb, key, found, outcome⟩ := sources c hc
    obtain ⟨_, kind, entity, hd⟩ := (Edit.tidy_of_planAll used planned).described b hb
    exact Buffer.registered_of_outcome ⟨entity, b.descriptor, hd, rfl, kind⟩ outcome

/-! ## Queries -/

section Queries

open Compile Catalog

variable {catalog : Catalog} {names : TableNames} {has : String → String → Prop}

/-- Where aliases are told apart, what is compiled for a query fits if its parts do. -/
theorem Query.fits {q : Query} {bs : List Binding} (ps : Parameters)
    (tables : ∀ table ∈ q.tables, catalog.HasTable names table) (unhidden : q.Unhidden)
    (grounds : Sources.Grounds names q.clause [q.clause] bs)
    (pieces : ∀ e ∈ q.pieces, Finds names has bs e) (own : ∀ c ∈ q.ownColumns, c.In has) :
    (Statement.query q ps).Fits catalog names has where
  tables := tables
  columns := List.forall_mem_append.2 ⟨own, finds_all pieces grounds unhidden.apart⟩

/-- What is compiled for the tables and the columns of a collection. -/
def Sql.Fits (catalog : Catalog) (names : TableNames) (has : String → String → Prop)
    (bs : List Binding) (e : Sql) : Prop :=
  e.ReadsOnly (catalog.HasTable names) ∧ Finds names has bs e

theorem composes_fits {t : Target} {known : Member → Prop} {asked : String → Prop}
    (asks : ∀ i, asked i → catalog.HasTable t.names (t.names.index i))
    (here : ∀ m, known m → m.isKnown = true → has (t.names.index m.index) m.column) :
    Composes t known asked (Sql.Fits catalog t.names has) :=
  (composes_readsOnly asks).and (composes_finds here)

section Index

variable {index : IndexType} {kind : IndexKind} (registers : catalog.Registers names index kind)
  {filter : Sql} (fits : Sql.Fits catalog names has [⟨index.name, index.name⟩] filter)
include registers fits

theorem fits_indexRows {order : List SqlOrder}
    (ordered : ∀ o ∈ order, Sql.Fits catalog names has [⟨index.name, index.name⟩] o.term)
    {paging : Option Paging} (ps : Parameters)
    (unhidden : (Query.indexRows index.name (names.index index.name) filter order
      paging).Unhidden) :
    (Statement.query (.indexRows index.name (names.index index.name) filter order paging) ps).Fits
      catalog names has := by
  refine Query.fits ps ?_ unhidden (Sources.Grounds.ofIndex names index.name)
    ?_ fun _ h => by cases h
  · refine List.forall_mem_cons.2 ⟨hasTable_rows registers, List.forall_mem_append.2 ⟨fits.1, ?_⟩⟩
    exact tablesOf_order_of_forall fun o ho => (ordered o ho).1
  · exact List.forall_mem_cons.2 ⟨fits.2, List.forall_mem_map.2 fun o ho => (ordered o ho).2⟩

theorem fits_indexCount (ps : Parameters)
    (unhidden : (Query.indexCount index.name (names.index index.name) filter).Unhidden) :
    (Statement.query (.indexCount index.name (names.index index.name) filter) ps).Fits catalog
      names has := by
  refine Query.fits ps ?_ unhidden (Sources.Grounds.ofIndex names index.name)
    (List.forall_mem_singleton.2 fits.2) fun _ h => by cases h
  exact List.forall_mem_cons.2 ⟨hasTable_rows registers, fits.1⟩

end Index

/-- The look-up of an aggregate row is by a column that the index declares. -/
theorem Buffer.fits_lookup {b : Buffer} {dialect : Dialect} {key : Value} {s : Statement}
    (registers : catalog.Registers b.names b.descriptor.index .reduce)
    (valid : b.descriptor.validate = .ok ()) (h : b.lookup dialect key = .ok s) :
    s.Fits catalog b.names (catalog.HasColumn b.names) := by
  unfold lookup at h
  split at h
  · cases h
  · next column grouped =>
    obtain ⟨filter, compiled, same⟩ := bind_eq_ok_iff.1 h
    cases same
    have declared : column ∈ b.descriptor.index.columns.map Column.name := by
      rw [Descriptor.validate, grouped, if_neg (by simp)] at valid
      dsimp only at valid
      split at valid
      · next some =>
        obtain ⟨c, found⟩ := Option.isSome_iff_exists.1 some
        exact List.mem_map.2 ⟨c, List.mem_of_find?_eq_some found, by
          simpa using List.find?_some found⟩
      · cases valid
    have composes : Composes ⟨dialect, b.names, none⟩
        (fun m => m = b.descriptor.index.member column) (fun _ => False) fun bs e =>
        Sql.Fits catalog b.names (catalog.HasColumn b.names) bs e ∧ e.aliases = [] := by
      refine (composes_fits (fun _ impossible => impossible.elim) ?_).and composes_flat
      rintro _ rfl _
      exact hasColumn_rows registers (.inr declared)
    have within : ((b.descriptor.index.field column).eq (.const key)).Over (fun m =>
          m = b.descriptor.index.member column)
        fun _ => False := ⟨rfl, trivial⟩
    obtain ⟨fits, flat⟩ := composes.of_compileCondition within compiled
    refine fits_indexRows registers fits (fun _ h => by cases h) _ ⟨List.nodup_singleton _, ?_⟩
    intro a member
    rw [Query.pieces, List.map_nil, Sql.aliasesOf, flat] at member
    cases member

/-! ### Documents -/

/-- A join of a registered index. -/
def Catalog.Joins (catalog : Catalog) (names : TableNames) (join : Join) : Prop :=
  ∃ index kind, catalog.Registers names index kind ∧
    join = DocumentQuery.joinOf names index.name kind

section Documents

variable {joins : List Join} (joined : ∀ join ∈ joins, catalog.Joins names join)
include joined

theorem hasTable_joins : ∀ join ∈ joins, ∀ table ∈ join.tables, catalog.HasTable names table := by
  intro join hjoin
  obtain ⟨index, kind, registers, rfl⟩ := joined join hjoin
  cases kind with
  | map => exact List.forall_mem_singleton.2 (hasTable_rows registers)
  | reduce =>
    have bridge := (hasColumn_bridge registers List.mem_cons_self).hasTable
    exact List.forall_mem_cons.2 ⟨hasTable_rows registers, List.forall_mem_singleton.2 bridge⟩

variable {n : Nat} {conditions : List Sql}

theorem hasTable_source
  (fits : ∀ e ∈ conditions, Sql.Fits catalog names has (DocumentQuery.bindingsOf joins) e) :
    ∀ table ∈ (DocumentSource.ofType names joins n conditions).tables,
      catalog.HasTable names table := by
  refine List.forall_mem_cons.2 ⟨hasTable_document,
    List.forall_mem_append.2 ⟨fun table member => ?_, ?_⟩⟩
  · obtain ⟨join, hjoin, inside⟩ := List.mem_flatMap.1 member
    exact hasTable_joins joined join hjoin table inside
  · exact Sql.forall_mem_tablesOf_iff.2 (List.forall_mem_cons.2 ⟨Sql.readsOnly_of_nil rfl,
      fun e he => (fits e he).1⟩)

variable (unique : ((DocumentSource.ofType names joins n conditions).clause.map Prod.fst).Nodup)
include unique

omit joined in
theorem table?_document :
    Sources.table? [(DocumentSource.ofType names joins n conditions).clause] Join.documentAlias =
    some names.document := Sources.table?_of_mem unique List.mem_cons_self []

omit joined in
theorem presumes_document {column : String} (h : column ∈ Document.columnNames) :
    NamedColumn.In (catalog.Presumes names)
      ⟨Sources.table? [(DocumentSource.ofType names joins n conditions).clause] Join.documentAlias,
        column⟩ :=
  ⟨names.document, table?_document unique, .inl (hasColumn_document h)⟩

/-- The columns that joins equate: a map index refers to documents itself, a
reduce index by its bridge. -/
theorem in_joinColumns : ∀ c ∈ (DocumentSource.ofType names joins n conditions).columns,
    c.In (catalog.Presumes names) := by
  have document : NamedColumn.In (catalog.Presumes names)
      ⟨Sources.table? [(DocumentSource.ofType names joins n conditions).clause] Join.documentAlias,
        Column.idName⟩ :=
    presumes_document unique (by decide : Column.idName ∈ Document.columnNames)
  intro c hc
  obtain ⟨j, hj, hc⟩ := List.mem_flatMap.1 hc
  obtain ⟨join, hjoin, inside⟩ := List.mem_flatMap.1 hj
  have table {j : InnerJoin} (inside : j ∈ join.innerJoins) :
      Sources.table? [(DocumentSource.ofType names joins n conditions).clause] j.tableAlias =
      some j.table :=
    Sources.table?_of_mem unique
      (List.mem_cons_of_mem _ (List.mem_map.2 ⟨j, List.mem_flatMap.2 ⟨join, hjoin, inside⟩, rfl⟩))
      []
  obtain ⟨index, kind, registers, rfl⟩ := joined join hjoin
  cases kind with
  | map =>
    obtain rfl := List.mem_singleton.1 inside
    rcases List.mem_pair.1 hc with rfl | rfl
    · exact ⟨_, table inside, .inl (hasColumn_documentId registers)⟩
    · exact document
  | reduce =>
    have bridge := table (j := ⟨names.bridge index.name, TableNames.bridgeName index.name,
      Column.documentIdName, Join.documentAlias, Column.idName⟩) List.mem_cons_self
    rcases List.mem_pair.1 inside with rfl | rfl
    · rcases List.mem_pair.1 hc with rfl | rfl
      · exact ⟨_, bridge,
          .inl (hasColumn_bridge registers (List.mem_cons_of_mem _ (List.mem_singleton_self _)))⟩
      · exact document
    · rcases List.mem_pair.1 hc with rfl | rfl
      · exact ⟨_, table inside, .inl (hasColumn_rows registers (.inl rfl))⟩
      · exact ⟨_, bridge, .inl (hasColumn_bridge registers List.mem_cons_self)⟩

/-- The type of the documents is a column of theirs; the rest is compiled for the joined indexes. -/
theorem in_typedColumns {rest : List Sql}
    (pieces : ∀ e ∈ rest, Finds names (catalog.Presumes names) (DocumentQuery.bindingsOf joins) e)
    (apart : ∀ a ∈ Sql.aliasesOf rest,
      a ∉ (DocumentSource.ofType names joins n conditions).clause.map Prod.fst) :
    ∀ c ∈ Sql.columnsOf [(DocumentSource.ofType names joins n conditions).clause]
      (.binary .eq (.column Join.documentAlias Column.typeName) (.param n) :: rest),
      c.In (catalog.Presumes names) := by
  have named : ∀ join ∈ joins, join.table = names.index join.index := by
    intro join hjoin
    obtain ⟨index, kind, _, rfl⟩ := joined join hjoin
    cases kind <;> rfl
  refine List.forall_mem_append.2 ⟨List.forall_mem_singleton.2 ?_,
    finds_all pieces (Sources.Grounds.ofJoins unique named) apart⟩
  exact presumes_document unique (by decide : Column.typeName ∈ Document.columnNames)

end Documents

section DocumentQueries

variable {joins : List Join} (joined : ∀ join ∈ joins, catalog.Joins names join) {n : Nat}
  {conditions : List Sql}
  (fits : ∀ e ∈ conditions, Sql.Fits catalog names (catalog.Presumes names)
    (DocumentQuery.bindingsOf joins) e) (ps : Parameters)
include joined fits

theorem fits_documents {order : List SqlOrder}
    (ordered : ∀ o ∈ order, Sql.Fits catalog names (catalog.Presumes names)
      (DocumentQuery.bindingsOf joins) o.term) {paging : Paging}
    (unhidden : (Query.documents (.ofType names joins n conditions) order paging).Unhidden) :
    (Statement.query (.documents (.ofType names joins n conditions) order paging) ps).Fits catalog
      names (catalog.Presumes names) where
  tables := List.forall_mem_append.2 ⟨hasTable_source joined fits,
    tablesOf_order_of_forall fun o ho => (ordered o ho).1⟩
  columns := by
    obtain ⟨unique, apart⟩ := unhidden
    refine List.forall_mem_append.2 ⟨List.forall_mem_append.2 ⟨?_, in_joinColumns joined unique⟩,
      ?_⟩
    · exact List.forall_mem_map.2 fun column hc => presumes_document unique hc
    · refine in_typedColumns joined unique
        (List.forall_mem_append.2 ⟨fun e he => (fits e he).2, ?_⟩) apart
      exact List.forall_mem_map.2 fun o ho => (ordered o ho).2

theorem fits_documentCount
  (unhidden : (Query.documentCount (.ofType names joins n conditions)).Unhidden) :
    (Statement.query (.documentCount (.ofType names joins n conditions)) ps).Fits catalog names
      (catalog.Presumes names) where
  tables := hasTable_source joined fits
  columns := by
    obtain ⟨unique, apart⟩ := unhidden
    refine List.forall_mem_append.2 ⟨List.forall_mem_cons.2 ⟨?_, in_joinColumns joined unique⟩, ?_⟩
    · exact presumes_document unique (by decide : Column.idName ∈ Document.columnNames)
    · exact in_typedColumns joined unique (fun e he => (fits e he).2) apart

end DocumentQueries

/-- However the descriptors of an entity type are looked up, indexes are joined
as they are registered. -/
theorem joins_of_emits {settings : Settings} {entity collection : String} {indexes : List String}
    {events : List Event} {joins : List Join}
    (described : ∀ e ∈ events, e.Described settings catalog)
    (h : (DocumentQuery.lookupJoins entity collection (settings.names collection) indexes).Emits
      events (.ok joins)) :
    ∀ join ∈ joins, catalog.Joins (settings.names collection) join := by
  induction indexes generalizing events joins with
  | nil =>
    obtain ⟨_, same⟩ := Program.emits_done_iff.1 h
    cases same
    exact fun _ member => by cases member
  | cons index indexes ih =>
    obtain ⟨ds, first, rest, rfl, asked, h⟩ := Action.emits_ok_bind_iff.1 h
    obtain ⟨_, rfl⟩ := Session.eq_of_descriptors asked fun e he =>
      described e (List.mem_append_left _ he)
    split at h
    · obtain ⟨_, impossible⟩ := Program.emits_done_iff.1 h
      cases impossible
    · next d found =>
      obtain ⟨later, _, _, rfl, looked, h⟩ := Action.emits_ok_bind_iff.1 h
      obtain ⟨_, same⟩ := Program.emits_done_iff.1 h
      cases same
      have named : d.index.name = index := by simpa using List.find?_some found
      refine List.forall_mem_cons.2 ⟨⟨d.index, d.kind,
        ⟨entity, d, List.mem_of_find?_eq_some found, rfl, rfl⟩, ?_⟩, ?_⟩
      · rw [named]
      · exact ih (fun e he => described e (List.mem_append_right _ (List.mem_append_left _ he)))
          looked

/-- A query over documents is compiled for such joins. -/
theorem exists_joins_of_emits {settings : Settings} {q : DocumentQuery}
    {compile : List Join → Except Error Statement} {events : List Event} {s : Statement}
    (described : ∀ e ∈ events, e.Described settings catalog)
    (h : (do let joins ← q.requestJoins settings; Action.ofExcept (compile joins) :
      Action Statement).Emits events (.ok s)) :
    ∃ joins, (∀ join ∈ joins, catalog.Joins (settings.names q.collection) join) ∧
      compile joins = .ok s := by
  obtain ⟨joins, first, rest, rfl, looked, made⟩ := Action.emits_ok_bind_iff.1 h
  obtain ⟨_, made⟩ := Program.emits_done_iff.1 made
  exact ⟨joins, joins_of_emits (fun e he => described e (List.mem_append_left _ he)) looked,
    made.symm⟩

end Queries

/-! ## Agreement -/

/-- What creates the tables of a collection and keeps them: the commands of its schema, those of
flushes with the look-ups before them, and what loads documents and their highest id. -/
inductive Statement.Upkeep (catalog : Catalog) (names : TableNames) : Statement → Prop where
  | schema {plan : SchemaPlan} {command : SchemaCommand} :
      catalog.Plans names plan → command ∈ plan.commands →
    Upkeep catalog names (.schema command)
  | command {check : Bool} {edits : List Edit} {p : FlushPlan} {commands : List Command}
      {c : Command} {conn : Connection} {events : List Event} {result : Except Error Unit}
      {e : Event} {s : Statement} :
    Edit.planAll check catalog edits = .ok p → (∀ e ∈ edits, catalog.collections e.names) →
    p.arena.Finishes commands →
    c ∈ commands → c.names = names → (c.run conn).Emits events result →
      e ∈ events → e.request.statement? = some s → Upkeep catalog names s
  | lookup {check : Bool} {edits : List Edit} {p : FlushPlan} {b : Buffer} {dialect : Dialect}
      {key : Value} {s : Statement} :
    Edit.planAll check catalog edits = .ok p → (∀ e ∈ edits, catalog.collections e.names) →
    b ∈ p.arena.buffers → b.names = names →
    b.descriptor.validate = .ok () → b.lookup dialect key = .ok s → Upkeep catalog names s
  | documentById (ps : Parameters) : Upkeep catalog names (.query (.documentById names.document) ps)
  | maxId (ps : Parameters) : Upkeep catalog names (.query (.maxId names.document) ps)

/-- What queries in a collection compile to, if their members and the indexes that
they ask are registered. -/
inductive Statement.Asked (settings : Settings) (catalog : Catalog) (collection : String) :
    Statement → Prop where
  | rows {q : IndexQuery} {kind : IndexKind} {s : Statement} : q.collection = collection →
    catalog.Registers (settings.names collection) q.index kind →
    q.Over (catalog.Knows (settings.names collection)) (catalog.Asks (settings.names collection)) →
    q.statement settings = .ok s → Asked settings catalog collection s
  | rowCount {q : IndexQuery} {kind : IndexKind} {s : Statement} : q.collection = collection →
    catalog.Registers (settings.names collection) q.index kind →
    q.Over (catalog.Knows (settings.names collection)) (catalog.Asks (settings.names collection)) →
    q.countStatement settings = .ok s → Asked settings catalog collection s
  | compiled {q : CompiledQuery} {kind : IndexKind} {args : Arguments} {sql : CompiledSql}
      (ps : Parameters) : catalog.Registers (settings.names collection) q.index kind →
    q.Over (catalog.Knows (settings.names collection)) (catalog.Asks (settings.names collection)) →
    q.compile settings.dialect (settings.names collection) args = .ok sql →
      Asked settings catalog collection (.query sql.query ps)
  | documents {q : DocumentQuery} {events : List Event} {s : Statement} :
      q.collection = collection →
    q.Over (catalog.Knows (settings.names collection)) (catalog.Asks (settings.names collection)) →
    (∀ e ∈ events, e.Described settings catalog) → (q.statement settings).Emits events (.ok s) →
      Asked settings catalog collection s
  | documentCount {q : DocumentQuery} {events : List Event} {s : Statement} :
      q.collection = collection →
    q.Over (catalog.Knows (settings.names collection)) (catalog.Asks (settings.names collection)) →
    (∀ e ∈ events, e.Described settings catalog) →
      (q.countStatement settings).Emits events (.ok s) → Asked settings catalog collection s

namespace Statement

variable {settings : Settings} {catalog : Catalog} {names : TableNames} {collection : String}
  {s : Statement}

open Catalog

theorem Upkeep.fits (h : Upkeep catalog names s) :
    s.Fits catalog names (catalog.HasColumn names) := by
  cases h with
  | schema plans member => exact plans.fits _ member
  | command planned used finishes hc same emits he sent =>
    subst same
    exact ((Command.asks_fitting _ (finishes.registered planned used _ hc)).ensures.of_emits
      emits).1 _ he _ sent
  | lookup planned used hb same valid found =>
    subst same
    obtain ⟨_, kind, entity, hd⟩ := (Edit.tidy_of_planAll used planned).described _ hb
    exact Buffer.fits_lookup ⟨entity, _, hd, rfl, kind⟩ valid found
  | documentById ps =>
    refine ⟨List.forall_mem_singleton.2 hasTable_document, ?_⟩
    refine List.forall_mem_append.2 ⟨List.forall_mem_map.2 fun column hc =>
      ⟨_, rfl, hasColumn_document ?_⟩, fun _ h => by cases h⟩
    exact (by decide : Document.columnNames ++ [Column.idName] ⊆ Document.columnNames) hc
  | maxId ps =>
    have id : catalog.HasColumn names names.document Column.idName := hasColumn_document (by decide)
    exact ⟨List.forall_mem_singleton.2 hasTable_document, List.forall_mem_singleton.2 ⟨_, rfl, id⟩⟩

/-- A query fits all that conditions are compiled for. -/
theorem Asked.fits (h : Asked settings catalog collection s) (unhidden : s.Unhidden) :
    s.Fits catalog (settings.names collection) (catalog.Presumes (settings.names collection)) := by
  have composes (t : Target) (same : t.names = settings.names collection) :
      Compile.Composes t (catalog.Knows (settings.names collection))
        (catalog.Asks (settings.names collection))
        (Sql.Fits catalog (settings.names collection)
          (catalog.Presumes (settings.names collection))) := by
    have whole : Compile.Composes t (catalog.Knows t.names) (catalog.Asks t.names)
        (Sql.Fits catalog t.names (catalog.Presumes t.names)) :=
      composes_fits (fun _ asks => asks.hasTable) fun _ knows isKnown => knows.presumes isKnown
    rwa [same] at whole
  cases h with
  | @rows q kind s same registers within made =>
    subst same
    obtain ⟨filter, order, ps, rfl, hfilter, horder⟩ :=
      (composes (q.target settings) rfl).of_statement within made
    exact fits_indexRows registers hfilter horder ps (unhidden _ _ rfl)
  | @rowCount q kind s same registers within made =>
    subst same
    obtain ⟨filter, ps, rfl, hfilter⟩ :=
      (composes (q.target settings) rfl).of_countStatement within made
    exact fits_indexCount registers hfilter ps (unhidden _ _ rfl)
  | @compiled q kind args sql ps registers within made =>
    obtain ⟨filter, order, same, hfilter, horder⟩ :=
      (composes ⟨settings.dialect, settings.names collection, some args⟩ rfl).of_compile within made
    rw [same] at unhidden ⊢
    exact fits_indexRows registers hfilter horder ps (unhidden _ _ rfl)
  | @documents q events s same within described made =>
    subst same
    obtain ⟨joins, joined, made⟩ := exists_joins_of_emits described made
    obtain ⟨query, c, gives, rfl⟩ := Compile.toStatement_eq_ok_iff.1 made
    obtain ⟨source, c₁, sourced, gives⟩ := Compile.gives_bind_iff.1 gives
    obtain ⟨order, c₂, ordered, gives⟩ := Compile.gives_bind_iff.1 gives
    obtain ⟨rfl, rfl⟩ := Compile.gives_pure_iff.1 gives
    have parts := composes (q.target settings) rfl
    obtain ⟨bound, n, conditions, rfl, fits⟩ := parts.of_source within sourced
    exact fits_documents joined fits _ ((parts.makes_order within.order bound ordered).2)
      (unhidden _ _ rfl)
  | @documentCount q events s same within described made =>
    subst same
    obtain ⟨joins, joined, made⟩ := exists_joins_of_emits described made
    obtain ⟨query, c, gives, rfl⟩ := Compile.toStatement_eq_ok_iff.1 made
    obtain ⟨source, c₁, sourced, gives⟩ := Compile.gives_bind_iff.1 gives
    obtain ⟨rfl, rfl⟩ := Compile.gives_pure_iff.1 gives
    obtain ⟨_, n, conditions, rfl, fits⟩ :=
      (composes (q.target settings) rfl).of_source within sourced
    exact fits_documentCount joined fits _ (unhidden _ _ rfl)

end Statement

/-! ## What reduce indexes lack -/

theorem TableNames.bridge_ne_index (names : TableNames) (i : String) :
    names.bridge i ≠ names.index i := by
  intro same
  rw [bridge, index, qualify_eq, qualify_eq, String.append_right_inj,
    String.append_right_inj] at same
  have lengths := congrArg String.length same
  simp [bridgeName] at lengths

/-- The plan of a reduce index creates its rows without a `DocumentId`, unless
the index declares one. -/
theorem SchemaPlan.not_mem_createReduceTable {names : TableNames} {index : IndexType} {t : TableDef}
    (undeclared : Column.documentIdName ∉ index.columns.map Column.name)
    (h : .createTable t ∈ ((SchemaPlan.start names).createReduceTable index).commands)
    (same : t.name = names.index index.name) :
    Column.documentIdName ∉ t.columns.map ColumnDef.name := by
  rcases List.mem_cons.1 h with rows | h
  · cases rows
    rw [reduceTable, List.map_cons, Catalog.map_name_ofColumn]
    exact fun member => (List.mem_cons.1 member).elim (by decide) undeclared
  · rcases List.mem_pair.1 h with bridge | indexed
    · cases bridge
      exact absurd same (names.bridge_ne_index index.name)
    · cases indexed

/-- The rows of an index that belong to a document. -/
def IndexQuery.ofDocument (index : IndexType) (collection : String) (id : Int64) : IndexQuery :=
  (ofIndex index collection).restrict ((index.field Column.documentIdName).eq (.const (.int id)))

/-- For every index it compiles to an equation of its `DocumentId`. -/
theorem IndexQuery.exists_statement_ofDocument (settings : Settings) (index : IndexType)
    (collection : String) (id : Int64) : ∃ ps, (ofDocument index collection id).statement settings =
      .ok (.query (.indexRows index.name ((settings.names collection).index index.name)
        (.binary .eq (.column index.name Column.documentIdName) (.param 0)) [] (some ⟨none, none⟩))
        ps) := by
  have found :
      (({ Compilation.start with bindings := [⟨index.name, index.name⟩] } :
          Compilation).bindings.find? fun b =>
        b.index = (index.member Column.documentIdName).index) = some ⟨index.name, index.name⟩ :=
    List.find?_cons_of_pos (by simp [IndexType.member])
  have known : (index.member Column.documentIdName).isKnown = true := by
    simp [Member.isKnown, IndexType.member]
  obtain ⟨e, d, compiled⟩ :=
    Compile.exists_gives_equation ((ofDocument index collection id).target settings)
      (.int id) known found
  obtain ⟨b, bound, shape, _⟩ := Compile.gives_equation compiled
  cases found.symm.trans bound
  subst shape
  have filtered :
      Compile.Gives ((ofDocument index collection id).condition
        ((ofDocument index collection id).target settings)) .start
      (.binary .eq (.column index.name Column.documentIdName) (.param 0)) d :=
    Compile.gives_bind_iff.2 ⟨(), _, Compile.gives_bindIndex_iff.2 rfl, compiled⟩
  refine ⟨d.parameters, Compile.toStatement_eq_ok_iff.2 ⟨_, d, ?_, rfl⟩⟩
  refine Compile.gives_bind_iff.2 ⟨_, d, filtered, Compile.gives_bind_iff.2 ⟨[], d, ?_, ?_⟩⟩
  · exact Compile.gives_pure_iff.2 ⟨rfl, rfl⟩
  · exact Compile.gives_pure_iff.2 ⟨rfl, rfl⟩

section

open Catalog

/-- Statements and schemas agree, but for one column. What keeps the tables of a collection
fits those that are created. So does what is asked of them, where no subquery hides an alias,
except that conditions may be about the `DocumentId` of every index; and for every reduce
index that does not declare it there is a condition that compiles to a column of its rows that
they are created without. -/
theorem statements_fit_schema (settings : Settings) (catalog : Catalog) (collection : String) :
    (∀ s, Statement.Upkeep catalog (settings.names collection) s →
      s.Fits catalog (settings.names collection) (catalog.HasColumn (settings.names collection))) ∧
    (∀ s, Statement.Asked settings catalog collection s → s.Unhidden →
      s.Fits catalog (settings.names collection) (catalog.Presumes (settings.names collection))) ∧
    ∀ index, catalog.Registers (settings.names collection) index .reduce →
      Column.documentIdName ∉ index.columns.map Column.name →
      ∃ s, Statement.Asked settings catalog collection s ∧ s.Unhidden ∧
        ⟨some ((settings.names collection).index index.name), Column.documentIdName⟩ ∈ s.columns ∧
        ∀ t, .createTable t ∈
            ((SchemaPlan.start (settings.names collection)).createReduceTable index).commands →
          t.name = (settings.names collection).index index.name →
            Column.documentIdName ∉ t.columns.map ColumnDef.name := by
  refine ⟨fun _ upkeep => upkeep.fits, fun _ asked => asked.fits,
    fun index registers undeclared => ?_⟩
  obtain ⟨ps, made⟩ := IndexQuery.exists_statement_ofDocument settings index collection 1
  have within : (IndexQuery.ofDocument index collection 1).Over
      (catalog.Knows (settings.names collection))
      (catalog.Asks (settings.names collection)) := by
    constructor
    · intro e some
      cases some
      exact ⟨⟨index, .reduce, registers, rfl, rfl⟩, trivial⟩
    · intro _ member
      cases member
  refine ⟨_, .rows rfl registers within made, ?_, ?_, fun t created same =>
    SchemaPlan.not_mem_createReduceTable undeclared created same⟩
  · intro q _ same
    cases same
    exact ⟨List.nodup_singleton _, fun a member => by cases member⟩
  · have here : Sources.table? [[(index.name, (settings.names collection).index index.name)]]
        index.name = some _ :=
      Sources.table?_self _ _ []
    rw [← here]
    exact List.mem_cons_self

namespace Counting

theorem registers_iff {i : IndexType} {kind : IndexKind} :
    catalog.Registers main i kind ↔ i = index ∧ kind = .reduce := by
  constructor
  · rintro ⟨entity, d, member, rfl, rfl⟩
    dsimp only [catalog] at member
    split at member
    · obtain rfl := List.mem_singleton.1 member
      exact ⟨rfl, rfl⟩
    · cases member
  · rintro ⟨rfl, rfl⟩
    exact ⟨"Article", articles, List.mem_singleton_self _, rfl, rfl⟩

/-- Of the counts by day one can ask for those that belong to a document, and no table called like
theirs has such a column. -/
theorem statements_fit_schema_unlinked :
    ∃ s, Statement.Asked settings catalog "" s ∧ s.Fits catalog main (catalog.Presumes main) ∧
    ¬s.Fits catalog main (catalog.HasColumn main) := by
  obtain ⟨_, queries, lacks⟩ := statements_fit_schema settings catalog ""
  obtain ⟨s, asked, unhidden, named, never⟩ := lacks index (registers_iff.2 ⟨rfl, rfl⟩) (by decide)
  refine ⟨s, asked, queries s asked unhidden, fun fits => ?_⟩
  obtain ⟨table, same, t, ⟨plan, plans, created⟩, called, column⟩ := fits.columns _ named
  cases same
  cases plans with
  | documents =>
    rcases List.mem_pair.1 created with documents | indexed
    · cases documents
      exact absurd called (by decide)
    · cases indexed
  | map registers => exact absurd (registers_iff.1 registers).2 (by decide)
  | reduce registers =>
    obtain ⟨rfl, _⟩ := registers_iff.1 registers
    exact never t created called column

end Counting

end

end DocStore

import DocStore.Proofs.CommandOrder
import DocStore.Proofs.Reductions
import Mathlib.Logic.Function.Basic

/-!
# Document tables

The document tables of a database as a map from keys to documents. The commands
of a flush change it as its edits say, whatever else they do: commands on index
tables leave it, and an edit that finds the document that it was planned for
leaves the one that it describes.
-/

set_option autoImplicit false

namespace DocStore

/-- A document in storage: its type, and its state with the entity that its content stands for. -/
structure StoredDocument where
  typeName : String
  state : Tracked

/-- A map of documents, by collection and id. -/
abbrev Documents := DocKey → Option StoredDocument

def Row.document (id : Int64) (doc : StoredDocument) : Row :=
  ⟨[Command.idCell id, (Column.typeName, .text doc.typeName),
    (Column.contentName, .text doc.state.content), (Column.versionName, .int doc.state.version)]⟩

/-- The rows of an id. -/
def Database.byId (db : Database) (table : String) (id : Int64) : List Row :=
  (db table).filter fun row => row.value? Column.idName = some (.int id)

/-- The document tables of the collections in use hold the documents of a map, and nothing else. -/
structure Documents.Stored (docs : Documents) (settings : Settings) (catalog : Catalog)
    (db : Database) : Prop where
  identified : ∀ collection, catalog.collections (settings.names collection) →
    ∀ row ∈ db (settings.names collection).document, ∃ id, row.value? Column.idName = some (.int id)
  rows : ∀ collection, catalog.collections (settings.names collection) → ∀ id,
    db.byId (settings.names collection).document id =
      ((docs ⟨collection, id⟩).map (Row.document id)).toList

/-- A table that holds the documents of a collection in use. -/
def Catalog.IsDocuments (catalog : Catalog) (table : String) : Prop :=
  ∃ names, catalog.collections names ∧ table = names.document

/-- A row of a document table is read as the document that it was written for. -/
theorem Document.ofRow_document (id : Int64) (doc : StoredDocument) :
    Document.ofRow (Row.document id doc) =
    .ok ⟨id, doc.typeName, doc.state.content, doc.state.version⟩ := by
  have apart : Row.sameName Column.idName Column.typeName = false ∧
      Row.sameName Column.idName Column.contentName = false ∧
      Row.sameName Column.idName Column.versionName = false ∧
        Row.sameName Column.typeName Column.contentName = false ∧
      Row.sameName Column.typeName Column.versionName = false ∧
        Row.sameName Column.contentName Column.versionName = false := by
    decide
  have same : ∀ name, Row.sameName name name = true := fun name => by simp [Row.sameName]
  simp only [Document.ofRow, Row.document, Row.getInt64, Row.getText, Row.get?, Command.idCell,
    List.find?_cons, apart, same, Option.map_some, Option.bind_some, Value.int64?, Value.text?]
  rfl

namespace Row

theorem value?_document (id : Int64) (doc : StoredDocument) :
    (document id doc).value? Column.idName = some (.int id) := rfl

/-- An update leaves the identity of a row that has one, whether or not it meets the row. -/
theorem value?_idName_update {row : Row} {v : Value} (h : row.value? Column.idName = some v)
    (cells keys : Cells) :
    (if row.meets keys then row.assign cells else row).value? Column.idName = some v := by
  split
  · exact value?_idName_assign h cells
  · exact h

/-- A document row with another content and version. -/
theorem assign_document (id : Int64) (typeName content : String) (version : Int64) (json : Json)
    (old : Tracked) :
    (document id ⟨typeName, old⟩).assign [(Column.contentName, .text content),
        (Column.versionName, .int version)] =
      document id ⟨typeName, ⟨content, json, version⟩⟩ := by
  have apart : Column.typeName ≠ Column.contentName ∧ Column.typeName ≠ Column.versionName ∧
      Column.contentName ≠ Column.idName ∧ Column.versionName ≠ Column.idName := by decide
  simp [assign, document, Command.idCell, apart]

end Row

namespace Edit

/-- The document in storage that an edit was planned for. -/
def finds : Edit → Option StoredDocument
  | .create .. => none
  | .update _ _ entity _ _ old | .delete _ _ entity old => some ⟨entity, old⟩

/-- The document that an edit leaves in storage. -/
def leaves : Edit → Option StoredDocument
  | .create _ _ entity json content => some ⟨entity, ⟨content, json, 1⟩⟩
  | .update _ _ entity json content old => some ⟨entity, ⟨content, json, old.version + 1⟩⟩
  | .delete .. => none

/-- The edit of the document that is stored, which keeps its type whatever
type it was planned for. -/
def typed (docs : Documents) : Edit → Edit
  | .create names id entity json content => .create names id entity json content
  | .update names id entity json content old =>
    .update names id ((docs ⟨names.collection, id⟩).elim entity StoredDocument.typeName)
      json content old
  | .delete names id entity old =>
    .delete names id ((docs ⟨names.collection, id⟩).elim entity StoredDocument.typeName) old

theorem names_typed (docs : Documents) (e : Edit) : (e.typed docs).names = e.names := by
  cases e <;> rfl

theorem key_typed (docs : Documents) (e : Edit) : (e.typed docs).key = e.key := by
  cases e <;> rfl

theorem map_key_typed (docs : Documents) (edits : List Edit) :
    (edits.map (typed docs)).map Edit.key = edits.map Edit.key := by
  rw [List.map_map]
  exact List.map_congr_left fun e _ => e.key_typed docs

theorem statement_typed (docs : Documents) (e : Edit) (check : Bool) :
    ((e.typed docs).documentCommand check).statement = (e.documentCommand check).statement := by
  cases e <;> rfl

/-- What an edit leaves is stored in the same state under every type. -/
theorem state_leaves_typed (docs : Documents) (e : Edit) :
    (e.typed docs).leaves.map StoredDocument.state = e.leaves.map StoredDocument.state := by
  cases e <;> rfl

theorem isNone_finds_typed (docs : Documents) (e : Edit) :
    (e.typed docs).finds = none ↔ e.finds = none := by
  cases e <;> simp [typed, finds]

/-- Where a document is in the state that an edit was planned for, the edit of
the document finds it. -/
theorem finds_typed {docs : Documents} {e : Edit}
    (same : (docs e.key).map StoredDocument.state = e.finds.map StoredDocument.state) :
    docs e.key = (e.typed docs).finds := by
  cases e with
  | create names id entity json content => exact Option.map_eq_none_iff.1 same
  | update names id entity json content old | delete names id entity old =>
    obtain ⟨⟨typeName, state⟩, hdoc, rfl⟩ := Option.map_eq_some_iff.1 same
    have stored : docs ⟨names.collection, id⟩ = some ⟨typeName, state⟩ := hdoc
    simp [typed, finds, stored, hdoc]

/-- The command on the document of an edit changes the table of documents. -/
theorem table?_documentCommand (e : Edit) (check : Bool) :
    (e.documentCommand check).statement.table? = some e.names.document := by
  cases e <;> rfl

end Edit

namespace Database

variable {db : Database} {e : Edit} {check : Bool}

theorem mem_byId_iff {table : String} {id : Int64} {row : Row} :
    row ∈ db.byId table id ↔ row ∈ db table ∧ row.value? Column.idName = some (.int id) := by
  simp [byId]

theorem byId_insert (db : Database) (table : String) (id id' : Int64) (cells : Cells) :
    (db.execute (.insert table (Command.idCell id :: cells))).byId table id' =
      db.byId table id' ++ if id = id' then [⟨Command.idCell id :: cells⟩] else [] := by
  rw [byId, execute_insert, List.filter_append, byId, List.filter_singleton, Row.value?_idCell]
  by_cases same : id = id' <;> simp [same]

/-- An update looks at the rows of an id only, and leaves their ids. -/
theorem byId_update (db : Database) (table : String) (id id' : Int64) (cells keys : Cells)
    (identified : ∀ row ∈ db table, ∃ id, row.value? Column.idName = some (.int id)) :
    (db.execute (.update table cells (Command.idCell id :: keys))).byId table id' =
      (db.byId table id').map fun row => if id = id' ∧ row.meets keys then row.assign cells
        else row := by
  have meets : ∀ row : Row, row.meets (Command.idCell id :: keys) =
      (decide (row.value? Column.idName = some (.int id)) && row.meets keys) :=
    fun row => List.all_cons
  have keeps : ∀ row ∈ db table,
      (if row.meets (Command.idCell id :: keys) then row.assign cells else row).value?
        Column.idName =
      row.value? Column.idName := by
    intro row hrow
    obtain ⟨i, hi⟩ := identified row hrow
    rw [Row.value?_idName_update hi, hi]
  have kept :
      (db table).filter ((fun row => decide (row.value? Column.idName = some (Value.int id'))) ∘
        fun row =>
          if row.meets (Command.idCell id :: keys) then row.assign cells else row) =
          db.byId table id' :=
    List.filter_congr fun row hrow =>
      congrArg (fun v => decide (v = some (Value.int id'))) (keeps row hrow)
  rw [byId, execute_update, List.filter_map, kept]
  refine List.map_congr_left fun row hrow => ?_
  have hid : row.value? Column.idName = some (.int id') := by simpa using (List.mem_filter.1 hrow).2
  rw [meets, hid]
  by_cases same : id = id'
  · simp [same]
  · simp [same, Ne.symm same]

theorem byId_delete (db : Database) (table : String) (id id' : Int64) :
    (db.execute (.delete table [Command.idCell id])).byId table id' =
    if id = id' then [] else db.byId table id' := by
  rw [byId, execute_delete, List.filter_filter]
  split
  · next same =>
    refine List.filter_eq_nil_iff.2 fun row _ => ?_
    rw [← same, Bool.and_eq_true, decide_eq_true_eq, ← Row.meets_idCell_iff, Bool.not_eq_true']
    exact fun ⟨h, h'⟩ => by rw [h] at h'; cases h'
  · next other =>
    refine List.filter_congr fun row _ => ?_
    by_cases hid : row.value? Column.idName = some (.int id')
    · have apart : row.meets [Command.idCell id] = false := by
        rw [Bool.eq_false_iff, ne_eq, Row.meets_idCell_iff, hid]
        simpa using Ne.symm other
      simp [hid, apart]
    · simp [hid]

/-- The command on a document takes the row that its edit was planned for to the
one that it leaves, and leaves the rows of other ids. -/
theorem byId_documentCommand
  (identified : ∀ row ∈ db e.names.document, ∃ id, row.value? Column.idName = some (.int id))
    (finds : db.byId e.names.document e.id = (e.finds.map (Row.document e.id)).toList)
    (id : Int64) : (db.execute (e.documentCommand check).statement).byId e.names.document id =
      if e.id = id then (e.leaves.map (Row.document e.id)).toList
        else db.byId e.names.document id := by
  cases e with
  | create names i entity json content =>
    change (db.execute (.insert names.document (Command.idCell i :: _))).byId names.document id =
      if i = id then _ else _
    change db.byId names.document i = [] at finds
    rw [byId_insert]
    split
    · next same =>
      subst same
      rw [finds]
      rfl
    · exact List.append_nil _
  | update names i entity json content old =>
    change (db.execute (.update names.document _ (Command.idCell i :: _))).byId names.document id =
      if i = id then _ else _
    change db.byId names.document i = [Row.document i ⟨entity, old⟩] at finds
    rw [byId_update db names.document i id _ _ identified]
    by_cases same : i = id
    · subst same
      have meets : (Row.document i ⟨entity, old⟩).meets
          (((if check then some old.version else none).map fun v =>
            (Column.versionName, Value.int v)).toList) = true := by
        cases check
        · rfl
        · exact (Row.meets_singleton_iff (v := .int old.version)).2 rfl
      rw [finds, List.map_singleton, if_pos ⟨rfl, meets⟩, if_pos rfl,
        Row.assign_document _ _ _ _ json]
      rfl
    · rw [List.map_congr_left fun row _ => if_neg fun h => same h.1, if_neg same]
      exact List.map_id _
  | delete names i entity old =>
    change (db.execute (.delete names.document [Command.idCell i])).byId names.document id =
      if i = id then _ else _
    rw [byId_delete]
    rfl

theorem identified_documentCommand
    (identified : ∀ row ∈ db e.names.document, ∃ id, row.value? Column.idName = some (.int id)) :
    ∀ row ∈ db.execute (e.documentCommand check).statement e.names.document, ∃ id,
      row.value? Column.idName = some (.int id) := by
  intro row hrow
  cases e with
  | create names i entity json content =>
    change row ∈ db.execute (.insert names.document _) names.document at hrow
    rw [execute_insert] at hrow
    rcases List.mem_append.1 hrow with hrow | hrow
    · exact identified row hrow
    · obtain rfl := List.mem_singleton.1 hrow
      exact ⟨i, Row.value?_idCell i _⟩
  | update names i entity json content old =>
    change row ∈ db.execute (.update names.document _ _) names.document at hrow
    rw [execute_update] at hrow
    obtain ⟨row', mem, rfl⟩ := List.mem_map.1 hrow
    obtain ⟨i', hi'⟩ := identified row' mem
    exact ⟨i', Row.value?_idName_update hi' _ _⟩
  | delete names i entity old =>
    change row ∈ db.execute (.delete names.document _) names.document at hrow
    rw [execute_delete] at hrow
    exact identified row (List.mem_filter.1 hrow).1

end Database

namespace Command

/-- The commands on documents themselves. -/
def isDocument : Command → Bool
  | .createDocument .. | .updateDocument .. | .deleteDocument .. => true
  | _ => false

/-- The commands on the rows of indexes leave the document tables. -/
theorem not_mem_tables {c : Command} (h : c.isDocument = false) (names : TableNames) :
    .documents names ∉ c.tables := by
  cases c with
  | createDocument _ _ _ _ | updateDocument _ _ _ _ _ _ | deleteDocument _ _ => cases h
  | createMapRow _ _ _ _ | deleteMapRows _ _ _ | createReduceRow _ _ _ _
  | updateReduceRow _ _ _ _ _ _
  | deleteReduceRow _ _ _ => simp [tables]

end Command

/-- What is decided on for a group are commands on the rows and links of its index. -/
theorem Buffer.tables_of_outcome {b : Buffer} {key : Value} {found : List Row} {c : Command}
    (h : b.outcome key found = .ok (some c)) : c.isDocument = false ∧
      c.tables = [.rows .reduce b.names b.descriptor.index.name,
        .links b.names b.descriptor.index.name] := by
  rcases found_of_outcome h with rfl | ⟨row, rfl⟩
  · obtain ⟨_, _, _, _, ⟨_, none⟩ | ⟨_, cells, _, _, hc⟩⟩ := outcome_nil h
    · cases none
    · cases hc
      exact ⟨rfl, rfl⟩
  · obtain ⟨_, id, _, _, _, _, _, _, ⟨_, hc⟩ | ⟨_, cells, _, _, hc⟩⟩ := outcome_singleton h <;>
      (cases hc; exact ⟨rfl, rfl⟩)

namespace Storage.Faithful

variable {σ : Type} {S : Storage σ} {kept : String → Prop} (faithful : S.Faithful kept)
  {conn : Connection} {dialect : Dialect}
include faithful

/-- Reducing groups reads only, whatever the look-ups find. -/
theorem of_reduceGroups {b : Buffer} {keys : List Value} {st st' : σ} {commands : List Command}
    (h : Action.Yields S.answer (b.reduceGroups conn dialect keys) st commands st') :
    (∀ t, kept t → S.tables st' t = S.tables st t) ∧
      ∀ c ∈ commands, ∃ key found, b.outcome key found = .ok (some c) := by
  induction keys generalizing st commands with
  | nil =>
    obtain ⟨rfl, rfl⟩ := Action.yields_pure_iff.1 h
    exact ⟨fun _ _ => rfl, fun _ h => nomatch h⟩
  | cons key keys ih =>
    simp only [Buffer.reduceGroups, Action.yields_bind_iff, Action.yields_pure_iff] at h
    obtain ⟨here, st₁, hhere, rest, _, hrest, rfl, rfl⟩ := h
    obtain ⟨q, found, c, _, hfound, outcome, rfl⟩ := Buffer.yields_reduceGroup_iff.1 hhere
    obtain ⟨same, emitted⟩ := ih hrest
    refine ⟨fun t ht => ?_, fun c' hc' => ?_⟩
    · have quiet := faithful.quiet (r := .query conn q) (s := st) trivial t ht
      rw [hfound] at quiet
      rw [same t ht, quiet]
    · rcases List.mem_append.1 hc' with hc' | hc'
      · exact ⟨key, found, by rw [outcome, Option.mem_toList.1 hc']⟩
      · exact emitted c' hc'

theorem of_reduceAll {buffers : List Buffer} {st st' : σ} {commands : List Command}
    (h : Action.Yields S.answer (Buffer.reduceAll conn dialect buffers) st commands st') :
    (∀ t, kept t → S.tables st' t = S.tables st t) ∧
      ∀ c ∈ commands, ∃ b ∈ buffers, ∃ key found, b.outcome key found = .ok (some c) := by
  induction buffers generalizing st commands with
  | nil =>
    obtain ⟨rfl, rfl⟩ := Action.yields_pure_iff.1 h
    exact ⟨fun _ _ => rfl, fun _ h => nomatch h⟩
  | cons b bs ih =>
    simp only [Buffer.reduceAll, Action.yields_bind_iff, Action.yields_pure_iff] at h
    obtain ⟨here, st₁, hhere, rest, _, hrest, rfl, rfl⟩ := h
    obtain ⟨same, emitted⟩ := faithful.of_reduceGroups hhere
    obtain ⟨same', emitted'⟩ := ih hrest
    refine ⟨fun t ht => (same' t ht).trans (same t ht), fun c hc => ?_⟩
    rcases List.mem_append.1 hc with hc | hc
    · exact ⟨b, List.mem_cons_self, emitted c hc⟩
    · obtain ⟨b', hb', outcome⟩ := emitted' c hc
      exact ⟨b', List.mem_cons_of_mem b hb', outcome⟩

end Storage.Faithful

theorem Edit.isDocument_documentCommand (e : Edit) (check : Bool) :
    (e.documentCommand check).isDocument = true := by
  cases e <;> rfl

theorem Edit.tables_documentCommand (e : Edit) (check : Bool) :
    (e.documentCommand check).tables = [.documents e.names] := by
  cases e <;> rfl

/-- The command on a document leaves the documents of other collections. -/
theorem Edit.execute_of_ne {catalog : Catalog} (distinct : catalog.Distinct) {e : Edit}
    (used : catalog.collections e.names) {settings : Settings} {collection : String}
    (used' : catalog.collections (settings.names collection))
    (other : collection ≠ e.names.collection) (check : Bool) (db : Database) :
    db.execute (e.documentCommand check).statement (settings.names collection).document =
      db (settings.names collection).document := by
  refine Database.execute_of_ne db ?_
  rw [e.table?_documentCommand, ne_eq, Option.some.injEq]
  refine distinct.name_ne (t := .documents e.names) (u := .documents (settings.names collection))
    used used' fun same => ?_
  rw [Table.documents.injEq] at same
  exact other (congrArg TableNames.collection same).symm

/-- A command on a document has one statement. -/
theorem Command.statements_of_isDocument {c : Command} (document : c.isDocument = true)
    (id : Int64) : c.statements id = [c.statement] := by
  cases c <;> first | rfl | cases document

/-- No document is inserted under the id of another. -/
def Storage.Keyed {σ : Type} (S : Storage σ) (catalog : Catalog) : Prop :=
  ∀ {conn table id cells st n st'}, catalog.IsDocuments table →
    S.answer (.execute conn (.insert table (Command.idCell id :: cells))) st = (.ok n, st') →
      (S.tables st).byId table id = []

/-- A command on a document that succeeds has executed its statement. -/
theorem Command.executed_of_run {σ : Type} {answer : Answerer σ} {c : Command}
    (document : c.isDocument = true) {conn : Connection} {st st' : σ}
    (h : Action.Yields answer (c.run conn) st () st') :
    ∃ n st₁, answer (.execute conn c.statement) st = (.ok n, st₁) := by
  cases c with
  | createDocument _ _ _ _ | deleteDocument _ _ | updateDocument _ _ _ _ _ _ =>
    obtain ⟨n, st₁, executed, _⟩ := Action.yields_bind_iff.1 h
    exact ⟨n, st₁, executed⟩
  | createMapRow | deleteMapRows | createReduceRow | updateReduceRow
  | deleteReduceRow => cases document

/-- What was pushed for edits and what is decided on for groups are the commands on the documents of
the edits, and commands on other tables of the catalog. -/
theorem Edit.cases_of_mem_decided {check : Bool} {catalog : Catalog} {edits : List Edit}
    {p : FlushPlan} (planned : planAll check catalog edits = .ok p)
    (used : ∀ e ∈ edits, catalog.collections e.names) {emitted : List Command}
    (sources : ∀ c ∈ emitted, ∃ b ∈ p.arena.buffers, ∃ key found,
      b.outcome key found = .ok (some c)) {c : Command} (hc : c ∈ p.arena.commands ++ emitted) :
    (∃ e ∈ edits, c = e.documentCommand check) ∨
    c.isDocument = false ∧ ∀ t ∈ c.tables, catalog.Has t := by
  rcases List.mem_append.1 hc with hc | hc
  · rw [commands_of_planAll planned] at hc
    obtain ⟨e, he, hc⟩ := List.mem_flatMap.1 hc
    obtain rfl | ⟨d, hd, hc⟩ := mem_commands_iff.1 hc
    · exact .inl ⟨e, he, rfl⟩
    · obtain ⟨kind, hc⟩ := cases_of_mem_mapCommands hc
      have has : catalog.Has (.rows .map e.names d.index.name) :=
        ⟨used e he, e.entity, d, hd, kind, rfl⟩
      rcases hc with rfl | ⟨_, cells, rfl⟩ <;> exact .inr ⟨rfl, List.forall_mem_singleton.2 has⟩
  · obtain ⟨b, hb, key, found, outcome⟩ := sources c hc
    obtain ⟨usedHere, kind, entity, hd⟩ := (tidy_of_planAll used planned).described b hb
    have described : catalog.Describes .reduce b.names b.descriptor.index.name :=
      ⟨entity, b.descriptor, hd, kind, rfl⟩
    obtain ⟨apart, tables⟩ := Buffer.tables_of_outcome outcome
    refine .inr ⟨apart, fun t ht => ?_⟩
    rw [tables, List.mem_cons, List.mem_singleton] at ht
    rcases ht with rfl | rfl <;> exact ⟨usedHere, described⟩

/-- The end of a flush reads only. It answers in order what was pushed and commands on
aggregate rows, and all of them are about tables of the catalog. -/
theorem Storage.Faithful.of_finish {σ : Type} {S : Storage σ} {kept : String → Prop}
    (faithful : S.Faithful kept) {conn : Connection} {dialect : Dialect} {check : Bool}
    {catalog : Catalog} {edits : List Edit} {p : FlushPlan}
    (planned : Edit.planAll check catalog edits = .ok p)
    (used : ∀ e ∈ edits, catalog.collections e.names) {st st' : σ} {commands : List Command}
    (h : Action.Yields S.answer (p.arena.finish conn dialect) st commands st') :
    (∀ t, kept t → S.tables st' t = S.tables st t) ∧
      (∃ emitted, commands = Command.inOrder (p.arena.commands ++ emitted) ∧
        ∀ c ∈ emitted, c.isDocument = false ∧
        ∃ names index, c.tables = [.rows .reduce names index, .links names index]) ∧
      ∀ c ∈ commands, ∀ t ∈ c.tables, catalog.Has t := by
  simp only [Arena.finish, Action.yields_bind_iff, Action.yields_pure_iff] at h
  obtain ⟨emitted, _, hemitted, rfl, rfl⟩ := h
  obtain ⟨same, sources⟩ := faithful.of_reduceAll hemitted
  refine ⟨same, ⟨emitted, rfl, fun c hc => ?_⟩, fun c hc t ht => ?_⟩
  · obtain ⟨b, _, key, found, outcome⟩ := sources c hc
    obtain ⟨apart, tables⟩ := Buffer.tables_of_outcome outcome
    exact ⟨apart, _, _, tables⟩
  rcases Edit.cases_of_mem_decided planned used sources (Command.mem_inOrder_iff.1 hc) with
    ⟨e, he, rfl⟩ | ⟨_, has⟩
  · rw [Edit.tables_documentCommand] at ht
    obtain rfl := List.mem_singleton.1 ht
    exact used e he
  · exact has t ht

namespace Documents

/-- What an edit makes of the documents. -/
def edit (docs : Documents) (e : Edit) : Documents := Function.update docs e.key e.leaves

/-- What edits make of them, one after the other. -/
def edited (docs : Documents) (edits : List Edit) : Documents := edits.foldl edit docs

theorem edited_of_not_mem {docs : Documents} {edits : List Edit} {key : DocKey}
    (h : key ∉ edits.map Edit.key) : docs.edited edits key = docs key := by
  induction edits generalizing docs with
  | nil => rfl
  | cons e es ih =>
    rw [List.map_cons, List.mem_cons, not_or] at h
    exact (ih h.2).trans (Function.update_of_ne h.1 _ _)

/-- Where edits are of different documents, each leaves what it describes. -/
theorem edited_of_mem {docs : Documents} {edits : List Edit} (once : (edits.map Edit.key).Nodup)
    {e : Edit} (h : e ∈ edits) : docs.edited edits e.key = e.leaves := by
  induction edits generalizing docs with
  | nil => cases h
  | cons e' es ih =>
    obtain ⟨new, once⟩ := List.nodup_cons.1 once
    rcases List.mem_cons.1 h with rfl | h
    · exact (edited_of_not_mem new).trans (Function.update_self _ _ _)
    · exact ih once h

theorem edited_perm {docs : Documents} {edits edits' : List Edit}
    (once : (edits.map Edit.key).Nodup) (perm : edits'.Perm edits) :
    docs.edited edits' = docs.edited edits := by
  have keys := perm.map Edit.key
  funext key
  by_cases mem : key ∈ edits.map Edit.key
  · obtain ⟨e, he, rfl⟩ := List.mem_map.1 mem
    rw [edited_of_mem once he, edited_of_mem (keys.nodup_iff.2 once) (perm.mem_iff.2 he)]
  · rw [edited_of_not_mem mem, edited_of_not_mem (mt keys.mem_iff.1 mem)]

namespace Stored

variable {docs : Documents} {settings : Settings} {catalog : Catalog} {db db' : Database}
  (stored : docs.Stored settings catalog db)
include stored

theorem congr (same : ∀ t, catalog.IsDocuments t → db' t = db t) :
    docs.Stored settings catalog db' := by
  refine ⟨fun collection used => ?_, fun collection used id => ?_⟩
  · rw [same _ ⟨_, used, rfl⟩]
    exact stored.identified collection used
  · rw [Database.byId, same _ ⟨_, used, rfl⟩]
    exact stored.rows collection used id

/-- A document has its row. -/
theorem exists_row {collection : String} (used : catalog.collections (settings.names collection))
    {id : Int64} {doc : StoredDocument} (h : docs ⟨collection, id⟩ = some doc) :
    Row.document id doc ∈ db (settings.names collection).document := by
  have row : Row.document id doc ∈ db.byId (settings.names collection).document id := by
    rw [stored.rows collection used id, h]
    exact List.mem_singleton_self _
  exact (Database.mem_byId_iff.1 row).1

/-- What is found under an id, in whatever order, is the row of the document if there is one. -/
theorem found_eq {collection : String} (used : catalog.collections (settings.names collection))
    {id : Int64} {found : List Row}
    (perm : found.Perm (db.byId (settings.names collection).document id)) :
    found = ((docs ⟨collection, id⟩).map (Row.document id)).toList := by
  rw [stored.rows collection used id] at perm
  cases h : docs ⟨collection, id⟩ with
  | none =>
    rw [h] at perm
    exact List.perm_nil.1 perm
  | some doc =>
    rw [h] at perm
    exact List.perm_singleton.1 perm

/-- The command on a document changes the map at its key, to what the edit leaves. -/
theorem documentCommand (distinct : catalog.Distinct) {e : Edit}
    (used : catalog.collections e.names) (here : e.names = settings.names e.names.collection)
    (finds : docs e.key = e.finds) (check : Bool) :
    (docs.edit e).Stored settings catalog (db.execute (e.documentCommand check).statement) := by
  have identified := stored.identified e.names.collection (here ▸ used)
  have rows := stored.rows e.names.collection (here ▸ used)
  rw [← here] at identified rows
  have found := rows e.id
  rw [show docs ⟨e.names.collection, e.id⟩ = e.finds from finds] at found
  have others : ∀ collection, catalog.collections (settings.names collection) →
      collection ≠ e.names.collection →
      db.execute (e.documentCommand check).statement (settings.names collection).document =
        db (settings.names collection).document :=
    fun _ used' other => e.execute_of_ne distinct used used' other check db
  refine ⟨fun collection used' => ?_, fun collection used' id => ?_⟩
  · by_cases same : collection = e.names.collection
    · rw [same, ← here]
      exact Database.identified_documentCommand identified
    · rw [others collection used' same]
      exact stored.identified collection used'
  · by_cases same : collection = e.names.collection
    · rw [same, ← here, Database.byId_documentCommand identified found]
      by_cases key : e.id = id
      · rw [if_pos key, ← key]
        exact congrArg (fun doc => (doc.map (Row.document e.id)).toList)
          (Function.update_self e.key e.leaves docs).symm
      · rw [if_neg key, rows, edit, Function.update_of_ne]
        exact fun h => key (congrArg DocKey.id h).symm
    · rw [Database.byId, others collection used' same, edit, Function.update_of_ne]
      · exact stored.rows collection used' id
      · exact fun h => same (congrArg DocKey.collection h)

omit stored in
/-- Commands that succeed, of which those on documents are sent for edits that find what they were
planned for. Where no two documents share an id, a new one has found none. -/
theorem runAll {σ : Type} {S : Storage σ} (faithful : S.Faithful catalog.IsDocuments)
    (distinct : catalog.Distinct) {check : Bool} {conn : Connection} {commands : List Command}
    {edits : List Edit} {st st' : σ} (stored : docs.Stored settings catalog (S.tables st))
    (has : ∀ c ∈ commands, ∀ t ∈ c.tables, catalog.Has t)
    (documents : (commands.filter Command.isDocument).map Command.statement =
      edits.map fun e => (e.documentCommand check).statement)
    (used : ∀ e ∈ edits, catalog.collections e.names)
    (here : ∀ e ∈ edits, e.names = settings.names e.names.collection)
    (finds : ∀ e ∈ edits, docs e.key = e.finds ∨ e.finds = none ∧ S.Keyed catalog)
    (once : (edits.map Edit.key).Nodup)
    (h : Action.Yields S.answer (Command.runAll conn commands) st () st') :
    (∀ e ∈ edits, docs e.key = e.finds) ∧
    (docs.edited edits).Stored settings catalog (S.tables st') := by
  induction commands generalizing docs edits st with
  | nil =>
    obtain rfl := List.map_eq_nil_iff.1 documents.symm
    obtain ⟨_, rfl⟩ := Action.yields_pure_iff.1 h
    exact ⟨fun _ he => (by cases he), stored⟩
  | cons c cs ih =>
    obtain ⟨_, st₁, hc, hcs⟩ := Action.yields_bind_iff.1 h
    obtain ⟨id, _, on⟩ := Command.on_run faithful hc
    have has' : ∀ c' ∈ cs, ∀ t ∈ c'.tables, catalog.Has t :=
      fun c' hc' => has c' (List.mem_cons_of_mem c hc')
    cases document : c.isDocument with
    | true =>
      rw [List.filter_cons_of_pos document, List.map_cons] at documents
      obtain ⟨e, es, rfl, statement, rest⟩ := List.map_eq_cons_iff.1 documents.symm
      obtain ⟨new, once⟩ := List.nodup_cons.1 once
      obtain ⟨used, used'⟩ := List.forall_mem_cons.1 used
      obtain ⟨here, here'⟩ := List.forall_mem_cons.1 here
      obtain ⟨first, finds'⟩ := List.forall_mem_cons.1 finds
      have found : docs e.key = e.finds := by
        rcases first with found | ⟨none, keyed⟩
        · exact found
        · obtain ⟨n, st₂, executed⟩ := Command.executed_of_run document hc
          rw [← statement] at executed
          cases e with
          | create names id entity json content =>
            have empty := keyed ⟨names, used, rfl⟩ executed
            rw [show names = settings.names names.collection from here,
              stored.rows _ (here ▸ used)] at empty
            simpa [Edit.key, Edit.finds, Edit.names, Edit.id] using empty
          | update | delete => cases none
      have stored' := stored.documentCommand distinct used here found check
      have others : ∀ e' ∈ es, (docs.edit e) e'.key = docs e'.key := by
        intro e' he'
        rw [edit, Function.update_of_ne]
        exact fun same => new (same ▸ List.mem_map_of_mem he')
      have tables : ∀ t, catalog.IsDocuments t →
          S.tables st₁ t = (S.tables st).execute (e.documentCommand check).statement t :=
        fun t ht => by
          rw [on t ht, Command.statements_of_isDocument document, ← statement]
          rfl
      obtain ⟨founds, written⟩ := ih (stored'.congr tables) has' rest.symm used' here'
        (fun e' he' => by rw [others e' he']; exact finds' e' he') once hcs
      exact ⟨List.forall_mem_cons.2 ⟨found, fun e' he' => (others e' he') ▸ founds e' he'⟩, written⟩
    | false =>
      rw [List.filter_cons_of_neg (by simp [document])] at documents
      refine ih (stored.congr ?_) has' documents used here finds once hcs
      rintro t ⟨names, used, rfl⟩
      rw [on _ ⟨names, used, rfl⟩]
      exact Command.executeAll_frame distinct (has c List.mem_cons_self)
        (t := .documents names) used (Command.not_mem_tables document names) id (S.tables st)

omit stored in
/-- The flush of edits of different documents, each of which finds its document in the state that it
was planned for. Its type a document keeps. -/
theorem flush {σ : Type} {S : Storage σ} (faithful : S.Faithful catalog.IsDocuments)
    (distinct : catalog.Distinct) {check : Bool} {conn : Connection} {dialect : Dialect}
    {commands : List Command} {edits : List Edit} {p : FlushPlan} {st st₁ st₂ : σ}
    (stored : docs.Stored settings catalog (S.tables st))
    (planned : Edit.planAll check catalog edits = .ok p)
    (used : ∀ e ∈ edits, catalog.collections e.names)
    (here : ∀ e ∈ edits, e.names = settings.names e.names.collection)
    (finds : ∀ e ∈ edits, (docs e.key).map StoredDocument.state = e.finds.map StoredDocument.state ∨
      e.finds = none ∧ S.Keyed catalog)
    (once : (edits.map Edit.key).Nodup)
    (finished : Action.Yields S.answer (p.arena.finish conn dialect) st commands st₁)
    (ran : Action.Yields S.answer (Command.runAll conn commands) st₁ () st₂) :
    (∀ e ∈ edits, e.finds = none → docs e.key = none) ∧
      (docs.edited (edits.map (Edit.typed docs))).Stored settings catalog (S.tables st₂) := by
  obtain ⟨same, ⟨emitted, rfl, apart⟩, has⟩ := faithful.of_finish planned used finished
  have documents :
      (((Command.inOrder (p.arena.commands ++ emitted)).filter Command.isDocument).map
        Command.statement).Perm
      ((edits.map (Edit.typed docs)).map fun e => (e.documentCommand check).statement) := by
    have one : ∀ e : Edit, (e.commands check catalog).filter Command.isDocument =
        [e.documentCommand check] := by
      intro e
      rw [Edit.commands, List.filter_cons_of_pos (e.isDocument_documentCommand check),
        List.filter_eq_nil_iff.2]
      intro c hc
      obtain ⟨d, _, hc⟩ := List.mem_flatMap.1 hc
      obtain ⟨_, rfl | ⟨_, cells, rfl⟩⟩ := Edit.cases_of_mem_mapCommands hc <;>
        exact Bool.false_ne_true
    have none : emitted.filter Command.isDocument = [] := by
      refine List.filter_eq_nil_iff.2 fun c hc => ?_
      rw [(apart c hc).1]
      exact Bool.false_ne_true
    refine (((Command.inOrder_perm _).filter _).map _).trans (List.Perm.of_eq ?_)
    rw [List.filter_append, none, List.append_nil, Edit.commands_of_planAll planned,
      List.filter_flatMap]
    simp only [one]
    have pushed : (edits.flatMap fun e => [e.documentCommand check]) =
        edits.map (Edit.documentCommand check) :=
      List.flatMap_pure_eq_map _ _
    rw [pushed, List.map_map, List.map_map]
    exact List.map_congr_left fun e _ => (e.statement_typed docs check).symm
  obtain ⟨es, hes, perm⟩ := exists_map_of_perm documents
  have ofEdit : ∀ e' ∈ es, ∃ e ∈ edits, e.typed docs = e' :=
    fun e' he' => List.mem_map.1 (perm.mem_iff.1 he')
  have once' : ((edits.map (Edit.typed docs)).map Edit.key).Nodup :=
    Edit.map_key_typed docs edits ▸ once
  obtain ⟨founds, written⟩ := runAll faithful distinct (stored.congr same) has hes.symm
    (fun e' he' => by obtain ⟨e, he, rfl⟩ := ofEdit e' he'; rw [e.names_typed]; exact used e he)
    (fun e' he' => by obtain ⟨e, he, rfl⟩ := ofEdit e' he'; rw [e.names_typed]; exact here e he)
    (fun e' he' => by
      obtain ⟨e, he, rfl⟩ := ofEdit e' he'
      rw [e.key_typed, e.isNone_finds_typed]
      exact (finds e he).imp_left Edit.finds_typed)
    ((perm.map Edit.key).nodup_iff.2 once') ran
  refine ⟨fun e he none => ?_, edited_perm once' perm ▸ written⟩
  have found := founds _ (perm.mem_iff.2 (List.mem_map_of_mem he))
  rwa [e.key_typed, (e.isNone_finds_typed docs).2 none] at found

end Stored

end Documents

end DocStore

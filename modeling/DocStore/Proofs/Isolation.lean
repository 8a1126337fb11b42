import DocStore.Proofs.SentStatements

/-!
# Collections beside each other

Every statement that is sent for a collection names tables of that collection
only, and of these only what it is about: what a call on a session is about is
known from the call and from the changes that wait. So a statement reaches a
table of another collection, or of another index, just where that table has the
name of one of its own.
-/

set_option autoImplicit false

namespace DocStore

/-! ## Schemas -/

/-- The plans for a collection: its documents and its indexes are given their tables,
and indexes lose theirs. -/
inductive SchemaPlan.For (names : TableNames) : SchemaPlan → Prop where
  | start : For names (.start names)
  | createDocuments {plan : SchemaPlan} : For names plan → For names plan.createDocumentTable
  | createMap {plan : SchemaPlan} (index : IndexType) :
      For names plan → For names (plan.createMapTable index)
  | createReduce {plan : SchemaPlan} (index : IndexType) :
      For names plan → For names (plan.createReduceTable index)
  | dropIndex {plan : SchemaPlan} (index : IndexType) :
      For names plan → For names (plan.dropIndex index)

/-- The tables of the documents and of one index. -/
def LogicalTable.ofIndex (index : String) : List LogicalTable :=
  [.documents, .rows index, .links index]

namespace SchemaPlan.For

variable {names : TableNames} {plan : SchemaPlan}

theorem names_eq (h : For names plan) : plan.names = names := by
  induction h with
  | start => rfl
  | createDocuments _ ih | createMap _ _ ih | createReduce _ _ ih | dropIndex _ _ ih => exact ih

/-- Every command of a plan is about the documents and one index of the collection. -/
theorem over_commands (h : For names plan) :
    ∀ command ∈ plan.commands, ∃ index,
      (Statement.schema command).Over names (LogicalTable.ofIndex index) := by
  have documents (index : String) : names.Named (LogicalTable.ofIndex index) names.document :=
    ⟨.documents, by simp [LogicalTable.ofIndex], rfl⟩
  have rows (index : String) : names.Named (LogicalTable.ofIndex index) (names.index index) :=
    ⟨.rows index, by simp [LogicalTable.ofIndex], rfl⟩
  have links (index : String) : names.Named (LogicalTable.ofIndex index) (names.bridge index) :=
    ⟨.links index, by simp [LogicalTable.ofIndex], rfl⟩
  induction h with
  | start => exact fun _ h => by cases h
  | createDocuments made ih =>
    simp only [createDocumentTable, push, made.names_eq, List.forall_mem_append,
      List.forall_mem_singleton]
    refine ⟨⟨ih, "", ?_⟩, "", ?_⟩
    · exact List.forall_mem_cons.2 ⟨documents "", fun _ h => by cases h⟩
    · exact List.forall_mem_singleton.2 (documents "")
  | createMap index made ih =>
    simp only [createMapTable, push, made.names_eq, List.forall_mem_append,
      List.forall_mem_singleton]
    refine ⟨⟨ih, index.name, ?_⟩, index.name, ?_⟩
    · exact List.forall_mem_cons.2 ⟨rows _, List.forall_mem_singleton.2 (documents _)⟩
    · exact List.forall_mem_singleton.2 (rows _)
  | createReduce index made ih =>
    simp only [createReduceTable, push, made.names_eq, List.forall_mem_append,
      List.forall_mem_singleton]
    refine ⟨⟨⟨ih, index.name, ?_⟩, index.name, ?_⟩, index.name, ?_⟩
    · exact List.forall_mem_cons.2 ⟨rows _, fun _ h => by cases h⟩
    · exact List.forall_mem_cons.2 ⟨links _,
        List.forall_mem_cons.2 ⟨rows _, List.forall_mem_singleton.2 (documents _)⟩⟩
    · exact List.forall_mem_singleton.2 (links _)
  | dropIndex index made ih =>
    simp only [SchemaPlan.dropIndex, dropTable, push, made.names_eq, List.forall_mem_append,
      List.forall_mem_singleton]
    refine ⟨⟨ih, index.name, ?_⟩, index.name, ?_⟩
    · exact List.forall_mem_singleton.2 (links _)
    · exact List.forall_mem_singleton.2 (rows _)

end SchemaPlan.For

/-! ## Calls -/

/-- What a call on a session is about: tables of one collection. A flush is about each table of the
collections of the documents that wait, one at a time. -/
inductive Call.Concerns (session : Session) : Call → String → List LogicalTable → Prop where
  | save {entity : EntityType} {collection : String} {content : Json} :
    Concerns session (.save entity collection content) collection [.documents]
  | read {q : Read} : Concerns session (.read q) q.collection q.scope
  | join {qs : List Read} {q : Read} : q ∈ qs → Concerns session (.join qs) q.collection q.scope
  | flush {change : Pending} {t : LogicalTable} : change ∈ session.pending →
    Concerns session .flush change.key.collection [t]
  | saveChanges {change : Pending} {t : LogicalTable} : change ∈ session.pending →
    Concerns session .saveChanges change.key.collection [t]

/-- A statement over tables that a call is about. -/
def Call.Sends (call : Call) (session : Session) (s : Statement) : Prop :=
  ∃ collection ts, call.Concerns session collection ts ∧
    s.Over (session.settings.names collection) ts

/-- Whatever is called on a session sends only statements over tables that the call is about. -/
theorem Call.abidesAt_work (call : Call) (session : Session) :
    call.work.AbidesAt session.settings (call.Sends session) (fun _ => True) session := by
  have flushes (call : Call) (concerns : ∀ change ∈ session.pending,
        ∀ t, call.Concerns session change.key.collection [t]) :
      Session.flush.AbidesAt session.settings (call.Sends session) (fun _ => True) session := by
    have single : ∀ names t s,
        (∃ change ∈ session.pending, names = session.settings.names change.key.collection) →
        Statement.Over names [t] s → call.Sends session s := by
      rintro _ t s ⟨change, waits, rfl⟩ within
      exact ⟨change.key.collection, [t], concerns change waits t, within⟩
    exact Session.abidesAt_flush single rfl fun change waits => ⟨change, waits, rfl⟩
  cases call with
  | save entity collection content =>
    refine Work.Abides.bind (Session.abides_save (fun ps => ?_) entity content)
      (fun _ _ => Work.abides_pure trivial) session rfl
    exact ⟨collection, [.documents], .save, Statement.over_maxId ps⟩
  | delete entity collection content =>
    exact Session.abides_delete entity collection content session rfl
  | read q =>
    have started : q.start.Abides session.settings (Sends (.read q) session) (Reading.Abides _ _) :=
      Session.abides_start fun s within => ⟨q.collection, q.scope, .read, within⟩
    exact Work.Abides.bind (Reading.abides_alone started)
      (fun _ _ => Work.abides_pure trivial) session rfl
  | join qs =>
    refine Work.Abides.bind (Session.abides_joinAll fun start hstart => ?_)
      (fun _ _ => Work.abides_pure trivial) session rfl
    obtain ⟨q, hq, rfl⟩ := List.mem_map.1 hstart
    exact Session.abides_start fun s within => ⟨q.collection, q.scope, .join hq, within⟩
  | flush => exact flushes .flush fun change waits t => .flush waits
  | saveChanges =>
    exact (flushes .saveChanges fun change waits t => .saveChanges waits).bind fun _ _ =>
      Session.abides_conclude
  | cancel =>
    have cancels : Session.cancel.Abides session.settings (Sends .cancel session) fun _ => True :=
      Work.abides_modify fun _ => rfl
    exact cancels session rfl
  | close => exact Session.abides_rollback session rfl

/-! ## Isolation -/

/-- The statement names only some tables of a collection. So it names a table of another collection,
or another table of this one, just where one of these has the same name. -/
structure Statement.KeepsTo (settings : Settings) (collection : String) (ts : List LogicalTable)
    (s : Statement) : Prop where
  within : s.Over (settings.names collection) ts
  coincides : ∀ collection' t', (settings.names collection').table t' ∈ s.tables →
    ∃ t ∈ ts, t.Coincides collection t' collection'

theorem Statement.Over.keepsTo {settings : Settings} {collection : String} {ts : List LogicalTable}
    {s : Statement} (h : s.Over (settings.names collection) ts) :
    s.KeepsTo settings collection ts where
  within := h
  coincides collection' t' named := by
    obtain ⟨t, ht, same⟩ := h _ named
    exact ⟨t, ht, (TableNames.table_eq_iff _ _ _ _ _).1 same.symm⟩

namespace Action

variable {settings : Settings} {collection : String}

theorem asks_initializeCollection : (initializeCollection settings collection).Asks
    (Request.Carries fun s => s.KeepsTo settings collection [.documents]) :=
  Asks.bind (asks_silent rfl) fun _ => Session.asks_seedFromStorage fun ps =>
    (Statement.over_maxId ps).keepsTo

theorem asks_applySchema {plan : SchemaPlan} (h : plan.For (settings.names collection)) :
    (applySchema plan).Asks
    (Request.Carries fun s =>
      ∃ index, s.KeepsTo settings collection (LogicalTable.ofIndex index)) := by
  refine Asks.bind (asks_silent rfl) fun conn =>
    asks_executeAll_of (List.forall_mem_map.2 fun command hc => ?_)
  obtain ⟨index, within⟩ := h.over_commands command hc
  exact Request.carries_of_some rfl ⟨index, within.keepsTo⟩

end Action

/-- Tables are called the same just where they coincide, whatever they and the collections are
called, and of plain names no two do. Whatever is called on a session, planned for a collection or
looked up to begin with one, every statement that is sent keeps to tables of a collection that it is
about. -/
theorem isolated :
    (∀ (tablePrefix collection collection' : String) (t t' : LogicalTable),
      TableNames.table ⟨tablePrefix, collection⟩ t =
          TableNames.table ⟨tablePrefix, collection'⟩ t' ↔
        t.Coincides collection t' collection') ∧
    (∀ collections indexes : String → Prop, PlainNames collections indexes →
      ∀ tablePrefix c c' t t',
      collections c → collections c' → LogicalTable.Over indexes t → LogicalTable.Over indexes t' →
        TableNames.table ⟨tablePrefix, c⟩ t = TableNames.table ⟨tablePrefix, c'⟩ t' →
          c = c' ∧ t = t') ∧
    (∀ (session : Session) (call : Call) events result session',
      Work.Emits call.work session events result session' →
      (∀ e ∈ events, e.Serves session.settings) → ∀ e ∈ events, ∀ s, e.request.statement? = some s →
        ∃ collection ts, call.Concerns session collection ts ∧
          s.KeepsTo session.settings collection ts) ∧
    (∀ (settings : Settings) (collection : String),
      (Action.initializeCollection settings collection).Asks
          (Request.Carries fun s => s.KeepsTo settings collection [.documents]) ∧
        ∀ plan : SchemaPlan, plan.For (settings.names collection) → (Action.applySchema plan).Asks
          (Request.Carries fun s =>
            ∃ index, s.KeepsTo settings collection (LogicalTable.ofIndex index))) := by
  refine ⟨TableNames.table_eq_iff, ?_, ?_, fun settings collection =>
    ⟨Action.asks_initializeCollection, fun plan => Action.asks_applySchema⟩⟩
  · intro collections indexes plain tablePrefix c c' t t' hc hc' ht ht' same
    exact plain.eq_of_coincides hc hc' ht ht' ((TableNames.table_eq_iff _ _ _ _ _).1 same)
  · intro session call events result session' emits served e he s sent
    obtain ⟨collection, ts, concerns, within⟩ :=
      ((call.abidesAt_work session).of_emits emits served).1 e he s sent
    exact ⟨collection, ts, concerns, within.keepsTo⟩

/-- The documents are called like the rows of an index `Document`, and those of a collection like
the links of an index of its name. -/
theorem shared_names :
    ("", LogicalTable.documents) ≠ ("", .rows "Document") ∧
      TableNames.table ⟨"", ""⟩ .documents = TableNames.table ⟨"", ""⟩ (.rows "Document") ∧
        ("ByDay", LogicalTable.documents) ≠ ("", .links "ByDay") ∧
          TableNames.table ⟨"", "ByDay"⟩ .documents =
            TableNames.table ⟨"", ""⟩ (.links "ByDay") := by
  decide

namespace Counting

/-- A document of the collection `ByDay` is loaded. -/
def loading : Call := .read (.get entity "ByDay" 7)

/-- All that is asked for it. -/
def asked : List Event := (Program.record readOnly (loading.work.run.run opened) ()).1

/-- A collection `Archive` is kept apart from the default one with its index `ByDay`.
The loading from a collection `ByDay` keeps to the documents there, which are called
like the links of that index. -/
theorem isolated_loading :
    TableNames.table ⟨"", "Archive"⟩ .documents ≠ TableNames.table ⟨"", ""⟩ (.links "ByDay") ∧
      (∃ e ∈ asked, ∃ s, e.request.statement? = some s ∧ s.KeepsTo settings "ByDay" [.documents] ∧
        (settings.names "").table (.links "ByDay") ∈ s.tables) ∧
      (Action.applySchema ((SchemaPlan.start main).createReduceTable index)).Asks
        (Request.Carries fun s => ∃ i, s.KeepsTo settings "" (LogicalTable.ofIndex i)) := by
  refine ⟨fun same => ?_, ?_, (isolated.2.2.2 settings "").2 _ (.createReduce index .start)⟩
  · have plain : PlainNames (· ∈ ["", "Archive"]) (· ∈ ["ByDay"]) :=
      ⟨by decide, by decide, by decide, by decide⟩
    have distinct := isolated.2.1 _ _ plain "" "Archive" "" .documents (.links "ByDay") (by decide)
      (by decide) trivial (List.mem_singleton.2 rfl) same
    exact absurd distinct.1 (by decide)
  · have looks : asked.map (fun e => e.request.statement?.map Statement.tables) =
        [some ["ByDay_Document"]] := by decide +kernel
    have sent : ∀ e ∈ asked, e.request.statement?.map Statement.tables = some ["ByDay_Document"] :=
      fun e he => List.mem_singleton.1 (looks ▸ List.mem_map_of_mem he)
    have served : ∀ e ∈ asked, e.Serves settings := by
      rintro e he q collection args sql rfl
      exact absurd (sent _ he) (by simp [Request.statement?])
    obtain ⟨e, he⟩ := List.exists_mem_of_ne_nil asked fun none => by simp [none] at looks
    obtain ⟨s, hs, tables⟩ := Option.map_eq_some_iff.1 (sent e he)
    obtain ⟨_, _, concerns, keeps⟩ :=
      isolated.2.2.1 opened loading _ _ _ (Program.emits_record _ _ _) served e he s hs
    cases concerns
    exact ⟨e, he, s, hs, keeps, by rw [tables]; decide⟩

end Counting

end DocStore

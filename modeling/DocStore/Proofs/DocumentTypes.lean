import DocStore.Proofs.Courses

/-!
# The types of documents

All types of a collection share one space of ids, and a change names a document by
its id alone. A flush keeps the type that a document is stored with, but takes the
content and the descriptors from the change: so documents stay of one type just if
every change that is flushed suits what is stored.
-/

set_option autoImplicit false

namespace DocStore

variable {σ : Type}

/-- The type of the entity that wrote the content of a document, after a change of it was flushed. A
save of the stored content writes nothing. -/
def Pending.author (doc : Option StoredDocument) (author : String) : Pending → String
  | .save _ typeName _ content => if doc.map (·.state.content) = some content then author
      else typeName
  | .delete .. => author

/-- The types of the entities that wrote the contents of documents, after a flush. -/
def Session.authors (session : Session) (docs : Documents) (authors : DocKey → String) :
    DocKey → String := fun key =>
  (session.pendingChange key).elim (authors key) (Pending.author (docs key) (authors key))

/-- Every document was last written by an entity of its type, and every row of a map index is that
of a document whose type the index maps. -/
structure Database.WellTyped (db : Database) (settings : Settings) (catalog : Catalog)
    (authors : DocKey → String) : Prop where
  documents : ∀ collection, catalog.collections (settings.names collection) →
    ∀ row ∈ db (settings.names collection).document,
    ∃ id doc, row = Row.document id doc ∧ doc.typeName = authors ⟨collection, id⟩
  rows : ∀ collection index, catalog.Has (.rows .map (settings.names collection) index) →
    ∀ row ∈ db ((settings.names collection).index index), ∃ id doc,
      row.value? Column.documentIdName = some (.int id) ∧
      Row.document id doc ∈ db (settings.names collection).document ∧
        catalog.Maps (settings.names collection) doc.typeName index

/-- A change leaves the types of documents: it saves a document under the type that it has, or as it
is; or it deletes one that has no rows in the indexes that do not map its type. -/
def Pending.Suits (settings : Settings) (catalog : Catalog) (db : Database) (docs : Documents) :
    Pending → Prop
  | .save key typeName _ content =>
    ∀ doc, docs key = some doc → doc.typeName = typeName ∨ doc.state.content = content
  | .delete key typeName =>
    ∀ index, catalog.Has (.rows .map (settings.names key.collection) index) →
      catalog.Maps (settings.names key.collection) typeName index ∨
        db.ofDocument ((settings.names key.collection).index index) key.id = []

/-! ## One document -/

/-- The rows of a map index say of which document they are. -/
def Database.NamesDocuments (db : Database) (settings : Settings) (catalog : Catalog) : Prop :=
  ∀ collection index, catalog.Has (.rows .map (settings.names collection) index) →
    ∀ row ∈ db ((settings.names collection).index index), ∃ id,
      row.value? Column.documentIdName = some (.int id)

/-- A document was last written by an entity of its type, and only indexes that map its
type have rows of it. -/
structure Documents.TypedAt (docs : Documents) (settings : Settings) (catalog : Catalog)
    (authors : DocKey → String) (db : Database) (key : DocKey) : Prop where
  author : ∀ doc, docs key = some doc → doc.typeName = authors key
  rows : ∀ index, catalog.Has (.rows .map (settings.names key.collection) index) →
    db.ofDocument ((settings.names key.collection).index index) key.id ≠ [] →
      ∃ doc, docs key = some doc ∧ catalog.Maps (settings.names key.collection) doc.typeName index

theorem Documents.TypedAt.eq_nil_of_missing {docs : Documents} {settings : Settings}
    {catalog : Catalog} {authors : DocKey → String} {db : Database} {key : DocKey}
    (typed : docs.TypedAt settings catalog authors db key) (missing : docs key = none)
    {index : String} (has : catalog.Has (.rows .map (settings.names key.collection) index)) :
    db.ofDocument ((settings.names key.collection).index index) key.id = [] := by
  by_contra some
  obtain ⟨doc, hdoc, _⟩ := typed.rows index has some
  rw [missing] at hdoc
  cases hdoc

theorem Database.ofDocument_ne_nil_iff {db : Database} {table : String} {id : Int64} :
    db.ofDocument table id ≠ [] ↔
    ∃ row ∈ db table, row.value? Column.documentIdName = some (.int id) := by
  simp [ofDocument]

section Stored

variable {docs : Documents} {settings : Settings} {catalog : Catalog} {db : Database}
  (stored : docs.Stored settings catalog db)
include stored

theorem Documents.Stored.mem_of_eq_some {key : DocKey}
    (used : catalog.collections (settings.names key.collection)) {doc : StoredDocument}
    (h : docs key = some doc) :
    Row.document key.id doc ∈ db (settings.names key.collection).document := by
  have mem : Row.document key.id doc ∈ db.byId (settings.names key.collection).document key.id := by
    rw [stored.rows key.collection used, show docs ⟨key.collection, key.id⟩ = some doc from h]
    exact List.mem_singleton_self _
  exact (Database.mem_byId_iff.1 mem).1

theorem Documents.Stored.exists_of_mem {collection : String}
    (used : catalog.collections (settings.names collection)) {row : Row}
    (h : row ∈ db (settings.names collection).document) :
    ∃ id doc, row = Row.document id doc ∧ docs ⟨collection, id⟩ = some doc := by
  obtain ⟨id, doc, same, impossible | here⟩ :=
    stored.storedBut (fun _ => False) collection used row h
  · exact impossible.elim
  · exact ⟨id, doc, same, here⟩

/-- A database of documents is well typed as far as each of them is. -/
theorem Documents.Stored.wellTyped_iff {authors : DocKey → String} :
    db.WellTyped settings catalog authors ↔
    db.NamesDocuments settings catalog ∧
      ∀ key, catalog.collections (settings.names key.collection) →
        docs.TypedAt settings catalog authors db key := by
  -- the row of a document says its id and its type
  have same {id id' : Int64} {doc doc' : StoredDocument}
      (h : Row.document id doc = Row.document id' doc') :
      id = id' ∧ doc.typeName = doc'.typeName := by
    have read := Document.ofRow_document id doc
    rw [h, Document.ofRow_document] at read
    exact ⟨(congrArg Document.id (Except.ok.inj read)).symm,
      (congrArg Document.typeName (Except.ok.inj read)).symm⟩
  constructor
  · intro typed
    refine ⟨fun collection index has row hrow => ?_, fun key used =>
      ⟨fun doc hdoc => ?_, fun index has rows => ?_⟩⟩
    · obtain ⟨id, _, named, _⟩ := typed.rows collection index has row hrow
      exact ⟨id, named⟩
    · obtain ⟨id, doc', read, author⟩ :=
        typed.documents key.collection used _ (stored.mem_of_eq_some used hdoc)
      obtain ⟨rfl, type⟩ := same read
      exact type.trans author
    · obtain ⟨row, hrow, named⟩ := Database.ofDocument_ne_nil_iff.1 rows
      obtain ⟨id, doc, named', hdoc, maps⟩ := typed.rows key.collection index has row hrow
      rw [named] at named'
      cases named'
      obtain ⟨id, doc', read, hdoc'⟩ := stored.exists_of_mem used hdoc
      obtain ⟨rfl, type⟩ := same read
      exact ⟨doc', hdoc', type ▸ maps⟩
  · rintro ⟨named, typed⟩
    refine ⟨fun collection used row hrow => ?_, fun collection index has row hrow => ?_⟩
    · obtain ⟨id, doc, rfl, hdoc⟩ := stored.exists_of_mem used hrow
      exact ⟨id, doc, rfl, (typed ⟨collection, id⟩ used).author doc hdoc⟩
    · obtain ⟨id, here⟩ := named collection index has row hrow
      obtain ⟨doc, hdoc, maps⟩ := (typed ⟨collection, id⟩ has.1).rows index has
        (Database.ofDocument_ne_nil_iff.2 ⟨row, hrow, here⟩)
      exact ⟨id, doc, here, stored.mem_of_eq_some has.1 hdoc, maps⟩

end Stored

/-- Where documents are of their types, changes of the type that is stored suit. -/
theorem Pending.suits_of_typeName {settings : Settings} {catalog : Catalog} {db : Database}
    {docs : Documents} {authors : DocKey → String} {change : Pending}
    (typed : docs.TypedAt settings catalog authors db change.key)
    (same : ∀ doc, docs change.key = some doc → doc.typeName = change.typeName) :
    change.Suits settings catalog db docs := by
  cases change with
  | save key typeName json content => exact fun doc hdoc => .inl (same doc hdoc)
  | delete key typeName =>
    intro index has
    rcases Classical.em (db.ofDocument ((settings.names key.collection).index index) key.id =
      []) with none | some
    · exact .inr none
    · obtain ⟨doc, hdoc, maps⟩ := typed.rows index has some
      obtain rfl : doc.typeName = typeName := same doc hdoc
      exact .inl maps

/-! ## What a flush makes of the rows of a document -/

/-- Whatever is true of the rows of a map index, and of all rows that say of which document
they are, stays true. -/
theorem Command.forall_rows_runAll {S : Storage σ} {kept : String → Prop}
    (faithful : S.Faithful kept) {catalog : Catalog} (distinct : catalog.Distinct)
    {names : TableNames} {index : String} (has' : catalog.Has (.rows .map names index))
    (keeps : kept (names.index index)) {P : Row → Prop}
    (inserted : ∀ id cells, P ⟨documentCell id :: cells⟩) {conn : Connection}
    {commands : List Command} (has : ∀ c ∈ commands, ∀ t ∈ c.tables, catalog.Has t) {st st' : σ}
    (before : ∀ row ∈ S.tables st (names.index index), P row)
    (h : Action.Yields S.answer (runAll conn commands) st () st') :
    ∀ row ∈ S.tables st' (names.index index), P row := by
  induction commands generalizing st with
  | nil =>
    obtain ⟨_, rfl⟩ := Action.yields_pure_iff.1 h
    exact before
  | cons c cs ih =>
    obtain ⟨_, st₁, hc, hcs⟩ := Action.yields_bind_iff.1 h
    obtain ⟨first, rest⟩ := List.forall_mem_cons.1 has
    refine ih rest ?_ hcs
    obtain ⟨id, _, on⟩ := on_run faithful hc
    rw [on _ keeps]
    by_cases own : .rows .map names index ∈ c.tables
    · cases c with
      | createMapRow names' index' document cells =>
        obtain ⟨rfl, rfl⟩ : names = names' ∧ index = index' := by simpa [tables] using own
        change ∀ row ∈
          (S.tables st).execute (.insert (names.index index) (documentCell document :: cells))
            (names.index index), P row
        rw [Database.execute_insert]
        intro row hrow
        rcases List.mem_append.1 hrow with hrow | hrow
        · exact before row hrow
        · obtain rfl := List.mem_singleton.1 hrow
          exact inserted document cells
      | deleteMapRows names' index' document =>
        obtain ⟨rfl, rfl⟩ : names = names' ∧ index = index' := by simpa [tables] using own
        change ∀ row ∈ (S.tables st).execute (.delete (names.index index) [documentCell document])
          (names.index index), P row
        rw [Database.execute_delete]
        exact fun row hrow => before row (List.mem_filter.1 hrow).1
      | createDocument _ _ _ _ | updateDocument _ _ _ _ _ _ | deleteDocument _ _
      | createReduceRow _ _ _ _
      | updateReduceRow _ _ _ _ _ _ | deleteReduceRow _ _ _ => simp [tables] at own
    · rw [show (S.tables st).executeAll (c.statements id) (names.index index) =
        S.tables st (names.index index) from
        executeAll_frame distinct first has' own id _]
      exact before

namespace Moment.Holds

variable {S : Storage σ} {settings : Settings} {catalog : Catalog} {committed : σ → Database}
  (hosts : S.Hosts settings catalog committed) {m : Moment σ}
  (holds : m.Holds S settings catalog committed) {session : Session} {st : σ}
  (h : Work.Yields S.answer Session.flushPending m.session m.st () session st)
include hosts holds h

/-- A flush runs the commands that it has planned on the tables as they were. -/
theorem runs_of_flushPending : ∃ plan st₁ commands st₂,
    Edit.planAll m.session.settings.config.checkConcurrency catalog (m.session.edits m.current) =
        .ok plan ∧
      S.tables st₁ = S.tables m.st ∧
        Action.Yields S.answer (plan.arena.finish m.session.connection m.session.settings.dialect)
            st₁ commands st₂ ∧
          Action.Yields S.answer (Command.runAll m.session.connection commands) st₂ () st := by
  obtain ⟨plan, planned, st₁, begun, st₂, commands, st₃, writes⟩ := Session.writes_of_flushPending h
  obtain ⟨plans, _, _, _, tables⟩ := holds.of_writes hosts writes
  exact ⟨plan, st₂, commands, st₃, plans, tables, writes.finishes, writes.runs⟩

omit hosts h in
theorem used_of_mem_edits {e : Edit} (he : e ∈ m.session.edits m.current) :
    catalog.collections e.names ∧ e.names = settings.names e.names.collection := by
  obtain ⟨change, hchange, hedit, _⟩ := Session.exists_of_mem_edits he
  rw [(Pending.key_of_edit hedit).2, holds.waits.same]
  exact ⟨holds.waits.each change hchange, rfl⟩

/-- The rows of map indexes go on to say of which document they are. -/
theorem namesDocuments_flushed (named : (S.tables m.st).NamesDocuments settings catalog) :
    (S.tables st).NamesDocuments settings catalog := by
  obtain ⟨plan, st₁, commands, st₂, planned, tables, finished, ran⟩ :=
    holds.runs_of_flushPending hosts h
  obtain ⟨same, _, hasAll⟩ :=
    hosts.faithful.of_finish planned (fun e he => (holds.used_of_mem_edits he).1) finished
  intro collection index has
  refine Command.forall_rows_runAll hosts.faithful hosts.distinct has trivial
    (fun id _ => ⟨id, rfl⟩) hasAll ?_ ran
  rw [same _ trivial, tables]
  exact named collection index has

/-- What a flush makes of the rows that a document has in a map index: if its change comes to an
edit, the rows go that its type maps to, and the rows come that it maps to now. -/
theorem rows_flushed {key : DocKey} {index : String}
    (has : catalog.Has (.rows .map (settings.names key.collection) index)) :
    ((S.tables st).ofDocument ((settings.names key.collection).index index) key.id).Perm
      (match (m.session.pendingChange key).bind (Pending.edit settings m.current) with
        | none => (S.tables m.st).ofDocument ((settings.names key.collection).index index) key.id
        | some e =>
          (if e.before.isSome ∧ catalog.Maps (settings.names key.collection) e.entity index then []
            else (S.tables m.st).ofDocument ((settings.names key.collection).index index) key.id) ++
              (e.document .added).elim [] fun doc =>
                doc.mapRows catalog (settings.names key.collection) index) := by
  obtain ⟨plan, st₁, commands, st₂, planned, tables, finished, ran⟩ :=
    holds.runs_of_flushPending hosts h
  have used : ∀ e ∈ m.session.edits m.current, catalog.collections e.names :=
    fun e he => (holds.used_of_mem_edits he).1
  have same := holds.waits.same
  rw [← tables]
  cases edit : (m.session.pendingChange key).bind (Pending.edit settings m.current) with
  | none =>
    refine Database.ofDocument_of_other hosts.faithful hosts.distinct has trivial used planned
      finished ran fun e he here => ?_
    obtain ⟨change, hchange, hedit, key'⟩ := Session.exists_of_mem_edits he
    have mine : change.key = key := by rw [← key', Edit.key, here.1, here.2]; rfl
    rw [← mine, Session.pendingChange_of_mem holds.waits.once hchange, Option.bind_some, ← same,
      hedit] at edit
    cases edit
  | some e =>
    obtain ⟨change, waits, hedit⟩ := Option.bind_eq_some_iff.1 edit
    obtain ⟨hchange, rfl⟩ := Session.mem_of_pendingChange waits
    obtain ⟨key', names⟩ := Pending.key_of_edit hedit
    have he : e ∈ m.session.edits m.current := List.mem_filterMap.2 ⟨change, hchange, same ▸ hedit⟩
    have once : ((m.session.edits m.current).map fun e => (e.names, e.id)).Nodup := by
      refine List.Nodup.of_map (fun p : TableNames × Int64 => DocKey.mk p.1.collection p.2) ?_
      rw [List.map_map]
      exact Session.nodup_edits m.current holds.waits.once
    have id : e.id = change.key.id := congrArg DocKey.id key'
    have rows := Database.ofDocument_of_once hosts.faithful hosts.distinct has trivial used planned
      finished ran once he names
    rwa [id] at rows

/-- After an edit a document has rows only in indexes that map the type of the edit, or
in which it had some. -/
theorem maps_of_rows_flushed {key : DocKey} {e : Edit}
    (edit : (m.session.pendingChange key).bind (Pending.edit settings m.current) = some e)
    {index : String} (has : catalog.Has (.rows .map (settings.names key.collection) index))
    (some : (S.tables st).ofDocument ((settings.names key.collection).index index) key.id ≠ []) :
    catalog.Maps (settings.names key.collection) e.entity index ∨
      (S.tables m.st).ofDocument ((settings.names key.collection).index index) key.id ≠ [] := by
  by_contra none
  obtain ⟨unmapped, before⟩ := not_or.1 none
  have comes :
      ((e.document .added).elim [] fun doc =>
        doc.mapRows catalog (settings.names key.collection) index) = [] := by
    cases added : e.document .added with
    | none => rfl
    | some doc =>
      obtain ⟨json, _, rfl⟩ := Option.map_eq_some_iff.1 added
      exact LiveDocument.mapRows_of_not_maps unmapped
  have rows := holds.rows_flushed hosts h has
  rw [edit] at rows
  dsimp only at rows
  rw [comes, not_not.1 before, ite_self] at rows
  exact some (List.perm_nil.1 rows)

/-- A document for which nothing is written stays as it is. -/
theorem typedAt_of_unedited {authors : DocKey → String} {key : DocKey}
    (typed : m.current.TypedAt settings catalog authors (S.tables m.st) key)
    (none : (m.session.pendingChange key).bind (Pending.edit settings m.current) = none)
    (same : m.session.flushed m.current key = m.current key)
    (author : m.session.authors m.current authors key = authors key) :
    (m.session.flushed m.current).TypedAt settings catalog (m.session.authors m.current authors)
      (S.tables st) key := by
  refine ⟨fun doc hdoc => ?_, fun index has some => ?_⟩
  · rw [same] at hdoc
    rw [author]
    exact typed.author doc hdoc
  · have rows := holds.rows_flushed hosts h has
    rw [none] at rows
    rw [same]
    exact typed.rows index has fun empty => some (List.perm_nil.1 (empty ▸ rows))

/-- A document that is saved is of its type just if it is saved under the type
that it has, or as it is. -/
theorem typedAt_of_save {authors : DocKey → String} {key : DocKey} {typeName content : String}
    {json : Json} (typed : m.current.TypedAt settings catalog authors (S.tables m.st) key)
    (waits : m.session.pendingChange key = some (.save key typeName json content)) :
    (m.session.flushed m.current).TypedAt settings catalog (m.session.authors m.current authors)
        (S.tables st) key ↔
      (Pending.save key typeName json content).Suits settings catalog (S.tables m.st)
        m.current := by
  have left : m.session.flushed m.current key =
      (Intent.save typeName json content).apply (m.current key) := by
    rw [Session.flushed, waits]
    rfl
  have author : m.session.authors m.current authors key =
      if (m.current key).map (·.state.content) = some content then authors key else typeName := by
    rw [Session.authors, waits]
    rfl
  cases hdoc : m.current key with
  | none =>
    have edit : (m.session.pendingChange key).bind (Pending.edit settings m.current) =
        some (.create (settings.names key.collection) key.id typeName json content) := by
      simp [waits, Pending.edit, hdoc]
    rw [hdoc] at left author
    refine ⟨fun _ doc here => ?_, fun _ =>
      ⟨fun doc here => ?_, fun index has some => ⟨_, left, ?_⟩⟩⟩
    · rw [hdoc] at here
      cases here
    · rw [left] at here
      cases here
      exact author.symm
    · exact (holds.maps_of_rows_flushed hosts h edit has some).resolve_right fun before =>
        before (typed.eq_nil_of_missing hdoc has)
  | some doc =>
    by_cases same : doc.state.content = content
    · refine ⟨fun _ doc' here => ?_, fun _ => holds.typedAt_of_unedited hosts h typed ?_ ?_ ?_⟩
      · rw [hdoc] at here
        cases here
        exact .inr same
      · simp [waits, Pending.edit, hdoc, same]
      · simp [left, hdoc, Intent.apply, same]
      · simp [author, hdoc, same]
    · have edit : (m.session.pendingChange key).bind (Pending.edit settings m.current) =
          some (.update (settings.names key.collection) key.id typeName json content
            doc.state) := by
        simp [waits, Pending.edit, hdoc, same]
      have after : (Intent.save typeName json content).apply (some doc) =
          some { doc with state := ⟨content, json, doc.state.version + 1⟩ } := if_neg same
      rw [hdoc, after] at left
      rw [hdoc, if_neg (by simpa using same)] at author
      constructor
      · intro typed' doc' here
        rw [hdoc] at here
        cases here
        exact .inl ((typed'.author _ left).trans author)
      · intro suits
        have type : doc.typeName = typeName := (suits doc hdoc).resolve_right same
        refine ⟨fun doc' here => ?_, fun index has some => ⟨_, left, ?_⟩⟩
        · rw [left] at here
          cases here
          rw [author]
          exact type
        · rcases holds.maps_of_rows_flushed hosts h edit has some with maps | before
          · exact type ▸ maps
          · obtain ⟨doc', here, maps⟩ := typed.rows index has before
            rw [hdoc] at here
            cases here
            exact maps

/-- A document that is deleted leaves no rows just if its type maps to all that it has. -/
theorem typedAt_of_delete {authors : DocKey → String} {key : DocKey} {typeName : String}
    (typed : m.current.TypedAt settings catalog authors (S.tables m.st) key)
    (waits : m.session.pendingChange key = some (.delete key typeName)) :
    (m.session.flushed m.current).TypedAt settings catalog (m.session.authors m.current authors)
        (S.tables st) key ↔
      (Pending.delete key typeName).Suits settings catalog (S.tables m.st) m.current := by
  have gone : m.session.flushed m.current key = none := by
    rw [Session.flushed, waits]
    rfl
  cases hdoc : m.current key with
  | none =>
    refine ⟨fun _ index has => .inr (typed.eq_nil_of_missing hdoc has),
      fun _ => holds.typedAt_of_unedited hosts h typed ?_ ?_ ?_⟩
    · simp [waits, Pending.edit, hdoc]
    · rw [gone, hdoc]
    · rw [Session.authors, waits]
      rfl
  | some doc =>
    have rows {index : String}
        (has : catalog.Has (.rows .map (settings.names key.collection) index)) :
        (S.tables st).ofDocument ((settings.names key.collection).index index) key.id = [] ↔
          catalog.Maps (settings.names key.collection) typeName index ∨
            (S.tables m.st).ofDocument ((settings.names key.collection).index index) key.id =
              [] := by
      have rows := holds.rows_flushed hosts h has
      rw [waits, Option.bind_some] at rows
      simp only [Pending.edit, hdoc, Option.map_some, Edit.before, Option.isSome_some, true_and,
        Edit.document, Edit.side, Edit.after, Option.map_none, Option.elim_none,
        List.append_nil] at rows
      rw [← List.perm_nil, rows.congr_left, List.perm_nil, Edit.entity]
      split
      · next maps => simp [maps]
      · next unmapped => simp [unmapped]
    constructor
    · intro typed' index has
      rw [← rows has]
      exact typed'.eq_nil_of_missing gone has
    · intro suits
      refine ⟨fun doc' here => ?_, fun index has some =>
        absurd ((rows has).2 (suits index has)) some⟩
      rw [gone] at here
      cases here

/-- After a flush a document is of its type just if the change of it suits, if there is one. -/
theorem typedAt_flushed {authors : DocKey → String} {key : DocKey}
    (typed : m.current.TypedAt settings catalog authors (S.tables m.st) key) :
    (m.session.flushed m.current).TypedAt settings catalog (m.session.authors m.current authors)
        (S.tables st) key ↔
      ∀ change, m.session.pendingChange key = some change →
        change.Suits settings catalog (S.tables m.st) m.current := by
  cases waits : m.session.pendingChange key with
  | none =>
    refine ⟨fun _ _ impossible => (by cases impossible),
      fun _ => holds.typedAt_of_unedited hosts h typed ?_ ?_ ?_⟩
    · rw [waits, Option.bind_none]
    · rw [Session.flushed, waits, Option.elim_none]
    · rw [Session.authors, waits, Option.elim_none]
  | some change =>
    obtain ⟨_, rfl⟩ := Session.mem_of_pendingChange waits
    simp only [Option.some.injEq, forall_eq']
    cases change with
    | save key typeName json content => exact holds.typedAt_of_save hosts h typed waits
    | delete key typeName => exact holds.typedAt_of_delete hosts h typed waits

/-- A flush that writes leaves a database well typed just if every change that waits suits. -/
theorem wellTyped_flushPending {authors : DocKey → String}
    (typed : (S.tables m.st).WellTyped settings catalog authors) :
    (S.tables st).WellTyped settings catalog (m.session.authors m.current authors) ↔
      ∀ change ∈ m.session.pending, change.Suits settings catalog (S.tables m.st) m.current := by
  obtain ⟨named, each⟩ := holds.stored.wellTyped_iff.1 typed
  have stored : (m.session.flushed m.current).Stored settings catalog (S.tables st) :=
    (holds.flushPending hosts h).stored
  rw [stored.wellTyped_iff, and_iff_right (holds.namesDocuments_flushed hosts h named)]
  constructor
  · intro typed' change hchange
    have used := holds.waits.each change hchange
    exact (holds.typedAt_flushed hosts h (each change.key used)).1 (typed' change.key used) change
      (Session.pendingChange_of_mem holds.waits.once hchange)
  · intro suits key used
    exact (holds.typedAt_flushed hosts h (each key used)).2 fun change waits =>
      suits change (Session.mem_of_pendingChange waits).1

end Moment.Holds

/-! ## The course of a session -/

/-- All changes that wait suit what is stored. -/
def Moment.Suits (S : Storage σ) (settings : Settings) (catalog : Catalog) (m : Moment σ) : Prop :=
  ∀ change ∈ m.session.pending, change.Suits settings catalog (S.tables m.st) m.current

/-- A session that goes on, with the types of the entities that wrote what is stored. All changes
that it has flushed suited. -/
inductive Moment.Course (S : Storage σ) (settings : Settings) (catalog : Catalog) (m : Moment σ)
    (authors : DocKey → String) : Moment σ → (DocKey → String) → Prop
  | refl : Course S settings catalog m authors m authors
  | calls {m₁ m₂ : Moment σ} {authors₁ : DocKey → String} :
      Course S settings catalog m authors m₁ authors₁ →
      m₁.Calls S settings catalog m₂ → Course S settings catalog m authors m₂ authors₁
  | writes {m₁ m₂ : Moment σ} {authors₁ : DocKey → String} :
      Course S settings catalog m authors m₁ authors₁ →
      m₁.Suits S settings catalog → m₁.Writes S m₂ →
        Course S settings catalog m authors m₂ (m₁.session.authors m₁.current authors₁)

section Course

variable {S : Storage σ} {settings : Settings} {catalog : Catalog} {committed : σ → Database}
  (hosts : S.Hosts settings catalog committed) {m m' : Moment σ}
  {authors authors' : DocKey → String}
include hosts

/-- A flush, and saving changes, leave a database well typed just if every
change that waits suits. -/
theorem Moment.Holds.wellTyped_of_writes (holds : m.Holds S settings catalog committed)
    (writes : m.Writes S m') (typed : (S.tables m.st).WellTyped settings catalog authors) :
    (S.tables m'.st).WellTyped settings catalog (m.session.authors m.current authors) ↔
    m.Suits S settings catalog := by
  have flush {session : Session} {st : σ}
      (h : Work.Yields S.answer Session.flush m.session m.st () session st) :
      (S.tables st).WellTyped settings catalog (m.session.authors m.current authors) ↔
      m.Suits S settings catalog := by
    rcases Session.cases_of_yields_flush holds.active h with ⟨nothing, _, rfl⟩ | written
    · have same : m.session.authors m.current authors = authors := by
        funext key
        rw [Session.authors, Session.pendingChange, nothing]
        rfl
      rw [same]
      refine iff_of_true typed ?_
      rw [Moment.Suits, nothing]
      exact fun _ impossible => by cases impossible
    · exact holds.wellTyped_flushPending hosts written typed
  cases writes with
  | flushes h => exact flush h
  | saves h =>
    obtain ⟨session₁, st₁, flushed, tables, rfl⟩ := holds.flush_of_saveChanges hosts h
    rw [Moment.st_saved, tables]
    exact flush flushed

/-- As long as all that is flushed suits, documents are of their types. -/
theorem Moment.Course.wellTyped (holds : m.Holds S settings catalog committed)
    (typed : (S.tables m.st).WellTyped settings catalog authors)
    (course : m.Course S settings catalog authors m' authors') :
    m'.Holds S settings catalog committed ∧
    (S.tables m'.st).WellTyped settings catalog authors' := by
  induction course with
  | refl => exact ⟨holds, typed⟩
  | calls _ calls ih =>
    obtain ⟨holds₁, typed₁⟩ := ih
    refine ⟨holds₁.calls hosts calls, ?_⟩
    obtain ⟨plain, _, comes⟩ := calls
    obtain ⟨_, _, tables, _⟩ := hosts.plain plain holds₁.waits.same comes
    rw [tables]
    exact typed₁
  | writes _ suits writes ih =>
    obtain ⟨holds₁, typed₁⟩ := ih
    exact ⟨holds₁.writes hosts writes, (holds₁.wellTyped_of_writes hosts writes typed₁).2 suits⟩

end Course

/-- However long a session goes on since it was opened on documents of their types: as long as what
it flushes suits, they are of their types, and the next flush that succeeds leaves them so just if
all that it flushes suits. Changes of the type that is stored do. -/
theorem Moment.Course.wellTyped_iff_suits {S : Storage σ} {settings : Settings} {catalog : Catalog}
    {committed : σ → Database} (hosts : S.Hosts settings catalog committed) {conn : Connection}
    {docs : Documents} {st : σ} (stored : docs.Stored settings catalog (S.tables st))
    (read : ∀ key doc, docs key = some doc →
      ∀ json, settings.serializer.deserialize doc.state.content = .ok json →
      json = doc.state.json) {authors authors' : DocKey → String}
    (typed : (S.tables st).WellTyped settings catalog authors) {m m' : Moment σ}
    (course : (Moment.opening settings conn docs st).Course S settings catalog authors m authors')
    (writes : m.Writes S m') :
    m.current.Stored settings catalog (S.tables m.st) ∧
    (S.tables m.st).WellTyped settings catalog authors' ∧
      ((S.tables m'.st).WellTyped settings catalog (m.session.authors m.current authors') ↔
        ∀ change ∈ m.session.pending, change.Suits settings catalog (S.tables m.st) m.current) ∧
      ∀ change ∈ m.session.pending,
        (∀ doc, m.current change.key = some doc → doc.typeName = change.typeName) →
        change.Suits settings catalog (S.tables m.st) m.current := by
  obtain ⟨holds, typed'⟩ := course.wellTyped hosts (Moment.holds_opening stored read) typed
  refine ⟨holds.stored, typed', holds.wellTyped_of_writes hosts writes typed',
    fun change hchange same => ?_⟩
  exact Pending.suits_of_typeName ((holds.stored.wellTyped_iff.1 typed').2 change.key
    (holds.waits.each change hchange)) same

namespace Announcing

open Counting (author dated kept shelf)

/-- An article is stored, and announced on the day before its own. -/
def shelved : Shared Unit :=
  ⟨fun t => if t = "ByDay" then [⟨[Command.documentCell 7, ("Day", .int 0)]⟩] else kept.tables t,
    none⟩

/-- An author is saved under its id. -/
def signed : (Except Error Unit × Session) × Shared Unit :=
  Program.run host.answer ((Call.save author "" (dated 7 2)).work.run.run ⟨Counting.settings, 0, ∅,
    [], [], false, false⟩) shelved

def overwritten : (Except Error Unit × Session) × Shared Unit :=
  Program.run host.answer (Session.saveChanges.run.run signed.1.2) signed.2

theorem shelved_stored : shelf.Stored Counting.settings catalog (host.tables shelved) := by
  have only : ∀ {collection}, catalog.collections (Counting.settings.names collection) →
      collection = "" := fun h =>
    congrArg TableNames.collection h
  refine ⟨fun collection used => ?_, fun collection used => ?_⟩
  · obtain rfl := only used
    exact Counting.shelf_stored.identified "" rfl
  · obtain rfl := only used
    exact Counting.shelf_stored.rows "" rfl

theorem shelved_wellTyped :
    (host.tables shelved).WellTyped Counting.settings catalog fun _ => "Article" := by
  refine ⟨fun collection used row hrow => ?_, fun collection index has row hrow => ?_⟩
  · obtain rfl : collection = "" := congrArg TableNames.collection used
    exact ⟨7, _, List.mem_singleton.1 hrow, rfl⟩
  · obtain ⟨used, entity, d, hd, _, rfl⟩ := has
    obtain rfl : collection = "" := congrArg TableNames.collection used
    obtain rfl : d = announcements := by
      simp only [catalog] at hd
      split at hd
      · exact List.mem_singleton.1 hd
      · cases hd
    obtain rfl := List.mem_singleton.1 hrow
    exact ⟨7, _, rfl, List.mem_singleton_self _, announcements, List.mem_singleton_self _, rfl, rfl⟩

/-- What is stored is an article still, but was written by an author. -/
theorem overwritten_mistyped :
    host.tables overwritten.2 "Document" =
        [Row.document 7 ⟨"Article", ⟨(dated 7 2).text, dated 7 2, 4⟩⟩] ∧
      signed.1.2.authors shelf (fun _ => "Article") ⟨"", 7⟩ = "Author" ∧
      (host.tables shelved).WellTyped Counting.settings catalog (fun _ => "Article") ∧
      ¬(host.tables overwritten.2).WellTyped Counting.settings catalog
        (signed.1.2.authors shelf fun _ => "Article") := by
  have saves : (Call.save author "" (dated 7 2)).work.Comes host.answer
      ⟨Counting.settings, 0, ∅, [], [], false, false⟩ shelved signed.1.1 signed.1.2 signed.2 := rfl
  have uses : (Call.save author "" (dated 7 2)).Proposes Counting.settings
      (Pending.InUse Counting.settings catalog) :=
    fun _ _ _ => rfl
  have writes : Work.Yields host.answer Session.saveChanges signed.1.2 signed.2 () overwritten.1.2
      overwritten.2 :=
    Work.yields_unit_of_isSome (r := overwritten) overwritten.eq_def.symm (by decide +kernel)
  have waits : signed.1.2.pending = [.save ⟨"", 7⟩ "Author" (dated 7 2) (dated 7 2).text] := by rfl
  have course : (Moment.opening Counting.settings 0 shelf shelved).Course host Counting.settings
      catalog (fun _ => "Article") _ _ :=
    .calls .refl ⟨by simp [Call.Plain], uses, saves⟩
  have types := course.wellTyped_iff_suits host_hosts shelved_stored
    (fun _ _ h _ => Counting.shelf_read h) shelved_wellTyped (.saves writes)
  rw [Moment.st_saved] at types
  refine ⟨by decide +kernel, by decide +kernel, types.2.1, fun typed => ?_⟩
  have mem : Pending.save ⟨"", 7⟩ "Author" (dated 7 2) (dated 7 2).text ∈ signed.1.2.pending := by
    rw [waits]
    exact List.mem_singleton_self _
  have suits := types.2.2.1.1 typed _ mem
  rcases suits ⟨"Article", ⟨(dated 7 1).text, dated 7 1, 3⟩⟩ rfl with type | content
  · exact absurd type (by decide)
  · exact absurd content (by decide +kernel)

end Announcing

end DocStore

import DocStore.Proofs.DocumentTables
import DocStore.Proofs.Maintained

/-!
# Map tables

The table of a map index shadows the documents: the rows of a document are those
that its content maps to, as often as it maps to them, and no row is left of a
document that is gone. A flush deletes the rows of a changed document and then
inserts them anew, in between the commands of all other documents; what counts
for one document are its own commands, and among those that the deletions come
first.
-/

set_option autoImplicit false

namespace DocStore

/-- Of a list without repetitions only one element contributes. -/
theorem flatMap_eq_of_mem {α β : Type} {l : List α} (nodup : l.Nodup) {a : α} (ha : a ∈ l)
    {f : α → List β} (others : ∀ b ∈ l, b ≠ a → f b = []) : l.flatMap f = f a := by
  obtain ⟨before, after, rfl⟩ := List.append_of_mem ha
  obtain ⟨notAfter, _⟩ := List.nodup_cons.1 (List.nodup_append.1 nodup).2.1
  have first : before.flatMap f = [] := List.flatMap_eq_nil_iff.2 fun b hb => by
    refine others b (List.mem_append_left _ hb) ?_
    rintro rfl
    exact (List.nodup_append.1 nodup).2.2 b hb b List.mem_cons_self rfl
  have last : after.flatMap f = [] := List.flatMap_eq_nil_iff.2 fun b hb => by
    refine others b (List.mem_append_right _ (List.mem_cons_of_mem a hb)) ?_
    rintro rfl
    exact notAfter hb
  rw [List.flatMap_append, List.flatMap_cons, first, last, List.nil_append, List.append_nil]

/-- The content maps to rows, all of which can be stored. -/
def Descriptor.Maps (d : Descriptor) (content : Json) : Prop :=
  ∃ rows, d.mapContent content = .ok rows ∧ ∀ row ∈ rows, ∃ cells, d.index.cells row = .ok cells

/-- A descriptor of a map index. -/
abbrev Descriptor.MapsTo (d : Descriptor) (index : String) : Prop :=
  d.kind = .map ∧ d.index.name = index

/-- Documents of a type are mapped by an index. -/
def Catalog.Maps (catalog : Catalog) (names : TableNames) (typeName index : String) : Prop :=
  ∃ d ∈ catalog.descriptors names typeName, d.MapsTo index

instance (catalog : Catalog) (names : TableNames) (typeName index : String) :
    Decidable (catalog.Maps names typeName index) :=
  inferInstanceAs (Decidable (∃ d ∈ _, _))

/-- The rows of a map index that a document is to have. -/
def LiveDocument.mapRows (doc : LiveDocument) (catalog : Catalog) (names : TableNames)
    (index : String) : List Row :=
  ((catalog.descriptors names doc.entity).filter fun d => d.MapsTo index).flatMap fun d =>
    (d.cellRows doc.json).map fun cells => ⟨Command.documentCell doc.id :: cells⟩

/-- A document has rows only in the indexes that map its type. -/
theorem LiveDocument.mapRows_of_not_maps {doc : LiveDocument} {catalog : Catalog}
    {names : TableNames} {index : String} (h : ¬catalog.Maps names doc.entity index) :
    doc.mapRows catalog names index = [] := by
  refine List.flatMap_eq_nil_iff.2 fun d hd => ?_
  obtain ⟨hd, maps⟩ := List.mem_filter.1 hd
  exact absurd ⟨d, hd, by simpa using maps⟩ h

namespace Database

/-- The rows of a table that belong to a document. -/
def ofDocument (db : Database) (table : String) (id : Int64) : List Row :=
  (db table).filter fun row => row.value? Column.documentIdName = some (.int id)

/-- The rows of every document are those that its content maps to, in any order,
and there are no others. -/
structure Shadows (db : Database) (catalog : Catalog) (names : TableNames) (index : String)
    (contents : Contents) : Prop where
  maps : ∀ doc ∈ contents.documents names, ∀ d ∈ catalog.descriptors names doc.entity,
    d.MapsTo index → d.Maps doc.json
  mapped : ∀ doc ∈ contents.documents names,
    (db.ofDocument (names.index index) doc.id).Perm (doc.mapRows catalog names index)
  gone : ∀ id, (∀ doc ∈ contents.documents names, doc.id ≠ id) →
    db.ofDocument (names.index index) id = []

theorem ofDocument_insert (db : Database) (table : String) (id id' : Int64) (cells : Cells) :
    (db.execute (.insert table (Command.documentCell id :: cells))).ofDocument table id' =
      db.ofDocument table id' ++ if id = id' then [⟨Command.documentCell id :: cells⟩] else [] := by
  rw [ofDocument, execute_insert, List.filter_append, ofDocument, List.filter_singleton,
    Row.value?_documentCell]
  by_cases same : id = id' <;> simp [same]

theorem ofDocument_delete (db : Database) (table : String) (id id' : Int64) :
    (db.execute (.delete table [Command.documentCell id])).ofDocument table id' =
      if id = id' then [] else db.ofDocument table id' := by
  have meets : ∀ row : Row, row.meets [Command.documentCell id] =
      decide (row.value? Column.documentIdName = some (.int id)) :=
    fun row => by rw [Bool.eq_iff_iff, decide_eq_true_eq]; exact Row.meets_singleton_iff
  simp only [ofDocument, execute_delete, List.filter_filter, meets]
  split
  · next same =>
    subst same
    simp
  · next other =>
    refine List.filter_congr fun row _ => ?_
    by_cases here : row.value? Column.documentIdName = some (.int id')
    · simp [here, Ne.symm other]
    · simp [here]

end Database

namespace Command

variable (names : TableNames) (index : String) (document : Int64)

/-- The row that a command inserts for a document into a map index. -/
def insertedRow? : Command → Option Row
  | .createMapRow names' index' document' cells =>
    if names' = names ∧ index' = index ∧ document' = document then
      some ⟨documentCell document :: cells⟩ else none
  | _ => none

/-- What a command makes of the rows of a document in a map index. -/
def onRows (rows : List Row) (c : Command) : List Row :=
  (if c = .deleteMapRows names index document then [] else rows) ++
  (c.insertedRow? names index document).toList

variable {names index document}

theorem insertedRow?_createMapRow (cells : Cells) :
    (createMapRow names index document cells).insertedRow? names index document =
    some ⟨documentCell document :: cells⟩ :=
  if_pos ⟨rfl, rfl, rfl⟩

/-- A command that inserts rows runs after all those that delete some. -/
theorem priority_of_insertedRow? {c : Command} {row : Row}
    (h : c.insertedRow? names index document = some row) : c.priority = 2 := by
  cases c <;> first | rfl | cases h

/-- The rows of a document are changed by the commands on its rows in the index only. -/
theorem ofDocument_statements {catalog : Catalog} (distinct : catalog.Distinct) {c : Command}
    (has : ∀ t ∈ c.tables, catalog.Has t) (has' : catalog.Has (.rows .map names index)) (id : Int64)
    (db : Database) : (db.executeAll (c.statements id)).ofDocument (names.index index) document =
      c.onRows names index document (db.ofDocument (names.index index) document) := by
  by_cases own : .rows .map names index ∈ c.tables
  · cases c with
    | createMapRow names' index' document' cells =>
      obtain ⟨rfl, rfl⟩ : names = names' ∧ index = index' := by simpa [tables] using own
      refine (db.ofDocument_insert _ _ _ _).trans ?_
      simp only [onRows, insertedRow?, reduceCtorEq, if_false, true_and]
      split
      · next same =>
        subst same
        rfl
      · rfl
    | deleteMapRows names' index' document' =>
      obtain ⟨rfl, rfl⟩ : names = names' ∧ index = index' := by simpa [tables] using own
      refine (db.ofDocument_delete _ _ _).trans ?_
      simp [onRows, insertedRow?]
    | createDocument _ _ _ _ | updateDocument _ _ _ _ _ _ | deleteDocument _ _
    | createReduceRow _ _ _ _
    | updateReduceRow _ _ _ _ _ _ | deleteReduceRow _ _ _ => simp [tables] at own
  · have frame := executeAll_frame distinct has has' own id db
    have apart : c ≠ .deleteMapRows names index document := by
      rintro rfl
      exact own List.mem_cons_self
    have none : c.insertedRow? names index document = none := by
      cases c with
      | createMapRow names' index' document' cells =>
        refine if_neg fun same => own ?_
        rw [same.1, same.2.1]
        exact List.mem_cons_self
      | _ => rfl
    rw [onRows, if_neg apart, none]
    simp only [Database.ofDocument, Option.toList, List.append_nil]
    exact congrArg _ frame

/-- Running commands changes the rows of a document one command after the other. -/
theorem ofDocument_runAll {σ : Type} {S : Storage σ} {kept : String → Prop}
    (faithful : S.Faithful kept) {catalog : Catalog} (distinct : catalog.Distinct)
    (has' : catalog.Has (.rows .map names index)) (keeps : kept (names.index index))
    {conn : Connection} {commands : List Command}
    (has : ∀ c ∈ commands, ∀ t ∈ c.tables, catalog.Has t) {st st' : σ}
    (h : Action.Yields S.answer (runAll conn commands) st () st') :
    (S.tables st').ofDocument (names.index index) document =
      commands.foldl (onRows names index document)
        ((S.tables st).ofDocument (names.index index) document) := by
  induction commands generalizing st with
  | nil =>
    obtain ⟨_, rfl⟩ := Action.yields_pure_iff.1 h
    rfl
  | cons c cs ih =>
    obtain ⟨_, st₁, hc, hcs⟩ := Action.yields_bind_iff.1 h
    obtain ⟨id, _, on⟩ := on_run faithful hc
    have first : (S.tables st₁).ofDocument (names.index index) document =
        c.onRows names index document ((S.tables st).ofDocument (names.index index) document) := by
      rw [← ofDocument_statements distinct (has c List.mem_cons_self) has' id]
      exact congrArg _ (on _ keeps)
    rw [ih (fun c' hc' => has c' (List.mem_cons_of_mem c hc')) hcs, first, List.foldl_cons]

/-- Where deletions come first, what is left are the rows inserted and, if nothing is
deleted, those before them. -/
theorem foldl_onRows {commands : List Command}
    (sorted : commands.Pairwise fun c c' => c.priority ≤ c'.priority) (rows : List Row) :
    commands.foldl (onRows names index document) rows =
      (if .deleteMapRows names index document ∈ commands then [] else rows) ++
        commands.filterMap (insertedRow? names index document) := by
  induction commands generalizing rows with
  | nil => simp
  | cons c cs ih =>
    obtain ⟨head, tail⟩ := List.pairwise_cons.1 sorted
    rw [List.foldl_cons, ih tail, onRows]
    cases hrow : c.insertedRow? names index document with
    | none =>
      rw [List.filterMap_cons_none hrow, Option.toList_none, List.append_nil]
      by_cases same : c = .deleteMapRows names index document
      · simp [same]
      · simp [same, Ne.symm same]
    | some row =>
      have late := priority_of_insertedRow? hrow
      have none : .deleteMapRows names index document ∉ c :: cs := by
        intro h
        rcases List.mem_cons.1 h with rfl | h
        · cases late
        · have early := head _ h
          rw [late] at early
          exact absurd early (by simp [priority])
      obtain ⟨apart, rest⟩ := not_or.1 (mt List.mem_cons.2 none)
      rw [List.filterMap_cons_some hrow, if_neg none, if_neg rest, if_neg (Ne.symm apart),
        Option.toList_some, List.append_assoc, List.singleton_append]

end Command

namespace Edit

variable {catalog : Catalog} {names : TableNames} {index : String} {id : Int64} {e : Edit}
  {check : Bool}

theorem mapCommands_of_map {d : Descriptor} (kind : d.kind = .map) : e.mapCommands d =
    (if e.before.isSome then [.deleteMapRows e.names d.index.name e.id] else []) ++
      e.after.elim [] fun json => (d.cellRows json).map fun cells =>
        .createMapRow e.names d.index.name e.id cells := by
  rw [mapCommands, kind]

theorem mapCommands_of_reduce {d : Descriptor} (kind : d.kind ≠ .map) : e.mapCommands d = [] := by
  unfold mapCommands
  split
  · rfl
  · next map => exact absurd map kind

theorem insertedRow?_documentCommand :
    (e.documentCommand check).insertedRow? names index id = none := by
  cases e <;> rfl

/-- What an edit leaves maps to rows that can be stored, or the edit is not planned. -/
theorem maps_of_planAll {edits : List Edit} {p : FlushPlan}
    (planned : planAll check catalog edits = .ok p) (he : e ∈ edits) {d : Descriptor}
    (hd : d ∈ catalog.descriptors e.names e.entity) (kind : d.kind = .map) {json : Json}
    (after : e.after = some json) : d.Maps json := by
  obtain ⟨p₁, p₂, plan⟩ := exists_step_of_foldlM planned e he
  obtain ⟨arena, arena', work⟩ := exists_step_of_foldlM (work_of_plan plan) d hd
  have each : ∀ {arena : Arena} {rows : List Json},
      arena.createMapRows e.names d e.id rows = .ok arena' →
      ∀ row ∈ rows, ∃ cells, d.index.cells row = .ok cells := by
    intro arena rows h row hrow
    obtain ⟨commands, hcommands, _⟩ := bind_eq_ok_iff.1 h
    obtain ⟨_, hc⟩ := (mapM_eq_ok hcommands).2 row hrow
    obtain ⟨cells, hcells, _⟩ := map_eq_ok_iff.1 hc
    exact ⟨cells, hcells⟩
  cases e with
  | create names id entity json' content =>
    cases after
    simp only [Edit.work, Arena.created, kind] at work
    obtain ⟨rows, hrows, work⟩ := bind_eq_ok_iff.1 work
    exact ⟨rows, hrows, each work⟩
  | update names id entity json' content old =>
    cases after
    simp only [Edit.work, Arena.updated, kind] at work
    obtain ⟨rows, hrows, work⟩ := bind_eq_ok_iff.1 work
    exact ⟨rows, hrows, each work⟩
  | delete names id entity old => cases after

/-- The rows that an edit inserts for its document are those of the document that it leaves. -/
theorem insertedRows_commands :
    (e.commands check catalog).filterMap (Command.insertedRow? e.names index e.id) =
    (e.document .added).elim [] fun doc => doc.mapRows catalog e.names index := by
  have one : ∀ d, (e.mapCommands d).filterMap (Command.insertedRow? e.names index e.id) =
      if d.MapsTo index then e.after.elim [] fun json =>
        (d.cellRows json).map fun cells => ⟨Command.documentCell e.id :: cells⟩
      else [] := by
    intro d
    by_cases kind : d.kind = .map
    · have deletion :
          (if e.before.isSome then [.deleteMapRows e.names d.index.name e.id] else []).filterMap
          (Command.insertedRow? e.names index e.id) = [] := by
        split <;> rfl
      rw [mapCommands_of_map kind, List.filterMap_append, deletion, List.nil_append]
      cases e.after with
      | none => simp
      | some json =>
        rw [Option.elim_some, Option.elim_some, List.filterMap_map]
        split
        · next maps =>
          obtain ⟨_, rfl⟩ := maps
          have inserted : ∀ cells ∈ d.cellRows json,
              (Command.insertedRow? e.names d.index.name e.id ∘ fun cells =>
                Command.createMapRow e.names d.index.name e.id cells) cells =
                  (some ∘ fun cells => (⟨Command.documentCell e.id :: cells⟩ : Row)) cells :=
            fun cells _ => Command.insertedRow?_createMapRow cells
          rw [List.filterMap_congr inserted, List.filterMap_eq_map]
        · next other =>
          refine List.filterMap_eq_nil_iff.2 fun cells _ => if_neg fun h => other ⟨kind, h.2.1⟩
    · rw [mapCommands_of_reduce kind, if_neg fun maps => kind maps.1]
      rfl
  rw [commands, List.filterMap_cons_none insertedRow?_documentCommand, List.filterMap_flatMap]
  simp only [one]
  unfold Edit.document Edit.side LiveDocument.mapRows
  cases e.after with
  | none => simp
  | some json =>
    rw [Option.map_some, Option.elim_some, flatMap_filter]
    rfl

/-- For other documents an edit inserts nothing. -/
theorem insertedRows_of_other (other : ¬(e.names = names ∧ e.id = id)) :
    (e.commands check catalog).filterMap (Command.insertedRow? names index id) = [] := by
  refine List.filterMap_eq_nil_iff.2 fun c hc => ?_
  rcases mem_commands_iff.1 hc with rfl | ⟨d, _, hc⟩
  · exact insertedRow?_documentCommand
  · obtain ⟨_, rfl | ⟨_, cells, rfl⟩⟩ := cases_of_mem_mapCommands hc
    · rfl
    · exact if_neg fun h => other ⟨h.1, h.2.2⟩

/-- The rows of a document are deleted if it was there and is of a type that maps to the index. -/
theorem mem_deleteMapRows_iff : .deleteMapRows names index id ∈ e.commands check catalog ↔
    (e.names = names ∧ e.id = id) ∧ e.before.isSome ∧ catalog.Maps e.names e.entity index := by
  constructor
  · intro h
    rcases mem_commands_iff.1 h with h | ⟨d, hd, h⟩
    · cases e <;> cases h
    · obtain ⟨kind, same | ⟨_, cells, same⟩⟩ := cases_of_mem_mapCommands h
      · cases same
        refine ⟨⟨rfl, rfl⟩, ?_, d, hd, kind, rfl⟩
        rw [mapCommands_of_map kind, List.mem_append] at h
        rcases h with h | h
        · split at h
          · next there => exact there
          · cases h
        · cases hafter : e.after with
          | none =>
            rw [hafter] at h
            cases h
          | some json =>
            rw [hafter] at h
            obtain ⟨_, _, impossible⟩ := List.mem_map.1 h
            cases impossible
      · cases same
  · rintro ⟨⟨rfl, rfl⟩, there, d, hd, kind, rfl⟩
    refine mem_commands_iff.2 (.inr ⟨d, hd, ?_⟩)
    rw [mapCommands_of_map kind, if_pos there]
    exact List.mem_append_left _ List.mem_cons_self

variable {edits : List Edit} {before after : Contents}

theorem mem_moved_iff {change : Change} {doc : LiveDocument} :
    doc ∈ moved edits names change ↔ ∃ e ∈ edits, e.names = names ∧
    e.document change = some doc := by
  simp [moved, and_assoc]

theorem id_of_document {change : Change} {doc : LiveDocument} (h : e.document change = some doc) :
    doc.id = e.id := by
  obtain ⟨json, _, rfl⟩ := Option.map_eq_some_iff.1 h
  rfl

/-- The documents of ids that are not edited stay. -/
theorem Turns.mem_iff_of_other (turns : Turns catalog edits before after) {doc : LiveDocument}
    (other : ∀ e ∈ edits, ¬(e.names = names ∧ e.id = doc.id)) :
    doc ∈ after.documents names ↔ doc ∈ before.documents names := by
  obtain ⟨kept, rest⟩ := turns.rest
  have unmoved : ∀ change, doc ∉ moved edits names change := by
    intro change h
    obtain ⟨e, he, hnames, document⟩ := mem_moved_iff.1 h
    exact other e he ⟨hnames, (id_of_document document).symm⟩
  rw [(rest names).1, (rest names).2, Multiset.mem_add, Multiset.mem_add, Multiset.mem_coe,
    Multiset.mem_coe]
  simp only [unmoved, or_false]

/-- The document of an edit is the one that has its id, before as after. -/
theorem Turns.mem_iff_of_edit (turns : Turns catalog edits before after) (he : e ∈ edits)
    {doc : LiveDocument} (id : doc.id = e.id) :
    (doc ∈ before.documents e.names ↔ e.document .removed = some doc) ∧
      (doc ∈ after.documents e.names ↔ e.document .added = some doc) := by
  obtain ⟨kept, rest⟩ := turns.rest
  obtain ⟨old, new⟩ := rest e.names
  have distinct :
      ∀ change,
        ((kept e.names + (moved edits e.names change : Multiset LiveDocument)).map
          LiveDocument.id).Nodup := by
    intro change
    cases change with
    | removed => exact old ▸ before.distinct e.names
    | added => exact new ▸ after.distinct e.names
  -- the edit has a document on one side or the other, so that no document of its id is kept
  have edited : ∃ change doc', e.document change = some doc' := by
    cases e with
    | create names id entity json content => exact ⟨.added, _, rfl⟩
    | update names id entity json content old => exact ⟨.added, _, rfl⟩
    | delete names id entity old => exact ⟨.removed, _, rfl⟩
  have notKept : doc ∉ kept e.names := by
    intro hdoc
    obtain ⟨change, doc', document⟩ := edited
    have nodup := distinct change
    rw [Multiset.map_add] at nodup
    refine Multiset.disjoint_left.1 (Multiset.nodup_add.1 nodup).2.2
      (Multiset.mem_map_of_mem _ hdoc) ?_
    rw [id, ← id_of_document document]
    exact Multiset.mem_map_of_mem _ (mem_moved_iff.2 ⟨e, he, rfl, document⟩)
  have mem : ∀ change, doc ∈ moved edits e.names change ↔ e.document change = some doc := by
    intro change
    rw [mem_moved_iff]
    constructor
    · rintro ⟨e', he', hnames, document⟩
      rwa [turns.eq_of_same he he' hnames.symm (id.symm.trans (id_of_document document))]
    · exact fun document => ⟨e, he, rfl, document⟩
  rw [old, new, Multiset.mem_add, Multiset.mem_add, Multiset.mem_coe, Multiset.mem_coe, mem, mem]
  simp only [notKept, false_or, and_self]

end Edit

section Flush

variable {σ : Type} {S : Storage σ} {kept : String → Prop} (faithful : S.Faithful kept)
  {catalog : Catalog} (distinct : catalog.Distinct) {names : TableNames} {index : String}
  (has : catalog.Has (.rows .map names index)) (keeps : kept (names.index index)) {check : Bool}
  {edits : List Edit} {p : FlushPlan} (used : ∀ e ∈ edits, catalog.collections e.names)
  (planned : Edit.planAll check catalog edits = .ok p) {conn : Connection} {dialect : Dialect}
  {st st₁ st₂ : σ} {commands : List Command}
  (finished : Action.Yields S.answer (p.arena.finish conn dialect) st commands st₁)
  (ran : Action.Yields S.answer (Command.runAll conn commands) st₁ () st₂)
include faithful distinct has keeps used planned finished ran

namespace Database

/-- What a flush makes of the rows of one document: they are deleted or stay, and
then some are inserted. -/
theorem ofDocument_flush (id : Int64) : ((S.tables st₂).ofDocument (names.index index) id).Perm
    ((if ∃ e ∈ edits, .deleteMapRows names index id ∈ e.commands check catalog then []
      else (S.tables st).ofDocument (names.index index) id) ++
        edits.flatMap fun e =>
          (e.commands check catalog).filterMap (Command.insertedRow? names index id)) := by
  obtain ⟨same, ⟨emitted, rfl, apart⟩, hasAll⟩ := faithful.of_finish planned used finished
  have pushed : ∀ c, c ∈ p.arena.commands ↔ ∃ e ∈ edits, c ∈ e.commands check catalog :=
    fun c => Edit.mem_pushed_iff planned
  have late : ∀ c ∈ emitted, c ≠ .deleteMapRows names index id ∧
      c.insertedRow? names index id = none := by
    intro c hc
    obtain ⟨_, names', index', tables⟩ := apart c hc
    cases c with
    | createMapRow _ _ _ _ | deleteMapRows _ _ _ => cases tables
    | _ => exact ⟨fun h => (by cases h), rfl⟩
  have deletes : .deleteMapRows names index id ∈ Command.inOrder (p.arena.commands ++ emitted) ↔
      ∃ e ∈ edits, .deleteMapRows names index id ∈ e.commands check catalog := by
    rw [Command.mem_inOrder_iff, List.mem_append, pushed]
    exact or_iff_left fun h => (late _ h).1 rfl
  have inserts :
      ((Command.inOrder (p.arena.commands ++ emitted)).filterMap
        (Command.insertedRow? names index id)).Perm
      (edits.flatMap fun e =>
        (e.commands check catalog).filterMap (Command.insertedRow? names index id)) := by
    refine ((Command.inOrder_perm _).filterMap _).trans (List.Perm.of_eq ?_)
    rw [List.filterMap_append, List.filterMap_eq_nil_iff.2 fun c hc => (late c hc).2,
      List.append_nil, Edit.commands_of_planAll planned, List.filterMap_flatMap]
  have start : (S.tables st₁).ofDocument (names.index index) id =
      (S.tables st).ofDocument (names.index index) id :=
    congrArg _ (same _ keeps)
  rw [Command.ofDocument_runAll faithful distinct has keeps hasAll ran,
    Command.foldl_onRows (Command.pairwise_inOrder _), start]
  simp only [deletes]
  exact inserts.append_left _

/-- Documents that are not edited keep their rows. -/
theorem ofDocument_of_other {id : Int64} (other : ∀ e ∈ edits, ¬(e.names = names ∧ e.id = id)) :
    ((S.tables st₂).ofDocument (names.index index) id).Perm
      ((S.tables st).ofDocument (names.index index) id) := by
  have nothing :
      (edits.flatMap fun e =>
        (e.commands check catalog).filterMap (Command.insertedRow? names index id)) = [] :=
    List.flatMap_eq_nil_iff.2 fun e he => Edit.insertedRows_of_other (other e he)
  have undeleted : ¬∃ e ∈ edits, .deleteMapRows names index id ∈ e.commands check catalog := by
    rintro ⟨e, he, h⟩
    exact other e he (Edit.mem_deleteMapRows_iff.1 h).1
  have here := ofDocument_flush faithful distinct has keeps used planned finished ran id
  rwa [if_neg undeleted, nothing, List.append_nil] at here

/-- Of a document that is edited the rows stay unless its type maps to them, and the rows
join that it maps to now. -/
theorem ofDocument_of_once (once : (edits.map fun e => (e.names, e.id)).Nodup) {e : Edit}
    (he : e ∈ edits) (mine : e.names = names) :
    ((S.tables st₂).ofDocument (names.index index) e.id).Perm
      ((if e.before.isSome ∧ catalog.Maps names e.entity index then []
          else (S.tables st).ofDocument (names.index index) e.id) ++
        (e.document .added).elim [] fun doc => doc.mapRows catalog names index) := by
  subst mine
  have alone : ∀ e' ∈ edits, e'.names = e.names ∧ e'.id = e.id → e' = e := fun e' he' same =>
    List.inj_on_of_nodup_map once he' he (Prod.ext same.1 same.2)
  have one :
      (edits.flatMap fun e' =>
        (e'.commands check catalog).filterMap (Command.insertedRow? e.names index e.id)) =
      (e.document .added).elim [] fun doc => doc.mapRows catalog e.names index := by
    rw [flatMap_eq_of_mem (List.Nodup.of_map _ once) he fun e' he' ne => ?_,
      Edit.insertedRows_commands]
    exact Edit.insertedRows_of_other fun same => ne (alone e' he' same)
  have deleted : (∃ e' ∈ edits, .deleteMapRows e.names index e.id ∈ e'.commands check catalog) ↔
      e.before.isSome ∧ catalog.Maps e.names e.entity index := by
    constructor
    · rintro ⟨e', he', h⟩
      obtain ⟨same, maps⟩ := Edit.mem_deleteMapRows_iff.1 h
      obtain rfl := alone e' he' same
      exact maps
    · exact fun maps => ⟨e, he, Edit.mem_deleteMapRows_iff.2 ⟨⟨rfl, rfl⟩, maps⟩⟩
  have here := ofDocument_flush faithful distinct has keeps used planned finished ran e.id
  rw [one] at here
  simpa only [deleted] using here

end Database

end Flush

namespace Database.Shadows

section Flush

variable {σ : Type} {S : Storage σ} {kept : String → Prop} (faithful : S.Faithful kept)
  {catalog : Catalog} (distinct : catalog.Distinct) {names : TableNames} {index : String}
  (has : catalog.Has (.rows .map names index)) (keeps : kept (names.index index)) {check : Bool}
  {edits : List Edit} {before after : Contents} {p : FlushPlan}
  (turns : Edit.Turns catalog edits before after)
  (planned : Edit.planAll check catalog edits = .ok p) {conn : Connection} {dialect : Dialect}
  {st st₁ st₂ : σ} {commands : List Command}
  (finished : Action.Yields S.answer (p.arena.finish conn dialect) st commands st₁)
  (ran : Action.Yields S.answer (Command.runAll conn commands) st₁ () st₂)
include turns

/-- The old rows of a document that is edited are deleted, or it had none. -/
theorem ofDocument_of_undeleted (shadows : (S.tables st).Shadows catalog names index before)
    {e : Edit} (he : e ∈ edits) (mine : e.names = names)
    (undeleted : ¬(e.before.isSome ∧ catalog.Maps names e.entity index)) :
    (S.tables st).ofDocument (names.index index) e.id = [] := by
  subst mine
  cases document : e.document .removed with
  | none =>
    refine shadows.gone e.id fun doc hdoc id => ?_
    rw [(turns.mem_iff_of_edit he id).1.1 hdoc] at document
    cases document
  | some doc =>
    have id := Edit.id_of_document document
    have mapped := shadows.mapped doc ((turns.mem_iff_of_edit he id).1.2 document)
    obtain ⟨json, before, rfl⟩ := Option.map_eq_some_iff.1 document
    have there : e.before.isSome = true := by
      rw [show e.before = some json from before]
      rfl
    rw [LiveDocument.mapRows_of_not_maps fun maps => undeleted ⟨there, maps⟩] at mapped
    exact List.perm_nil.1 mapped

include faithful distinct has keeps planned finished ran

/-- Documents that are edited have just the rows that they map to. -/
theorem ofDocument_of_edit (shadows : (S.tables st).Shadows catalog names index before) {e : Edit}
    (he : e ∈ edits) (mine : e.names = names) :
    ((S.tables st₂).ofDocument (names.index index) e.id).Perm
      ((e.document .added).elim [] fun doc => doc.mapRows catalog names index) := by
  have here := ofDocument_of_once faithful distinct has keeps turns.used planned finished ran
    turns.once he mine
  split at here
  · exact here
  · next undeleted => rwa [ofDocument_of_undeleted turns shadows he mine undeleted] at here

/-- A flush leaves the table a shadow of the documents. -/
theorem flush (shadows : (S.tables st).Shadows catalog names index before) :
    (S.tables st₂).Shadows catalog names index after := by
  have other : ∀ id, (∀ e ∈ edits, ¬(e.names = names ∧ e.id = id)) →
      ((S.tables st₂).ofDocument (names.index index) id).Perm
        ((S.tables st).ofDocument (names.index index) id) :=
    fun _ => ofDocument_of_other faithful distinct has keeps turns.used planned finished ran
  have edited : ∀ e ∈ edits, e.names = names →
      ((S.tables st₂).ofDocument (names.index index) e.id).Perm
      ((e.document .added).elim [] fun doc => doc.mapRows catalog names index) :=
    fun _ he => ofDocument_of_edit faithful distinct has keeps turns planned finished ran shadows he
  constructor
  · intro doc hdoc d hd maps
    by_cases h : ∃ e ∈ edits, e.names = names ∧ e.id = doc.id
    · obtain ⟨e, he, rfl, id⟩ := h
      obtain ⟨json, side, rfl⟩ :=
        Option.map_eq_some_iff.1 ((turns.mem_iff_of_edit he id.symm).2.1 hdoc)
      exact Edit.maps_of_planAll planned he hd maps.1 side
    · have untouched : ∀ e ∈ edits, ¬(e.names = names ∧ e.id = doc.id) :=
        fun e he here => h ⟨e, he, here⟩
      exact shadows.maps doc ((turns.mem_iff_of_other untouched).1 hdoc) d hd maps
  · intro doc hdoc
    by_cases h : ∃ e ∈ edits, e.names = names ∧ e.id = doc.id
    · obtain ⟨e, he, rfl, id⟩ := h
      have here := edited e he rfl
      rwa [((turns.mem_iff_of_edit he id.symm).2.1 hdoc), id] at here
    · have untouched : ∀ e ∈ edits, ¬(e.names = names ∧ e.id = doc.id) :=
        fun e he here => h ⟨e, he, here⟩
      exact (other doc.id untouched).trans (shadows.mapped doc
        ((turns.mem_iff_of_other untouched).1 hdoc))
  · intro id none
    by_cases h : ∃ e ∈ edits, e.names = names ∧ e.id = id
    · obtain ⟨e, he, rfl, rfl⟩ := h
      cases document : e.document .added with
      | none =>
        have here := edited e he rfl
        rw [document] at here
        exact List.perm_nil.1 here
      | some doc =>
        have id := Edit.id_of_document document
        exact absurd id (none doc ((turns.mem_iff_of_edit he id).2.2 document))
    · have untouched : ∀ e ∈ edits, ¬(e.names = names ∧ e.id = id) :=
        fun e he here => h ⟨e, he, here⟩
      have gone := shadows.gone id fun doc hdoc same => none doc
        ((turns.mem_iff_of_other fun e he here => untouched e he (same ▸ here)).2 hdoc) same
      have here := other id untouched
      rw [gone] at here
      exact List.perm_nil.1 here

end Flush

end Database.Shadows

/-- Whatever flushes there are, the table of a map index stays a shadow of the documents. -/
theorem Database.Shadows.after_flushes {σ : Type} {S : Storage σ} {kept : String → Prop}
    (faithful : S.Faithful kept) {catalog : Catalog} (distinct : catalog.Distinct)
    {names : TableNames} {index : String} (has : catalog.Has (.rows .map names index))
    (keeps : kept (names.index index)) {dialect : Dialect} {before after : Contents} {st st' : σ}
    (shadows : (S.tables st).Shadows catalog names index before)
    (flushes : Flushes S catalog dialect before st after st') :
    (S.tables st').Shadows catalog names index after := by
  induction flushes with
  | none => exact shadows
  | between _ same ih => rwa [same]
  | flush _ turns planned finished ran ih =>
    exact ih.flush faithful distinct has keeps turns planned finished ran

/-! ## Announcements -/

namespace Announcing

/-- Lists the days before that of an article, on each of which it is announced. -/
def announcements : Descriptor :=
  .ofMap ⟨"Article", some, fun _ => 0, fun _ json => json⟩
    ⟨"ByDay", [⟨"Day", .integer, false⟩], some⟩ fun content =>
    (List.range (Counting.day content).toNatClampNeg).map fun day => .obj [("Day", .int day)]

def catalog : Catalog where
  collections names := names = Counting.main
  descriptors names entity :=
    if names = Counting.main ∧ entity = "Article" then [announcements] else []

/-- The memory once the articles are published, and after their revision. -/
def afterPublished : Memory :=
  (Memory.flush Counting.settings catalog ∅ Counting.published).toOption.getD ∅

def afterRevised : Memory :=
  (Memory.flush Counting.settings catalog afterPublished Counting.revised).toOption.getD ∅

theorem flush_published :
    Memory.flush Counting.settings catalog ∅ Counting.published = .ok afterPublished := by rfl

theorem flush_revised : Memory.flush Counting.settings catalog afterPublished Counting.revised =
    .ok afterRevised := by rfl

theorem catalog_distinct : catalog.Distinct := by
  have tables : ∀ t, catalog.Has t → t = .documents Counting.main ∨
      t = .rows .map Counting.main "ByDay" := by
    have described : ∀ {kind names index}, catalog.Describes kind names index →
        kind = .map ∧ index = "ByDay" := by
      rintro kind names index ⟨entity, d, mem, rfl, rfl⟩
      simp only [catalog] at mem
      split at mem
      · obtain rfl := List.mem_singleton.1 mem
        exact ⟨rfl, rfl⟩
      · cases mem
    intro t has
    cases t with
    | documents names =>
      obtain rfl : names = Counting.main := has
      exact .inl rfl
    | rows kind names index =>
      obtain ⟨rfl, h⟩ : names = Counting.main ∧ _ := has
      obtain ⟨rfl, rfl⟩ := described h
      exact .inr rfl
    | links names index => exact absurd (described has.2).1 (by decide)
  intro t t' h h' same
  rcases tables t h with rfl | rfl <;> rcases tables t' h' with rfl | rfl <;>
    first | rfl | exact absurd same (by decide)

/-- An article that moves is announced anew, one that goes no more, and one that
comes for the first time. -/
theorem shadows_revised :
    afterPublished.tables "ByDay" = [⟨[Command.documentCell 1, ("Day", .int 0)]⟩,
        ⟨[Command.documentCell 2, ("Day", .int 0)]⟩] ∧
      afterRevised.tables "ByDay" = [⟨[Command.documentCell 1, ("Day", .int 0)]⟩,
        ⟨[Command.documentCell 1, ("Day", .int 1)]⟩, ⟨[Command.documentCell 3, ("Day", .int 0)]⟩] ∧
      Database.Shadows afterRevised.tables catalog Counting.main "ByDay"
        (Counting.contents [(1, 2), (3, 1)] (by decide)) := by
  have published : Edit.Turns catalog Counting.published _ _ :=
    ⟨Counting.turns_published.used, Counting.turns_published.once, Counting.turns_published.rest⟩
  have revised : Edit.Turns catalog Counting.revised _ _ :=
    ⟨Counting.turns_revised.used, Counting.turns_revised.once, Counting.turns_revised.rest⟩
  have flushes := (Flushes.none.of_memory published flush_published).of_memory revised flush_revised
  have has : catalog.Has (.rows .map Counting.main "ByDay") :=
    ⟨rfl, "Article", announcements, List.mem_singleton_self _, rfl, rfl⟩
  have faithful : (Memory.storage Counting.settings catalog).Faithful fun _ => True :=
    Memory.faithful
  have empty : ((Memory.storage Counting.settings catalog).tables ∅).Shadows catalog
      Counting.main "ByDay"
      (Counting.contents [] (by decide)) :=
    ⟨fun _ h => (by cases h), fun _ h => (by cases h), fun _ _ => rfl⟩
  exact ⟨by rfl, by rfl, Database.Shadows.after_flushes faithful catalog_distinct has trivial
    empty flushes⟩

end Announcing

end DocStore

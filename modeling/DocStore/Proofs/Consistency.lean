import DocStore.Proofs.Counting
import DocStore.Proofs.Reductions
import DocStore.Proofs.References

/-!
# Flushes of a consistent store

A database is consistent with the documents if every row of an index has its
reason in one: a map row in a document of a described type, a link in a document
that maps to the group of the linked row. The commands of a flush then run
without a dangling reference after any of their statements.
-/

set_option autoImplicit false

namespace DocStore

/-- The group of an aggregate row is what it has in the column that its index groups by. -/
def Catalog.IsGroupOf (catalog : Catalog) (names : TableNames) (index : String) (key : Value)
    (row : Row) : Prop :=
  ∀ entity, ∀ d ∈ catalog.descriptors names entity, d.kind = .reduce → d.index.name = index →
    ∃ column, d.groupColumn = some column ∧ row.value? column = some key

structure Consistent (catalog : Catalog) (contents : Contents) (db : Database) : Prop where
  documents : ∀ names, catalog.collections names → ∀ doc ∈ contents.documents names,
    db.HasId names.document doc.id
  /-- Map rows belong to documents of a type that the index is described for. -/
  mapRows : ∀ names index, catalog.Has (.rows .map names index) → ∀ row ∈ db (names.index index),
    ∃ doc ∈ contents.documents names, row.value? Column.documentIdName = some (.int doc.id) ∧
      ∃ d ∈ catalog.descriptors names doc.entity, d.kind = .map ∧ d.index.name = index
  /-- Links are from an aggregate row to a document that maps to its group. -/
  links : ∀ names index, catalog.Has (.links names index) → ∀ link ∈ db (names.bridge index),
    ∃ doc ∈ contents.documents names, link.value? Column.documentIdName = some (.int doc.id) ∧
      ∃ row ∈ db (names.index index), ∃ id key, row.value? Column.idName = some (.int id) ∧
        link.value? (TableNames.bridgeColumn index) = some (.int id) ∧
          doc.MapsTo catalog names index key ∧ catalog.IsGroupOf names index key row
  /-- Ids of aggregate rows are read as they are stored. -/
  identified : ∀ names index, catalog.Has (.rows .reduce names index) →
    ∀ row ∈ db (names.index index), ∀ id,
    row.getInt64 Column.idName = .ok id → row.value? Column.idName = some (.int id)

/-- In a consistent store no reference dangles. -/
theorem Consistent.sound {catalog : Catalog} {contents : Contents} {db : Database}
    (consistent : Consistent catalog contents db) : Sound catalog db := by
  intro source column target ref row hrow
  cases ref with
  | @mapRow names index has =>
    obtain ⟨doc, hdoc, value, _⟩ := consistent.mapRows names index has row hrow
    exact ⟨doc.id, value, consistent.documents names has.1 doc hdoc⟩
  | @linkedDocument names index has =>
    obtain ⟨doc, hdoc, value, _⟩ := consistent.links names index has row hrow
    exact ⟨doc.id, value, consistent.documents names has.1 doc hdoc⟩
  | @linkedRow names index has =>
    obtain ⟨_, _, _, r, hr, id, _, hid, value, _⟩ := consistent.links names index has row hrow
    exact ⟨id, value, r, hr, hid⟩

namespace Edit

variable {check : Bool} {catalog : Catalog} {edits : List Edit} {before after : Contents}
  {p : FlushPlan} {db : Database} {emitted : List Command}

theorem mem_pushed_iff (planned : planAll check catalog edits = .ok p) {c : Command} :
    c ∈ p.arena.commands ↔ ∃ e ∈ edits, c ∈ e.commands check catalog := by
  rw [commands_of_planAll planned, List.mem_flatMap]

/-- The rows of a buffer come from edits in its collection. -/
theorem mem_entries_iff (used : ∀ e ∈ edits, catalog.collections e.names)
    (planned : planAll check catalog edits = .ok p) {b : Buffer} (hb : b ∈ p.arena.buffers)
    {r : MappedRow} :
    r ∈ b.entries ↔ ∃ e ∈ edits, r ∈ e.entriesAt catalog b.names b.descriptor.index.name := by
  rw [(tidy_of_planAll used planned).entries_eq hb, entriesAt_of_planAll planned, List.mem_flatMap]

/-- A document joins a group by an edit that leaves it, and leaves one by an
edit that takes it away. -/
theorem exists_edit_of_joins (used : ∀ e ∈ edits, catalog.collections e.names)
    (planned : planAll check catalog edits = .ok p) {b : Buffer} (hb : b ∈ p.arena.buffers)
    {key : Value} {id : Int64} {change : Change} (h : b.joins key change id) :
    ∃ e ∈ edits, e.names = b.names ∧ e.id = id ∧
      (e.side change).isSome := by
  obtain ⟨r, hr, rfl⟩ := h
  obtain ⟨mem, rfl, _⟩ := Buffer.mem_group_iff.1 hr
  obtain ⟨e, he, here⟩ := (mem_entries_iff used planned hb).1 mem
  obtain ⟨hnames, d, _, _, mapped⟩ := mem_entriesAt_iff.1 here
  rcases mapped with mapped | mapped
  · obtain ⟨json, hbefore, _, document, change⟩ := mem_mapped_iff.1 mapped
    refine ⟨e, he, hnames, document.symm, ?_⟩
    rw [change, side, hbefore]
    rfl
  · obtain ⟨json, hafter, _, document, change⟩ := mem_mapped_iff.1 mapped
    refine ⟨e, he, hnames, document.symm, ?_⟩
    rw [change, side, hafter]
    rfl

/-- A command that is emitted creates an aggregate row, or changes or deletes one that is stored. -/
theorem cases_of_emits {b : Buffer} {key : Value} {c : Command} (h : b.Emits db key (some c)) :
    (∃ cells, c = .createReduceRow b.names b.descriptor.index.name cells (b.links key).1) ∨
      ∃ row ∈ db (b.names.index b.descriptor.index.name), ∃ id,
        row.getInt64 Column.idName = .ok id ∧
        (c = .deleteReduceRow b.names b.descriptor.index.name id ∨ ∃ cells,
          c = .updateReduceRow b.names b.descriptor.index.name id cells (b.links key).1
            (b.links key).2) := by
  obtain ⟨found, perm, outcome⟩ := h
  rcases Buffer.found_of_outcome outcome with rfl | ⟨row, rfl⟩
  · obtain ⟨_, _, _, _, ⟨_, none⟩ | ⟨_, cells, _, _, hc⟩⟩ := Buffer.outcome_nil outcome
    · cases none
    · exact .inl ⟨cells, Option.some.inj hc⟩
  · obtain ⟨_, id, _, _, _, hid, _, _, hc⟩ := Buffer.outcome_singleton outcome
    have mem := (List.mem_filter.1 (perm.mem_iff.1 (List.mem_singleton_self row))).1
    refine .inr ⟨row, mem, id, hid, ?_⟩
    rcases hc with ⟨_, hc⟩ | ⟨_, cells, _, _, hc⟩
    · exact .inl (Option.some.inj hc)
    · exact .inr ⟨cells, Option.some.inj hc⟩

/-- The commands of a flush, by where they come from. -/
theorem cases_of_mem (planned : planAll check catalog edits = .ok p)
    (decided : Decided db (Arena.touched p.arena.buffers) emitted) {c : Command}
    (h : c ∈ Command.inOrder (p.arena.commands ++ emitted)) :
    (∃ e ∈ edits, c = e.documentCommand check ∨ ∃ d ∈ catalog.descriptors e.names e.entity,
        c ∈ e.mapCommands d) ∨
      ∃ b ∈ p.arena.buffers, ∃ key ∈ b.keys, b.Emits db key (some c) := by
  rcases List.mem_append.1 (Command.mem_inOrder_iff.1 h) with h | h
  · obtain ⟨e, he, h⟩ := (mem_pushed_iff planned).1 h
    exact .inl ⟨e, he, mem_commands_iff.1 h⟩
  · obtain ⟨⟨b, key⟩, touched, emits⟩ := decided.of_mem h
    obtain ⟨b', hb, touched⟩ := List.mem_flatMap.1 touched
    obtain ⟨key', hkey, same⟩ := List.mem_map.1 touched
    cases same
    exact .inr ⟨b, hb, key, hkey, emits⟩

/-- A document is deleted by an edit that deletes it. -/
theorem exists_delete_of_mem (planned : planAll check catalog edits = .ok p)
    (decided : Decided db (Arena.touched p.arena.buffers) emitted) {names : TableNames} {id : Int64}
    (h : .deleteDocument names id ∈ Command.inOrder (p.arena.commands ++ emitted)) :
    ∃ entity old, delete names id entity old ∈ edits := by
  rcases cases_of_mem planned decided h with ⟨e, he, hc | ⟨d, hd, hc⟩⟩ | ⟨b, hb, key, _, emits⟩
  · cases e with
    | create _ _ _ _ _ | update _ _ _ _ _ _ => cases hc
    | delete names id entity old =>
      cases hc
      exact ⟨entity, old, he⟩
  · obtain ⟨_, hc | ⟨_, cells, hc⟩⟩ := cases_of_mem_mapCommands hc <;> cases hc
  · rcases cases_of_emits emits with ⟨cells, hc⟩ | ⟨row, _, id, _, hc | ⟨cells, hc⟩⟩ <;> cases hc

/-- The tables of a flush are those of its catalog. -/
theorem has_of_mem (used : ∀ e ∈ edits, catalog.collections e.names)
    (planned : planAll check catalog edits = .ok p)
    (decided : Decided db (Arena.touched p.arena.buffers) emitted) {c : Command}
    (h : c ∈ Command.inOrder (p.arena.commands ++ emitted)) : ∀ t ∈ c.tables, catalog.Has t := by
  intro t ht
  rcases cases_of_mem planned decided h with ⟨e, he, rfl | ⟨d, hd, hc⟩⟩ | ⟨b, hb, key, _, emits⟩
  · have used := used e he
    cases e <;> (obtain rfl := List.mem_singleton.1 ht; exact used)
  · obtain ⟨kind, hc⟩ := cases_of_mem_mapCommands hc
    have has : catalog.Has (.rows .map e.names d.index.name) :=
      ⟨used e he, e.entity, d, hd, kind, rfl⟩
    rcases hc with rfl | ⟨_, cells, rfl⟩ <;> (obtain rfl := List.mem_singleton.1 ht; exact has)
  · obtain ⟨used, kind, entity, hd⟩ := (tidy_of_planAll used planned).described b hb
    have has : catalog.Describes .reduce b.names b.descriptor.index.name :=
      ⟨entity, b.descriptor, hd, kind, rfl⟩
    have both : t ∈ [Table.rows .reduce b.names b.descriptor.index.name,
        .links b.names b.descriptor.index.name] := by
      rcases cases_of_emits emits with ⟨cells, rfl⟩ | ⟨row, _, id, _, rfl | ⟨cells, rfl⟩⟩ <;>
        exact ht
    rcases List.mem_cons.1 both with rfl | both
    · exact ⟨used, has⟩
    · obtain rfl := List.mem_singleton.1 both
      exact ⟨used, has⟩

section Flush

variable (turns : Turns catalog edits before after) (planned : planAll check catalog edits = .ok p)
  (decided : Decided db (Arena.touched p.arena.buffers) emitted)
include turns planned

/-- What a command inserts refers to documents that an edit of the flush leaves. -/
theorem exists_edit_of_documents (decided : Decided db (Arena.touched p.arena.buffers) emitted)
    {c : Command} (h : c ∈ Command.inOrder (p.arena.commands ++ emitted)) {id : Int64}
    (hid : id ∈ c.documents) : ∃ e ∈ edits, e.names = c.names ∧ e.id = id ∧ e.after.isSome := by
  rcases cases_of_mem planned decided h with ⟨e, he, rfl | ⟨d, hd, hc⟩⟩ | ⟨b, hb, key, _, emits⟩
  · cases e <;> cases hid
  · obtain ⟨_, rfl | ⟨some, cells, rfl⟩⟩ := cases_of_mem_mapCommands hc
    · cases hid
    · obtain rfl := List.mem_singleton.1 hid
      exact ⟨e, he, rfl, rfl, some⟩
  · have linked : id ∈ (b.links key).1 ∧ c.names = b.names := by
      rcases cases_of_emits emits with ⟨cells, rfl⟩ | ⟨row, _, id, _, rfl | ⟨cells, rfl⟩⟩
      · exact ⟨hid, rfl⟩
      · cases hid
      · exact ⟨hid, rfl⟩
    obtain ⟨e, he, hnames, same, some⟩ :=
      exists_edit_of_joins turns.used planned hb (Buffer.mem_links_iff.1.1 linked.1).1
    exact ⟨e, he, hnames.trans linked.2.symm, same, some⟩

/-- A document that an edit leaves is not deleted. -/
theorem not_mem_delete (decided : Decided db (Arena.touched p.arena.buffers) emitted) {e : Edit}
    (he : e ∈ edits) (some : e.after.isSome) :
    .deleteDocument e.names e.id ∉ Command.inOrder (p.arena.commands ++ emitted) := by
  intro h
  obtain ⟨entity, old, hdelete⟩ := exists_delete_of_mem planned decided h
  rw [turns.eq_of_same he hdelete rfl rfl] at some
  cases some

/-- A document that an edit leaves is there, or is created. -/
theorem there_of_after (consistent : Consistent catalog before db) {e : Edit} (he : e ∈ edits)
    (some : e.after.isSome) : db.HasId e.names.document e.id ∨ ∃ typeName content,
      .createDocument e.names e.id typeName content ∈
        Command.inOrder (p.arena.commands ++ emitted) := by
  cases e with
  | create names id entity json content =>
    refine .inr ⟨entity, content, Command.mem_inOrder_iff.2 (List.mem_append_left _ ?_)⟩
    exact (mem_pushed_iff planned).2 ⟨_, he, List.mem_cons_self⟩
  | update names id entity json content old =>
    exact .inl (consistent.documents names (turns.used _ he) _ (turns.mem_before he rfl))
  | delete names id entity old => cases some

/-- The map rows of a document that is deleted go. -/
theorem mapRows_of_delete (consistent : Consistent catalog before db) {names : TableNames}
    {id : Int64} {entity : String} {old : Tracked} (he : delete names id entity old ∈ edits)
    {index : String} (has : catalog.Has (.rows .map names index)) {row : Row}
    (hrow : row ∈ db (names.index index))
    (value : row.value? Column.documentIdName = some (.int id)) :
    .deleteMapRows names index id ∈ p.arena.commands := by
  obtain ⟨doc, hdoc, value', d, hd, kind, rfl⟩ := consistent.mapRows names index has row hrow
  rw [value, Option.some.injEq, Value.int.injEq] at value'
  obtain rfl : doc = ⟨id, entity, old.json⟩ :=
    before.eq_of_same hdoc (turns.mem_before he rfl) value'.symm
  refine (mem_pushed_iff planned).2 ⟨_, he, mem_commands_iff.2 (.inr ⟨d, hd, ?_⟩)⟩
  simp [mapCommands, kind, Edit.before, Edit.names, Edit.id]

/-- The links of a document that is deleted go. -/
theorem unlinks_of_delete (consistent : Consistent catalog before db)
    (decided : Decided db (Arena.touched p.arena.buffers) emitted) {names : TableNames} {id : Int64}
    {entity : String} {old : Tracked} (he : delete names id entity old ∈ edits) {index : String}
    (has : catalog.Has (.links names index)) {link : Row} (hlink : link ∈ db (names.bridge index))
    (value : link.value? Column.documentIdName = some (.int id)) :
    ∃ row, link.value? (TableNames.bridgeColumn index) = some (.int row) ∧
      ∃ c ∈ emitted, c.Unlinks names index row id := by
  obtain ⟨doc, hdoc, value', row, hrow, rowId, k, hid, hbridge, ⟨r, maps⟩, group⟩ :=
    consistent.links names index has link hlink
  rw [value, Option.some.injEq, Value.int.injEq] at value'
  obtain rfl : doc = ⟨id, entity, old.json⟩ :=
    before.eq_of_same hdoc (turns.mem_before he rfl) value'.symm
  -- the row by which the document is in the group leaves, so the group is touched
  have leaves : (⟨r, k, id, .removed⟩ : MappedRow) ∈
      (delete names id entity old).entriesAt catalog names index :=
    mem_entriesAt_of_contributes rfl maps
  have buffered : (⟨r, k, id, .removed⟩ : MappedRow) ∈ p.arena.entriesAt names index := by
    rw [entriesAt_of_planAll planned]
    exact List.mem_flatMap.2 ⟨_, he, leaves⟩
  obtain ⟨b, hb, rfl, rfl⟩ := Arena.exists_buffer buffered
  have entry := (mem_entries_iff turns.used planned hb).2 ⟨_, he, leaves⟩
  obtain ⟨key, hkey, agrees⟩ := Buffer.exists_key entry
  have touched : (b, key) ∈ Arena.touched p.arena.buffers :=
    List.mem_flatMap.2 ⟨b, hb, List.mem_map_of_mem hkey⟩
  obtain ⟨c, ⟨found, perm, outcome⟩, hc⟩ := decided.of_mem_groups touched
  obtain ⟨_, kind, entity', hdescriptor⟩ := (tidy_of_planAll turns.used planned).described b hb
  obtain ⟨column, hcolumn, hgroup⟩ := group entity' b.descriptor hdescriptor kind rfl
  have inGroup : b.inGroup key row = true := by simpa [Buffer.inGroup, hcolumn, hgroup] using agrees
  have hfound := perm.mem_iff.2 (List.mem_filter.2 ⟨hrow, inGroup⟩)
  -- the document is not also linked: the flush has one edit of it
  have unlinked : id ∈ (b.links key).2 := by
    refine Buffer.mem_links_iff.2.2 ⟨⟨_, Buffer.mem_group_iff.2 ⟨entry, rfl, agrees⟩, rfl⟩,
      fun joins => ?_⟩
    obtain ⟨e, he', hnames, same, some⟩ := exists_edit_of_joins turns.used planned hb joins
    rw [turns.eq_of_same he' he hnames same] at some
    cases some
  refine ⟨rowId, hbridge, ?_⟩
  rcases Buffer.found_of_outcome outcome with rfl | ⟨row', rfl⟩
  · cases hfound
  · obtain rfl := List.mem_singleton.1 hfound
    obtain ⟨_, id', _, _, _, hid', _, _, hcommand⟩ := Buffer.outcome_singleton outcome
    obtain rfl : rowId = id' := by
      have read := consistent.identified _ _ has row hrow id' hid'
      rw [hid, Option.some.injEq, Value.int.injEq] at read
      exact read
    rcases hcommand with ⟨_, rfl⟩ | ⟨_, cells, _, _, rfl⟩
    · exact ⟨_, hc _ rfl, rfl, rfl, rfl⟩
    · exact ⟨_, hc _ rfl, rfl, rfl, rfl, unlinked⟩

/-- The commands of a flush of a consistent store can run. -/
theorem ready (consistent : Consistent catalog before db)
    (decided : Decided db (Arena.touched p.arena.buffers) emitted) :
    Ready catalog (Command.inOrder (p.arena.commands ++ emitted)) db where
  sound := consistent.sound
  has _ := has_of_mem turns.used planned decided
  there c hc d hd := by
    obtain ⟨e, he, names, rfl, some⟩ := exists_edit_of_documents turns planned decided hc hd
    rw [← names]
    exact there_of_after turns planned consistent he some
  kept c hc d hd := by
    obtain ⟨e, he, names, rfl, some⟩ := exists_edit_of_documents turns planned decided hc hd
    rw [← names]
    exact not_mem_delete turns planned decided he some
  updated names index row cells link unlink h := by
    rcases cases_of_mem planned decided h with ⟨e, he, hc | ⟨d, hd, hc⟩⟩ | ⟨b, hb, key, _, emits⟩
    · cases e <;> cases hc
    · obtain ⟨_, hc | ⟨_, cells, hc⟩⟩ := cases_of_mem_mapCommands hc <;> cases hc
    · have used := has_of_mem turns.used planned decided h (.rows .reduce names index)
        (by simp [Command.tables])
      rcases cases_of_emits emits with ⟨cells, hc⟩ | ⟨r, hr, id, hid, hc | ⟨cells, hc⟩⟩
      · cases hc
      · cases hc
      · cases hc
        exact ⟨r, hr, consistent.identified _ _ used r hr _ hid⟩
  mapRows names d h index has row hrow value := by
    obtain ⟨entity, old, he⟩ := exists_delete_of_mem planned decided h
    have goes := mapRows_of_delete turns planned consistent he has hrow value
    exact Command.mem_inOrder_iff.2 (List.mem_append_left _ goes)
  links names d h index has link hlink value := by
    obtain ⟨entity, old, he⟩ := exists_delete_of_mem planned decided h
    obtain ⟨row, hrow, c, hc, unlinks⟩ :=
      unlinks_of_delete turns planned consistent decided he has hlink value
    exact ⟨row, hrow, c, Command.mem_inOrder_iff.2 (List.mem_append_right _ hc), unlinks⟩

end Flush

end Edit

/-- The end of a flush of a consistent store answers everything that was pushed
and everything decided on, in the stable order of priority; and running that
leaves no dangling reference after any statement. -/
theorem Consistent.safe_flush {σ : Type} {S : Storage σ} (faithful : S.Faithful fun _ => True)
    {dialect : Dialect} (looks : S.LooksUp dialect) {catalog : Catalog}
    (distinct : catalog.Distinct) {check : Bool} {edits : List Edit} {before after : Contents}
    (turns : Edit.Turns catalog edits before after) {p : FlushPlan}
    (planned : Edit.planAll check catalog edits = .ok p) {conn : Connection} {st st' : σ}
    {commands : List Command} (consistent : Consistent catalog before (S.tables st))
    (finished : Action.Yields S.answer (p.arena.finish conn dialect) st commands st') :
    (∃ emitted, Decided (S.tables st) (Arena.touched p.arena.buffers) emitted ∧
      commands.Perm (edits.flatMap (Edit.commands check catalog) ++ emitted) ∧
      commands.Pairwise (fun c c' => c.priority ≤ c'.priority) ∧
      ∀ n, (commands.filter fun c => c.priority = n) =
        (edits.flatMap (Edit.commands check catalog) ++ emitted).filter fun c => c.priority = n) ∧
      Action.Throughout S.answer (fun st => Sound catalog (S.tables st))
        (Command.runAll conn commands) st' := by
  obtain ⟨same, emitted, decided, rfl⟩ := decided_of_finish faithful looks finished
  have ready := Edit.ready turns planned consistent decided
  rw [Edit.commands_of_planAll planned] at ready ⊢
  refine ⟨⟨emitted, decided, Command.inOrder_perm _, Command.pairwise_inOrder _,
    Command.filter_inOrder _⟩, ?_⟩
  exact Ready.throughout_runAll distinct faithful (Command.pairwise_inOrder _) (same ▸ ready)

namespace Counting

theorem mem_live_iff {docs : List (Int64 × Int64)} {doc : LiveDocument} :
    doc ∈ live docs ↔ ∃ d ∈ docs, doc = ⟨d.1, "Article", article d.2⟩ := by
  simp [live, eq_comm]

/-- An article maps to the group of its day. -/
theorem mapsTo_article (id : Int64) (day : Int64) :
    LiveDocument.MapsTo ⟨id, "Article", article day⟩ catalog main "ByDay" (.int day) := by
  have rows : articles.keyed (article day) = [(counted day 1, .int day)] := by
    have mapped : articles.mapContent (article day) = .ok [counted day 1] := by
      change Except.ok (((Json.ofInt64 day).int64?).toList.map fun day => counted day 1) = _
      rw [Json.int64?_ofInt64]
      rfl
    have key : articles.groupKey (counted day 1) = .ok (.int day) :=
      (Descriptor.groupKey_eq_ok_iff rfl).2 ⟨_, cells_counted day 1, rfl⟩
    rw [Descriptor.keyed, mapped]
    dsimp only
    rw [List.filterMap_cons, key]
    rfl
  refine ⟨counted day 1, List.mem_flatMap.2 ⟨articles, ?_, ?_⟩⟩
  · exact List.mem_filter.2 ⟨List.mem_singleton_self _, rfl⟩
  · rw [rows]
    exact List.mem_singleton_self _

theorem consistent_afterPublished :
    Consistent catalog (contents [(1, 1), (2, 1)] (by decide)) afterPublished.tables where
  documents names used doc hdoc := by
    obtain rfl : names = main := used
    obtain ⟨d, hd, rfl⟩ := mem_live_iff.1 hdoc
    have stored : ∃ row ∈ afterPublished.tables "Document",
        row.value? Column.idName = some (.int d.1) := by
      rw [documents_afterPublished]
      rcases hd with _ | ⟨_, _ | ⟨_, ⟨⟩⟩⟩
      · exact ⟨_, List.mem_cons_self, rfl⟩
      · exact ⟨_, List.mem_cons_of_mem _ List.mem_cons_self, rfl⟩
    exact stored
  mapRows names index has := by
    cases (eq_of_describes has.2).1
  links names index has link hlink := by
    obtain rfl : names = main := has.1
    obtain ⟨_, rfl⟩ := eq_of_describes has.2
    have linked : ∃ d ∈ [((1 : Int64), (1 : Int64)), (2, 1)], link = Row.link "ByDay" 1 d.1 ∧
        d.2 = 1 := by
      have mem : link ∈ afterPublished.tables "ByDay_Document" := hlink
      rw [links_afterPublished] at mem
      rcases mem with _ | ⟨_, _ | ⟨_, ⟨⟩⟩⟩
      · exact ⟨_, List.mem_cons_self, rfl, rfl⟩
      · exact ⟨_, List.mem_cons_of_mem _ List.mem_cons_self, rfl, rfl⟩
    obtain ⟨d, hd, rfl, day⟩ := linked
    have row : (⟨[Command.idCell 1, ("Day", .int 1), ("Units", .int 2)]⟩ : Row) ∈
        afterPublished.tables "ByDay" := by
      rw [rows_afterPublished]
      exact List.mem_singleton_self _
    refine ⟨_, mem_live_iff.2 ⟨d, hd, rfl⟩, Row.value?_documentId_link (by decide) 1 d.1, _, row, 1,
      .int d.2, rfl, Row.value?_bridgeColumn_link "ByDay" 1 d.1, mapsTo_article d.1 d.2, ?_⟩
    intro entity d' hd' _ _
    obtain rfl := eq_articles hd'
    exact ⟨"Day", rfl, by rw [day]; rfl⟩
  identified names index has row hrow id hid := by
    obtain rfl : names = main := has.1
    obtain ⟨_, rfl⟩ := eq_of_describes has.2
    have mem : row ∈ afterPublished.tables "ByDay" := hrow
    rw [rows_afterPublished] at mem
    obtain rfl := List.mem_singleton.1 mem
    rw [Row.getInt64_idCell] at hid
    cases hid
    rfl

/-- Two articles of a day are published; then one moves, one goes and one comes. -/
theorem safe_revision : ∃ p commands m, Edit.planAll true catalog revised = .ok p ∧
    Action.Yields store.answer (p.arena.finish 0 .sqlite) afterPublished commands m ∧
      Action.Yields store.answer (Command.runAll 0 commands) m () afterRevised ∧
        Action.Throughout store.answer (fun m => Sound catalog m.tables)
          (Command.runAll 0 commands) m := by
  obtain ⟨p, commands, m, planned, finished, ran⟩ := Memory.flush_eq_ok flush_revised
  have consistent : Consistent catalog _ (store.tables afterPublished) := consistent_afterPublished
  exact ⟨p, commands, m, planned, finished, ran,
    (Consistent.safe_flush Memory.faithful (Memory.looksUp .sqlite) catalog_distinct turns_revised
      planned consistent finished).2⟩

end Counting

end DocStore

import DocStore.Proofs.CommandEffects
import DocStore.Proofs.CommandOrder
import DocStore.Proofs.Edits

/-!
# References between tables

Rows of map indexes refer to their documents, and links to a document and to an
aggregate row. `Sound` says that no reference of a database is dangling, and
`Ready` that it stays so while the commands of a flush run in order: what they
refer to is there or is created first, and what they delete is let go first.
-/

set_option autoImplicit false

namespace DocStore

namespace Database

/-- A table has a row with the id. -/
def HasId (db : Database) (table : String) (id : Int64) : Prop :=
  ∃ row ∈ db table, row.value? Column.idName = some (.int id)

/-- What a row refers to by a column is there. -/
def RowRefers (db : Database) (column target : String) (row : Row) : Prop :=
  ∃ id, row.value? column = some (.int id) ∧ db.HasId target id

/-! ## Rows that stay -/

variable {db : Database} {table : String} {id : Int64}

theorem HasId.insert (h : db.HasId table id) (t : String) (cells : Cells) :
    (db.execute (.insert t cells)).HasId table id := by
  obtain ⟨row, mem, value⟩ := h
  refine ⟨row, ?_, value⟩
  by_cases same : t = table
  · subst same
    rw [execute_insert]
    exact List.mem_append_left _ mem
  · rwa [execute_of_ne db (by simpa [Statement.table?] using same)]

theorem HasId.update (h : db.HasId table id) (t : String) (cells keys : Cells) :
    (db.execute (.update t cells keys)).HasId table id := by
  obtain ⟨row, mem, value⟩ := h
  by_cases same : t = table
  · subst same
    rw [HasId, execute_update]
    refine ⟨_, List.mem_map_of_mem mem, ?_⟩
    split
    · exact Row.value?_idName_assign value cells
    · exact value
  · exact ⟨row, by rwa [execute_of_ne db (by simpa [Statement.table?] using same)], value⟩

/-- A deletion by id leaves the other ids, and one in another table leaves all. -/
theorem HasId.delete (h : db.HasId table id) {t : String} {keys : Cells}
    (other : t = table → ∀ row : Row, row.value? Column.idName = some (.int id) →
      row.meets keys = false) :
    (db.execute (.delete t keys)).HasId table id := by
  obtain ⟨row, mem, value⟩ := h
  refine ⟨row, ?_, value⟩
  by_cases same : t = table
  · subst same
    rw [execute_delete]
    exact List.mem_filter.2 ⟨mem, by rw [other rfl row value]; rfl⟩
  · rwa [execute_of_ne db (by simpa [Statement.table?] using same)]

/-- Only deletions from a table take ids away. -/
theorem HasId.executeAll (h : db.HasId table id) {ss : List Statement}
    (safe : ∀ s ∈ ss, ∀ keys, s ≠ .delete table keys) : (db.executeAll ss).HasId table id := by
  induction ss generalizing db with
  | nil => exact h
  | cons s ss ih =>
    refine ih ?_ fun s' hs' => safe s' (List.mem_cons_of_mem s hs')
    cases s with
    | insert t cells => exact h.insert t cells
    | update t cells keys => exact h.update t cells keys
    | delete t keys =>
      refine h.delete fun same => ?_
      subst same
      exact absurd rfl (safe _ List.mem_cons_self keys)
    | insertReturning _ _ | query _ _ | schema _ =>
      obtain ⟨row, mem, value⟩ := h
      refine ⟨row, ?_, value⟩
      unfold execute Statement.on
      split <;> exact mem

theorem HasId.of_eq {db' : Database} (h : db.HasId table id) (same : db' table = db table) :
    db'.HasId table id := by
  rwa [HasId, same]

theorem hasId_inserted (db : Database) (table : String) (id : Int64) (cells : Cells) :
    (db.execute (.insert table (Command.idCell id :: cells))).HasId table id := by
  refine ⟨⟨Command.idCell id :: cells⟩, ?_, Row.value?_idCell id cells⟩
  rw [execute_insert]
  exact List.mem_append_right _ (List.mem_singleton_self _)

end Database

/-- The references that the tables of a catalog keep: from a table, by a column, to a table. -/
inductive Catalog.Refers (catalog : Catalog) : Table → String → Table → Prop where
  | mapRow {names : TableNames} {index : String} : catalog.Has (.rows .map names index) →
    Refers catalog (.rows .map names index) Column.documentIdName (.documents names)
  | linkedDocument {names : TableNames} {index : String} : catalog.Has (.links names index) →
    Refers catalog (.links names index) Column.documentIdName (.documents names)
  | linkedRow {names : TableNames} {index : String} : catalog.Has (.links names index) →
    Refers catalog (.links names index) (TableNames.bridgeColumn index) (.rows .reduce names index)

namespace Catalog

variable {catalog : Catalog} {source target : Table} {column : String}

theorem Refers.has_source (h : catalog.Refers source column target) : catalog.Has source := by
  cases h with
  | mapRow has | linkedDocument has | linkedRow has => exact has

theorem Refers.has_target (h : catalog.Refers source column target) : catalog.Has target := by
  cases h with
  | mapRow has | linkedDocument has => exact has.1
  | linkedRow has => exact has

end Catalog

/-- No reference dangles. -/
def Sound (catalog : Catalog) (db : Database) : Prop :=
  ∀ source column target, catalog.Refers source column target →
    ∀ row ∈ db source.name, db.RowRefers column target.name row

namespace Sound

variable {catalog : Catalog} {db : Database} (distinct : catalog.Distinct)
  (sound : Sound catalog db)
include distinct sound

/-- A row whose own references are there may be inserted into any table. -/
theorem insert {t : Table} (has : catalog.Has t) {cells : Cells}
    (refers : ∀ column target, catalog.Refers t column target →
      db.RowRefers column target.name ⟨cells⟩) :
    Sound catalog (db.execute (.insert t.name cells)) := by
  intro source column target ref row hrow
  have old : db.RowRefers column target.name row := by
    by_cases same : source = t
    · subst same
      rw [Database.execute_insert] at hrow
      rcases List.mem_append.1 hrow with hrow | hrow
      · exact sound source column target ref row hrow
      · obtain rfl := List.mem_singleton.1 hrow
        exact refers column target ref
    · have apart := distinct.name_ne ref.has_source has same
      rw [Database.execute_of_ne db (by simpa [Statement.table?] using apart.symm)] at hrow
      exact sound source column target ref row hrow
  obtain ⟨id, value, there⟩ := old
  exact ⟨id, value, there.insert t.name cells⟩

/-- Rows of a table that refers to nothing may be changed. -/
theorem update {t : Table} (has : catalog.Has t)
    (free : ∀ column target, ¬catalog.Refers t column target) (cells keys : Cells) :
    Sound catalog (db.execute (.update t.name cells keys)) := by
  intro source column target ref row hrow
  have other : source ≠ t := by
    rintro rfl
    exact free column target ref
  have apart := distinct.name_ne ref.has_source has other
  rw [Database.execute_of_ne db (by simpa [Statement.table?] using apart.symm)] at hrow
  obtain ⟨id, value, there⟩ := sound source column target ref row hrow
  exact ⟨id, value, there.update t.name cells keys⟩

/-- Rows that no row refers to may be deleted. -/
theorem delete {t : Table} (has : catalog.Has t) {keys : Cells}
    (free : ∀ source column, catalog.Refers source column t → ∀ row ∈ db source.name, ∀ id,
      row.value? column = some (.int id) →
        ∀ r : Row, r.value? Column.idName = some (.int id) → r.meets keys = false) :
    Sound catalog (db.execute (.delete t.name keys)) := by
  intro source column target ref row hrow
  have old : row ∈ db source.name := by
    by_cases same : source = t
    · subst same
      rw [Database.execute_delete] at hrow
      exact (List.mem_filter.1 hrow).1
    · have apart := distinct.name_ne ref.has_source has same
      rwa [Database.execute_of_ne db (by simpa [Statement.table?] using apart.symm)] at hrow
  obtain ⟨id, value, there⟩ := sound source column target ref row old
  refine ⟨id, value, there.delete fun same r hr => ?_⟩
  obtain rfl : t = target := distinct t target has ref.has_target same
  exact free source column ref row old id value r hr

/-- Links of an aggregate row that is there to documents that are there. -/
theorem links {names : TableNames} {index : String} (has : catalog.Has (.links names index))
    {row : Int64} (there : db.HasId (names.index index) row) {ds : List Int64}
    (documents : ∀ d ∈ ds, db.HasId names.document d) :
    Sound catalog (db.executeAll (ds.map (Command.linkStatement names index row))) := by
  induction ds generalizing db with
  | nil => exact sound
  | cons d ds ih =>
    have value := Row.value?_documentId_link (distinct.index_ne has) row d
    have first : Sound catalog (db.execute (Command.linkStatement names index row d)) := by
      refine sound.insert distinct (t := .links names index) has fun column target ref => ?_
      cases ref with
      | linkedDocument _ => exact ⟨d, value, documents d (by simp)⟩
      | linkedRow _ => exact ⟨row, Row.value?_bridgeColumn_link index row d, there⟩
    exact ih first (there.insert _ _) fun d' hd' =>
      (documents d' (List.mem_cons_of_mem d hd')).insert _ _

/-- Links may always go. -/
theorem unlinks {names : TableNames} {index : String} (has : catalog.Has (.links names index))
    (row : Int64) (ds : List Int64) :
    Sound catalog (db.executeAll (ds.map (Command.unlinkStatement names index row))) := by
  induction ds generalizing db with
  | nil => exact sound
  | cons d ds ih =>
    exact ih (sound.delete distinct (t := .links names index)
      has fun source column ref => by cases ref)

end Sound

namespace Command

/-- The collection of a command. -/
def names : Command → TableNames
  | .createDocument names .. | .updateDocument names .. | .deleteDocument names _
  | .createMapRow names ..
  | .deleteMapRows names .. | .createReduceRow names .. | .updateReduceRow names ..
  | .deleteReduceRow names .. => names

/-- The documents that the rows a command inserts refer to. -/
def documents : Command → List Int64
  | .createMapRow _ _ document _ => [document]
  | .createReduceRow _ _ _ link | .updateReduceRow _ _ _ _ link _ => link
  | _ => []

/-- A command is about a collection of the catalog. -/
theorem has_documents {catalog : Catalog} {c : Command} (has : ∀ t ∈ c.tables, catalog.Has t) :
    catalog.Has (.documents c.names) := by
  cases c with
  | createDocument _ _ _ _ | updateDocument _ _ _ _ _ _ | deleteDocument _ _ =>
    exact has _ (List.mem_singleton_self _)
  | createMapRow _ _ _ _ | deleteMapRows _ _ _ => exact (has _ (List.mem_singleton_self _)).1
  | createReduceRow _ _ _ _ | updateReduceRow _ _ _ _ _ _
  | deleteReduceRow _ _ _ => exact (has _ List.mem_cons_self).1

/-- The command takes the links of an aggregate row to a document away. -/
def Unlinks (names : TableNames) (index : String) (row document : Int64) : Command → Prop
  | .updateReduceRow names' index' row' _ _ unlink =>
    names' = names ∧ index' = index ∧ row' = row ∧ document ∈ unlink
  | .deleteReduceRow names' index' row' => names' = names ∧ index' = index ∧ row' = row
  | _ => False

end Command

/-- The commands that are left can run without a dangling reference. -/
structure Ready (catalog : Catalog) (rest : List Command) (db : Database) : Prop where
  sound : Sound catalog db
  has : ∀ c ∈ rest, ∀ t ∈ c.tables, catalog.Has t
  /-- Documents that are referred to are there, or are created. -/
  there : ∀ c ∈ rest, ∀ d ∈ c.documents, db.HasId c.names.document d ∨
    ∃ typeName content, .createDocument c.names d typeName content ∈ rest
  /-- They are not deleted. -/
  kept : ∀ c ∈ rest, ∀ d ∈ c.documents, .deleteDocument c.names d ∉ rest
  /-- Aggregate rows that are updated are there. -/
  updated : ∀ names index row cells link unlink,
    .updateReduceRow names index row cells link unlink ∈ rest →
    db.HasId (names.index index) row
  /-- The map rows of documents that are deleted go. -/
  mapRows : ∀ names d, .deleteDocument names d ∈ rest →
    ∀ index, catalog.Has (.rows .map names index) →
    ∀ row ∈ db (names.index index), row.value? Column.documentIdName = some (.int d) →
      .deleteMapRows names index d ∈ rest
  /-- The links of documents that are deleted go. -/
  links : ∀ names d, .deleteDocument names d ∈ rest → ∀ index, catalog.Has (.links names index) →
    ∀ link ∈ db (names.bridge index), link.value? Column.documentIdName = some (.int d) →
      ∃ row, link.value? (TableNames.bridgeColumn index) = some (.int row) ∧
        ∃ c ∈ rest, c.Unlinks names index row d

namespace Ready

variable {catalog : Catalog} {c : Command} {rest : List Command} {db db' : Database}

/-- What one command has to leave for the others. -/
theorem next (ready : Ready catalog (c :: rest) db) (sound : Sound catalog db')
    (documents : ∀ c' ∈ rest, ∀ d ∈ c'.documents, db.HasId c'.names.document d →
      db'.HasId c'.names.document d)
    (created : ∀ names d typeName content, c = .createDocument names d typeName content →
      db'.HasId names.document d)
    (updated : ∀ names index row cells link unlink,
      .updateReduceRow names index row cells link unlink ∈ rest →
      db.HasId (names.index index) row → db'.HasId (names.index index) row)
    (mapRows : ∀ names index d, catalog.Has (.rows .map names index) →
      .deleteDocument names d ∈ rest →
      ∀ row ∈ db' (names.index index), row.value? Column.documentIdName = some (.int d) →
        row ∈ db (names.index index) ∧ c ≠ .deleteMapRows names index d)
    (links : ∀ names index d, catalog.Has (.links names index) → .deleteDocument names d ∈ rest →
      ∀ link ∈ db' (names.bridge index), link.value? Column.documentIdName = some (.int d) →
        link ∈ db (names.bridge index) ∧
          ∀ row, link.value? (TableNames.bridgeColumn index) = some (.int row) →
            ¬c.Unlinks names index row d) :
    Ready catalog rest db' where
  sound := sound
  has c' hc' := ready.has c' (List.mem_cons_of_mem c hc')
  there c' hc' d hd := by
    rcases ready.there c' (List.mem_cons_of_mem c hc') d hd with
      there | ⟨typeName, content, hcreate⟩
    · exact .inl (documents c' hc' d hd there)
    · rcases List.mem_cons.1 hcreate with same | hcreate
      · exact .inl (created _ _ typeName content same.symm)
      · exact .inr ⟨typeName, content, hcreate⟩
  kept c' hc' d hd hdelete :=
    ready.kept c' (List.mem_cons_of_mem c hc') d hd (List.mem_cons_of_mem c hdelete)
  updated names index row cells link unlink h :=
    updated names index row cells link unlink h
      (ready.updated names index row cells link unlink (List.mem_cons_of_mem c h))
  mapRows names d hdelete index has row hrow value := by
    obtain ⟨old, other⟩ := mapRows names index d has hdelete row hrow value
    have goes := ready.mapRows names d (List.mem_cons_of_mem c hdelete) index has row old value
    exact (List.mem_cons.1 goes).resolve_left fun same => other same.symm
  links names d hdelete index has link hlink value := by
    obtain ⟨old, other⟩ := links names index d has hdelete link hlink value
    obtain ⟨row, hrow, c', hc', unlinks⟩ :=
      ready.links names d (List.mem_cons_of_mem c hdelete) index has link old value
    refine ⟨row, hrow, c', (List.mem_cons.1 hc').resolve_left ?_, unlinks⟩
    rintro rfl
    exact other row hrow unlinks

variable (distinct : catalog.Distinct)
include distinct

/-- A command that touches neither map rows nor links needs little. -/
theorem next_of_apart (ready : Ready catalog (c :: rest) db) (id : Int64)
    (apart : ∀ t ∈ c.tables, (∀ names index, t ≠ .rows .map names index) ∧
      ∀ names index, t ≠ .links names index)
    (sound : Sound catalog (db.executeAll (c.statements id)))
    (documents : ∀ c' ∈ rest, ∀ d ∈ c'.documents, db.HasId c'.names.document d →
      (db.executeAll (c.statements id)).HasId c'.names.document d)
    (created : ∀ names d typeName content, c = .createDocument names d typeName content →
      (db.executeAll (c.statements id)).HasId names.document d)
    (updated : ∀ names index row cells link unlink,
      .updateReduceRow names index row cells link unlink ∈ rest →
      db.HasId (names.index index) row →
        (db.executeAll (c.statements id)).HasId (names.index index) row)
    (plain : (∀ names index d, c ≠ .deleteMapRows names index d) ∧
      ∀ names index row d, ¬c.Unlinks names index row d) :
    Ready catalog rest (db.executeAll (c.statements id)) := by
  have has := ready.has c List.mem_cons_self
  refine ready.next sound documents created updated (fun names index d has' _ row hrow _ => ?_)
    fun names index d has' _ link hlink _ => ?_
  · have same := Command.executeAll_frame distinct has (t := .rows .map names index) has'
      (fun mem => (apart _ mem).1 names index rfl) id db
    exact ⟨same ▸ hrow, plain.1 names index d⟩
  · have same := Command.executeAll_frame distinct has (t := .links names index) has'
      (fun mem => (apart _ mem).2 names index rfl) id db
    exact ⟨same ▸ hlink, fun row _ => plain.2 names index row d⟩

theorem createDocument {names : TableNames} {id : Int64} {typeName content : String}
    (ready : Ready catalog (.createDocument names id typeName content :: rest) db) :
    Ready catalog rest
      (db.execute (Command.statement (.createDocument names id typeName content))) := by
  have has := ready.has _ List.mem_cons_self (.documents names) (by simp [Command.tables])
  refine ready.next_of_apart distinct 0 (by simp [Command.tables]) ?_
    (fun _ _ _ _ there => there.insert _ _) ?_
    (fun _ _ _ _ _ _ _ there => there.insert _ _) ⟨(fun _ _ _ h => by cases h), fun _ _ _ _ h => h⟩
  · exact ready.sound.insert distinct (t := .documents names) has fun column target ref => by
      cases ref
  · rintro names' d typeName' content' same
    cases same
    exact Database.hasId_inserted db names.document id _

theorem updateDocument {names : TableNames} {id : Int64} {typeName content : String}
    {version : Int64} {expected : Option Int64}
    (ready : Ready catalog
      (.updateDocument names id typeName content version expected :: rest) db) :
    Ready catalog rest
      (db.execute
        (Command.statement (.updateDocument names id typeName content version expected))) := by
  have has := ready.has _ List.mem_cons_self (.documents names) (by simp [Command.tables])
  refine ready.next_of_apart distinct 0 (by simp [Command.tables]) ?_
    (fun _ _ _ _ there => there.update _ _ _)
    (fun _ _ _ _ h => by cases h) (fun _ _ _ _ _ _ _ there => there.update _ _ _)
    ⟨(fun _ _ _ h => by cases h), fun _ _ _ _ h => h⟩
  exact ready.sound.update distinct (t := .documents names) has
    (fun column target ref => by cases ref) _ _

theorem deleteMapRows {names : TableNames} {index : String} {document : Int64}
    (ready : Ready catalog (.deleteMapRows names index document :: rest) db) :
    Ready catalog rest (db.execute (Command.statement (.deleteMapRows names index document))) := by
  have tables := ready.has _ List.mem_cons_self
  have has : catalog.Has (.rows .map names index) := tables _ (by simp [Command.tables])
  have frame : ∀ {t}, catalog.Has t → t ≠ .rows .map names index →
      db.execute (Command.statement (.deleteMapRows names index document)) t.name = db t.name :=
    fun has' ne =>
      Command.executeAll_frame distinct tables has' (by simpa [Command.tables] using ne) 0 db
  refine ready.next ?_ (fun c' hc' d _ there => ?_) (fun _ _ _ _ h => by cases h)
    (fun names' index' _ _ _ _ h there => ?_) (fun names' index' d has' _ row hrow value => ?_)
    fun names' index' d has' _ link hlink _ => ?_
  · exact ready.sound.delete distinct (t := .rows .map names index) has fun source column ref => by
      cases ref
  · exact there.of_eq (frame (Command.has_documents (ready.has c' (List.mem_cons_of_mem _ hc')))
      fun h => by cases h)
  · have used : catalog.Has (.rows .reduce names' index') :=
      ready.has _ (List.mem_cons_of_mem _ h) _ (by simp [Command.tables])
    exact there.of_eq (frame used fun h => by cases h)
  · by_cases here : Table.rows .map names' index' = .rows .map names index
    · cases here
      rw [Command.statement, Database.execute_delete] at hrow
      obtain ⟨old, stays⟩ := List.mem_filter.1 hrow
      refine ⟨old, ?_⟩
      rintro ⟨⟩
      rw [Command.documentCell, Row.meets_singleton_iff.2 value] at stays
      cases stays
    · refine ⟨frame has' here ▸ hrow, ?_⟩
      rintro ⟨⟩
      exact here rfl
  · exact ⟨frame has' (fun h => by cases h) ▸ hlink, fun _ _ h => h⟩

omit distinct in
/-- Once the documents are written, those that a command refers to are there. -/
theorem present (ready : Ready catalog (c :: rest) db)
    (sorted : ∀ c' ∈ rest, c.priority ≤ c'.priority) (later : 0 < c.priority) :
    ∀ d ∈ c.documents, db.HasId c.names.document d := by
  intro d hd
  rcases ready.there c List.mem_cons_self d hd with there | ⟨typeName, content, hcreate⟩
  · exact there
  · have first : c.priority ≤ (Command.createDocument c.names d typeName content).priority := by
      rcases List.mem_cons.1 hcreate with same | hcreate
      · exact Nat.le_of_eq (congrArg Command.priority same).symm
      · exact sorted _ hcreate
    exact absurd first (Nat.not_le.2 later)

theorem createMapRow {names : TableNames} {index : String} {document : Int64} {cells : Cells}
    (ready : Ready catalog (.createMapRow names index document cells :: rest) db)
    (sorted : ∀ c' ∈ rest, 2 ≤ c'.priority) :
    Ready catalog rest
      (db.execute (Command.statement (.createMapRow names index document cells))) := by
  have tables := ready.has _ List.mem_cons_self
  have has : catalog.Has (.rows .map names index) := tables _ (by simp [Command.tables])
  have value := Row.value?_documentCell document cells
  have there := ready.present sorted Nat.two_pos document (by simp [Command.documents])
  refine ready.next ?_ (fun _ _ _ _ there => there.insert _ _) (fun _ _ _ _ h => by cases h)
    (fun _ _ _ _ _ _ _ there => there.insert _ _)
    (fun names' index' d has' hdelete row hrow found => ?_)
    fun names' index' d has' _ link hlink _ => ?_
  · refine ready.sound.insert distinct (t := .rows .map names index) has fun column target ref => ?_
    cases ref with
    | mapRow _ => exact ⟨document, value, there⟩
  · refine ⟨?_, fun h => by cases h⟩
    by_cases here : Table.rows .map names' index' = .rows .map names index
    · cases here
      rw [Command.statement, Database.execute_insert] at hrow
      rcases List.mem_append.1 hrow with hrow | hrow
      · exact hrow
      · obtain rfl := List.mem_singleton.1 hrow
        rw [value, Option.some.injEq, Value.int.injEq] at found
        subst found
        exact absurd (List.mem_cons_of_mem _ hdelete)
          (ready.kept _ List.mem_cons_self document (by simp [Command.documents]))
    · exact Command.executeAll_frame distinct tables (t := .rows .map names' index') has'
        (by simpa [Command.tables] using here) 0 db ▸ hrow
  · exact ⟨Command.executeAll_frame distinct tables (t := .links names' index') has'
        (by simp [Command.tables]) 0 db
      ▸ hlink, fun _ _ h => h⟩

theorem createReduceRow {names : TableNames} {index : String} {cells : Cells} {link : List Int64}
    (ready : Ready catalog (.createReduceRow names index cells link :: rest) db)
    (sorted : ∀ c' ∈ rest, 3 ≤ c'.priority) (id : Int64) :
    (∀ k, Sound catalog
        (db.executeAll
          ((Command.statements id (.createReduceRow names index cells link)).take k))) ∧
      Ready catalog rest
        (db.executeAll (Command.statements id (.createReduceRow names index cells link))) := by
  have tables := ready.has _ List.mem_cons_self
  have has : catalog.Has (.links names index) :=
    tables (.rows .reduce names index) (by simp [Command.tables])
  have apart : names.index index ≠ names.bridge index :=
    distinct.name_ne (t := .rows .reduce names index) (u := .links names index) has
      has fun h => by cases h
  have documents : ∀ d ∈ link, db.HasId names.document d := ready.present sorted (Nat.succ_pos 2)
  have prefixes : ∀ k, Sound catalog
      (db.executeAll
        ((Command.statements id (.createReduceRow names index cells link)).take k)) := by
    intro k
    cases k with
    | zero => exact ready.sound
    | succ k =>
      have first :
          Sound catalog (db.execute (.insert (names.index index) (Command.idCell id :: cells))) :=
        ready.sound.insert distinct (t := .rows .reduce names index) has fun column target ref => by
          cases ref
      rw [Command.statements, List.take_succ_cons, Database.executeAll_cons, ← List.map_take]
      exact first.links distinct has (Database.hasId_inserted db _ id cells)
        fun d hd => (documents d (List.mem_of_mem_take hd)).insert _ _
  have whole := prefixes (Command.statements id (.createReduceRow names index cells link)).length
  rw [List.take_length] at whole
  have inserted : ∀ {table d}, db.HasId table d →
      (db.executeAll (Command.statements id (.createReduceRow names index cells link))).HasId table
        d := by
    intro table d there
    refine there.executeAll fun s hs keys => ?_
    rcases List.mem_cons.1 hs with rfl | hs
    · exact fun h => by cases h
    · obtain ⟨d, _, rfl⟩ := List.mem_map.1 hs
      exact fun h => by cases h
  refine ⟨prefixes, ready.next whole (fun _ _ _ _ => inserted) (fun _ _ _ _ h => by cases h)
    (fun _ _ _ _ _ _ _ => inserted) (fun names' index' d has' _ row hrow _ => ?_)
    fun names' index' d has' hdelete r hr value => ?_⟩
  · exact ⟨Command.executeAll_frame distinct tables (t := .rows .map names' index') has'
        (by simp [Command.tables]) id db
      ▸ hrow, fun h => by cases h⟩
  · refine ⟨?_, fun _ _ h => h⟩
    by_cases here : Table.links names' index' = .links names index
    · cases here
      rw [Command.links_createReduceRow apart] at hr
      rcases List.mem_append.1 hr with hr | hr
      · exact hr
      · obtain ⟨d', hd', rfl⟩ := List.mem_map.1 hr
        rw [Row.value?_documentId_link (distinct.index_ne has), Option.some.injEq,
          Value.int.injEq] at value
        subst value
        exact absurd (List.mem_cons_of_mem _ hdelete) (ready.kept _ List.mem_cons_self d' hd')
    · exact Command.executeAll_frame distinct tables (t := .links names' index') has'
        (by simpa [Command.tables] using here) id db ▸ hr

/-- Of what updates an aggregate row only statements on its links delete. -/
theorem hasId_updateReduceRow {names : TableNames} {index : String} {row : Int64} {cells : Cells}
    {link unlink : List Int64} (has : catalog.Has (.links names index)) {t : Table}
    (used : catalog.Has t) (other : t ≠ .links names index) {id : Int64}
    (there : db.HasId t.name id) {ss : List Statement}
    (sub : ∀ s ∈ ss,
      s ∈ Command.statements 0 (.updateReduceRow names index row cells link unlink)) :
    (db.executeAll ss).HasId t.name id := by
  refine there.executeAll fun s hs keys => ?_
  rcases List.mem_cons.1 (sub s hs) with rfl | hs
  · exact fun h => by cases h
  · rcases List.mem_append.1 hs with hs | hs
    · obtain ⟨d, _, rfl⟩ := List.mem_map.1 hs
      intro h
      rw [Command.unlinkStatement, Statement.delete.injEq] at h
      exact (distinct.name_ne used (u := .links names index) has other).symm h.1
    · obtain ⟨d, _, rfl⟩ := List.mem_map.1 hs
      exact fun h => by cases h

/-- An aggregate row that is there may be updated, and linked to documents that are there. -/
theorem sound_updateReduceRow {names : TableNames} {index : String} {row : Int64} {cells : Cells}
    {link unlink : List Int64} (sound : Sound catalog db) (has : catalog.Has (.links names index))
    (there : db.HasId (names.index index) row)
    (documents : ∀ d ∈ link, db.HasId names.document d) (k : Nat) :
    Sound catalog
      (db.executeAll
        ((Command.statements 0 (.updateReduceRow names index row cells link unlink)).take k)) := by
  cases k with
  | zero => exact sound
  | succ k =>
    have first := sound.update distinct (t := .rows .reduce names index) has
      (fun column target ref => by cases ref) cells [Command.idCell row]
    have second := first.unlinks distinct has row (unlink.take k)
    have sub : ∀ s ∈ Statement.update (names.index index) cells [Command.idCell row] ::
        (unlink.take k).map (Command.unlinkStatement names index row),
        s ∈ Command.statements 0 (.updateReduceRow names index row cells link unlink) := by
      intro s hs
      rcases List.mem_cons.1 hs with rfl | hs
      · exact List.mem_cons_self
      · obtain ⟨d, hd, rfl⟩ := List.mem_map.1 hs
        exact List.mem_cons_of_mem _
          (List.mem_append_left _ (List.mem_map_of_mem (List.mem_of_mem_take hd)))
    rw [Command.statements, List.take_succ_cons, Database.executeAll_cons, List.take_append,
      ← List.map_take, ← List.map_take, Database.executeAll_append]
    refine second.links distinct has ?_ fun d hd => ?_
    · exact hasId_updateReduceRow distinct has (t := .rows .reduce names index) has
        (fun h => by cases h) there sub
    · exact hasId_updateReduceRow distinct has (t := .documents names) has.1 (fun h => by cases h)
        (documents d (List.mem_of_mem_take hd)) sub

theorem updateReduceRow {names : TableNames} {index : String} {row : Int64} {cells : Cells}
    {link unlink : List Int64}
    (ready : Ready catalog (.updateReduceRow names index row cells link unlink :: rest) db)
    (sorted : ∀ c' ∈ rest, 4 ≤ c'.priority) : (∀ k, Sound catalog
        (db.executeAll
          ((Command.statements 0 (.updateReduceRow names index row cells link unlink)).take k))) ∧
      Ready catalog rest
        (db.executeAll (Command.statements 0
          (.updateReduceRow names index row cells link unlink))) := by
  have tables := ready.has _ List.mem_cons_self
  have has : catalog.Has (.links names index) :=
    tables (.rows .reduce names index) (by simp [Command.tables])
  have apart : names.index index ≠ names.bridge index :=
    distinct.name_ne (t := .rows .reduce names index) (u := .links names index) has
      has fun h => by cases h
  have documents : ∀ d ∈ link, db.HasId names.document d := ready.present sorted (Nat.succ_pos 3)
  have updated := ready.updated names index row cells link unlink List.mem_cons_self
  have prefixes : ∀ k, Sound catalog
      (db.executeAll
        ((Command.statements 0 (.updateReduceRow names index row cells link unlink)).take k)) :=
    sound_updateReduceRow distinct ready.sound has updated documents
  have whole :=
    prefixes (Command.statements 0 (.updateReduceRow names index row cells link unlink)).length
  rw [List.take_length] at whole
  refine ⟨prefixes, ready.next whole (fun c' hc' d _ there => ?_) (fun _ _ _ _ h => by cases h)
    (fun names' index' _ _ _ _ h there => ?_) (fun names' index' d has' _ r hr _ => ?_)
    fun names' index' d has' hdelete r hr value => ?_⟩
  · exact hasId_updateReduceRow distinct has
      (Command.has_documents (ready.has c' (List.mem_cons_of_mem _ hc')))
      (fun h => by cases h) there fun _ hs => hs
  · have used := ready.has _ (List.mem_cons_of_mem _ h) (.rows .reduce names' index')
      (by simp [Command.tables])
    exact hasId_updateReduceRow distinct has used (fun h => by cases h) there fun _ hs => hs
  · exact ⟨Command.executeAll_frame distinct tables (t := .rows .map names' index') has'
        (by simp [Command.tables]) 0 db
      ▸ hr, fun h => by cases h⟩
  · by_cases here : Table.links names' index' = .links names index
    · cases here
      rw [Command.links_updateReduceRow apart] at hr
      rcases List.mem_append.1 hr with hr | hr
      · obtain ⟨old, stays⟩ := List.mem_filter.1 hr
        refine ⟨old, fun row' hrow' unlinks => ?_⟩
        obtain ⟨_, _, rfl, mem⟩ := unlinks
        have gone := List.all_eq_true.1 stays d mem
        rw [Command.bridgeCell, Command.documentCell, Row.meets_pair_iff.2 ⟨hrow', value⟩] at gone
        cases gone
      · obtain ⟨d', hd', rfl⟩ := List.mem_map.1 hr
        rw [Row.value?_documentId_link (distinct.index_ne has), Option.some.injEq,
          Value.int.injEq] at value
        subst value
        exact absurd (List.mem_cons_of_mem _ hdelete) (ready.kept _ List.mem_cons_self d' hd')
    · refine ⟨Command.executeAll_frame distinct tables (t := .links names' index') has'
        (by simpa [Command.tables] using here) 0 db ▸ hr, fun row' _ unlinks => ?_⟩
      obtain ⟨rfl, rfl, _⟩ := unlinks
      exact here rfl

theorem deleteReduceRow {names : TableNames} {index : String} {row : Int64}
    (ready : Ready catalog (.deleteReduceRow names index row :: rest) db)
    (sorted : ∀ c' ∈ rest, 5 ≤ c'.priority) :
    (∀ k,
        Sound catalog
          (db.executeAll ((Command.statements 0 (.deleteReduceRow names index row)).take k))) ∧
      Ready catalog rest
        (db.executeAll (Command.statements 0 (.deleteReduceRow names index row))) := by
  have tables := ready.has _ List.mem_cons_self
  have has : catalog.Has (.links names index) :=
    tables (.rows .reduce names index) (by simp [Command.tables])
  have apart : names.index index ≠ names.bridge index :=
    distinct.name_ne (t := .rows .reduce names index) (u := .links names index) has
      has fun h => by cases h
  have first :
      Sound catalog (db.execute (.delete (names.bridge index) [Command.bridgeCell index row])) :=
    ready.sound.delete distinct (t := .links names index) has fun source column ref => by cases ref
  have whole :
      Sound catalog (db.executeAll (Command.statements 0 (.deleteReduceRow names index row))) := by
    refine first.delete distinct (t := .rows .reduce names index)
      has fun source column ref r hr id value r' hr' => ?_
    cases ref with
    | linkedRow _ =>
      -- the links of this row are gone already
      rw [Table.name, Database.execute_delete] at hr
      obtain ⟨_, stays⟩ := List.mem_filter.1 hr
      by_contra met
      rw [Bool.not_eq_false, Command.idCell, Row.meets_singleton_iff, hr', Option.some.injEq,
        Value.int.injEq] at met
      subst met
      rw [Command.bridgeCell, Row.meets_singleton_iff.2 value] at stays
      cases stays
  have prefixes : ∀ k, Sound catalog
      (db.executeAll ((Command.statements 0 (.deleteReduceRow names index row)).take k)) := by
    intro k
    rcases k with _ | _ | k
    · exact ready.sound
    · exact first
    · rwa [List.take_of_length_le (by simp [Command.statements])]
  refine ⟨prefixes, ready.next whole (fun c' hc' d _ there => ?_) (fun _ _ _ _ h => by cases h)
    (fun names' index' _ _ _ _ h _ => ?_) (fun names' index' d has' _ r hr _ => ?_)
    fun names' index' d has' _ r hr value => ?_⟩
  · have used := Command.has_documents (ready.has c' (List.mem_cons_of_mem _ hc'))
    exact there.of_eq (Command.executeAll_frame distinct tables used
      (by simp [Command.tables]) 0 db)
  · exact absurd (sorted _ h) (by simp [Command.priority])
  · exact ⟨Command.executeAll_frame distinct tables (t := .rows .map names' index') has'
        (by simp [Command.tables]) 0 db
      ▸ hr, fun h => by cases h⟩
  · by_cases here : Table.links names' index' = .links names index
    · cases here
      rw [Command.links_deleteReduceRow apart] at hr
      obtain ⟨old, stays⟩ := List.mem_filter.1 hr
      refine ⟨old, fun row' hrow' unlinks => ?_⟩
      obtain ⟨_, _, rfl⟩ := unlinks
      rw [Command.bridgeCell, Row.meets_singleton_iff.2 hrow'] at stays
      cases stays
    · refine ⟨Command.executeAll_frame distinct tables (t := .links names' index') has'
        (by simpa [Command.tables] using here) 0 db ▸ hr, fun row' _ unlinks => ?_⟩
      obtain ⟨rfl, rfl, _⟩ := unlinks
      exact here rfl

/-- A document that is deleted last is referred to by nothing any more. -/
theorem deleteDocument {names : TableNames} {id : Int64}
    (ready : Ready catalog (.deleteDocument names id :: rest) db)
    (sorted : ∀ c' ∈ rest, 6 ≤ c'.priority) :
    Ready catalog rest (db.execute (Command.statement (.deleteDocument names id))) := by
  have tables := ready.has _ List.mem_cons_self
  have has : catalog.Has (.documents names) := tables _ (by simp [Command.tables])
  have frame : ∀ {t}, catalog.Has t → t ≠ .documents names →
      db.execute (Command.statement (.deleteDocument names id)) t.name = db t.name := fun has' ne =>
    Command.executeAll_frame distinct tables has' (by simpa [Command.tables] using ne) 0 db
  refine ready.next ?_ (fun c' hc' d hd _ => ?_) (fun _ _ _ _ h => by cases h)
    (fun _ _ _ _ _ _ h _ => ?_)
    (fun names' index' d has' _ r hr _ => ?_) fun names' index' d has' _ r hr _ => ?_
  · refine ready.sound.delete distinct (t := .documents names)
      has fun source column ref r hr d value r' hr' => ?_
    by_contra met
    rw [Bool.not_eq_false, Command.idCell, Row.meets_singleton_iff, hr', Option.some.injEq,
      Value.int.injEq] at met
    subst met
    cases ref with
    | mapRow has' =>
      have goes := ready.mapRows names d List.mem_cons_self _ has' r hr value
      rcases List.mem_cons.1 goes with h | h
      · cases h
      · exact absurd (sorted _ h) (by simp [Command.priority])
    | linkedDocument has' =>
      obtain ⟨_, _, c', hc', unlinks⟩ := ready.links names d List.mem_cons_self _ has' r hr value
      rcases List.mem_cons.1 hc' with rfl | h
      · exact unlinks
      · have last := sorted _ h
        cases c' <;> simp [Command.Unlinks, Command.priority] at unlinks last
  · have last := sorted c' hc'
    cases c' <;> simp [Command.documents, Command.priority] at hd last
  · exact absurd (sorted _ h) (by simp [Command.priority])
  · exact ⟨frame has' (fun h => by cases h) ▸ hr, fun h => by cases h⟩
  · exact ⟨frame has' (fun h => by cases h) ▸ hr, fun _ _ h => h⟩

/-- One command: no statement of it leaves a dangling reference, and the others can run after it. -/
theorem step (ready : Ready catalog (c :: rest) db) (sorted : ∀ c' ∈ rest, c.priority ≤ c'.priority)
    (id : Int64) : (∀ k, Sound catalog (db.executeAll ((c.statements id).take k))) ∧
      Ready catalog rest (db.executeAll (c.statements id)) := by
  have single : ∀ {s : Statement}, Ready catalog rest (db.execute s) →
      (∀ k, Sound catalog (db.executeAll ([s].take k))) ∧
        Ready catalog rest (db.executeAll [s]) := by
    intro s after
    refine ⟨fun k => ?_, after⟩
    cases k with
    | zero => exact ready.sound
    | succ k =>
      rw [List.take_of_length_le (by simp)]
      exact after.sound
  cases c with
  | createDocument _ _ _ _ => exact single (ready.createDocument distinct)
  | updateDocument _ _ _ _ _ _ => exact single (ready.updateDocument distinct)
  | deleteDocument _ _ => exact single (ready.deleteDocument distinct sorted)
  | createMapRow _ _ _ _ => exact single (ready.createMapRow distinct sorted)
  | deleteMapRows _ _ _ => exact single (ready.deleteMapRows distinct)
  | createReduceRow _ _ _ _ => exact ready.createReduceRow distinct sorted id
  | updateReduceRow _ _ _ _ _ _ => exact ready.updateReduceRow distinct sorted
  | deleteReduceRow _ _ _ => exact ready.deleteReduceRow distinct sorted

/-- Commands in the order of their priority run without a dangling reference after any statement. -/
theorem throughout_runAll {σ : Type} {S : Storage σ} (faithful : S.Faithful fun _ => True)
    {conn : Connection} {commands : List Command}
    (sorted : commands.Pairwise fun c c' => c.priority ≤ c'.priority) {st : σ}
    (ready : Ready catalog commands (S.tables st)) :
    Action.Throughout S.answer (fun st => Sound catalog (S.tables st))
      (Command.runAll conn commands) st := by
  induction commands generalizing st with
  | nil => exact Action.throughout_pure ready.sound
  | cons c rest ih =>
    obtain ⟨first, sorted⟩ := List.pairwise_cons.1 sorted
    refine (Command.throughout_run faithful ready.sound fun id _ =>
        (ready.step distinct first id).1).bind
      fun _ st' h => ih sorted ?_
    obtain ⟨id, _, tables⟩ := Command.tables_of_run faithful h
    rw [tables]
    exact (ready.step distinct first id).2

end Ready

end DocStore

import DocStore.Proofs.Flushing

/-!
# The lineage of a document

A document goes through versions, each one more than the one before. Its `Lineage`
is the contents that it has had; a database in which it `Stands` holds the last of
them, with the version that this makes. A guarded command on a document leaves the
lineage or adds one version to it, and adds it only to the version that it expects.
-/

set_option autoImplicit false

namespace DocStore

/-! ## Writes of one document -/

namespace Statement

/-- The statement inserts the document of an id. -/
def inserts (table : String) (id : Int64) : Statement → Bool
  | .insert t cells => t = table && cells.head? = some (Command.idCell id)
  | _ => false

/-- The statement updates the document of an id. -/
def updates (table : String) (id : Int64) : Statement → Bool
  | .update t _ keys => t = table && keys.head? = some (Command.idCell id)
  | _ => false

/-- The statement deletes the document of an id. -/
def deletes (table : String) (id : Int64) : Statement → Bool
  | .delete t keys => t = table && keys.head? = some (Command.idCell id)
  | _ => false

variable {table : String} {id : Int64} {s : Statement}

theorem isChange_of_deletes (h : s.deletes table id = true) : s.IsChange := by
  cases s with
  | delete _ _ => trivial
  | _ => cases h

theorem table?_of_deletes (h : s.deletes table id = true) : s.table? = some table := by
  cases s with
  | delete t keys => exact congrArg some (of_decide_eq_true (Bool.and_eq_true_iff.1 h).1)
  | _ => cases h

theorem isChange_of_updates (h : s.updates table id = true) : s.IsChange := by
  cases s with
  | update _ _ _ => trivial
  | _ => cases h

theorem table?_of_updates (h : s.updates table id = true) : s.table? = some table := by
  cases s with
  | update t cells keys => exact congrArg some (of_decide_eq_true (Bool.and_eq_true_iff.1 h).1)
  | _ => cases h

end Statement

theorem Command.idCell_inj {id id' : Int64} : idCell id = idCell id' ↔ id = id' := by
  simp [idCell]

theorem Database.affected_update (db : Database) (table : String) (id : Int64)
    (cells keys : Cells) : (Statement.update table cells (Command.idCell id :: keys)).affected db =
      (db.byId table id).countP fun row => row.meets keys := by
  rw [byId, List.countP_filter, Statement.affected]
  refine List.countP_congr fun row _ => ?_
  rw [Row.meets, List.all_cons, Bool.and_comm]
  rfl

theorem Database.affected_delete (db : Database) (table : String) (id : Int64) :
    (Statement.delete table [Command.idCell id]).affected db = (db.byId table id).length := by
  rw [byId, ← List.countP_eq_length_filter]
  exact List.countP_congr fun row _ => by rw [decide_eq_true_iff]; exact Row.meets_idCell_iff

/-- The cells that an update of a document writes. -/
def Document.written (content : String) (version : Int64) : Cells :=
  [(Column.contentName, .text content), (Column.versionName, .int version)]

/-- A change that shows a document inserts it, or updates it and meets it. -/
theorem Event.cases_of_shows_execute {d : Dialect} {table : String} {id version : Int64}
    {content : String} {c : Connection} {s : Statement} {n : Nat}
    (h : Shows d table id content version ⟨.execute c s, .ok n⟩) :
    s.inserts table id = true ∨ n ≠ 0 ∧
    ∃ keys, s = .update table (Document.written content version) (Command.idCell id :: keys) := by
  cases h with
  | created same => exact .inl (by simp [Command.statement, Statement.inserts, same])
  | updated same met => exact .inr ⟨met, _, by rw [← same]; rfl⟩

/-! ## Lineages -/

/-- Where a document is stored, with its type and the version that it has at first. -/
structure Origin where
  table : String
  id : Int64
  typeName : String
  version : Int64

/-- The contents that a document has had, the last one first, and whether it is still there. -/
structure Lineage where
  contents : List String
  present : Bool

namespace Origin

variable (o : Origin)

/-- The version that comes after a number of others. -/
def after (n : Nat) : Int64 := o.version + Int64.ofNat n

/-- A version was one of a lineage, with its content. -/
def Holds (line : Lineage) (content : String) (version : Int64) : Prop :=
  ∃ newer older, line.contents = newer ++ content :: older ∧ version = o.after older.length

/-- The rows of the document: that of the last version, while it is there. -/
def rows : Lineage → List Row
  | ⟨content :: older, true⟩ =>
    [Row.document o.id ⟨o.typeName, ⟨content, .null, o.after older.length⟩⟩]
  | _ => []

/-- A database in which the document stands as its lineage says, in a table of documents. -/
structure Stands (line : Lineage) (db : Database) : Prop where
  documents : ∀ row ∈ db o.table, ∃ id doc, row = Row.document id doc
  rows : db.byId o.table o.id = o.rows line

variable {o} {line line' : Lineage} {content : String} {version : Int64}

theorem after_succ (o : Origin) (n : Nat) : o.after n + 1 = o.after (n + 1) := by
  rw [after, after, Int64.ofNat_add, Int64.add_assoc]
  rfl

theorem after_inj {m n : Nat} (hm : m < 2 ^ 64) (hn : n < 2 ^ 64)
    (h : o.after m = o.after n) : m = n := by
  have same : BitVec.ofNat 64 m = BitVec.ofNat 64 n :=
    congrArg Int64.toBitVec ((Int64.add_right_inj o.version).1 h)
  have same := congrArg BitVec.toNat same
  rwa [BitVec.toNat_ofNat, BitVec.toNat_ofNat, Nat.mod_eq_of_lt hm, Nat.mod_eq_of_lt hn] at same

theorem Holds.mono (h : o.Holds line content version) (grows : line.contents <:+ line'.contents) :
    o.Holds line' content version := by
  obtain ⟨newer, older, split, same⟩ := h
  obtain ⟨newest, grown⟩ := grows
  exact ⟨newest ++ newer, older, by rw [← grown, split, List.append_assoc], same⟩

theorem holds_cons (o : Origin) (content : String) (older : List String) (present : Bool) :
    o.Holds ⟨content :: older, present⟩ content (o.after older.length) := ⟨[], older, rfl, rfl⟩

/-- What has the last version is the last content, while versions do not wrap around. -/
theorem Holds.eq_last {last : String} {older : List String} {present : Bool}
    (h : o.Holds ⟨last :: older, present⟩ content version) (short : older.length < 2 ^ 64)
    (same : version = o.after older.length) : content = last := by
  obtain ⟨newer, older', split, rfl⟩ := h
  replace split : last :: older = newer ++ content :: older' := split
  have lengths := congrArg List.length split
  simp only [List.length_cons, List.length_append] at lengths
  have equal := after_inj (by omega) short same
  obtain rfl : newer = [] := List.eq_nil_of_length_eq_zero (by omega)
  exact (List.cons.inj split).1.symm

/-- No row of the document has a version that is not the last one. -/
theorem ne_version_of_stale
  (stale : ∀ last older, line = ⟨last :: older, true⟩ → version ≠ o.after older.length) :
    ∀ row ∈ o.rows line, row.value? Column.versionName ≠ some (.int version) := by
  obtain ⟨contents, present⟩ := line
  cases contents with
  | nil => exact fun _ h => by cases h
  | cons last older =>
    cases present with
    | false => exact fun _ h => by cases h
    | true =>
      refine List.forall_mem_singleton.2 fun same => stale last older rfl ?_
      have found : some (Value.int (o.after older.length)) = some (.int version) := same
      cases found
      rfl

/-- What is found of the document is a version of its lineage. -/
theorem Stands.holds_of_found {db : Database} (stands : o.Stands line db) {row stored : Row}
    (there : stored ∈ db o.table) (same : Document.ofRow row = Document.ofRow stored)
    {typeName : String} (found : Document.ofRow row = .ok ⟨o.id, typeName, content, version⟩) :
    o.Holds line content version := by
  obtain ⟨id, doc, rfl⟩ := stands.documents stored there
  rw [found, Document.ofRow_document] at same
  cases same
  have mine : Row.document o.id doc ∈ db.byId o.table o.id :=
    Database.mem_byId_iff.2 ⟨there, Row.value?_document o.id doc⟩
  rw [stands.rows] at mine
  obtain ⟨contents, present⟩ := line
  cases contents with
  | nil => cases mine
  | cons last older =>
    cases present with
    | false => cases mine
    | true =>
      have same := congrArg Document.ofRow (List.mem_singleton.1 mine)
      rw [Document.ofRow_document, Document.ofRow_document] at same
      injection same with same
      injection same with _ _ sameContent sameVersion
      rw [sameContent, sameVersion]
      exact o.holds_cons last older true

variable {db db' : Database} (stands : o.Stands line db)
include stands

/-- A version of the lineage is what stands, content and all, or another version does. -/
theorem Stands.cases_of_holds (short : line.contents.length ≤ 2 ^ 64) {known : Tracked}
    (holds : o.Holds line known.content known.version) :
    (∃ older, line = ⟨known.content :: older, true⟩ ∧ known.version = o.after older.length ∧
      db.byId o.table o.id = [Row.document o.id ⟨o.typeName, known⟩]) ∨
      (∀ last older, line = ⟨last :: older, true⟩ → known.version ≠ o.after older.length) ∧
        ∀ row ∈ db.byId o.table o.id, row.value? Column.versionName ≠
          some (.int known.version) := by
  by_cases stale : ∀ last older, line = ⟨last :: older, true⟩ → known.version ≠ o.after older.length
  · exact .inr ⟨stale, stands.rows ▸ ne_version_of_stale stale⟩
  · obtain ⟨last, older, rfl, same⟩ : ∃ last older, line = ⟨last :: older, true⟩ ∧
        known.version = o.after older.length := by
      simpa using stale
    obtain rfl := holds.eq_last (by simpa using short) same
    refine .inl ⟨older, rfl, same, ?_⟩
    rw [stands.rows, Origin.rows, ← same]
    rfl

theorem Stands.of_eq (same : db' o.table = db o.table) : o.Stands line db' := by
  refine ⟨fun row hrow => stands.documents row (same ▸ hrow), ?_⟩
  rw [Database.byId, same]
  exact stands.rows

theorem Stands.identified :
    ∀ row ∈ db o.table, ∃ id, row.value? Column.idName = some (.int id) := by
  intro row hrow
  obtain ⟨id, doc, rfl⟩ := stands.documents row hrow
  exact ⟨id, Row.value?_document id doc⟩

/-- Insertions of other documents. -/
theorem Stands.create {id : Int64} (doc : StoredDocument) (other : id ≠ o.id) :
    o.Stands line (db.execute (.insert o.table (Row.document id doc).columns)) := by
  refine ⟨fun row hrow => ?_, ?_⟩
  · rw [Database.execute_insert] at hrow
    rcases List.mem_append.1 hrow with hrow | hrow
    · exact stands.documents row hrow
    · obtain rfl := List.mem_singleton.1 hrow
      exact ⟨id, doc, rfl⟩
  · exact (Database.byId_insert db o.table id o.id _).trans (by
      rw [if_neg other, List.append_nil, stands.rows])

theorem Stands.delete (id : Int64) : o.Stands ⟨line.contents, line.present && id ≠ o.id⟩
    (db.execute (.delete o.table [Command.idCell id])) := by
  refine ⟨fun row hrow => ?_, ?_⟩
  · rw [Database.execute_delete] at hrow
    exact stands.documents row (List.mem_filter.1 hrow).1
  · rw [Database.byId_delete]
    obtain ⟨contents, present⟩ := line
    split
    · next same => simp [same, Origin.rows]
    · next other => simpa [other] using stands.rows

/-- Updates write documents to a table of documents. -/
theorem Stands.documents_update (id : Int64) (content : String) (version : Int64) (keys : Cells) :
    ∀ row ∈
        db.execute (.update o.table (Document.written content version) (Command.idCell id :: keys))
          o.table,
      ∃ id doc, row = Row.document id doc := by
  intro row hrow
  rw [Database.execute_update] at hrow
  obtain ⟨row', there, rfl⟩ := List.mem_map.1 hrow
  obtain ⟨id', ⟨typeName, old⟩, rfl⟩ := stands.documents row' there
  split
  · exact ⟨id', _, Row.assign_document id' typeName content version .null old⟩
  · exact ⟨id', _, rfl⟩

/-- Updates of other documents. -/
theorem Stands.update_other {id : Int64} (content : String) (version : Int64) (keys : Cells)
    (other : id ≠ o.id) :
    o.Stands line (db.execute (.update o.table (Document.written content version)
      (Command.idCell id :: keys))) := by
  refine ⟨stands.documents_update id content version keys, ?_⟩
  rw [Database.byId_update _ _ _ _ _ _ stands.identified,
    List.map_congr_left fun row _ => if_neg fun h => other h.1]
  exact (List.map_id _).trans stands.rows

/-- An update that is guarded by the last version writes the next one. -/
theorem Stands.update_last {last : String} {older : List String}
    (here : line = ⟨last :: older, true⟩) (content : String) (version : Int64)
    (next : version = o.after (older.length + 1)) :
    let s := Statement.update o.table (Document.written content version)
      [Command.idCell o.id, (Column.versionName, .int (o.after older.length))]
    s.affected db = 1 ∧ o.Stands ⟨content :: last :: older, true⟩ (db.execute s) := by
  subst here next
  have meets : (Row.document o.id ⟨o.typeName, ⟨last, .null, o.after older.length⟩⟩).meets
      [(Column.versionName, .int (o.after older.length))] = true := Row.meets_singleton_iff.2 rfl
  refine ⟨?_, stands.documents_update _ _ _ _, ?_⟩
  · rw [Database.affected_update, stands.rows, Origin.rows, List.countP_singleton, meets]
    rfl
  · rw [Database.byId_update _ _ _ _ _ _ stands.identified, stands.rows, Origin.rows,
      List.map_singleton, if_pos ⟨rfl, meets⟩]
    exact congrArg ([·]) (Row.assign_document ..)

/-- An update that is guarded by another version meets nothing. -/
theorem Stands.update_none (content : String) (version expected : Int64)
    (stale : ∀ last older, line = ⟨last :: older, true⟩ → expected ≠ o.after older.length) :
    let s := Statement.update o.table (Document.written content version)
      [Command.idCell o.id, (Column.versionName, .int expected)]
    s.affected db = 0 ∧ o.Stands line (db.execute s) := by
  have misses : ∀ row ∈ o.rows line, row.meets [(Column.versionName, .int expected)] = false := by
    intro row hrow
    exact Bool.eq_false_iff.2 fun meets =>
      ne_version_of_stale stale row hrow (Row.meets_singleton_iff.1 meets)
  refine ⟨?_, stands.documents_update _ _ _ _, ?_⟩
  · rw [Database.affected_update, stands.rows, List.countP_eq_zero]
    exact fun row hrow => by rw [misses row hrow]; exact Bool.false_ne_true
  · rw [Database.byId_update _ _ _ _ _ _ stands.identified, stands.rows]
    refine (List.map_congr_left fun row hrow => if_neg ?_).trans (List.map_id _)
    rw [misses row hrow]
    exact fun h => Bool.false_ne_true h.2

omit stands

/-- What a change that met a number of rows makes of a lineage. -/
structure Revises (o : Origin) (s : Statement) (n : Nat) (line line' : Lineage) : Prop where
  grows : line.contents <:+ line'.contents
  counted : line'.contents.length = line.contents.length +
    if s.updates o.table o.id && n != 0 then 1 else 0
  holds : ∀ content version keys,
    s = .update o.table (Document.written content version) (Command.idCell o.id :: keys) → n ≠ 0 →
    o.Holds line' content version
  stays : s.deletes o.table o.id = false → line'.present = line.present

/-- A change that does not update the document. -/
theorem Revises.of_contents {s : Statement} {n : Nat} (same : line'.contents = line.contents)
    (misses : s.updates o.table o.id = true → n = 0)
    (stays : s.deletes o.table o.id = false → line'.present = line.present) :
    o.Revises s n line line' := by
  refine ⟨same ▸ List.suffix_rfl, ?_, ?_, stays⟩
  · rw [same, if_neg]
    · rfl
    · intro updated
      obtain ⟨updates, met⟩ := Bool.and_eq_true_iff.1 updated
      simp [misses updates] at met
  · rintro content version keys rfl met
    exact absurd (misses (by simp [Statement.updates])) met

theorem Revises.of_table {s : Statement} (n : Nat) (other : s.table? ≠ some o.table) :
    o.Revises s n line line :=
  .of_contents rfl (fun updates => absurd (Statement.table?_of_updates updates) other) fun _ => rfl

/-- A guarded update of the document writes the version after its last one, or it was for another
version and changes nothing. -/
theorem Stands.execute_update (stands : o.Stands line db) (content : String) (expected : Int64) :
    let s := Statement.update o.table (Document.written content (expected + 1))
      [Command.idCell o.id, (Column.versionName, .int expected)]
    ∃ line', o.Stands line' (db.execute s) ∧ o.Revises s (s.affected db) line line' := by
  intro s
  by_cases stale : ∀ last older, line = ⟨last :: older, true⟩ → expected ≠ o.after older.length
  · obtain ⟨misses, left⟩ := stands.update_none content (expected + 1) expected stale
    exact ⟨line, left, .of_contents rfl (fun _ => misses) fun _ => rfl⟩
  · obtain ⟨last, older, here, rfl⟩ : ∃ last older, line = ⟨last :: older, true⟩ ∧
        expected = o.after older.length := by
      simpa using stale
    obtain ⟨meets, left⟩ := stands.update_last here content _ (o.after_succ older.length)
    refine ⟨_, left, here ▸ List.suffix_cons _ _, ?_, ?_, fun _ => here ▸ rfl⟩
    · rw [meets, here]
      simp [s, Statement.updates]
    · intro content' version' keys written _
      injection written with _ cells
      injection cells with first rest
      cases first
      cases rest
      rw [o.after_succ]
      exact o.holds_cons content (last :: older) true

/-- The guarded command on a document of the table, of which this one is not inserted again. -/
theorem Stands.execute_edit (stands : o.Stands line db) {e : Edit}
    (table : e.names.document = o.table)
    (kept : (e.documentCommand true).statement.inserts o.table o.id = false) :
    ∃ line', o.Stands line' (db.execute (e.documentCommand true).statement) ∧
      o.Revises (e.documentCommand true).statement ((e.documentCommand true).statement.affected db)
        line line' := by
  cases e with
  | create names id typeName json content =>
    have statement : ((Edit.create names id typeName json content).documentCommand true).statement =
        .insert o.table (Row.document id ⟨typeName, ⟨content, json, 1⟩⟩).columns := by
      rw [← table]
      rfl
    rw [statement] at kept ⊢
    refine ⟨line, stands.create _ fun same => ?_,
      .of_contents rfl (fun updates => by cases updates) fun _ => rfl⟩
    simp [Statement.inserts, Row.document, same] at kept
  | update names id typeName json content old =>
    have statement :
        ((Edit.update names id typeName json content old).documentCommand true).statement =
        .update o.table (Document.written content (old.version + 1))
          [Command.idCell id, (Column.versionName, .int old.version)] := by
      rw [← table]
      rfl
    rw [statement]
    by_cases same : id = o.id
    · subst same
      exact stands.execute_update content old.version
    · refine ⟨line, stands.update_other content _ _ same,
        .of_contents rfl (fun updates => ?_) fun _ => rfl⟩
      simp [Statement.updates, Command.idCell_inj, same] at updates
  | delete names id typeName old =>
    have statement : ((Edit.delete names id typeName old).documentCommand true).statement =
        .delete o.table [Command.idCell id] := by
      rw [← table]
      rfl
    rw [statement]
    refine ⟨_, stands.delete id, .of_contents rfl (fun updates => by cases updates) fun stays => ?_⟩
    have other : id ≠ o.id := by simpa [Statement.deletes, Command.idCell_inj] using stays
    simp [other]

end Origin

end DocStore

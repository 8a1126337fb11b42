import DocStore.Proofs.Database
import DocStore.Session.Flush
import Mathlib.Data.Multiset.Bind

/-!
# Edits of documents

A flush as a list of edits: documents that are created, updated and deleted,
each planned exactly as a session plans it. What planning collects is given by
plain functions of the edits: `Edit.commands` are the commands pushed, and
`Edit.entriesAt` are the rows buffered for an index.
-/

set_option autoImplicit false

namespace DocStore

/-- A document as it is known to be: its type and its content. -/
structure LiveDocument where
  id : Int64
  entity : String
  json : Json

/-- The documents of every collection; an id names one document. -/
structure Contents where
  documents : TableNames → Multiset LiveDocument
  distinct : ∀ names, ((documents names).map LiveDocument.id).Nodup

namespace Descriptor

/-- The rows that a content maps to, with their group keys. -/
def keyed (d : Descriptor) (content : Json) : List (Json × Value) :=
  match d.mapContent content with
  | .ok rows => rows.filterMap fun row => (d.groupKey row).toOption.map fun key => (row, key)
  | .error _ => []

/-- The column values of the rows that a content maps to. -/
def cellRows (d : Descriptor) (content : Json) : List Cells :=
  match d.mapContent content with
  | .ok rows => rows.filterMap fun row => (d.index.cells row).toOption
  | .error _ => []

end Descriptor

namespace LiveDocument

/-- The rows that a document contributes to a reduce index, with their group keys. -/
def contributes (doc : LiveDocument) (catalog : Catalog) (names : TableNames) (index : String) :
    List (Json × Value) :=
  ((catalog.descriptors names doc.entity).filter fun d =>
      d.kind = .reduce ∧ d.index.name = index).flatMap fun d =>
    d.keyed doc.json

/-- A document maps to a group of a reduce index. -/
def MapsTo (doc : LiveDocument) (catalog : Catalog) (names : TableNames) (index : String)
    (key : Value) : Prop :=
  ∃ row, (row, key) ∈ doc.contributes catalog names index

end LiveDocument

/-- A change of one document; an update and a delete know the document as it was. -/
inductive Edit where
  | create (names : TableNames) (id : Int64) (entity : String) (json : Json) (content : String)
  | update (names : TableNames) (id : Int64) (entity : String) (json : Json) (content : String)
      (old : Tracked)
  | delete (names : TableNames) (id : Int64) (entity : String) (old : Tracked)

namespace Edit

/-! ## The document of an edit -/

def names : Edit → TableNames
  | .create names .. | .update names .. | .delete names .. => names

def id : Edit → Int64
  | .create _ id .. | .update _ id .. | .delete _ id .. => id

def entity : Edit → String
  | .create _ _ entity .. | .update _ _ entity .. | .delete _ _ entity _ => entity

/-- The content before the edit. -/
def before : Edit → Option Json
  | .create .. => none
  | .update _ _ _ _ _ old | .delete _ _ _ old => some old.json

/-- The content after the edit. -/
def after : Edit → Option Json
  | .create _ _ _ json _ | .update _ _ _ json _ _ => some json
  | .delete .. => none

/-- The content whose rows leave or join their groups. -/
def side (e : Edit) : Change → Option Json
  | .removed => e.before
  | .added => e.after

def key (e : Edit) : DocKey := ⟨e.names.collection, e.id⟩

/-- The document that the edit takes away, which it may give back changed, and
the one that it leaves. -/
def document (e : Edit) (change : Change) : Option LiveDocument :=
  (e.side change).map fun json => ⟨e.id, e.entity, json⟩

/-- Plans an edit as a session does, for the descriptors of its entity type. -/
def plan (check : Bool) (catalog : Catalog) (p : FlushPlan) (e : Edit) : Except Error FlushPlan :=
  let ds := catalog.descriptors e.names e.entity
  match e with
  | .create names _ entity json content => p.create names ds e.key entity json content
  | .update names _ entity json content old => p.update check names ds e.key entity json content old
  | .delete names _ _ old => p.delete names ds e.key old

/-- The documents of a collection that some edits take away or leave. -/
def moved (edits : List Edit) (names : TableNames) (change : Change) : List LiveDocument :=
  (edits.filter fun e => e.names = names).filterMap fun e => e.document change

/-- Edits in the collections of a catalog, at most one of a document, take the
documents of the store from some to others. -/
structure Turns (catalog : Catalog) (edits : List Edit) (before after : Contents) : Prop where
  used : ∀ e ∈ edits, catalog.collections e.names
  once : (edits.map fun e => (e.names, e.id)).Nodup
  rest : ∃ kept : TableNames → Multiset LiveDocument, ∀ names,
    before.documents names = kept names + (moved edits names .removed : Multiset LiveDocument) ∧
      after.documents names = kept names + (moved edits names .added : Multiset LiveDocument)

/-- The index work of an edit for one descriptor. -/
def work (e : Edit) (arena : Arena) (d : Descriptor) : Except Error Arena :=
  match e with
  | .create names id _ json _ => arena.created names d id json
  | .update names id _ json _ old => arena.updated names d id old.json json
  | .delete names id _ old => arena.deleted names d id old.json

/-- Plans edits in order. -/
def planAll (check : Bool) (catalog : Catalog) (edits : List Edit) : Except Error FlushPlan :=
  edits.foldlM (plan check catalog) ∅

/-! ## What planning collects -/

/-- The command on the document itself. -/
def documentCommand (check : Bool) : Edit → Command
  | .create names id entity _ content => .createDocument names id entity content
  | .update names id entity _ content old =>
    .updateDocument names id entity content (old.version + 1)
      (if check then some old.version else none)
  | .delete names id _ _ => .deleteDocument names id

/-- The commands on the rows of a map index. -/
def mapCommands (e : Edit) (d : Descriptor) : List Command :=
  match d.kind with
  | .reduce => []
  | .map =>
    (if e.before.isSome then [.deleteMapRows e.names d.index.name e.id] else []) ++
      e.after.elim [] fun json => (d.cellRows json).map fun cells =>
        .createMapRow e.names d.index.name e.id cells

def commands (check : Bool) (catalog : Catalog) (e : Edit) : List Command :=
  e.documentCommand check :: (catalog.descriptors e.names e.entity).flatMap e.mapCommands

/-- The mapped rows of a content, as they are buffered. -/
def mapped (e : Edit) (d : Descriptor) (change : Change) (content : Option Json) : List MappedRow :=
  content.elim [] fun json => (d.keyed json).map fun r => ⟨r.1, r.2, e.id, change⟩

/-- The rows buffered for a descriptor: those that leave and then those that join. -/
def entries (e : Edit) (d : Descriptor) : List MappedRow :=
  e.mapped d .removed e.before ++ e.mapped d .added e.after

/-- The descriptors of an edit that reduce to an index. -/
def reducers (e : Edit) (catalog : Catalog) (index : String) : List Descriptor :=
  (catalog.descriptors e.names e.entity).filter fun d => d.kind = .reduce ∧ d.index.name = index

/-- The rows buffered for an index of a collection. -/
def entriesAt (e : Edit) (catalog : Catalog) (names : TableNames) (index : String) :
    List MappedRow :=
  if e.names = names then (e.reducers catalog index).flatMap e.entries else []

variable {catalog : Catalog} {edits : List Edit} {before after : Contents} {e : Edit}

theorem mem_commands_iff {check : Bool} {c : Command} : c ∈ e.commands check catalog ↔
    c = e.documentCommand check ∨ ∃ d ∈ catalog.descriptors e.names e.entity,
      c ∈ e.mapCommands d := by
  rw [commands, List.mem_cons, List.mem_flatMap]

/-- Commands on map rows delete those of the document, or create some for what is left of it. -/
theorem cases_of_mem_mapCommands {d : Descriptor} {c : Command} (h : c ∈ e.mapCommands d) :
    d.kind = .map ∧ (c = .deleteMapRows e.names d.index.name e.id ∨
      e.after.isSome ∧ ∃ cells, c = .createMapRow e.names d.index.name e.id cells) := by
  unfold mapCommands at h
  split at h
  · cases h
  · next kind =>
    refine ⟨kind, ?_⟩
    rcases List.mem_append.1 h with h | h
    · split at h
      · exact .inl (List.mem_singleton.1 h)
      · cases h
    · cases hafter : e.after with
      | none =>
        rw [hafter] at h
        cases h
      | some json =>
        rw [hafter] at h
        obtain ⟨cells, _, rfl⟩ := List.mem_map.1 h
        exact .inr ⟨rfl, cells, rfl⟩

theorem mem_mapped_iff {d : Descriptor} {change : Change} {content : Option Json} {r : MappedRow} :
    r ∈ e.mapped d change content ↔
      ∃ json, content = some json ∧ (r.row, r.key) ∈ d.keyed json ∧
        r.document = e.id ∧ r.change = change := by
  obtain ⟨row, key, document, change'⟩ := r
  cases content with
  | none => simp [mapped]
  | some json =>
    simp only [mapped, Option.elim, List.mem_map, MappedRow.mk.injEq, Option.some.injEq,
      exists_eq_left']
    constructor
    · rintro ⟨r, mem, rfl, rfl, rfl, rfl⟩
      exact ⟨mem, rfl, rfl⟩
    · rintro ⟨mem, rfl, rfl⟩
      exact ⟨_, mem, rfl, rfl, rfl, rfl⟩

/-- The rows buffered for an index, by the descriptor that they come from. -/
theorem mem_entriesAt_iff {names : TableNames} {index : String} {r : MappedRow} :
    r ∈ e.entriesAt catalog names index ↔ e.names = names ∧
      ∃ d ∈ catalog.descriptors e.names e.entity, (d.kind = .reduce ∧ d.index.name = index) ∧
        (r ∈ e.mapped d .removed e.before ∨ r ∈ e.mapped d .added e.after) := by
  unfold entriesAt
  split
  · next here => simp [reducers, entries, here, and_assoc]
  · next other => simp [other]

/-- What a document contributes is buffered when it leaves and when it joins. -/
theorem mem_entriesAt_of_contributes {index : String} {change : Change} {doc : LiveDocument}
    {row : Json} {key : Value} (h : e.document change = some doc)
    (mem : (row, key) ∈ doc.contributes catalog e.names index) :
    ⟨row, key, e.id, change⟩ ∈ e.entriesAt catalog e.names index := by
  obtain ⟨json, side, rfl⟩ := Option.map_eq_some_iff.1 h
  obtain ⟨d, hd, mem⟩ := List.mem_flatMap.1 mem
  obtain ⟨hd, described⟩ := List.mem_filter.1 hd
  refine mem_entriesAt_iff.2 ⟨rfl, d, hd, by simpa using described, ?_⟩
  cases change with
  | removed => exact .inl (mem_mapped_iff.2 ⟨json, side, mem, rfl, rfl⟩)
  | added => exact .inr (mem_mapped_iff.2 ⟨json, side, mem, rfl, rfl⟩)

/-- The document that an edit takes away is there before. -/
theorem Turns.mem_before (turns : Turns catalog edits before after) (he : e ∈ edits)
    {doc : LiveDocument} (h : e.document .removed = some doc) : doc ∈ before.documents e.names := by
  obtain ⟨kept, each⟩ := turns.rest
  rw [(each e.names).1]
  refine Multiset.mem_add.2 (.inr ?_)
  exact List.mem_filterMap.2 ⟨e, List.mem_filter.2 ⟨he, by simp⟩, h⟩

/-- There is one edit of a document. -/
theorem Turns.eq_of_same (turns : Turns catalog edits before after) (he : e ∈ edits) {e' : Edit}
    (he' : e' ∈ edits) (names : e.names = e'.names) (id : e.id = e'.id) : e = e' :=
  List.inj_on_of_nodup_map turns.once he he' (Prod.ext names id)

end Edit

/-- There is one document of an id. -/
theorem Contents.eq_of_same (contents : Contents) {names : TableNames} {doc doc' : LiveDocument}
    (h : doc ∈ contents.documents names) (h' : doc' ∈ contents.documents names)
    (id : doc.id = doc'.id) : doc = doc' :=
  Multiset.inj_on_of_nodup_map (contents.distinct names) doc h doc' h' id

/-- The buffer is for an index of a collection. -/
def Buffer.IsFor (b : Buffer) (names : TableNames) (index : String) : Prop :=
  b.names = names ∧ b.descriptor.index.name = index

instance (b : Buffer) (names : TableNames) (index : String) : Decidable (b.IsFor names index) :=
  inferInstanceAs (Decidable (_ ∧ _))

namespace Arena

/-- The rows buffered for an index of a collection. -/
def entriesAt (arena : Arena) (names : TableNames) (index : String) : List MappedRow :=
  ((arena.buffers.find? fun b => b.IsFor names index).map Buffer.entries).getD []

/-- Every buffer is for a reduce index of the catalog, and no two are for the same one. -/
structure Tidy (catalog : Catalog) (arena : Arena) : Prop where
  described : ∀ b ∈ arena.buffers, catalog.collections b.names ∧ b.descriptor.kind = .reduce ∧
    ∃ entity, b.descriptor ∈ catalog.descriptors b.names entity
  distinct : arena.buffers.Pairwise fun b b' => ¬b.IsFor b'.names b'.descriptor.index.name

end Arena

end DocStore

import DocStore.Command
import DocStore.Proofs.Running

/-!
# Databases

The meaning of the statements of a flush. A `Database` holds the rows of every
table by the table's name; a change adds, assigns or removes rows of one table.
`Storage.Faithful` says of surroundings that they keep such a database for some
of the tables and answer from it. Nothing is asked of how they do it: they may
refuse any request, and hold more than the tables.
-/

set_option autoImplicit false

namespace DocStore

/-- The rows of every table, by the table's name. -/
abbrev Database := String → List Row

namespace Row

/-- The value of the first column that has exactly this name. -/
def value? (row : Row) (name : String) : Option Value :=
  (row.columns.find? fun c => c.1 = name).map Prod.snd

/-- Whether a row has the values that a statement looks rows up by. -/
def meets (row : Row) (keys : Cells) : Bool := keys.all fun k => row.value? k.1 = some k.2

/-- The columns that are not assigned, and then the assigned ones. An identity is never assigned. -/
def assign (row : Row) (cells : Cells) : Row :=
  ⟨(row.columns.filter fun c => c.1 = Column.idName ∨ c.1 ∉ cells.map Prod.fst) ++ cells⟩

theorem value?_cons (c : String × Value) (cells : Cells) (name : String) :
    value? ⟨c :: cells⟩ name = if c.1 = name then some c.2 else value? ⟨cells⟩ name := by
  unfold value?
  by_cases h : c.1 = name <;> simp [h]

theorem value?_idCell (id : Int64) (cells : Cells) :
    value? ⟨Command.idCell id :: cells⟩ Column.idName = some (.int id) := rfl

theorem getInt64_idCell (id : Int64) (cells : Cells) :
    getInt64 ⟨Command.idCell id :: cells⟩ Column.idName = .ok id := by
  simp [getInt64, get?, Command.idCell, sameName, Value.int64?]

theorem value?_documentCell (id : Int64) (cells : Cells) :
    value? ⟨Command.documentCell id :: cells⟩ Column.documentIdName = some (.int id) := rfl

theorem meets_singleton_iff {row : Row} {name : String} {v : Value} :
    row.meets [(name, v)] = true ↔ row.value? name = some v := by simp [meets]

theorem meets_idCell_iff {row : Row} {id : Int64} :
    row.meets [Command.idCell id] = true ↔ row.value? Column.idName = some (.int id) :=
  meets_singleton_iff

theorem meets_pair_iff {row : Row} {name name' : String} {v v' : Value} :
    row.meets [(name, v), (name', v')] = true ↔
    row.value? name = some v ∧ row.value? name' = some v' := by
  simp [meets]

/-- Assigning columns leaves the identity of a row that has one. -/
theorem value?_idName_assign {row : Row} {v : Value} (h : row.value? Column.idName = some v)
    (cells : Cells) : (row.assign cells).value? Column.idName = some v := by
  unfold value? assign at *
  rw [List.find?_append, List.find?_filter]
  have same : (row.columns.find? fun c => decide
      (decide (c.1 = Column.idName ∨ c.1 ∉ cells.map Prod.fst) = true ∧
        decide (c.1 = Column.idName) = true)) =
      row.columns.find? fun c => c.1 = Column.idName := by
    congr 1
    funext c
    by_cases hc : c.1 = Column.idName <;> simp [hc]
  rw [same]
  cases hf : row.columns.find? fun c => c.1 = Column.idName with
  | none => rw [hf] at h; cases h
  | some c => rw [hf] at h; exact h

/-- The row that links an aggregate row to a document. -/
def link (index : String) (id document : Int64) : Row :=
  ⟨[Command.bridgeCell index id, Command.documentCell document]⟩

theorem value?_bridgeColumn_link (index : String) (id document : Int64) :
    (link index id document).value? (TableNames.bridgeColumn index) = some (.int id) := by
  rw [link, value?_cons]
  exact if_pos rfl

/-- Only under an index named like the document table would the two columns of a link be one. -/
theorem value?_documentId_link {index : String} (h : index ≠ "Document") (id document : Int64) :
    (link index id document).value? Column.documentIdName = some (.int document) := by
  have apart : TableNames.bridgeColumn index ≠ Column.documentIdName := by
    intro same
    have name : Column.documentIdName = "Document" ++ "Id" := rfl
    rw [TableNames.bridgeColumn, name, String.append_left_inj] at same
    exact h same
  rw [link, value?_cons]
  exact if_neg apart

end Row

namespace Statement

/-- The table that a change is made to. -/
def table? : Statement → Option String
  | .insert table _ | .insertReturning table _ | .update table _ _ | .delete table _ => some table
  | .query _ _ | .schema _ => none

/-- The statements that change rows and answer how many. -/
def IsChange : Statement → Prop
  | .insert _ _ | .update _ _ _ | .delete _ _ => True
  | _ => False

/-- What a change makes of the rows of its table. -/
def change : Statement → List Row → List Row
  | .insert _ cells, rows => rows ++ [⟨cells⟩]
  | .update _ cells keys, rows =>
    rows.map fun row => if row.meets keys then row.assign cells else row
  | .delete _ keys, rows => rows.filter fun row => !row.meets keys
  | _, rows => rows

/-- What a statement makes of the rows of some table. -/
def on (s : Statement) (table : String) (rows : List Row) : List Row :=
  if s.table? = some table then s.change rows else rows

end Statement

/-- Requests that read, or that are about something else than the rows of tables. -/
def Request.Quiet : Request → Prop
  | .execute _ _ | .rollback _ => False
  | .scalar _ (.query _ _) => True
  | .scalar _ _ => False
  | _ => True

/-- Surroundings, and the tables as they show them. -/
structure Storage (σ : Type) where
  answer : Answerer σ
  tables : σ → Database

namespace Storage

variable {σ : Type}

/-- The surroundings execute changes on the tables kept, or refuse them and
change none of these. An insertion that answers an identity answers a new one. -/
structure Faithful (S : Storage σ) (kept : String → Prop) : Prop where
  executed : ∀ {c s st n st'}, s.IsChange → S.answer (.execute c s) st = (.ok n, st') →
    ∀ t, kept t → S.tables st' t = s.on t (S.tables st t)
  refused : ∀ {c s st e st'}, s.IsChange → S.answer (.execute c s) st = (.error e, st') →
    ∀ t, kept t → S.tables st' t = S.tables st t
  inserted : ∀ {c table cells st v st'},
    S.answer (.scalar c (.insertReturning table cells)) st = (.ok v, st') →
    ∃ id, v = some (.int id) ∧
      (kept table → ∀ row ∈ S.tables st table, row.value? Column.idName ≠ some (.int id)) ∧
      ∀ t, kept t →
        S.tables st' t = (Statement.insert table (Command.idCell id :: cells)).on t (S.tables st t)
  notInserted : ∀ {c table cells st e st'},
    S.answer (.scalar c (.insertReturning table cells)) st = (.error e, st') →
    ∀ t, kept t → S.tables st' t = S.tables st t
  quiet : ∀ {r : Request} {s}, r.Quiet → ∀ t, kept t → S.tables (S.answer r s).2 t = S.tables s t

end Storage

/-- A table by what it holds. -/
inductive Table where
  | documents (names : TableNames)
  /-- The rows of an index, which are of one kind. -/
  | rows (kind : IndexKind) (names : TableNames) (index : String)
  /-- The links of aggregate rows to their documents. -/
  | links (names : TableNames) (index : String)
deriving DecidableEq

def Table.name : Table → String
  | .documents names => names.document
  | .rows _ names index => names.index index
  | .links names index => names.bridge index

/-- The collections in use, and the descriptors of every entity type in each. -/
structure Catalog where
  collections : TableNames → Prop
  descriptors : TableNames → String → List Descriptor

namespace Catalog

/-- An index of a kind is described for an entity type of a collection. -/
def Describes (catalog : Catalog) (kind : IndexKind) (names : TableNames) (index : String) : Prop :=
  ∃ entity, ∃ d ∈ catalog.descriptors names entity, d.kind = kind ∧ d.index.name = index

/-- The tables behind the collections and their indexes. -/
def Has (catalog : Catalog) : Table → Prop
  | .documents names => catalog.collections names
  | .rows kind names index => catalog.collections names ∧ catalog.Describes kind names index
  | .links names index => catalog.collections names ∧ catalog.Describes .reduce names index

/-- No two tables share a name. -/
def Distinct (catalog : Catalog) : Prop :=
  ∀ t t', catalog.Has t → catalog.Has t' → t.name = t'.name → t = t'

end Catalog

/-- Tables of a catalog that are not the same have different names. -/
theorem Catalog.Distinct.name_ne {catalog : Catalog} (distinct : catalog.Distinct) {t u : Table}
    (h : catalog.Has t) (h' : catalog.Has u) (ne : t ≠ u) : t.name ≠ u.name :=
  fun same => ne (distinct t u h h' same)

/-- An index whose table is apart from the document table is not named like it. -/
theorem Catalog.Distinct.index_ne {catalog : Catalog} (distinct : catalog.Distinct)
    {names : TableNames} {index : String} (h : catalog.Has (.links names index)) :
    index ≠ "Document" := by
  rintro rfl
  have same := distinct (.rows .reduce names "Document") (.documents names) h h.1 rfl
  cases same

end DocStore

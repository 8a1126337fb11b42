import DocStore.Proofs.Groups
import DocStore.Proofs.Planning

/-!
# What documents contribute to groups

The group of a key holds the mapped rows of every document of a collection that
maps to it. A flush changes it by the rows that its edits take away and leave,
and these are the rows that the buffer of the index has for the key. Keys of one
index are of one kind, so those that agree are equal.
-/

set_option autoImplicit false

namespace DocStore

/-! ## Keys of one column -/

/-- What a column of a kind can hold. -/
def Value.OfKind (kind : ColumnKind) : Value → Prop
  | .null => True
  | .int _ => kind = .integer
  | .float _ => kind = .real
  | .bool _ => kind = .boolean
  | .text _ => kind = .text

theorem Value.agrees_iff_eq {kind : ColumnKind} {v w : Value} (h : v.OfKind kind)
    (h' : w.OfKind kind) : v.agrees w = true ↔ v = w := by
  cases v <;> cases w <;> simp_all [agrees, OfKind]

theorem IndexType.ofKind_cell {column : Column} {json : Option Json} {v : Value}
    (h : cellOfJson column json = .ok v) : v.OfKind column.kind := by
  obtain ⟨name, kind, nullable⟩ := column
  cases json with
  | none =>
    cases h
    trivial
  | some json =>
    have kinds : ∀ {α : Type} {x : Option α} {f : α → Except Error Value} {e : Error},
        x.elim (.error e) f = .ok v → ∃ a, f a = .ok v := by
      intro α x f e h
      cases x with
      | none => cases h
      | some a => exact ⟨a, h⟩
    by_cases null : json = .null
    · subst null
      cases kind <;> (cases h; trivial)
    · have cell : ∃ w : Value, w.OfKind kind ∧ (Except.ok w : Except Error Value) = .ok v := by
        cases kind <;> simp only [cellOfJson] at h <;> obtain ⟨a, h⟩ := kinds h
        · exact ⟨.int a, rfl, h⟩
        · exact ⟨.float a, rfl, h⟩
        · exact ⟨.text a, rfl, h⟩
        · exact ⟨.bool a, rfl, h⟩
      obtain ⟨w, kind, same⟩ := cell
      cases same
      exact kind

theorem IndexType.ofKind_cells {columns : List Column} {row : Json} {cells : Cells} {name : String}
    {c : String × Value}
    (h : (columns.mapM fun c => (cellOfJson c (row.field? c.name)).map fun v => (c.name, v)) =
      .ok cells) (find : (cells.find? fun c => c.1 = name) = some c) :
    ∃ column, (columns.find? fun c => c.name = name) = some column ∧ c.2.OfKind column.kind := by
  induction columns generalizing cells with
  | nil =>
    cases h
    cases find
  | cons column columns ih =>
    rw [List.mapM_cons] at h
    obtain ⟨cell, hcell, h⟩ := bind_eq_ok_iff.1 h
    obtain ⟨cells, hcells, h⟩ := bind_eq_ok_iff.1 h
    cases h
    obtain ⟨v, hv, rfl⟩ := map_eq_ok_iff.1 hcell
    by_cases same : column.name = name
    · rw [List.find?_cons_of_pos (by simpa using same)] at find
      cases find
      exact ⟨column, List.find?_cons_of_pos (by simpa using same), IndexType.ofKind_cell hv⟩
    · rw [List.find?_cons_of_neg (by simpa using same)] at find
      obtain ⟨column', hcolumn', kind⟩ := ih hcells find
      exact ⟨column', by rwa [List.find?_cons_of_neg (by simpa using same)], kind⟩

/-- The names of cells are those of the columns. -/
theorem IndexType.names_cells {index : IndexType} {row : Json} {cells : Cells}
    (h : index.cells row = .ok cells) : cells.map Prod.fst = index.columns.map Column.name := by
  unfold IndexType.cells at h
  split at h
  · generalize index.columns = columns at h
    induction columns generalizing cells with
    | nil =>
      cases h
      rfl
    | cons column columns ih =>
      rw [List.mapM_cons] at h
      obtain ⟨cell, hcell, h⟩ := bind_eq_ok_iff.1 h
      obtain ⟨rest, hrest, h⟩ := bind_eq_ok_iff.1 h
      obtain ⟨v, _, rfl⟩ := map_eq_ok_iff.1 hcell
      cases h
      rw [List.map_cons, List.map_cons, ih hrest]
  · cases h

/-- The group key of a row is the value of its group column. -/
theorem Descriptor.groupKey_eq_ok_iff {d : Descriptor} {name : String}
    (column : d.groupColumn = some name) {row : Json} {key : Value} : d.groupKey row = .ok key ↔
      ∃ cells, d.index.cells row = .ok cells ∧
        (cells.find? fun c => c.1 = name).map Prod.snd = some key := by
  unfold groupKey
  rw [column]
  dsimp only
  rw [bind_eq_ok_iff]
  refine exists_congr fun cells => and_congr_right fun _ => ?_
  split
  · next find =>
    rw [find]
    exact ⟨fun h => by cases h; rfl, fun h => by cases h; rfl⟩
  · next none =>
    rw [none]
    exact ⟨(fun h => nomatch h), (fun h => nomatch h)⟩

/-- A row with cells has a key, where the index has the group column. -/
theorem Descriptor.exists_groupKey {d : Descriptor} {name : String}
    (column : d.groupColumn = some name) (declared : (d.index.column? name).isSome = true)
    {row : Json} {cells : Cells} (hcells : d.index.cells row = .ok cells) :
    ∃ key, d.groupKey row = .ok key := by
  obtain ⟨c, hc⟩ := Option.isSome_iff_exists.1 declared
  have mem : name ∈ cells.map Prod.fst := by
    rw [IndexType.names_cells hcells, ← show c.name = name by simpa using List.find?_some hc]
    exact List.mem_map_of_mem (List.mem_of_find?_eq_some hc)
  obtain ⟨cell, hcell, same⟩ := List.mem_map.1 mem
  obtain ⟨found, hfound⟩ := Option.isSome_iff_exists.1
    (List.find?_isSome.2 ⟨cell, hcell, by simpa using same⟩ :
      (cells.find? fun c => c.1 = name).isSome = true)
  exact ⟨found.2, (groupKey_eq_ok_iff column).2 ⟨cells, hcells, by rw [hfound]; rfl⟩⟩

/-- A group key is of the kind of the column that it is taken from. -/
theorem Descriptor.ofKind_groupKey {d : Descriptor} {name : String}
    (column : d.groupColumn = some name) {row : Json} {key : Value} (h : d.groupKey row = .ok key) :
    ∃ c, d.index.column? name = some c ∧ key.OfKind c.kind := by
  obtain ⟨cells, hcells, value⟩ := (groupKey_eq_ok_iff column).1 h
  obtain ⟨c, find, rfl⟩ := Option.map_eq_some_iff.1 value
  unfold IndexType.cells at hcells
  split at hcells
  · exact IndexType.ofKind_cells hcells find
  · cases hcells

theorem Descriptor.groupKey_of_mem_keyed {d : Descriptor} {content row : Json} {key : Value}
    (h : (row, key) ∈ d.keyed content) : d.groupKey row = .ok key := by
  unfold keyed at h
  split at h
  · obtain ⟨row', _, h⟩ := List.mem_filterMap.1 h
    obtain ⟨key', hkey, same⟩ := Option.map_eq_some_iff.1 h
    cases same
    exact toOption_eq_some_iff.1 hkey
  · cases h

/-! ## Groups of documents -/

namespace LiveDocument

variable {doc : LiveDocument} {catalog : Catalog} {names : TableNames} {index : String}
  {key : Value}

/-- The rows of a document in a group. -/
def rowsAt (doc : LiveDocument) (catalog : Catalog) (names : TableNames) (index : String)
    (key : Value) : List Json :=
  ((doc.contributes catalog names index).filter fun r => r.2 = key).map Prod.fst

theorem mem_rowsAt_iff {row : Json} : row ∈ doc.rowsAt catalog names index key ↔
    (row, key) ∈ doc.contributes catalog names index := by
  simp [rowsAt]

theorem mapsTo_iff :
    doc.MapsTo catalog names index key ↔ doc.rowsAt catalog names index key ≠ [] := by
  simp only [MapsTo, ← mem_rowsAt_iff, ne_eq, List.eq_nil_iff_forall_not_mem, not_forall, not_not]

instance : Decidable (doc.MapsTo catalog names index key) := decidable_of_iff' _ mapsTo_iff

end LiveDocument

/-- The mapped rows that documents have in a group. -/
def groupRows (docs : Multiset LiveDocument) (catalog : Catalog) (names : TableNames)
    (index : String) (key : Value) : Multiset Json :=
  docs.bind fun doc => doc.rowsAt catalog names index key

/-- The documents that map to a group. -/
def groupIds (docs : Multiset LiveDocument) (catalog : Catalog) (names : TableNames)
    (index : String) (key : Value) : Multiset Int64 :=
  (docs.filter fun doc => doc.MapsTo catalog names index key).map LiveDocument.id

section Groups

variable {docs docs' : Multiset LiveDocument} {catalog : Catalog} {names : TableNames}
  {index : String} {key : Value}

theorem groupRows_add : groupRows (docs + docs') catalog names index key =
    groupRows docs catalog names index key + groupRows docs' catalog names index key :=
  Multiset.add_bind _ _ _

theorem groupIds_add : groupIds (docs + docs') catalog names index key =
    groupIds docs catalog names index key + groupIds docs' catalog names index key := by
  rw [groupIds, Multiset.filter_add, Multiset.map_add]
  rfl

theorem mem_groupRows_iff {row : Json} : row ∈ groupRows docs catalog names index key ↔
    ∃ doc ∈ docs, (row, key) ∈ doc.contributes catalog names index := by
  simp only [groupRows, Multiset.mem_bind, Multiset.mem_coe, LiveDocument.mem_rowsAt_iff]

theorem mem_groupIds_iff {id : Int64} : id ∈ groupIds docs catalog names index key ↔
    ∃ doc ∈ docs, doc.MapsTo catalog names index key ∧ doc.id = id := by
  simp only [groupIds, Multiset.mem_map, Multiset.mem_filter, and_assoc]

theorem nodup_groupIds (distinct : (docs.map LiveDocument.id).Nodup) :
    (groupIds docs catalog names index key).Nodup :=
  Multiset.nodup_of_le (Multiset.map_le_map (Multiset.filter_le _ _)) distinct

end Groups

/-! ## The rows of a buffer -/

namespace Edit

variable {catalog : Catalog} {edits : List Edit} {names : TableNames} {index : String} {key : Value}
  {change : Change}

theorem flatMap_moved {β : Type} (f : LiveDocument → List β) :
    (moved edits names change).flatMap f =
    edits.flatMap fun e => if e.names = names then (e.document change).elim [] f else [] := by
  unfold moved
  induction edits with
  | nil => rfl
  | cons e edits ih =>
    rw [List.flatMap_cons, ← ih, List.filter_cons]
    by_cases here : e.names = names
    · rw [if_pos (by simpa using here), if_pos here, List.filterMap_cons]
      cases e.document change with
      | none => rfl
      | some doc => rw [List.flatMap_cons]; rfl
    · rw [if_neg (by simpa using here), if_neg here]
      rfl

/-- The buffered rows of an edit that join or leave a group are those of its document. -/
theorem filter_entriesAt {e : Edit}
    (keys : ∀ r ∈ e.entriesAt catalog names index, r.key.agrees key = true ↔ r.key = key) :
    ((e.entriesAt catalog names index).filter fun r => r.change = change && r.key.agrees key) =
      if e.names = names then (e.document change).elim [] fun doc =>
        ((doc.contributes catalog names index).filter fun r => r.2 = key).map fun r =>
          ⟨r.1, r.2, doc.id, change⟩
      else [] := by
  have equal :
      ((e.entriesAt catalog names index).filter fun r => r.change = change && r.key.agrees key) =
      (e.entriesAt catalog names index).filter fun r => r.change = change && decide (r.key = key) :=
    List.filter_congr fun r hr => by
      rw [Bool.eq_iff_iff, Bool.and_eq_true, Bool.and_eq_true, keys r hr,
        @decide_eq_true_eq (r.key = key)]
  rw [equal, entriesAt]
  by_cases here : e.names = names
  · have side : ∀ d : Descriptor,
        ((e.entries d).filter fun r => r.change = change && decide (r.key = key)) =
        (e.side change).elim [] fun json => ((d.keyed json).filter fun r => r.2 = key).map fun r =>
          ⟨r.1, r.2, e.id, change⟩ := by
      intro d
      have part :
          ∀ change', ((e.mapped d change' (e.side change')).filter fun r =>
            r.change = change && decide (r.key = key)) =
          if change' = change then (e.side change).elim [] fun json =>
            ((d.keyed json).filter fun r => r.2 = key).map fun r => ⟨r.1, r.2, e.id, change⟩
            else [] := by
        intro change'
        by_cases same : change' = change
        · subst same
          cases hside : e.side change' <;> simp [mapped, List.filter_map, Function.comp_def]
        · cases hside : e.side change' <;> simp [mapped, List.filter_map, Function.comp_def, same]
      have both := congrArg₂ (· ++ ·) (part .removed) (part .added)
      rw [← List.filter_append] at both
      refine Eq.trans both ?_
      cases change <;> simp
    rw [if_pos here, if_pos here, List.filter_flatMap, document]
    simp only [side]
    cases hside : e.side change with
    | none => simp
    | some json =>
      simp only [Option.elim, Option.map, LiveDocument.contributes, List.filter_flatMap,
        List.map_flatMap]
      rw [reducers, here]
  · rw [if_neg here, if_neg here]
    rfl

end Edit

namespace Buffer

variable {check : Bool} {catalog : Catalog} {edits : List Edit} {p : FlushPlan} {b : Buffer}
  {key : Value} {change : Change}

/-- A group of a buffer has the rows of the documents that were moved. -/
theorem group_eq
  (entries : b.entries = edits.flatMap fun e => e.entriesAt catalog b.names b.descriptor.index.name)
    (keys : ∀ r ∈ b.entries, r.key.agrees key = true ↔ r.key = key) :
    b.group key change = (Edit.moved edits b.names change).flatMap fun doc =>
      ((doc.contributes catalog b.names b.descriptor.index.name).filter fun r => r.2 = key).map
        fun r => ⟨r.1, r.2, doc.id, change⟩ := by
  rw [group, entries, List.filter_flatMap, Edit.flatMap_moved]
  refine List.flatMap_congr fun e he => Edit.filter_entriesAt fun r hr => keys r ?_
  rw [entries]
  exact List.mem_flatMap.2 ⟨e, he, hr⟩

variable (entries : b.entries = edits.flatMap fun e =>
    e.entriesAt catalog b.names b.descriptor.index.name)
  (keys : ∀ r ∈ b.entries, r.key.agrees key = true ↔ r.key = key)
include entries keys

theorem map_row_group : ((b.group key change).map MappedRow.row : Multiset Json) =
    groupRows (Edit.moved edits b.names change) catalog b.names b.descriptor.index.name key := by
  rw [group_eq entries keys, groupRows, Multiset.coe_bind, List.map_flatMap]
  simp only [List.map_map, Function.comp_def, LiveDocument.rowsAt]

theorem joins_iff {id : Int64} : b.joins key change id ↔
    id ∈ groupIds (Edit.moved edits b.names change) catalog b.names
      b.descriptor.index.name key := by
  simp only [joins, group_eq entries keys, List.mem_flatMap, List.mem_map, List.mem_filter,
    decide_eq_true_eq, mem_groupIds_iff, Multiset.mem_coe]
  constructor
  · rintro ⟨_, ⟨doc, hdoc, r, ⟨mem, rfl⟩, rfl⟩, rfl⟩
    exact ⟨doc, hdoc, ⟨r.1, mem⟩, rfl⟩
  · rintro ⟨doc, hdoc, ⟨row, mem⟩, rfl⟩
    exact ⟨_, ⟨doc, hdoc, (row, key), ⟨mem, rfl⟩, rfl⟩, rfl⟩

end Buffer

end DocStore

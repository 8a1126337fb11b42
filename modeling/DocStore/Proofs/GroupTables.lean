import DocStore.Proofs.Aggregates
import DocStore.Proofs.CommandEffects
import Mathlib.Logic.Function.Basic

/-!
# Tables of groups

The index table and the bridge table of a reduction as a map from keys to stored
groups. A command that takes one group somewhere changes the map there and
nowhere else, so a flush that has at most one command for a key takes every group
to where its command takes it.
-/

set_option autoImplicit false

namespace DocStore

/-- Assigning every column but the identity leaves the identity and the new values. -/
theorem Row.assign_idCell {id : Int64} {old cells : Cells}
    (names : old.map Prod.fst = cells.map Prod.fst) (apart : Column.idName ∉ cells.map Prod.fst) :
    Row.assign ⟨Command.idCell id :: old⟩ cells = ⟨Command.idCell id :: cells⟩ := by
  have gone : (old.filter fun c => c.1 = Column.idName ∨ c.1 ∉ cells.map Prod.fst) = [] := by
    refine List.filter_eq_nil_iff.2 fun c hc => ?_
    have mem : c.1 ∈ cells.map Prod.fst := names ▸ List.mem_map_of_mem hc
    rw [decide_eq_true_eq, not_or, not_not]
    exact ⟨fun same => apart (same ▸ mem), mem⟩
  rw [assign, List.filter_cons_of_pos (by simp [Command.idCell]), gone]
  rfl

namespace Reduction

/-- The table of the aggregate rows, and that of their links. -/
def table (R : Reduction) : String := R.names.index R.index.name

def bridge (R : Reduction) : String := R.names.bridge R.index.name

/-- The links of an aggregate row. -/
def linksOf (R : Reduction) (db : Database) (id : Int64) : List Row :=
  (db R.bridge).filter fun link =>
    link.value? (TableNames.bridgeColumn R.index.name) = some (.int id)

/-- The rows of a group. -/
def rowsOf (R : Reduction) (db : Database) (key : Value) : List Row :=
  (db R.table).filter fun row => row.value? R.column = some key

/-- The tables of an index hold the groups of a map, and nothing else. -/
structure Stores (R : Reduction) (G : Value → Option StoredGroup) (db : Database) : Prop where
  keyed : ∀ row ∈ db R.table, ∃ key, row.value? R.column = some key
  shows : ∀ key, R.Shows (G key) (R.rowsOf db key)
  linked : ∀ link ∈ db R.bridge, ∃ key g, G key = some g ∧
    link.value? (TableNames.bridgeColumn R.index.name) = some (.int g.id)
  links : ∀ key g, G key = some g →
    (R.linksOf db g.id : Multiset Row) = g.documents.map (Row.link R.index.name g.id)
  apart : ∀ key key' g g', G key = some g → G key' = some g' → g.id = g'.id → key = key'

/-- What a row of an aggregate is to have: the columns of the index, with the key among them,
and no other identity. -/
structure Fits (R : Reduction) (key : Value) (cells : Cells) : Prop where
  names : cells.map Prod.fst = R.index.columns.map Column.name
  key : ∀ id, Row.value? ⟨Command.idCell id :: cells⟩ R.column = some key

theorem Feeds.has_links {R : Reduction} {catalog : Catalog} {d : Descriptor}
    (feeds : R.Feeds catalog d) (used : catalog.collections R.names) :
    catalog.Has (.links R.names R.index.name) := by
  obtain ⟨⟨entity, mem⟩, kind, name⟩ := feeds
  exact ⟨used, entity, d, mem, kind, name⟩

/-- Cells of the columns of an index fit the key that they have, as no column
stands in for the identity. -/
theorem fits_of_cells {R : Reduction} (apart : ∀ c ∈ R.index.columns, c.name ≠ Column.idName)
    {row : Json} {cells : Cells} (hcells : R.index.cells row = .ok cells) {key : Value}
    (value : (cells.find? fun c => c.1 = R.column).map Prod.snd = some key) : R.Fits key cells := by
  have names := IndexType.names_cells hcells
  refine ⟨names, fun id => ?_⟩
  have column : R.column ≠ Column.idName := by
    intro same
    obtain ⟨c, hc, _⟩ := Option.map_eq_some_iff.1 value
    have mem : Column.idName ∈ cells.map Prod.fst := by
      have here := List.mem_map_of_mem (f := Prod.fst) (List.mem_of_find?_eq_some hc)
      rwa [show c.1 = Column.idName by simpa [same] using List.find?_some hc] at here
    rw [names] at mem
    obtain ⟨c', hc', hname⟩ := List.mem_map.1 mem
    exact apart c' hc' hname
  rw [Row.value?_cons, if_neg (show (Command.idCell id).1 ≠ R.column from column.symm)]
  exact value

theorem fits_of_shared {R : Reduction} {catalog : Catalog} (lawful : R.Lawful catalog)
    (restores : R.Restores catalog) {key : Value} {A : Multiset Json}
    (shared : R.Shared catalog key A) {cells : Cells}
    (hcells : R.index.cells (R.agg A) = .ok cells) : R.Fits key cells :=
  fits_of_cells restores.apart hcells (lawful.find_cells shared hcells)

/-- A row is given new cells if it is one of a group. -/
def reassign (R : Reduction) (key : Value) (id : Int64) (cells : Cells) (row : Row) : Row :=
  if row.value? R.column = some key then ⟨Command.idCell id :: cells⟩ else row

/-- A link is none of a group to the documents that it gives up. -/
def remains (R : Reduction) (id : Int64) (unlink : List Int64) (link : Row) : Bool :=
  unlink.all fun d => !link.meets [Command.bridgeCell R.index.name id, Command.documentCell d]

section Update

variable {R : Reduction} {key : Value} {cells : Cells} {db db' : Database} {id : Int64}

theorem Fits.value?_reassign (fits : R.Fits key cells) (id : Int64) (row : Row) :
    (R.reassign key id cells row).value? R.column = row.value? R.column := by
  rw [reassign]
  split
  · next here => rw [fits.key, here]
  · rfl

/-- New cells leave every row in its group. -/
theorem Fits.rowsOf_reassign (fits : R.Fits key cells)
    (rows : db' R.table = (db R.table).map (R.reassign key id cells)) (key' : Value) :
    R.rowsOf db' key' = (R.rowsOf db key').map (R.reassign key id cells) := by
  rw [rowsOf, rows, List.filter_map]
  congr 1
  exact List.filter_congr fun row _ => by rw [Function.comp_apply, fits.value?_reassign]

theorem remains_link_iff (plain : R.index.name ≠ "Document") {unlink : List Int64} {id' d : Int64} :
    R.remains id unlink (Row.link R.index.name id' d) = true ↔ (id' = id → d ∉ unlink) := by
  simp only [remains, List.all_eq_true, Bool.not_eq_true', Bool.eq_false_iff, ne_eq,
    Command.bridgeCell, Command.documentCell, Row.meets_pair_iff, Row.value?_bridgeColumn_link,
    Row.value?_documentId_link plain, Option.some.injEq, Value.int.injEq, not_and]
  exact ⟨fun h same mem => h d mem same rfl, fun h d' hd' same same' => h same (same' ▸ hd')⟩

end Update

namespace Stores

variable {R : Reduction} {G : Value → Option StoredGroup} {db : Database} (stores : R.Stores G db)
include stores

/-- A row is that of a group. -/
theorem exists_group {row : Row} (h : row ∈ db R.table) : ∃ key g cells, G key = some g ∧
    row.value? R.column = some key ∧ R.index.cells (R.agg g.rows) = .ok cells ∧
      row = ⟨Command.idCell g.id :: cells⟩ := by
  obtain ⟨key, hkey⟩ := stores.keyed row h
  have mem : row ∈ R.rowsOf db key := List.mem_filter.2 ⟨h, by simpa using hkey⟩
  have shows := stores.shows key
  cases hG : G key with
  | none =>
    rw [hG] at shows
    rw [show R.rowsOf db key = [] from shows] at mem
    cases mem
  | some g =>
    rw [hG] at shows
    obtain ⟨cells, hcells, rows⟩ := shows
    rw [rows] at mem
    exact ⟨key, g, cells, hG, hkey, hcells, List.mem_singleton.1 mem⟩

/-- The id of a group is that of a row. -/
theorem exists_row {key : Value} {g : StoredGroup} (h : G key = some g) :
    ∃ row ∈ db R.table, row.value? Column.idName = some (.int g.id) ∧
      row.value? R.column = some key := by
  have shows := stores.shows key
  rw [h] at shows
  obtain ⟨cells, _, rows⟩ := shows
  have mem : (⟨Command.idCell g.id :: cells⟩ : Row) ∈ R.rowsOf db key :=
    rows ▸ List.mem_singleton_self _
  obtain ⟨mem, value⟩ := List.mem_filter.1 mem
  exact ⟨_, mem, Row.value?_idCell g.id cells, by simpa using value⟩

/-- New groups get new ids. -/
theorem ne_of_fresh {id : Int64}
    (fresh : ∀ row ∈ db R.table, row.value? Column.idName ≠ some (.int id)) {key : Value}
    {g : StoredGroup} (h : G key = some g) : g.id ≠ id := by
  rintro rfl
  obtain ⟨row, mem, value, _⟩ := stores.exists_row h
  exact fresh row mem value

omit stores in
theorem filter_links (index : String) (id id' : Int64) (ds : List Int64) :
    ((ds.map (Row.link index id)).filter fun link =>
        link.value? (TableNames.bridgeColumn index) = some (.int id')) =
      if id = id' then ds.map (Row.link index id) else [] := by
  split
  · next same =>
    refine List.filter_eq_self.2 fun link h => ?_
    obtain ⟨d, _, rfl⟩ := List.mem_map.1 h
    simp [Row.value?_bridgeColumn_link, same]
  · next other =>
    refine List.filter_eq_nil_iff.2 fun link h => ?_
    obtain ⟨d, _, rfl⟩ := List.mem_map.1 h
    simp [Row.value?_bridgeColumn_link, other]

variable {key : Value} {A : Multiset Json} {cells : Cells} (separate : R.table ≠ R.bridge)
include separate

theorem create {link : List Int64} {id : Int64} (none : G key = none)
    (hcells : R.index.cells (R.agg A) = .ok cells) (fits : R.Fits key cells)
    (fresh : ∀ row ∈ db R.table, row.value? Column.idName ≠ some (.int id)) :
    R.Stores (Function.update G key (some ⟨id, A, link⟩))
      (db.executeAll
        ((Command.createReduceRow R.names R.index.name cells link).statements id)) := by
  generalize hdb :
    db.executeAll ((Command.createReduceRow R.names R.index.name cells link).statements id) = db'
  have rows : db' R.table = db R.table ++ [⟨Command.idCell id :: cells⟩] :=
    hdb ▸ Command.rows_createReduceRow separate db id cells link
  have bridge : db' R.bridge = db R.bridge ++ link.map (Row.link R.index.name id) :=
    hdb ▸ Command.links_createReduceRow separate db id cells link
  have ne : ∀ {key' g}, G key' = some g → key' ≠ key := by
    rintro key' g h rfl
    rw [none] at h
    cases h
  constructor
  case keyed =>
    intro row hrow
    rw [rows] at hrow
    rcases List.mem_append.1 hrow with hrow | hrow
    · exact stores.keyed row hrow
    · rw [List.mem_singleton.1 hrow]
      exact ⟨key, fits.key id⟩
  case shows =>
    intro key'
    have shows := stores.shows key'
    rw [rowsOf, rows, List.filter_append, ← rowsOf]
    by_cases same : key' = key
    · subst same
      rw [none] at shows
      rw [Function.update_self, show R.rowsOf db key' = [] from shows]
      exact ⟨cells, hcells, List.filter_eq_self.2 (by simp [fits.key])⟩
    · rw [Function.update_of_ne same, List.filter_eq_nil_iff.2 (by simp [fits.key, Ne.symm same]),
        List.append_nil]
      exact shows
  case linked =>
    intro l hl
    rw [bridge] at hl
    rcases List.mem_append.1 hl with hl | hl
    · obtain ⟨key', g, hG, value⟩ := stores.linked l hl
      exact ⟨key', g, by rw [Function.update_of_ne (ne hG), hG], value⟩
    · obtain ⟨d, _, rfl⟩ := List.mem_map.1 hl
      exact ⟨key, _, Function.update_self .., Row.value?_bridgeColumn_link R.index.name id d⟩
  case links =>
    intro key' g hG
    rw [linksOf, bridge, List.filter_append, filter_links, ← linksOf]
    by_cases same : key' = key
    · subst same
      rw [Function.update_self] at hG
      cases hG
      have old : R.linksOf db id = [] := by
        refine List.filter_eq_nil_iff.2 fun l hl value => ?_
        obtain ⟨key, g, hG, value'⟩ := stores.linked l hl
        rw [value', decide_eq_true_eq, Option.some.injEq, Value.int.injEq] at value
        exact stores.ne_of_fresh fresh hG value
      rw [old, if_pos rfl]
      rfl
    · rw [Function.update_of_ne same] at hG
      rw [if_neg (stores.ne_of_fresh fresh hG).symm, List.append_nil]
      exact stores.links key' g hG
  case apart =>
    intro key₁ key₂ g₁ g₂ h₁ h₂ same
    by_cases here₁ : key₁ = key
    · subst here₁
      rw [Function.update_self] at h₁
      cases h₁
      by_contra other
      rw [Function.update_of_ne (Ne.symm other)] at h₂
      exact stores.ne_of_fresh fresh h₂ same.symm
    · rw [Function.update_of_ne here₁] at h₁
      by_cases here₂ : key₂ = key
      · subst here₂
        rw [Function.update_self] at h₂
        cases h₂
        exact absurd same (stores.ne_of_fresh fresh h₁)
      · rw [Function.update_of_ne here₂] at h₂
        exact stores.apart key₁ key₂ g₁ g₂ h₁ h₂ same

omit separate in
/-- A row has the id of a group exactly if it is in the group. -/
theorem meets_idCell_iff {g : StoredGroup} (hG : G key = some g) {row : Row}
    (h : row ∈ db R.table) :
    row.meets [Command.idCell g.id] = true ↔ row.value? R.column = some key := by
  obtain ⟨key', g', cells, hG', value, _, rfl⟩ := stores.exists_group h
  rw [Row.meets_idCell_iff, Row.value?_idCell, value, Option.some.injEq, Option.some.injEq,
    Value.int.injEq]
  constructor
  · exact stores.apart key' key g' g hG' hG
  · rintro rfl
    rw [hG] at hG'
    cases hG'
    rfl

omit separate in
/-- To assign new cells to what has the id of a group is to give them to the rows of the group. -/
theorem assign_eq_reassign {g : StoredGroup} (hG : G key = some g) (fits : R.Fits key cells)
    (apart : Column.idName ∉ cells.map Prod.fst) {row : Row} (hrow : row ∈ db R.table) :
    (if row.meets [Command.idCell g.id] then row.assign cells else row) =
    R.reassign key g.id cells row := by
  rw [reassign]
  by_cases here : row.value? R.column = some key
  · rw [if_pos ((stores.meets_idCell_iff hG hrow).2 here), if_pos here]
    obtain ⟨key', g', old, hG', value, hold, rfl⟩ := stores.exists_group hrow
    rw [value, Option.some.injEq] at here
    subst here
    rw [hG] at hG'
    cases hG'
    exact Row.assign_idCell ((IndexType.names_cells hold).trans fits.names.symm) apart
  · rw [if_neg fun met => here ((stores.meets_idCell_iff hG hrow).1 met), if_neg here]

omit separate in
theorem shows_reassign {g : StoredGroup} {ds : Multiset Int64} (hG : G key = some g)
    (hcells : R.index.cells (R.agg A) = .ok cells) (key' : Value) :
    R.Shows (Function.update G key (some ⟨g.id, A, ds⟩) key')
      ((R.rowsOf db key').map (R.reassign key g.id cells)) := by
  have shows := stores.shows key'
  have here : ∀ row ∈ R.rowsOf db key', row.value? R.column = some key' := fun row hrow => by
    simpa using (List.mem_filter.1 hrow).2
  by_cases same : key' = key
  · subst same
    rw [hG] at shows
    obtain ⟨old, _, one⟩ := shows
    rw [Function.update_self, one, List.map_singleton, reassign,
      if_pos (here _ (one ▸ List.mem_singleton_self _))]
    exact ⟨cells, hcells, rfl⟩
  · have others : ∀ row ∈ R.rowsOf db key', R.reassign key g.id cells row = row :=
      fun row hrow => by
        rw [reassign, here row hrow, if_neg fun h => same (Option.some.inj h)]
    rw [Function.update_of_ne same, List.map_congr_left others, List.map_id']
    exact shows

omit separate in
/-- A group that gives up documents loses the links to them, and others lose none. -/
theorem filter_remains (plain : R.index.name ≠ "Document") (id : Int64) (unlink : List Int64)
    {key' : Value} {g' : StoredGroup} (hG' : G key' = some g') :
    ((R.linksOf db g'.id).filter (R.remains id unlink) : Multiset Row) =
      (g'.documents.filter fun d => g'.id = id → d ∉ unlink).map (Row.link R.index.name g'.id) := by
  have coe : ∀ (l : List Row) (p : Row → Bool), (l.filter p : Multiset Row) =
      (l : Multiset Row).filter fun r => p r = true := fun l p => by simp
  rw [coe, stores.links key' g' hG', Multiset.filter_map]
  congr 1
  exact Multiset.filter_congr fun d _ => remains_link_iff plain

omit stores separate in
theorem linksOf_update {db' : Database} {id : Int64} {link unlink : List Int64}
    (bridge : db' R.bridge = (db R.bridge).filter (R.remains id unlink) ++
      link.map (Row.link R.index.name id)) (id' : Int64) :
    R.linksOf db' id' = (R.linksOf db id').filter (R.remains id unlink) ++
      if id = id' then link.map (Row.link R.index.name id) else [] := by
  rw [linksOf, bridge, List.filter_append, filter_links, List.filter_filter, linksOf,
    List.filter_filter]
  congr 1
  exact List.filter_congr fun r _ => Bool.and_comm _ _

omit stores separate in
/-- A group that is changed keeps its id. -/
theorem exists_of_update {g g' : StoredGroup} {ds : Multiset Int64} (hG : G key = some g)
    {key' : Value} (h : Function.update G key (some ⟨g.id, A, ds⟩) key' = some g') :
    ∃ old, G key' = some old ∧ old.id = g'.id := by
  by_cases here : key' = key
  · subst here
    rw [Function.update_self] at h
    cases h
    exact ⟨g, hG, rfl⟩
  · rw [Function.update_of_ne here] at h
    exact ⟨g', h, rfl⟩

theorem update {g : StoredGroup} {link unlink : List Int64} (hG : G key = some g)
    (hcells : R.index.cells (R.agg A) = .ok cells) (fits : R.Fits key cells)
    (apart : Column.idName ∉ cells.map Prod.fst) (plain : R.index.name ≠ "Document") :
    R.Stores (Function.update G key
        (some ⟨g.id, A, (g.documents.filter fun d => d ∉ unlink) + link⟩))
      (db.executeAll
        ((Command.updateReduceRow R.names R.index.name g.id cells link unlink).statements 0)) := by
  generalize hdb :
    db.executeAll
      ((Command.updateReduceRow R.names R.index.name g.id cells link unlink).statements 0) = db'
  have rows : db' R.table = (db R.table).map (R.reassign key g.id cells) := by
    refine (hdb ▸ Command.rows_updateReduceRow separate db g.id cells link unlink 0).trans ?_
    exact List.map_congr_left fun row hrow => stores.assign_eq_reassign hG fits apart hrow
  have bridge : db' R.bridge = (db R.bridge).filter (R.remains g.id unlink) ++
      link.map (Row.link R.index.name g.id) :=
    hdb ▸ Command.links_updateReduceRow separate db g.id cells link unlink 0
  constructor
  case keyed =>
    intro row hrow
    rw [rows] at hrow
    obtain ⟨old, hold, rfl⟩ := List.mem_map.1 hrow
    rw [fits.value?_reassign]
    exact stores.keyed old hold
  case shows =>
    intro key'
    rw [fits.rowsOf_reassign rows]
    exact stores.shows_reassign hG hcells key'
  case linked =>
    intro l hl
    rw [bridge] at hl
    have mem : l ∈ db R.bridge ∨ l ∈ link.map (Row.link R.index.name g.id) :=
      (List.mem_append.1 hl).imp_left fun h => (List.mem_filter.1 h).1
    rcases mem with hl | hl
    · obtain ⟨key', g', hG', value⟩ := stores.linked l hl
      by_cases same : key' = key
      · subst same
        rw [hG] at hG'
        cases hG'
        exact ⟨key', _, Function.update_self .., value⟩
      · exact ⟨key', g', by rw [Function.update_of_ne same, hG'], value⟩
    · obtain ⟨d, _, rfl⟩ := List.mem_map.1 hl
      exact ⟨key, _, Function.update_self .., Row.value?_bridgeColumn_link R.index.name g.id d⟩
  case links =>
    intro key' g' hG'
    rw [linksOf_update bridge, ← Multiset.coe_add]
    by_cases same : key' = key
    · subst same
      rw [Function.update_self] at hG'
      cases hG'
      rw [stores.filter_remains plain g.id unlink hG, if_pos rfl, Multiset.map_add]
      simp
    · rw [Function.update_of_ne same] at hG'
      have other : g'.id ≠ g.id := fun id => same (stores.apart key' key g' g hG' hG id)
      rw [stores.filter_remains plain g.id unlink hG', if_neg other.symm]
      simp [other]
  case apart =>
    intro key₁ key₂ g₁ g₂ h₁ h₂ same
    obtain ⟨g₁', hG₁, id₁⟩ := exists_of_update hG h₁
    obtain ⟨g₂', hG₂, id₂⟩ := exists_of_update hG h₂
    exact stores.apart key₁ key₂ g₁' g₂' hG₁ hG₂ (by rw [id₁, id₂, same])

theorem delete {g : StoredGroup} (hG : G key = some g) :
    R.Stores (Function.update G key none)
      (db.executeAll ((Command.deleteReduceRow R.names R.index.name g.id).statements 0)) := by
  generalize hdb :
    db.executeAll ((Command.deleteReduceRow R.names R.index.name g.id).statements 0) = db'
  have rows : db' R.table = (db R.table).filter fun r => !r.meets [Command.idCell g.id] :=
    hdb ▸ Command.rows_deleteReduceRow separate db g.id 0
  have bridge : db' R.bridge = (db R.bridge).filter fun r =>
      !r.meets [Command.bridgeCell R.index.name g.id] :=
    hdb ▸ Command.links_deleteReduceRow separate db g.id 0
  have other : ∀ {key' g'}, Function.update G key none key' = some g' →
      key' ≠ key ∧ G key' = some g' := by
    intro key' g' h
    by_cases here : key' = key
    · subst here
      rw [Function.update_self] at h
      cases h
    · rw [Function.update_of_ne here] at h
      exact ⟨here, h⟩
  constructor
  case keyed =>
    intro row hrow
    rw [rows] at hrow
    exact stores.keyed row (List.mem_filter.1 hrow).1
  case shows =>
    intro key'
    have found : R.rowsOf db' key' = (R.rowsOf db key').filter fun r =>
        !r.meets [Command.idCell g.id] := by
      rw [rowsOf, rows, List.filter_filter, rowsOf, List.filter_filter]
      exact List.filter_congr fun r _ => Bool.and_comm _ _
    rw [found]
    by_cases same : key' = key
    · subst same
      rw [Function.update_self]
      refine List.filter_eq_nil_iff.2 fun row hrow => ?_
      obtain ⟨mem, value⟩ := List.mem_filter.1 hrow
      rw [(stores.meets_idCell_iff hG mem).2 (by simpa using value)]
      decide
    · rw [Function.update_of_ne same]
      have all : ((R.rowsOf db key').filter fun r => !r.meets [Command.idCell g.id]) =
          R.rowsOf db key' := by
        refine List.filter_eq_self.2 fun row hrow => ?_
        obtain ⟨mem, value⟩ := List.mem_filter.1 hrow
        rw [Bool.not_eq_true', Bool.eq_false_iff, ne_eq, stores.meets_idCell_iff hG mem]
        intro here
        rw [here] at value
        exact same (Option.some.inj (by simpa using value)).symm
      rw [all]
      exact stores.shows key'
  case linked =>
    intro l hl
    rw [bridge] at hl
    obtain ⟨hl, stays⟩ := List.mem_filter.1 hl
    obtain ⟨key', g', hG', value⟩ := stores.linked l hl
    refine ⟨key', g', ?_, value⟩
    rw [Function.update_of_ne, hG']
    rintro rfl
    rw [hG] at hG'
    cases hG'
    rw [Command.bridgeCell, Row.meets_singleton_iff.2 value] at stays
    cases stays
  case links =>
    intro key' g' hG'
    obtain ⟨ne, hG'⟩ := other hG'
    have all : R.linksOf db' g'.id = R.linksOf db g'.id := by
      rw [linksOf, bridge, List.filter_filter, linksOf]
      refine List.filter_congr fun r _ => ?_
      rw [Bool.eq_iff_iff, Bool.and_eq_true, decide_eq_true_eq, Bool.not_eq_true',
        Bool.eq_false_iff, ne_eq, Command.bridgeCell, Row.meets_singleton_iff]
      refine and_iff_left_of_imp fun value => ?_
      rw [value, Option.some.injEq, Value.int.injEq]
      exact fun same => ne (stores.apart key' key g' g hG' hG same)
    rw [all]
    exact stores.links key' g' hG'
  case apart =>
    intro key₁ key₂ g₁ g₂ h₁ h₂ same
    exact stores.apart key₁ key₂ g₁ g₂ (other h₁).2 (other h₂).2 same

omit separate in
/-- Only the two tables of the index matter. -/
theorem of_eq {db' : Database} (table : db' R.table = db R.table)
    (bridge : db' R.bridge = db R.bridge) : R.Stores G db' where
  keyed := by rw [table]; exact stores.keyed
  shows := by simp only [rowsOf, table]; exact stores.shows
  linked := by rw [bridge]; exact stores.linked
  links := by simp only [linksOf, bridge]; exact stores.links
  apart := stores.apart

section Run

variable {catalog : Catalog} (distinct : catalog.Distinct) (lawful : R.Lawful catalog)
  (restores : R.Restores catalog) {d : Descriptor} (feeds : R.Feeds catalog d)
  (used : catalog.collections R.names)
include distinct lawful restores feeds used

omit separate in
/-- A command takes its group to where it is to go, and leaves the others. -/
theorem step {D : Multiset Int64} {c : Command} (takes : R.Takes (G key) A D c)
    (shared : A ≠ 0 → R.Shared catalog key A) {id : Int64} (fresh : c.Fresh db id) :
    ∃ g, StoredGroup.Holds g A D ∧
      R.Stores (Function.update G key g) (db.executeAll (c.statements id)) := by
  have has := feeds.has_links used
  have separate : R.table ≠ R.bridge :=
    distinct.name_ne (t := .rows .reduce R.names R.index.name) (u := .links R.names R.index.name)
      has has fun h => nomatch h
  have fits : ∀ {cells}, A ≠ 0 → R.index.cells (R.agg A) = .ok cells → R.Fits key cells :=
    fun some hcells => fits_of_shared lawful restores (shared some) hcells
  have apart : ∀ {cells}, A ≠ 0 → R.index.cells (R.agg A) = .ok cells →
      Column.idName ∉ cells.map Prod.fst := by
    intro cells some hcells
    rw [(fits some hcells).names]
    intro mem
    obtain ⟨column, hcolumn, name⟩ := List.mem_map.1 mem
    exact restores.apart column hcolumn name
  generalize hG : G key = g at takes
  cases takes with
  | create some hcells =>
    exact ⟨_, StoredGroup.holds_some some,
      stores.create separate hG hcells (fits some hcells) fresh⟩
  | update some hcells =>
    exact ⟨_, StoredGroup.holds_some some,
      stores.update separate hG hcells (fits some hcells) (apart some hcells)
        (distinct.index_ne has)⟩
  | delete => exact ⟨none, rfl, stores.delete separate hG⟩

omit stores separate in
/-- Commands of which each takes the group of its key somewhere, or none, take
every group that has one there; there is at most one for a key. -/
theorem run {σ : Type} {S : Storage σ} (faithful : S.Faithful fun _ => True) {conn : Connection}
    {A : Value → Multiset Json} {D : Value → Multiset Int64}
    (shared : ∀ key, A key ≠ 0 → R.Shared catalog key (A key))
    {labelled : List (Option Value × Command)} {G : Value → Option StoredGroup} {st st' : σ}
    (stores : R.Stores G (S.tables st)) (has : ∀ l ∈ labelled, ∀ t ∈ l.2.tables, catalog.Has t)
    (others : ∀ l ∈ labelled, l.1 = none → .rows .reduce R.names R.index.name ∉ l.2.tables ∧
      .links R.names R.index.name ∉ l.2.tables)
    (takes : ∀ l ∈ labelled, ∀ key ∈ l.1, R.Takes (G key) (A key) (D key) l.2)
    (once : (labelled.filterMap Prod.fst).Nodup)
    (h : Action.Yields S.answer (Command.runAll conn (labelled.map Prod.snd)) st () st') :
    ∃ G', R.Stores G' (S.tables st') ∧ ∀ key,
      (key ∈ labelled.filterMap Prod.fst → StoredGroup.Holds (G' key) (A key) (D key)) ∧
        (key ∉ labelled.filterMap Prod.fst → G' key = G key) := by
  induction labelled generalizing G st with
  | nil =>
    obtain ⟨_, rfl⟩ := Action.yields_pure_iff.1 h
    exact ⟨G, stores, fun key => ⟨(fun h => nomatch h), fun _ => rfl⟩⟩
  | cons l rest ih =>
    obtain ⟨label, c⟩ := l
    obtain ⟨_, st₁, first, later⟩ := Action.yields_bind_iff.1 h
    obtain ⟨id, fresh, tables⟩ := Command.tables_of_run faithful first
    have has' := has _ List.mem_cons_self
    have mem := fun l (hl : l ∈ rest) => List.mem_cons_of_mem (label, c) hl
    cases label with
    | none =>
      obtain ⟨noRows, noLinks⟩ := others _ List.mem_cons_self rfl
      have here := feeds.has_links used
      have stores₁ : R.Stores G (S.tables st₁) := by
        rw [tables]
        exact stores.of_eq
          (Command.executeAll_frame distinct has' (t := .rows .reduce R.names R.index.name) here
            noRows id _)
          (Command.executeAll_frame distinct has' (t := .links R.names R.index.name) here
            noLinks id _)
      exact ih stores₁ (fun l hl => has l (mem l hl)) (fun l hl => others l (mem l hl))
        (fun l hl => takes l (mem l hl)) once later
    | some key =>
      rw [List.filterMap_cons_some (show (some key, c).1 = some key from rfl)] at once
      obtain ⟨new, once⟩ := List.nodup_cons.1 once
      obtain ⟨g, holds, stores₁⟩ := stores.step distinct lawful restores feeds used
        (takes _ List.mem_cons_self key rfl) (shared key) fresh
      rw [← tables] at stores₁
      have takes₁ : ∀ l ∈ rest, ∀ key' ∈ l.1,
          R.Takes (Function.update G key g key') (A key') (D key') l.2 := by
        intro l hl key' hkey'
        have ne : key' ≠ key := by
          rintro rfl
          exact new (List.mem_filterMap.2 ⟨l, hl, hkey'⟩)
        rw [Function.update_of_ne ne]
        exact takes l (mem l hl) key' hkey'
      obtain ⟨G', stores', each⟩ :=
        ih stores₁ (fun l hl => has l (mem l hl)) (fun l hl => others l (mem l hl)) takes₁
        once later
      refine ⟨G', stores', fun key' => ?_⟩
      rw [List.filterMap_cons_some (show (some key, c).1 = some key from rfl), List.mem_cons]
      by_cases same : key' = key
      · subst same
        refine ⟨fun _ => ?_, fun none => absurd (.inl rfl) none⟩
        rw [(each key').2 new, Function.update_self]
        exact holds
      · refine ⟨fun h => (each key').1 (h.resolve_left same), fun none => ?_⟩
        rw [(each key').2 fun h => none (.inr h), Function.update_of_ne same]

end Run

end Stores

end Reduction

end DocStore

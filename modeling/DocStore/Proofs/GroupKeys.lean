import DocStore.Proofs.Maintained
import DocStore.Proofs.Registrations

/-!
# Keys of groups

What the rows of a group are reduced to has to be of the group, or the flush fails.
What is left of a group once rows are taken out of it is written as it is, of
whatever group: so an index has one row for a key as long as what is left stays
in its group.
-/

set_option autoImplicit false

namespace DocStore

/-- The cells that a command gives to the row of a group. -/
def Command.groupCells? : Command → Option Cells
  | .createReduceRow _ _ cells _ | .updateReduceRow _ _ _ cells _ _ => some cells
  | _ => none

/-- A column has a key among cells. -/
def Cells.carry (cells : Cells) (column : String) (key : Value) : Bool :=
  ((cells.find? fun c => c.1 = column).map Prod.snd).any fun v => v.agrees key

/-- A row is of the group of a key. -/
def Descriptor.Groups (d : Descriptor) (key : Value) (row : Json) : Prop :=
  ∃ k, d.groupKey row = .ok k ∧ k.agrees key = true

/-- A descriptor that is added for a reduction has a group column that its index declares. -/
theorem Descriptor.groupColumn_of_add {d : Descriptor} {ctx ctx' : Describing}
    (added : ctx.add d = .ok ctx') (described : d.entity.name = ctx.entityType)
    (reduces : d.kind = .reduce) :
    ∃ column, d.groupColumn = some column ∧ (d.index.column? column).isSome = true := by
  obtain ⟨c, member, grouped⟩ :=
    grouped_of_validate (Describing.validate_of_add added described) reduces
  exact ⟨c.name, grouped, isSome_column?_iff.2 ⟨c, member, rfl⟩⟩

/-- A row with cells is of a group just if its cells carry the key. -/
theorem Descriptor.groups_iff {d : Descriptor} {column : String}
    (grouped : d.groupColumn = some column) {row : Json} {cells : Cells}
    (hcells : d.index.cells row = .ok cells) {key : Value} :
    d.Groups key row ↔ Cells.carry cells column key = true := by
  unfold Groups Cells.carry
  rw [Option.any_eq_true]
  refine exists_congr fun k => and_congr_left fun _ => ?_
  rw [groupKey_eq_ok_iff grouped]
  constructor
  · rintro ⟨cells', hcells', value⟩
    rw [hcells] at hcells'
    cases hcells'
    exact value
  · exact fun value => ⟨cells, hcells, value⟩

namespace Buffer

variable {b : Buffer} {key : Value} {found : List Row}

/-! ## What is written for a group -/

/-- The row of a group before rows are taken out of it: the one stored, together
with those that join. -/
def whole (b : Buffer) (key : Value) (found : List Row) : Except Error (Option Json) := do
  let candidate ← b.candidate key
  let stored ← b.persisted key found
  b.joined key (stored.map Prod.snd) candidate

/-- Rows are taken out of a group, and what is left is of another. -/
def Strays (b : Buffer) (key : Value) (found : List Row) (row : Json) : Prop :=
  ∃ before, b.whole key found = .ok (some before) ∧ b.group key .removed ≠ [] ∧
    b.descriptor.deleteRows before ((b.group key .removed).map MappedRow.row) = .ok (some row) ∧
      ∃ k, b.descriptor.groupKey row = .ok k ∧ k.agrees key = false

/-- The rows that are to be reduced to one of the group: those that join it, and what they are
reduced to together with the row stored. -/
inductive Reduces (b : Buffer) (key : Value) (found : List Row) : List Json → Prop where
  | joining : b.group key .added ≠ [] → Reduces b key found ((b.group key .added).map MappedRow.row)
  | combining {id : Int64} {stored candidate : Json} : b.candidate key = .ok (some candidate) →
    b.persisted key found = .ok (some (id, stored)) → Reduces b key found [stored, candidate]

theorem touched_of_mem_keys (h : key ∈ b.keys) :
    b.group key .added ≠ [] ∨ b.group key .removed ≠ [] := by
  obtain ⟨e, he, rfl⟩ := List.mem_map.1 (Value.mem_of_mem_distinct h)
  cases change : e.change with
  | added => exact .inl (List.ne_nil_of_mem (mem_group_iff.2 ⟨he, change, e.key.agrees_self⟩))
  | removed => exact .inr (List.ne_nil_of_mem (mem_group_iff.2 ⟨he, change, e.key.agrees_self⟩))

theorem groups_of_collapse {d : Descriptor} {rows : List Json} {row : Json}
    (h : collapse d rows key = .ok row) : d.Groups key row := by
  obtain ⟨answer, reduced, _⟩ := bind_eq_ok_iff.1 h
  cases answer with
  | none =>
    unfold collapse at h
    rw [reduced] at h
    cases h
  | some row' =>
    obtain ⟨rfl, kept⟩ := (collapse_eq_ok_iff reduced).1 h
    exact kept

/-- The row of a group that others joined is of the group. -/
theorem groups_of_whole {row : Json} (h : b.whole key found = .ok (some row))
    (joined : b.group key .added ≠ []) : b.descriptor.Groups key row := by
  obtain ⟨candidate, hcandidate, h⟩ := bind_eq_ok_iff.1 h
  obtain ⟨stored, _, h⟩ := bind_eq_ok_iff.1 h
  have kept : ∃ c, candidate = some c ∧ b.descriptor.Groups key c := by
    unfold Buffer.candidate at hcandidate
    split at hcandidate
    · next none => exact absurd none joined
    · obtain ⟨c, collapsed, rfl⟩ := map_eq_ok_iff.1 hcandidate
      exact ⟨c, rfl, groups_of_collapse collapsed⟩
  obtain ⟨c, rfl, kept⟩ := kept
  cases stored with
  | none =>
    cases h
    exact kept
  | some stored =>
    obtain ⟨_, collapsed, same⟩ := map_eq_ok_iff.1 h
    cases same
    exact groups_of_collapse collapsed

/-- What is written for a group is the row of the group, or what is left of it
once rows are taken out. -/
theorem cells_of_outcome {c : Command} {cells : Cells} (h : b.outcome key found = .ok (some c))
    (written : c.groupCells? = some cells) :
    ∃ row before, b.descriptor.index.cells row = .ok cells ∧ b.whole key found = .ok before ∧
      b.without key before = .ok (some row) := by
  obtain ⟨candidate, hcandidate, h⟩ := bind_eq_ok_iff.1 h
  obtain ⟨stored, hstored, h⟩ := bind_eq_ok_iff.1 h
  obtain ⟨row, hrow, h⟩ := bind_eq_ok_iff.1 h
  rw [merge_eq] at hrow
  obtain ⟨before, hbefore, left⟩ := bind_eq_ok_iff.1 hrow
  have whole : b.whole key found = .ok before :=
    bind_eq_ok_iff.2 ⟨candidate, hcandidate, bind_eq_ok_iff.2 ⟨stored, hstored, hbefore⟩⟩
  cases row with
  | none =>
    cases stored with
    | none => cases h
    | some stored =>
      cases h
      cases written
  | some row =>
    cases stored with
    | none =>
      obtain ⟨cells', hcells, h⟩ := bind_eq_ok_iff.1 h
      cases h
      cases written
      exact ⟨row, before, hcells, whole, left⟩
    | some stored =>
      obtain ⟨cells', hcells, h⟩ := bind_eq_ok_iff.1 h
      cases h
      cases written
      exact ⟨row, before, hcells, whole, left⟩

/-- What is written for a touched group carries its key, unless it is what is left of
the group and strays. -/
theorem carry_iff_of_outcome {column : String} (grouped : b.descriptor.groupColumn = some column)
    (declared : (b.descriptor.index.column? column).isSome = true) (touched : key ∈ b.keys)
    {c : Command} {cells : Cells} (h : b.outcome key found = .ok (some c))
    (written : c.groupCells? = some cells) :
    ∃ row, b.descriptor.index.cells row = .ok cells ∧
      (Cells.carry cells column key = true ↔ ¬b.Strays key found row) := by
  obtain ⟨row, before, hcells, whole, left⟩ := cells_of_outcome h written
  obtain ⟨k, hkey⟩ := Descriptor.exists_groupKey grouped declared hcells
  refine ⟨row, hcells, ?_⟩
  rw [← Descriptor.groups_iff grouped hcells]
  constructor
  · rintro ⟨k', hkey', agrees⟩ ⟨_, _, _, _, k'', hkey'', apart⟩
    cases hkey'.symm.trans hkey''
    rw [agrees] at apart
    cases apart
  · intro stays
    by_contra other
    have apart : k.agrees key = false := Bool.eq_false_iff.2 fun agrees => other ⟨k, hkey, agrees⟩
    unfold without at left
    split at left
    · next before e es removed =>
      refine stays ⟨before, whole, ?_, ?_, k, hkey, apart⟩
      · rw [removed]
        exact List.cons_ne_nil _ _
      · rw [removed]
        exact left
    · next nothing =>
      cases left
      refine other (groups_of_whole whole
        ((touched_of_mem_keys touched).resolve_right fun removed => ?_))
      obtain ⟨e, es, removed⟩ := List.exists_cons_of_ne_nil removed
      exact nothing row e es rfl removed

/-! ## What is refused -/

/-- A reduction that answers nothing, or a row of another group, is refused. -/
theorem collapse_refuses {d : Descriptor} {rows : List Json} {answer : Option Json}
    (reduced : d.reduceRows rows = .ok answer)
    (other : ∀ row ∈ answer, ∃ k, d.groupKey row = .ok k ∧ k.agrees key = false) :
    ∃ violation, collapse d rows key = .error (.invariant violation) := by
  cases answer with
  | none => exact ⟨_, by rw [collapse, reduced]; rfl⟩
  | some row =>
    obtain ⟨k, hkey, apart⟩ := other row rfl
    refine ⟨.reducedToOtherGroup d.index.name key k, ?_⟩
    rw [collapse, reduced]
    change (do
      let produced ← d.groupKey row
      if produced.agrees key then pure row
      else .error (.invariant (.reducedToOtherGroup d.index.name key produced)) :
      Except Error Json) = _
    rw [hkey]
    change (if k.agrees key = true then _ else _) = _
    rw [apart]
    rfl

/-- No command is decided on for a group whose rows are reduced to nothing or to a
row of another group. -/
theorem outcome_of_refused {rows : List Json} {answer : Option Json}
    (reduces : b.Reduces key found rows) (reduced : b.descriptor.reduceRows rows = .ok answer)
    (other : ∀ row ∈ answer, ∃ k, b.descriptor.groupKey row = .ok k ∧ k.agrees key = false) :
    ∃ violation, b.outcome key found = .error (.invariant violation) := by
  obtain ⟨violation, refused⟩ := collapse_refuses reduced other
  refine ⟨violation, ?_⟩
  cases reduces with
  | joining joined =>
    have candidate : b.candidate key = .error (.invariant violation) := by
      unfold candidate
      split
      · next none => exact absurd none joined
      · rw [refused]
        rfl
    rw [outcome, candidate]
    rfl
  | combining hcandidate hstored =>
    rw [outcome, hcandidate, hstored]
    change (b.merge key (some _) (some _) >>= _) = _
    rw [merge_eq, joined, refused]
    rfl

/-- Reducing a group fails as deciding on it does, once the rows stored for it are found. -/
theorem run_reduceGroup_of_error {σ : Type} {answer : Answerer σ} {conn : Connection}
    {dialect : Dialect} {q : Statement} {s s' : σ} {e : Error}
    (looksUp : b.lookup dialect key = .ok q) (answered : answer (.query conn q) s = (.ok found, s'))
    (h : b.outcome key found = .error e) :
    ∃ s'', Program.run answer (b.reduceGroup conn dialect key).run s = (.error e, s'') := by
  rw [reduceGroup_eq]
  rcases bind_eq_error_iff.1 h with refused | ⟨candidate, reduced, h⟩
  · exact ⟨s, by rw [refused, Action.run_error_bind]⟩
  · refine ⟨s', ?_⟩
    rw [reduced, Action.run_ok_bind, looksUp, Action.run_ok_bind, Action.run_bind,
      show Program.run answer (Action.query conn q).run s = (.ok found, s') from answered]
    dsimp only
    rcases bind_eq_error_iff.1 h with refused | ⟨stored, hstored, h⟩
    · rw [refused, Action.run_error_bind]
    · rw [hstored, Action.run_ok_bind]
      rcases bind_eq_error_iff.1 h with refused | ⟨row, merged, h⟩
      · rw [refused, Action.run_error_bind]
      · rw [merged, Action.run_ok_bind, h, Action.run_error_bind]

end Buffer

/-! ## Keys of stored rows -/

namespace Reduction

/-- Every row of the index table has the cells of an aggregate, and no two have the same key. -/
structure Keyed (R : Reduction) (db : Database) : Prop where
  shaped : ∀ row ∈ db R.table, ∃ id key cells, R.IsKey key ∧
    R.Fits key cells ∧ row = ⟨Command.idCell id :: cells⟩
  keys : ((db R.table).map fun row => row.value? R.column).Nodup
  ids : ((db R.table).map fun row => row.value? Column.idName).Nodup

/-- A row with an id is stored for a key. -/
def Has (R : Reduction) (db : Database) (id : Int64) (key : Value) : Prop :=
  ∃ row ∈ db R.table, row.value? Column.idName = some (.int id) ∧ row.value? R.column = some key

/-- A command for the group of a key: it creates a row where there is none for the key, or is about
the one that there is. -/
inductive Due (R : Reduction) (db : Database) (key : Value) : Command → Prop where
  | create {cells : Cells} {link : List Int64} : R.Fits key cells → (∀ id, ¬R.Has db id key) →
    Due R db key (.createReduceRow R.names R.index.name cells link)
  | update {id : Int64} {cells : Cells} {link unlink : List Int64} :
      R.Fits key cells → R.Has db id key →
    Due R db key (.updateReduceRow R.names R.index.name id cells link unlink)
  | delete {id : Int64} : R.Has db id key → Due R db key (.deleteReduceRow R.names R.index.name id)

variable {R : Reduction} {db db' : Database} {key key' : Value} {id id' : Int64}

theorem keyed_of_empty (empty : db R.table = []) : R.Keyed db := by
  refine ⟨?_, ?_, ?_⟩ <;> rw [empty]
  · exact fun _ h => by cases h
  · exact List.nodup_nil
  · exact List.nodup_nil

theorem Keyed.of_eq (keyed : R.Keyed db) (same : db' R.table = db R.table) : R.Keyed db' := by
  refine ⟨?_, ?_, ?_⟩ <;> rw [same]
  · exact keyed.shaped
  · exact keyed.keys
  · exact keyed.ids

theorem Has.key_eq (keyed : R.Keyed db) (has : R.Has db id key) (has' : R.Has db id key') :
    key = key' := by
  obtain ⟨row, mem, value, hkey⟩ := has
  obtain ⟨row', mem', value', hkey'⟩ := has'
  obtain rfl := List.inj_on_of_nodup_map keyed.ids mem mem' (value.trans value'.symm)
  rw [hkey, Option.some.injEq] at hkey'
  exact hkey'

theorem Keyed.exists_has (keyed : R.Keyed db) {row : Row} (mem : row ∈ db R.table) :
    ∃ id key, R.IsKey key ∧ R.Has db id key ∧ row.value? Column.idName = some (.int id) ∧
      row.value? R.column = some key := by
  obtain ⟨id, key, cells, isKey, fits, rfl⟩ := keyed.shaped row mem
  exact ⟨id, key, isKey, ⟨_, mem, Row.value?_idCell id cells, fits.key id⟩,
    Row.value?_idCell id cells, fits.key id⟩

/-- No two rows have keys that agree. -/
theorem Keyed.pairwise (keyed : R.Keyed db) : (db R.table).Pairwise fun row row' =>
    ∀ key ∈ row.value? R.column, ∀ key' ∈ row'.value? R.column, key.agrees key' = false := by
  refine (List.pairwise_map.1 keyed.keys).imp_of_mem
    fun {row row'} mem mem' apart key hkey key' hkey' => ?_
  obtain ⟨_, _, isKey, _, _, value⟩ := keyed.exists_has mem
  obtain ⟨_, _, isKey', _, _, value'⟩ := keyed.exists_has mem'
  rw [Option.mem_def, value] at hkey
  rw [Option.mem_def, value'] at hkey'
  cases hkey
  cases hkey'
  rw [Bool.eq_false_iff, ne_eq, agrees_iff_eq isKey isKey']
  rintro rfl
  exact apart (value.trans value'.symm)

section Step

variable (keyed : R.Keyed db) (separate : R.table ≠ R.bridge)
include keyed separate

/-- A row for a new key, under an id that is free. -/
theorem Keyed.create {cells : Cells} {link : List Int64} (isKey : R.IsKey key)
    (fits : R.Fits key cells) (none : ∀ id, ¬R.Has db id key)
    (fresh : ∀ row ∈ db R.table, row.value? Column.idName ≠ some (.int id))
    (hdb : db' =
      db.executeAll ((Command.createReduceRow R.names R.index.name cells link).statements id)) :
    R.Keyed db' ∧ ∀ id' key', key' ≠ key → (R.Has db' id' key' ↔ R.Has db id' key') := by
  have rows : db' R.table = db R.table ++ [⟨Command.idCell id :: cells⟩] :=
    hdb ▸ Command.rows_createReduceRow separate db id cells link
  refine ⟨⟨?_, ?_, ?_⟩, fun id' key' other => ?_⟩
  · intro row mem
    rw [rows] at mem
    rcases List.mem_append.1 mem with mem | mem
    · exact keyed.shaped row mem
    · exact ⟨id, key, cells, isKey, fits, List.mem_singleton.1 mem⟩
  · rw [rows, List.map_append, List.nodup_append]
    refine ⟨keyed.keys, List.nodup_singleton _, fun value mem value' mem' same => ?_⟩
    obtain ⟨row, hrow, rfl⟩ := List.mem_map.1 mem
    rw [List.map_singleton, List.mem_singleton, fits.key id] at mem'
    obtain ⟨id', _, _, has, _, value⟩ := keyed.exists_has hrow
    rw [same, mem', Option.some.injEq] at value
    exact none id' (value ▸ has)
  · rw [rows, List.map_append, List.nodup_append]
    refine ⟨keyed.ids, List.nodup_singleton _, fun value mem value' mem' same => ?_⟩
    obtain ⟨row, hrow, rfl⟩ := List.mem_map.1 mem
    rw [List.map_singleton, List.mem_singleton, Row.value?_idCell] at mem'
    exact fresh row hrow (same.trans mem')
  · constructor
    · rintro ⟨row, mem, value, hkey⟩
      rw [rows] at mem
      rcases List.mem_append.1 mem with mem | mem
      · exact ⟨row, mem, value, hkey⟩
      · rw [List.mem_singleton.1 mem, fits.key id, Option.some.injEq] at hkey
        exact absurd hkey.symm other
    · rintro ⟨row, mem, value, hkey⟩
      exact ⟨row, rows ▸ List.mem_append_left _ mem, value, hkey⟩

/-- New cells with the same key for a row that is there. -/
theorem Keyed.update {cells : Cells} {link unlink : List Int64}
    (plain : ∀ c ∈ R.index.columns, c.name ≠ Column.idName) (fits : R.Fits key cells)
    (has : R.Has db id key) {row : Int64}
    (hdb : db' =
      db.executeAll
        ((Command.updateReduceRow R.names R.index.name id cells link unlink).statements row)) :
    R.Keyed db' ∧ ∀ id' key', R.Has db' id' key' ↔ R.Has db id' key' := by
  have rows : db' R.table = (db R.table).map fun r =>
      if r.meets [Command.idCell id] then r.assign cells else r :=
    hdb ▸ Command.rows_updateReduceRow separate db id cells link unlink row
  have apart : Column.idName ∉ cells.map Prod.fst := by
    rw [fits.names]
    intro mem
    obtain ⟨c, hc, name⟩ := List.mem_map.1 mem
    exact plain c hc name
  -- a row that is given new cells has the key already
  have assigned : ∀ r ∈ db R.table, r.meets [Command.idCell id] = true →
      r.assign cells = ⟨Command.idCell id :: cells⟩ ∧ r.value? Column.idName = some (.int id) ∧
        r.value? R.column = some key := by
    intro r mem met
    have value := Row.meets_idCell_iff.1 met
    obtain ⟨id', key', old, isKey, fits', rfl⟩ := keyed.shaped r mem
    rw [Row.value?_idCell, Option.some.injEq, Value.int.injEq] at value
    subst value
    have here : R.Has db id' key' := ⟨_, mem, Row.value?_idCell id' old, fits'.key id'⟩
    obtain rfl := Has.key_eq keyed has here
    exact ⟨Row.assign_idCell (fits'.names.trans fits.names.symm) apart, Row.value?_idCell id' old,
      fits'.key id'⟩
  have same : ∀ r ∈ db R.table,
      (if r.meets [Command.idCell id] then r.assign cells else r).value? Column.idName =
        r.value? Column.idName ∧
      (if r.meets [Command.idCell id] then r.assign cells else r).value? R.column =
        r.value? R.column := by
    intro r mem
    split
    · next met =>
      obtain ⟨new, value, hkey⟩ := assigned r mem met
      rw [new, value, hkey]
      exact ⟨Row.value?_idCell id cells, fits.key id⟩
    · exact ⟨rfl, rfl⟩
  obtain ⟨_, mem₀, value₀, hkey₀⟩ := has
  obtain ⟨_, _, isKey, _, _, value⟩ := keyed.exists_has mem₀
  rw [hkey₀, Option.some.injEq] at value
  refine ⟨⟨?_, ?_, ?_⟩, fun id' key' => ?_⟩
  · intro r mem
    rw [rows] at mem
    obtain ⟨r, before, rfl⟩ := List.mem_map.1 mem
    split
    · next met => exact ⟨id, key, cells, value ▸ isKey, fits, (assigned r before met).1⟩
    · exact keyed.shaped r before
  · rw [rows, List.map_map]
    exact (List.map_congr_left fun r mem => (same r mem).2) ▸ keyed.keys
  · rw [rows, List.map_map]
    exact (List.map_congr_left fun r mem => (same r mem).1) ▸ keyed.ids
  · constructor
    · rintro ⟨r, mem, value, hkey⟩
      rw [rows] at mem
      obtain ⟨r, before, rfl⟩ := List.mem_map.1 mem
      rw [(same r before).1] at value
      rw [(same r before).2] at hkey
      exact ⟨r, before, value, hkey⟩
    · rintro ⟨r, mem, value, hkey⟩
      refine ⟨_, rows ▸ List.mem_map_of_mem mem, ?_, ?_⟩
      · rw [(same r mem).1, value]
      · rw [(same r mem).2, hkey]

/-- The row of a key is gone, and no other. -/
theorem Keyed.delete (has : R.Has db id key) {row : Int64}
    (hdb : db' = db.executeAll ((Command.deleteReduceRow R.names R.index.name id).statements row)) :
    R.Keyed db' ∧ ∀ id' key', key' ≠ key → (R.Has db' id' key' ↔ R.Has db id' key') := by
  have rows : db' R.table = (db R.table).filter fun r => !r.meets [Command.idCell id] :=
    hdb ▸ Command.rows_deleteReduceRow separate db id row
  refine ⟨⟨?_, ?_, ?_⟩, fun id' key' other => ?_⟩
  · rw [rows]
    exact fun r mem => keyed.shaped r (List.mem_filter.1 mem).1
  · rw [rows]
    exact keyed.keys.sublist (List.filter_sublist.map _)
  · rw [rows]
    exact keyed.ids.sublist (List.filter_sublist.map _)
  · constructor
    · rintro ⟨r, mem, value, hkey⟩
      rw [rows] at mem
      exact ⟨r, (List.mem_filter.1 mem).1, value, hkey⟩
    · rintro ⟨r, mem, value, hkey⟩
      refine ⟨r, rows ▸ List.mem_filter.2 ⟨mem, ?_⟩, value, hkey⟩
      rw [Bool.not_eq_true', Bool.eq_false_iff, ne_eq, Row.meets_idCell_iff]
      intro same
      exact other (Has.key_eq keyed ⟨r, mem, same, hkey⟩ has)

/-- A command for the group of a key leaves one row for a key, and the rows of other keys. -/
theorem Keyed.step (plain : ∀ c ∈ R.index.columns, c.name ≠ Column.idName) (isKey : R.IsKey key)
    {c : Command} (due : R.Due db key c) (fresh : c.Fresh db id) :
    R.Keyed (db.executeAll (c.statements id)) ∧
      ∀ id' key', key' ≠ key →
        (R.Has (db.executeAll (c.statements id)) id' key' ↔ R.Has db id' key') := by
  cases due with
  | create fits none => exact keyed.create separate isKey fits none fresh rfl
  | update fits has =>
    obtain ⟨keyed', same⟩ := keyed.update separate plain fits has rfl
    exact ⟨keyed', fun id' key' _ => same id' key'⟩
  | delete has => exact keyed.delete separate has rfl

end Step

theorem Due.congr {c : Command} (due : R.Due db key c)
    (same : ∀ id, R.Has db' id key ↔ R.Has db id key) : R.Due db' key c := by
  cases due with
  | create fits none => exact .create fits fun id has => none id ((same id).1 has)
  | update fits has => exact .update fits ((same _).2 has)
  | delete has => exact .delete ((same _).2 has)

/-- What is left of the groups of the index, once rows are taken out of them, stays in them. -/
def Loyal (R : Reduction) (db : Database) (p : FlushPlan) : Prop :=
  ∀ b ∈ p.arena.buffers, b.IsFor R.names R.index.name → ∀ key ∈ b.keys, ∀ found : List Row,
    found.Perm ((db R.table).filter (b.inGroup key)) → ∀ row, ¬b.Strays key found row

section Flush

variable {catalog : Catalog} (uniform : R.Uniform catalog)
  (plain : ∀ c ∈ R.index.columns, c.name ≠ Column.idName)
include uniform plain

/-- What is decided on for a touched group of the index is due for it. -/
theorem due_of_emits {check : Bool} {edits : List Edit} {p : FlushPlan}
    (used : ∀ e ∈ edits, catalog.collections e.names)
    (planned : Edit.planAll check catalog edits = .ok p) (keyed : R.Keyed db) (loyal : R.Loyal db p)
    {b : Buffer} (hb : b ∈ p.arena.buffers) (isFor : b.IsFor R.names R.index.name)
    (hkey : key ∈ b.keys) {c : Command} (emits : b.Emits db key (some c)) : R.Due db key c := by
  have feeds := feeds_of_buffer planned hb isFor used
  have isKey := isKey_of_mem_keys planned hb isFor used uniform hkey
  have index := uniform.index _ feeds
  have grouped := uniform.column _ feeds
  obtain ⟨found, perm, outcome⟩ := emits
  have table : b.names.index b.descriptor.index.name = R.table := by rw [isFor.1, isFor.2, table]
  rw [table] at perm
  have fits {cells : Cells} (written : c.groupCells? = some cells) : R.Fits key cells := by
    have declared : (b.descriptor.index.column? R.column).isSome = true := by
      obtain ⟨c, hc, _⟩ := isKey
      rw [index, hc]
      rfl
    obtain ⟨row, hcells, carried⟩ :=
      Buffer.carry_iff_of_outcome grouped declared hkey outcome written
    obtain ⟨k, value, agrees⟩ := Option.any_eq_true _ _ |>.1
      (carried.2 (loyal b hb isFor key hkey found perm row))
    obtain ⟨cell, find, rfl⟩ := Option.map_eq_some_iff.1 value
    have here : b.descriptor.groupKey row = .ok cell.2 :=
      (Descriptor.groupKey_eq_ok_iff grouped).2 ⟨cells, hcells, value⟩
    have isKey' : R.IsKey cell.2 := by
      rw [IsKey, ← index]
      exact Descriptor.ofKind_groupKey grouped here
    rw [(agrees_iff_eq isKey' isKey).1 agrees] at value
    rw [index] at hcells
    exact fits_of_cells plain hcells value
  have inGroup : ∀ {row}, row ∈ db R.table →
      (b.inGroup key row = true ↔ row.value? R.column = some key) := by
    intro row mem
    obtain ⟨_, k, isKey', _, _, value⟩ := keyed.exists_has mem
    rw [Buffer.inGroup, grouped]
    dsimp only
    rw [value, Option.any_some, agrees_iff_eq isKey' isKey, Option.some.injEq]
  rcases Buffer.found_of_outcome outcome with rfl | ⟨row, rfl⟩
  · obtain ⟨_, _, _, _, ⟨_, none⟩ | ⟨_, cells, _, _, same⟩⟩ := Buffer.outcome_nil outcome
    · cases none
    · cases same
      rw [isFor.1, isFor.2]
      refine .create (fits rfl) fun id stored => ?_
      obtain ⟨row, mem, _, value⟩ := stored
      have mem' := perm.mem_iff.2 (List.mem_filter.2 ⟨mem, (inGroup mem).2 value⟩)
      cases mem'
  · obtain ⟨mem, here⟩ := List.mem_filter.1 (perm.mem_iff.1 (List.mem_singleton_self row))
    obtain ⟨_, id, _, _, _, hid, _, _, same⟩ := Buffer.outcome_singleton outcome
    have has : R.Has db id key := by
      obtain ⟨id', _, cells, _, _, rfl⟩ := keyed.shaped row mem
      rw [Row.getInt64_idCell] at hid
      cases hid
      exact ⟨_, mem, Row.value?_idCell _ cells, (inGroup mem).1 here⟩
    rcases same with ⟨_, same⟩ | ⟨_, cells, _, _, same⟩
    · cases same
      rw [isFor.1, isFor.2]
      exact .delete has
    · cases same
      rw [isFor.1, isFor.2]
      exact .update (fits rfl) has

variable (distinct : catalog.Distinct) {d : Descriptor} (feeds : R.Feeds catalog d)
  (used : catalog.collections R.names)
include distinct feeds used

omit uniform in
/-- Commands that are due for the groups of their keys, at most one for a key,
or about other tables. -/
theorem Keyed.run {σ : Type} {S : Storage σ} (faithful : S.Faithful fun _ => True)
    {conn : Connection} {labelled : List (Option Value × Command)} {st st' : σ}
    (keyed : R.Keyed (S.tables st)) (has : ∀ l ∈ labelled, ∀ t ∈ l.2.tables, catalog.Has t)
    (others : ∀ l ∈ labelled, l.1 = none → .rows .reduce R.names R.index.name ∉ l.2.tables)
    (due : ∀ l ∈ labelled, ∀ key ∈ l.1, R.IsKey key ∧ R.Due (S.tables st) key l.2)
    (once : (labelled.filterMap Prod.fst).Nodup)
    (h : Action.Yields S.answer (Command.runAll conn (labelled.map Prod.snd)) st () st') :
    R.Keyed (S.tables st') := by
  have links := feeds.has_links used
  induction labelled generalizing st with
  | nil =>
    obtain ⟨_, rfl⟩ := Action.yields_pure_iff.1 h
    exact keyed
  | cons l rest ih =>
    obtain ⟨label, c⟩ := l
    obtain ⟨_, st₁, first, later⟩ := Action.yields_bind_iff.1 h
    obtain ⟨id, fresh, tables⟩ := Command.tables_of_run faithful first
    have mem := fun l (hl : l ∈ rest) => List.mem_cons_of_mem (label, c) hl
    cases label with
    | none =>
      have same : S.tables st₁ R.table = S.tables st R.table := by
        rw [tables]
        exact Command.executeAll_frame distinct (has _ List.mem_cons_self)
          (t := .rows .reduce R.names R.index.name) links (others _ List.mem_cons_self rfl) id _
      have same' (id : Int64) (key : Value) : R.Has (S.tables st₁) id key ↔
          R.Has (S.tables st) id key := by
        rw [Has, Has, same]
      refine ih (keyed.of_eq same) (fun l hl => has l (mem l hl)) (fun l hl => others l (mem l hl))
        (fun l hl key hkey => ?_) once later
      obtain ⟨isKey, due⟩ := due l (mem l hl) key hkey
      exact ⟨isKey, due.congr fun id => same' id key⟩
    | some key =>
      rw [List.filterMap_cons_some (show (some key, c).1 = some key from rfl)] at once
      obtain ⟨new, once⟩ := List.nodup_cons.1 once
      obtain ⟨isKey, here⟩ := due _ List.mem_cons_self key rfl
      have separate : R.table ≠ R.bridge :=
        distinct.name_ne (t := .rows .reduce R.names R.index.name)
          (u := .links R.names R.index.name) links links fun h => nomatch h
      obtain ⟨keyed₁, same⟩ := keyed.step separate plain isKey here fresh
      rw [← tables] at keyed₁ same
      refine ih keyed₁ (fun l hl => has l (mem l hl)) (fun l hl => others l (mem l hl))
        (fun l hl key' hkey' => ?_) once later
      have other : key' ≠ key := by
        rintro rfl
        exact new (List.mem_filterMap.2 ⟨l, hl, hkey'⟩)
      obtain ⟨isKey', due'⟩ := due l (mem l hl) key' hkey'
      exact ⟨isKey', due'.congr fun id => same id key' other⟩

/-- A flush in which what is left of groups stays in them leaves one row for a key. -/
theorem Keyed.flush {σ : Type} {S : Storage σ} (faithful : S.Faithful fun _ => True)
    {dialect : Dialect} (looks : S.LooksUp dialect) {check : Bool} {edits : List Edit}
    {p : FlushPlan} (inUse : ∀ e ∈ edits, catalog.collections e.names)
    (planned : Edit.planAll check catalog edits = .ok p) {conn : Connection} {st st₁ st₂ : σ}
    {commands : List Command} (keyed : R.Keyed (S.tables st)) (loyal : R.Loyal (S.tables st) p)
    (finished : Action.Yields S.answer (p.arena.finish conn dialect) st commands st₁)
    (ran : Action.Yields S.answer (Command.runAll conn commands) st₁ () st₂) :
    R.Keyed (S.tables st₂) := by
  obtain ⟨same, emitted, decided, rfl⟩ := decided_of_finish faithful looks finished
  have tidy := Edit.tidy_of_planAll inUse planned
  obtain ⟨ordered, hordered, sources, once, _⟩ :=
    R.exists_ordered p.arena.commands decided (nodup_labels tidy.distinct)
  have has : ∀ l ∈ ordered, ∀ t ∈ l.2.tables, catalog.Has t := fun l hl =>
    Edit.has_of_mem inUse planned decided (hordered ▸ List.mem_map_of_mem hl)
  have others : ∀ l ∈ ordered, l.1 = none → .rows .reduce R.names R.index.name ∉ l.2.tables := by
    intro l hl hnone
    rcases sources l hl with ⟨_, hc⟩ | ⟨g, _, emits, hlabel⟩
    · exact (apart_of_pushed planned hc).1
    · exact (apart_of_emits emits (hlabel.trans hnone)).1
  have due : ∀ l ∈ ordered, ∀ key ∈ l.1, R.IsKey key ∧ R.Due (S.tables st₁) key l.2 := by
    intro l hl key hkey
    rcases sources l hl with ⟨hnone, _⟩ | ⟨g, hg, emits, hlabel⟩
    · rw [hnone] at hkey
      cases hkey
    · rw [hkey] at hlabel
      obtain ⟨isFor, rfl⟩ := label_eq_some_iff.1 hlabel
      obtain ⟨b, hb, hg⟩ := List.mem_flatMap.1 hg
      obtain ⟨key, hkey', rfl⟩ := List.mem_map.1 hg
      rw [same]
      exact ⟨isKey_of_mem_keys planned hb isFor inUse uniform hkey',
        due_of_emits uniform plain inUse planned keyed loyal hb isFor hkey' emits⟩
  rw [← hordered] at ran
  exact Keyed.run plain distinct feeds used faithful (keyed.of_eq (congrFun same _)) has others
    due once ran

end Flush

end Reduction

/-- Flushes one after the other, of whatever edits of collections in use, in which what is left of
the groups of an index stays in them. What happens in between leaves the tables. -/
inductive LoyalFlushes {σ : Type} (S : Storage σ) (catalog : Catalog) (dialect : Dialect)
    (R : Reduction) (st : σ) : σ → Prop where
  | none : LoyalFlushes S catalog dialect R st st
  | between {st₁ st₂ : σ} : LoyalFlushes S catalog dialect R st st₁ → S.tables st₂ = S.tables st₁ →
    LoyalFlushes S catalog dialect R st st₂
  | flush {st₁ st₂ st₃ : σ} {check : Bool} {edits : List Edit} {p : FlushPlan} {conn : Connection}
      {commands : List Command} :
    LoyalFlushes S catalog dialect R st st₁ → (∀ e ∈ edits, catalog.collections e.names) →
    Edit.planAll check catalog edits = .ok p → R.Loyal (S.tables st₁) p →
    Action.Yields S.answer (p.arena.finish conn dialect) st₁ commands st₂ →
    Action.Yields S.answer (Command.runAll conn commands) st₂ () st₃ →
      LoyalFlushes S catalog dialect R st st₃

/-- For a group and the rows found for it: what is written carries the key, unless it is left of the
group and strays; and where rows of the group are reduced to nothing, or to a row of another group,
reducing it fails for breaking a rule of the store. -/
structure Buffer.Guarded (b : Buffer) (column : String) (key : Value)
    (found : List Row) : Prop where
  carried : ∀ c cells, b.outcome key found = .ok (some c) → c.groupCells? = some cells →
    ∃ row, b.descriptor.index.cells row = .ok cells ∧
      (Cells.carry cells column key = true ↔ ¬b.Strays key found row)
  refused : ∀ rows answer, b.Reduces key found rows → b.descriptor.reduceRows rows = .ok answer →
    (∀ row ∈ answer, ∃ k, b.descriptor.groupKey row = .ok k ∧ k.agrees key = false) →
      ∃ violation, b.outcome key found = .error (.invariant violation) ∧
        ∀ {σ : Type} {answer : Answerer σ} {conn : Connection} {dialect : Dialect}
          {q : Statement} {s s' : σ},
          b.lookup dialect key = .ok q → answer (.query conn q) s = (.ok found, s') →
            ∃ s'', Program.run answer (b.reduceGroup conn dialect key).run s =
              (.error (.invariant violation), s'')

/-- Every touched group of a descriptor that was added for a reduction is guarded, whatever its
functions answer and whatever rows are found for it. And whatever is flushed, an index that is
looked up by keys has one row for a key, as long as what is left of its groups stays in them. -/
theorem Reduction.one_row_for_each_key (b : Buffer) (key : Value) (found : List Row) {σ : Type}
    (S : Storage σ) (dialect : Dialect) (catalog : Catalog) (R : Reduction) :
    (∀ ctx ctx' : Describing, ctx.add b.descriptor = .ok ctx' →
      b.descriptor.entity.name = ctx.entityType → b.descriptor.kind = .reduce → key ∈ b.keys →
        ∃ column, b.descriptor.groupColumn = some column ∧ b.Guarded column key found) ∧
    ∀ (d : Descriptor) (st st' : σ),
      S.Faithful (fun _ => True) → S.LooksUp dialect → catalog.Distinct → R.Uniform catalog →
        (∀ c ∈ R.index.columns, c.name ≠ Column.idName) →
          R.Feeds catalog d → catalog.collections R.names →
          R.Keyed (S.tables st) → LoyalFlushes S catalog dialect R st st' →
            R.Keyed (S.tables st') ∧ (S.tables st' R.table).Pairwise fun row row' =>
              ∀ key ∈ row.value? R.column, ∀ key' ∈ row'.value? R.column,
                key.agrees key' = false := by
  refine ⟨fun ctx ctx' added described reduces touched => ?_, ?_⟩
  · obtain ⟨column, grouped, declared⟩ := Descriptor.groupColumn_of_add added described reduces
    refine ⟨column, grouped, fun c cells => Buffer.carry_iff_of_outcome grouped declared touched,
      fun rows answer reduces reduced other => ?_⟩
    obtain ⟨violation, refused⟩ := Buffer.outcome_of_refused reduces reduced other
    exact ⟨violation, refused, fun looksUp answered =>
      Buffer.run_reduceGroup_of_error looksUp answered refused⟩
  · intro d st st' faithful looks distinct uniform plain feeds used keyed flushes
    have kept : R.Keyed (S.tables st') := by
      induction flushes with
      | none => exact keyed
      | between _ same ih => exact ih.of_eq (congrFun same _)
      | flush _ inUse planned loyal finished ran ih =>
        exact ih.flush uniform plain distinct feeds used faithful looks inUse planned loyal
          finished ran
    exact ⟨kept, kept.pairwise⟩

theorem LoyalFlushes.of_memory {settings : Settings} {catalog : Catalog} {R : Reduction}
    {m m₁ m₂ : Memory}
    (flushes : LoyalFlushes (Memory.storage settings catalog) catalog .sqlite R m m₁)
    {edits : List Edit} (used : ∀ e ∈ edits, catalog.collections e.names)
    (loyal : ∀ p, Edit.planAll true catalog edits = .ok p → R.Loyal m₁.tables p)
    (h : Memory.flush settings catalog m₁ edits = .ok m₂) :
    LoyalFlushes (Memory.storage settings catalog) catalog .sqlite R m m₂ := by
  obtain ⟨p, commands, m', planned, finished, ran⟩ := Memory.flush_eq_ok h
  exact .flush flushes used planned (loyal p planned) finished ran

namespace Counting

/-- What the revision has for the index: an article leaves the first day for the second, one is
deleted, and one joins. -/
def turnover : Buffer :=
  ⟨main, articles, [⟨counted 1 1, .int 1, 1, .removed⟩, ⟨counted 2 1, .int 2, 1, .added⟩,
  ⟨counted 1 1, .int 1, 2, .removed⟩, ⟨counted 1 1, .int 1, 3, .added⟩]⟩

theorem buffers_of_planned {edits : List Edit} {p : FlushPlan} {buffers : List Buffer}
    (collected : (Edit.planAll true catalog edits).map (fun p => p.arena.buffers) = .ok buffers)
    (planned : Edit.planAll true catalog edits = .ok p) : p.arena.buffers = buffers := by
  rw [planned] at collected
  exact Except.ok.inj collected

/-- Nothing is taken out of a group when articles are published. -/
theorem loyal_published (p : FlushPlan) (planned : Edit.planAll true catalog published = .ok p) :
    (reduction main).Loyal (∅ : Memory).tables p := by
  have buffers : p.arena.buffers =
      [⟨main, articles, [⟨counted 1 1, .int 1, 1, .added⟩, ⟨counted 1 1, .int 1, 2, .added⟩]⟩] :=
    buffers_of_planned rfl planned
  intro b hb _ key hkey found _ row ⟨_, _, leaves, _⟩
  rw [buffers] at hb
  obtain rfl := List.mem_singleton.1 hb
  exact leaves (List.filter_eq_nil_iff.2 (by simp))

/-- Two articles are taken out of the first day, of which one is left. -/
theorem loyal_revised (p : FlushPlan) (planned : Edit.planAll true catalog revised = .ok p) :
    (reduction main).Loyal afterPublished.tables p := by
  intro b hb _ key hkey found perm row ⟨before, whole, leaves, left, k, group, apart⟩
  have buffers : p.arena.buffers = [turnover] := buffers_of_planned rfl planned
  rw [buffers] at hb
  obtain rfl := List.mem_singleton.1 hb
  have keys : turnover.keys = [.int 1, .int 2] := by rfl
  rw [keys] at hkey
  simp only [List.mem_cons, List.not_mem_nil, or_false] at hkey
  rcases hkey with rfl | rfl
  · have stored :
        (afterPublished.tables (reduction main).table).filter (turnover.inGroup (.int 1)) =
        [⟨[Command.idCell 1, ("Day", .int 1), ("Units", .int 2)]⟩] := by rfl
    rw [stored] at perm
    obtain rfl := List.perm_singleton.1 perm
    have three :
        turnover.whole (.int 1) [⟨[Command.idCell 1, ("Day", .int 1), ("Units", .int 2)]⟩] =
        .ok (some (counted 1 3)) := by rfl
    cases three.symm.trans whole
    have one : turnover.descriptor.deleteRows (counted 1 3)
          ((turnover.group (.int 1) .removed).map MappedRow.row) =
        .ok (some (counted 1 1)) := by rfl
    cases one.symm.trans left
    have first : turnover.descriptor.groupKey (counted 1 1) = .ok (.int 1) := by rfl
    cases first.symm.trans group
    cases apart
  · exact leaves (by rfl)

/-- The revision keeps one row for each day; what it writes for the first day carries it. -/
theorem one_row_for_each_day : LoyalFlushes store catalog .sqlite (reduction main) ∅ afterRevised ∧
    turnover.Guarded "Day" (.int 1) [⟨[Command.idCell 1, ("Day", .int 1), ("Units", .int 2)]⟩] ∧
    (afterRevised.tables "ByDay").Pairwise fun row row' =>
      ∀ key ∈ row.value? "Day", ∀ key' ∈ row'.value? "Day", key.agrees key' = false := by
  have inUse : ∀ edits ∈ [published, revised], ∀ e ∈ edits, catalog.collections e.names := by
    intro edits hedits e he
    simp only [List.mem_cons, List.not_mem_nil, or_false] at hedits
    rcases hedits with rfl | rfl
    · exact turns_published.used e he
    · exact turns_revised.used e he
  have flushes :=
    (LoyalFlushes.none.of_memory (inUse published (by simp)) loyal_published
      flush_published).of_memory
    (inUse revised (by simp)) loyal_revised flush_revised
  have feeds : (reduction main).Feeds catalog articles :=
    ⟨⟨"Article", List.mem_singleton_self _⟩, rfl, rfl⟩
  have lawful : (reduction main).Lawful catalog := lawful catalog_counts
  obtain ⟨guards, keeps⟩ := Reduction.one_row_for_each_key turnover (.int 1)
    [⟨[Command.idCell 1, ("Day", .int 1), ("Units", .int 2)]⟩] store .sqlite catalog
    (reduction main)
  obtain ⟨column, grouped, guarded⟩ :=
    guards (.start "Article" "") ⟨"Article", "", [articles]⟩ (by rfl) rfl rfl (by decide +kernel)
  cases grouped
  exact ⟨flushes, guarded,
    (keeps articles ∅ afterRevised Memory.faithful (Memory.looksUp .sqlite) catalog_distinct
      lawful.uniform
    (restores catalog_counts).apart feeds rfl (Reduction.keyed_of_empty rfl) flushes).2⟩

/-! ### What is left strays -/

/-- Counts like the articles, but gives what is left of a day to the day before. -/
def backdated : Descriptor := { articles with
  delete := some fun current removed =>
    some (counted (day current - 1) (units current - (removed.map units).sum)) }

def backdating : Catalog where
  collections names := names = main
  descriptors names entity := if names = main ∧ entity = "Article" then [backdated] else []

/-- One article of the first day and two of the second, of which one is deleted. -/
def releases : List (List Edit) :=
  [[.create main 1 "Article" (article 1) "first", .create main 2 "Article" (article 2) "second",
    .create main 3 "Article" (article 2) "third"],
    [.delete main 3 "Article" ⟨"third", article 2, 1⟩]]

def withdrawn : Except Error Memory := releases.foldlM (Memory.flush settings backdating) ∅

/-- Two rows of one day, as what is left of the second day is taken for one of the first. -/
theorem two_rows_of_backdated : withdrawn.map (fun m => m.tables "ByDay") =
    .ok [⟨[Command.idCell 1, ("Day", .int 1), ("Units", .int 1)]⟩,
      ⟨[Command.idCell 2, ("Day", .int 1), ("Units", .int 1)]⟩] := by
  rfl

end Counting

end DocStore

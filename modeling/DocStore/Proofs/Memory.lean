import DocStore.Proofs.Identities
import DocStore.Proofs.Lookups
import DocStore.Proofs.SessionPlanning

/-!
# A storage in memory

Surroundings that keep their tables as a database, hand out ids from the default
source, and answer what a session asks of them. They keep every table faithfully
and look groups and documents up as they are stored, so what is proved of such
surroundings is proved of some.
-/

set_option autoImplicit false

namespace DocStore

/-- Whether a row meets a condition, for the conditions by which groups are looked up. -/
def Sql.holds (parameters : Parameters) (row : Row) : Sql → Bool
  | .isNull (.column _ name) false => row.value? name = some .null
  | .binary .eq (.column _ name) (.param n) =>
    match row.value? name, parameters.entries[n]? with
    | some v, some (_, w) => v.agrees w
    | _, _ => false
  | _ => false

/-- A store in memory: its tables, the last id given to an aggregate row, and the
ids given to documents. -/
structure Memory where
  tables : Database
  lastRow : Int64
  ids : IdTable

namespace Memory

/-- How many rows a change affects. -/
def affected (m : Memory) : Statement → Nat
  | .insert _ _ => 1
  | .update table _ keys | .delete table keys => (m.tables table).countP fun row => row.meets keys
  | _ => 0

/-- The rows that a query selects. -/
def select (m : Memory) : Statement → Except Error (List Row)
  | .query (.indexRows _ table filter [] none) parameters =>
    .ok ((m.tables table).filter fun row => filter.holds parameters row)
  | .query (.documentById table) ⟨[(_, id)]⟩ =>
    .ok ((m.tables table).filter fun row => row.meets [(Column.idName, id)])
  | _ => .error (.storage "unsupported query")

/-- An insertion that answers an identity that no row of the table has. -/
def insertReturning (m : Memory) (table : String) (cells : Cells) :
    Except Error (Option Value) × Memory :=
  let id := m.lastRow + 1
  if (m.tables table).any fun row => row.value? Column.idName = some (.int id) then
    (.error (.storage "no identity left"), m)
  else
    (.ok (some (.int id)),
      { m with
        tables := m.tables.execute (.insert table (Command.idCell id :: cells)), lastRow := id })

/-- The highest id among rows. -/
def highest : List Row → Option Int64
  | [] => none
  | row :: rows =>
    match row.value? Column.idName, highest rows with
    | some (.int id), none => some id
    | some (.int id), some h => some (if h < id then id else h)
    | _, h => h

variable (settings : Settings) (catalog : Catalog)

/-- The answers of the memory, which describes the indexes of a catalog. -/
def answer : Answerer Memory
  | .connect, m => (.ok 0, m)
  | .begin _, m | .commit _, m | .rollback _, m => (.ok (), m)
  | .execute _ s, m => (.ok (m.affected s), { m with tables := m.tables.execute s })
  | .scalar _ (.insertReturning table cells), m => m.insertReturning table cells
  | .scalar _ (.query (.maxId table) _), m => (.ok ((highest (m.tables table)).map .int), m)
  | .scalar _ _, m => (.error (.storage "unsupported statement"), m)
  | .query _ s, m => (m.select s, m)
  | .idsSeeded collection, m => (m.ids.isSeeded collection, m)
  | .seedIds collection atLeast, m => ((), { m with ids := m.ids.seed collection atLeast })
  | .nextId collection, m => ((m.ids.next collection).1,
      { m with ids := (m.ids.next collection).2 })
  | .descriptors typeName collection, m =>
    (.ok (catalog.descriptors (settings.names collection) typeName), m)
  | .compiledSql _ _ _, m => (.error (.storage "unsupported query"), m)

def storage : Storage Memory := ⟨answer settings catalog, tables⟩

/-- A memory in which nothing is stored. -/
instance : EmptyCollection Memory := ⟨⟨fun _ => [], 0, ∅⟩⟩

/-- Plans edits, ends the flush and runs its commands. -/
def flush (m : Memory) (edits : List Edit) : Except Error Memory := do
  let p ← Edit.planAll true catalog edits
  match Program.run (answer settings catalog) (p.arena.finish 0 .sqlite).run m with
  | (.error e, _) => .error e
  | (.ok commands, m) =>
    match Program.run (answer settings catalog) (Command.runAll 0 commands).run m with
    | (.error e, _) => .error e
    | (.ok (), m) => pure m

variable {settings : Settings} {catalog : Catalog}

theorem faithful {kept : String → Prop} : (storage settings catalog).Faithful kept where
  executed {c s st n st'} _ h t _ := by
    cases h
    rfl
  refused {c s st e st'} _ h := by cases h
  inserted {c table cells st v st'} h := by
    change insertReturning st table cells = _ at h
    simp only [insertReturning] at h
    split at h
    · cases h
    · next fresh =>
      cases h
      refine ⟨st.lastRow + 1, rfl, fun _ row hrow => ?_, fun t _ => rfl⟩
      intro taken
      exact fresh (List.any_eq_true.2 ⟨row, hrow, by simpa using taken⟩)
  notInserted {c table cells st e st'} h := by
    change insertReturning st table cells = _ at h
    simp only [insertReturning] at h
    split at h
    · cases h
      exact fun _ _ => rfl
    · cases h
  quiet {r st} quiet t _ := by
    cases r with
    | execute _ _ => cases quiet
    | scalar _ s =>
      cases s with
      | query q _ => cases q <;> rfl
      | insert _ _ | insertReturning _ _ | update _ _ _ | delete _ _ | schema _ => cases quiet
    | connect | begin _ | commit _ | rollback _ | query _ _ | idsSeeded _ | seedIds _ _ | nextId _
    | descriptors _ _
    | compiledSql _ _ _ => rfl

theorem looksUp (dialect : Dialect) : (storage settings catalog).LooksUp dialect := by
  intro b conn key q st st' found hq h
  obtain ⟨column, hcolumn, rfl⟩ := Buffer.lookup_eq_ok hq
  cases h
  refine List.Perm.of_eq (List.filter_congr fun row _ => ?_)
  simp only [Buffer.inGroup, hcolumn]
  by_cases null : key.isNull = true
  · obtain rfl : key = .null := by simpa [Value.isNull] using null
    rw [if_pos null, if_pos null, Sql.holds]
    cases row.value? column with
    | none => rfl
    | some v => cases v <;> simp [Value.agrees]
  · rw [if_neg null, if_neg null]
    cases h : row.value? column <;> simp [Sql.holds, h]

theorem identifies : (storage settings catalog).Identifies fun m => m.ids.bounds where
  seeded collection m := m.ids.isSeeded_eq collection
  seeds collection atLeast m := m.ids.bounds_seed collection atLeast
  next collection m _ h := m.ids.bounds_next collection h
  keeps r m quiet := by
    cases r with
    | seedIds _ _ | nextId _ => exact absurd trivial quiet
    | scalar _ s =>
      cases s with
      | query q _ => cases q <;> rfl
      | insertReturning table cells =>
        change (insertReturning m table cells).2.ids.bounds = _
        unfold insertReturning
        dsimp only
        split <;> rfl
      | insert _ _ | update _ _ _ | delete _ _ | schema _ => rfl
    | connect | begin _ | commit _ | rollback _ | execute _ _ | query _ _ | idsSeeded _
    | descriptors _ _
    | compiledSql _ _ _ => rfl

theorem le_highest {rows : List Row} {row : Row} (h : row ∈ rows) {id : Int64}
    (hid : row.value? Column.idName = some (.int id)) : ∃ b, highest rows = some b ∧ id ≤ b := by
  induction rows with
  | nil => cases h
  | cons row' rows ih =>
    rcases List.mem_cons.1 h with rfl | h
    · rw [highest, hid]
      cases highest rows with
      | none => exact ⟨id, rfl, Int64.le_refl id⟩
      | some b =>
        refine ⟨_, rfl, ?_⟩
        split
        · exact Int64.le_refl id
        · next notLess => exact Int64.not_lt.1 notLess
    · obtain ⟨b, hb, le⟩ := ih h
      rw [highest, hb]
      split
      · next same => cases same
      · next i b' _ same =>
        cases same
        refine ⟨_, rfl, ?_⟩
        split
        · next less => exact Int64.le_trans le (Int64.le_of_lt less)
        · exact le
      · exact ⟨b, rfl, le⟩

theorem findsHighest : (storage settings catalog).FindsHighest catalog := by
  intro conn table m v m' _ h row hrow id hid
  cases h
  have row' : row ∈ m.tables table := hrow
  obtain ⟨b, hb, le⟩ := le_highest row' hid
  rw [hb]
  exact le

theorem findsDocuments : (storage settings catalog).FindsDocuments catalog := by
  intro conn table parameter id m rows m' _ h
  cases h
  refine List.Perm.of_eq (List.filter_congr fun row _ => ?_)
  rw [Bool.eq_iff_iff, decide_eq_true_eq]
  exact Row.meets_idCell_iff

theorem describes : (storage settings catalog).Describes settings catalog := by
  intro typeName collection m ds m' h
  cases h
  rfl

theorem flush_eq_ok {m m' : Memory} {edits : List Edit}
    (h : flush settings catalog m edits = .ok m') :
    ∃ p commands m₁, Edit.planAll true catalog edits = .ok p ∧
      Action.Yields (storage settings catalog).answer (p.arena.finish 0 .sqlite) m commands m₁ ∧
        Action.Yields (storage settings catalog).answer (Command.runAll 0 commands) m₁ () m' := by
  obtain ⟨p, planned, h⟩ := bind_eq_ok_iff.1 h
  split at h
  · cases h
  · next commands m₁ finished =>
    split at h
    · cases h
    · next ran =>
      cases h
      exact ⟨p, commands, m₁, planned, finished, ran⟩

end Memory

end DocStore

import DocStore.Proofs.Database

/-!
# What commands do to a database

A command that succeeds has executed its statements one after the other. Which
id an inserted aggregate row gets is up to the storage; `Command.statements`
takes it as a parameter. A property that holds after every number of these
statements holds throughout the run of the command, however it ends.
-/

set_option autoImplicit false

namespace DocStore

namespace Database

def execute (db : Database) (s : Statement) : Database := fun t => s.on t (db t)

def executeAll (db : Database) (ss : List Statement) : Database := ss.foldl execute db

theorem executeAll_cons (db : Database) (s : Statement) (ss : List Statement) :
    db.executeAll (s :: ss) = (db.execute s).executeAll ss := rfl

theorem executeAll_append (db : Database) (ss ss' : List Statement) :
    db.executeAll (ss ++ ss') = (db.executeAll ss).executeAll ss' := List.foldl_append

theorem execute_insert (db : Database) (t : String) (cells : Cells) :
    db.execute (.insert t cells) t = db t ++ [⟨cells⟩] := by
  simp [execute, Statement.on, Statement.table?, Statement.change]

theorem execute_update (db : Database) (t : String) (cells keys : Cells) :
    db.execute (.update t cells keys) t = (db t).map fun row =>
      if row.meets keys then row.assign cells else row := by
  simp [execute, Statement.on, Statement.table?, Statement.change]

theorem execute_delete (db : Database) (t : String) (keys : Cells) :
    db.execute (.delete t keys) t = (db t).filter fun row => !row.meets keys := by
  simp [execute, Statement.on, Statement.table?, Statement.change]

/-- A statement leaves the other tables. -/
theorem execute_of_ne (db : Database) {s : Statement} {t : String} (h : s.table? ≠ some t) :
    db.execute s t = db t := if_neg h

theorem executeAll_of_ne (db : Database) {ss : List Statement} {t : String}
    (h : ∀ s ∈ ss, s.table? ≠ some t) : db.executeAll ss t = db t := by
  induction ss generalizing db with
  | nil => rfl
  | cons s ss ih =>
    rw [executeAll_cons, ih _ fun s' hs' => h s' (List.mem_cons_of_mem s hs'),
      execute_of_ne db (h s (by simp))]

/-- What statements make of a table depends on that table only. -/
theorem executeAll_congr {db db' : Database} {t : String} (same : db t = db' t)
    (ss : List Statement) : db.executeAll ss t = db'.executeAll ss t := by
  induction ss generalizing db db' with
  | nil => exact same
  | cons s ss ih => exact ih (congrArg (s.on t) same)

/-- Linking an aggregate row to documents appends links. -/
theorem executeAll_link (db : Database) (names : TableNames) (index : String) (id : Int64)
    (ds : List Int64) :
    db.executeAll (ds.map (Command.linkStatement names index id)) (names.bridge index) =
      db (names.bridge index) ++ ds.map (Row.link index id) := by
  induction ds generalizing db with
  | nil => exact (List.append_nil _).symm
  | cons d ds ih =>
    rw [List.map_cons, executeAll_cons, ih, Command.linkStatement, execute_insert,
      List.append_assoc]
    rfl

/-- Unlinking it from documents removes links. -/
theorem executeAll_unlink (db : Database) (names : TableNames) (index : String) (id : Int64)
    (ds : List Int64) :
    db.executeAll (ds.map (Command.unlinkStatement names index id)) (names.bridge index) =
      (db (names.bridge index)).filter fun row =>
        ds.all fun d => !row.meets [Command.bridgeCell index id, Command.documentCell d] := by
  induction ds generalizing db with
  | nil => exact (List.filter_eq_self.2 fun _ _ => rfl).symm
  | cons d ds ih =>
    rw [List.map_cons, executeAll_cons, ih, Command.unlinkStatement, execute_delete,
      List.filter_filter]
    exact List.filter_congr fun row _ => by rw [List.all_cons, Bool.and_comm]

end Database

namespace Command

/-- The statements of a command, if an aggregate row that it inserts gets the id. -/
def statements (id : Int64) : Command → List Statement
  | .createReduceRow names index cells link =>
    .insert (names.index index) (idCell id :: cells) :: link.map (linkStatement names index id)
  | .updateReduceRow names index row cells link unlink =>
    .update (names.index index) cells [idCell row] ::
      (unlink.map (unlinkStatement names index row) ++ link.map (linkStatement names index row))
  | .deleteReduceRow names index row =>
    [.delete (names.bridge index) [bridgeCell index row], .delete (names.index index) [idCell row]]
  | c => [c.statement]

/-- The id is not yet that of a row in the table that the command inserts an aggregate row into. -/
def Fresh (db : Database) (id : Int64) : Command → Prop
  | .createReduceRow names index _ _ =>
    ∀ row ∈ db (names.index index), row.value? Column.idName ≠ some (.int id)
  | _ => True

end Command

namespace Command

/-- The tables that a command changes. -/
def tables : Command → List Table
  | .createDocument names .. | .updateDocument names .. | .deleteDocument names _ =>
    [.documents names]
  | .createMapRow names index .. | .deleteMapRows names index _ => [.rows .map names index]
  | .createReduceRow names index .. | .updateReduceRow names index ..
  | .deleteReduceRow names index _ =>
    [.rows .reduce names index, .links names index]

theorem table?_of_mem_statements {c : Command} {id : Int64} {s : Statement}
    (h : s ∈ c.statements id) : ∃ t ∈ c.tables, s.table? = some t.name := by
  cases c with
  | createReduceRow names index cells link =>
    rcases List.mem_cons.1 h with rfl | h
    · exact ⟨.rows .reduce names index, by simp [tables], rfl⟩
    · obtain ⟨d, _, rfl⟩ := List.mem_map.1 h
      exact ⟨.links names index, by simp [tables], rfl⟩
  | updateReduceRow names index row cells link unlink =>
    rcases List.mem_cons.1 h with rfl | h
    · exact ⟨.rows .reduce names index, by simp [tables], rfl⟩
    · refine ⟨.links names index, by simp [tables], ?_⟩
      rcases List.mem_append.1 h with h | h <;> obtain ⟨d, _, rfl⟩ := List.mem_map.1 h <;> rfl
  | deleteReduceRow names index row =>
    rcases List.mem_cons.1 h with rfl | h
    · exact ⟨.links names index, by simp [tables], rfl⟩
    · obtain rfl := List.mem_singleton.1 h
      exact ⟨.rows .reduce names index, by simp [tables], rfl⟩
  | createDocument _ _ _ _ | updateDocument _ _ _ _ _ _ | deleteDocument _ _ | createMapRow _ _ _ _
  | deleteMapRows _ _ _ =>
    obtain rfl := List.mem_singleton.1 h
    exact ⟨_, List.mem_singleton_self _, rfl⟩

section Reduced

variable {names : TableNames} {index : String} (apart : names.index index ≠ names.bridge index)
  (db : Database) (row : Int64) (cells : Cells) (link unlink : List Int64)
include apart

theorem rows_createReduceRow :
    db.executeAll ((createReduceRow names index cells link).statements row)
    (names.index index) = db (names.index index) ++ [⟨idCell row :: cells⟩] := by
  rw [statements, Database.executeAll_cons, Database.executeAll_of_ne, Database.execute_insert]
  intro s hs
  obtain ⟨d, _, rfl⟩ := List.mem_map.1 hs
  simpa [linkStatement, Statement.table?] using apart.symm

theorem links_createReduceRow :
    db.executeAll ((createReduceRow names index cells link).statements row)
    (names.bridge index) = db (names.bridge index) ++ link.map (Row.link index row) := by
  rw [statements, Database.executeAll_cons, Database.executeAll_link, Database.execute_of_ne]
  simpa [Statement.table?] using apart

theorem rows_updateReduceRow (id : Int64) :
    db.executeAll ((updateReduceRow names index row cells link unlink).statements id)
        (names.index index) =
      (db (names.index index)).map fun r => if r.meets [idCell row] then r.assign cells else r := by
  rw [statements, Database.executeAll_cons, Database.executeAll_of_ne, Database.execute_update]
  intro s hs
  rcases List.mem_append.1 hs with hs | hs
  · obtain ⟨d, _, rfl⟩ := List.mem_map.1 hs
    simpa [unlinkStatement, Statement.table?] using apart.symm
  · obtain ⟨d, _, rfl⟩ := List.mem_map.1 hs
    simpa [linkStatement, Statement.table?] using apart.symm

theorem links_updateReduceRow (id : Int64) :
    db.executeAll ((updateReduceRow names index row cells link unlink).statements id)
        (names.bridge index) =
      ((db (names.bridge index)).filter fun r =>
          unlink.all fun d => !r.meets [bridgeCell index row, documentCell d]) ++
        link.map (Row.link index row) := by
  rw [statements, Database.executeAll_cons, Database.executeAll_append, Database.executeAll_link,
    Database.executeAll_unlink, Database.execute_of_ne]
  simpa [Statement.table?] using apart

theorem rows_deleteReduceRow (id : Int64) :
    db.executeAll ((deleteReduceRow names index row).statements id) (names.index index) =
      (db (names.index index)).filter fun r => !r.meets [idCell row] := by
  rw [statements, Database.executeAll_cons, Database.executeAll_cons]
  change Database.execute _ _ _ = _
  rw [Database.execute_delete, Database.execute_of_ne]
  simpa [Statement.table?] using apart.symm

theorem links_deleteReduceRow (id : Int64) :
    db.executeAll ((deleteReduceRow names index row).statements id) (names.bridge index) =
      (db (names.bridge index)).filter fun r => !r.meets [bridgeCell index row] := by
  rw [statements, Database.executeAll_cons, Database.executeAll_cons]
  change Database.execute _ _ _ = _
  rw [Database.execute_of_ne, Database.execute_delete]
  simpa [Statement.table?] using apart

end Reduced

/-- Where no two tables of a catalog share a name, a command leaves those that are not its own. -/
theorem executeAll_frame {catalog : Catalog} (distinct : catalog.Distinct) {c : Command}
    (has : ∀ t ∈ c.tables, catalog.Has t) {t : Table} (has' : catalog.Has t) (other : t ∉ c.tables)
    (id : Int64) (db : Database) : db.executeAll (c.statements id) t.name = db t.name := by
  refine Database.executeAll_of_ne db fun s hs => ?_
  obtain ⟨t', mem, on⟩ := table?_of_mem_statements hs
  rw [on, ne_eq, Option.some.injEq]
  refine distinct.name_ne (has t' mem) has' ?_
  rintro rfl
  exact other mem

end Command

namespace Storage

variable {σ : Type} {S : Storage σ}

/-- Changes that are executed one after the other, on a table that is kept. -/
theorem Faithful.on_executeAll {kept : String → Prop} (faithful : S.Faithful kept) {c : Connection}
    {ss : List Statement} {st st' : σ} (change : ∀ s ∈ ss, s.IsChange)
    (h : Action.Yields S.answer (Action.executeAll c ss) st () st') {t : String} (ht : kept t) :
    S.tables st' t = (S.tables st).executeAll ss t := by
  induction ss generalizing st with
  | nil =>
    obtain ⟨_, rfl⟩ := Action.yields_pure_iff.1 h
    rfl
  | cons s ss ih =>
    obtain ⟨n, st₁, hs, h⟩ := Action.yields_bind_iff.1 h
    rw [ih (fun s' hs' => change s' (List.mem_cons_of_mem s hs')) h]
    exact Database.executeAll_congr (faithful.executed (change s (by simp))
      (Action.yields_execute_iff.1 hs) t ht) ss

variable (faithful : S.Faithful fun _ => True)
include faithful

theorem tables_of_executed {c : Connection} {s : Statement} {st st' : σ} {n : Nat}
    (change : s.IsChange) (h : S.answer (.execute c s) st = (.ok n, st')) :
    S.tables st' = (S.tables st).execute s :=
  funext fun t => faithful.executed change h t trivial

theorem tables_of_refused {c : Connection} {s : Statement} {st st' : σ} {e : Error}
    (change : s.IsChange) (h : S.answer (.execute c s) st = (.error e, st')) :
    S.tables st' = S.tables st :=
  funext fun t => faithful.refused change h t trivial

theorem tables_of_quiet {r : Request} (st : σ) (quiet : r.Quiet) :
    S.tables (S.answer r st).2 = S.tables st :=
  funext fun t => faithful.quiet quiet t trivial

/-- One change, whatever it is answered. -/
theorem throughout_execute {I : Database → Prop} {c : Connection} {s : Statement} {st : σ}
    (change : s.IsChange) (before : I (S.tables st)) (after : I ((S.tables st).execute s)) :
    Action.Throughout S.answer (fun st => I (S.tables st)) (Action.execute c s) st := by
  refine ⟨before, ?_⟩
  change I (S.tables (S.answer (.execute c s) st).2)
  rcases h : S.answer (.execute c s) st with ⟨e | n, st'⟩
  · rw [tables_of_refused faithful change h]; exact before
  · rw [tables_of_executed faithful change h]; exact after

theorem throughout_executeAll {I : Database → Prop} {c : Connection} {ss : List Statement} {st : σ}
    (change : ∀ s ∈ ss, s.IsChange) (h : ∀ k, I ((S.tables st).executeAll (ss.take k))) :
    Action.Throughout S.answer (fun st => I (S.tables st)) (Action.executeAll c ss) st := by
  induction ss generalizing st with
  | nil => exact Action.throughout_pure (h 0)
  | cons s ss ih =>
    have first := throughout_execute faithful (c := c) (change s (by simp)) (h 0) (h 1)
    refine first.bind fun n st' hs =>
      ih (fun s' hs' => change s' (List.mem_cons_of_mem s hs')) fun k => ?_
    rw [tables_of_executed faithful (change s (by simp)) (Action.yields_execute_iff.1 hs)]
    exact h (k + 1)

theorem tables_of_executeAll {c : Connection} {ss : List Statement} {st st' : σ}
    (change : ∀ s ∈ ss, s.IsChange)
    (h : Action.Yields S.answer (Action.executeAll c ss) st () st') :
    S.tables st' = (S.tables st).executeAll ss :=
  funext fun _ => faithful.on_executeAll change h trivial

/-- Two lists of changes in a row. -/
theorem throughout_executeAll_append {I : Database → Prop} {c : Connection}
    {ss ss' : List Statement} {st : σ} (change : ∀ s ∈ ss, s.IsChange)
    (change' : ∀ s ∈ ss', s.IsChange) (h : ∀ k, I ((S.tables st).executeAll ((ss ++ ss').take k))) :
    Action.Throughout S.answer (fun st => I (S.tables st))
      (do Action.executeAll c ss; Action.executeAll c ss') st := by
  have first : ∀ k, I ((S.tables st).executeAll (ss.take k)) := by
    intro k
    have here := h (min k ss.length)
    rwa [List.take_append_of_le_length (Nat.min_le_right k _), ← List.take_take,
      List.take_length] at here
  refine (throughout_executeAll faithful change first).bind fun _ st' hs => ?_
  refine throughout_executeAll faithful change' fun k => ?_
  rw [tables_of_executeAll faithful change hs, ← Database.executeAll_append]
  have here := h (ss.length + k)
  rwa [List.take_length_add_append] at here

end Storage

namespace Command

variable {σ : Type} {S : Storage σ} {conn : Connection}

theorem isChange_statements (c : Command) (id : Int64) : ∀ s ∈ c.statements id, s.IsChange := by
  intro s hs
  cases c with
  | createReduceRow names index cells link =>
    rcases List.mem_cons.1 hs with rfl | hs
    · trivial
    · obtain ⟨d, _, rfl⟩ := List.mem_map.1 hs
      trivial
  | updateReduceRow names index row cells link unlink =>
    rcases List.mem_cons.1 hs with rfl | hs
    · trivial
    · rcases List.mem_append.1 hs with hs | hs
      · obtain ⟨d, _, rfl⟩ := List.mem_map.1 hs
        trivial
      · obtain ⟨d, _, rfl⟩ := List.mem_map.1 hs
        trivial
  | deleteReduceRow names index row =>
    rcases List.mem_cons.1 hs with rfl | hs
    · trivial
    · obtain rfl := List.mem_singleton.1 hs
      trivial
  | createDocument _ _ _ _ | updateDocument _ _ _ _ _ _ | deleteDocument _ _ | createMapRow _ _ _ _
  | deleteMapRows _ _ _ =>
    obtain rfl := List.mem_singleton.1 hs
    trivial

/-- The insertion of an aggregate row that is answered has inserted it under a new id. -/
theorem tables_of_inserted (faithful : S.Faithful fun _ => True) {table : String} {cells : Cells}
    {v : Option Value} {st st' : σ}
    (h : S.answer (.scalar conn (.insertReturning table cells)) st = (.ok v, st')) :
    ∃ id, v = some (.int id) ∧
      (∀ row ∈ S.tables st table, row.value? Column.idName ≠ some (.int id)) ∧
      S.tables st' = (S.tables st).execute (.insert table (idCell id :: cells)) := by
  obtain ⟨id, hv, fresh, tables⟩ := faithful.inserted h
  exact ⟨id, hv, fresh trivial, funext fun t => tables t trivial⟩

/-- What holds after every number of a command's statements holds throughout its run. -/
theorem throughout_run (faithful : S.Faithful fun _ => True) {I : Database → Prop}
    {c : Command} {st : σ} (here : I (S.tables st))
    (h : ∀ id, c.Fresh (S.tables st) id →
      ∀ k, I ((S.tables st).executeAll ((c.statements id).take k))) :
    Action.Throughout S.answer (fun st => I (S.tables st)) (c.run conn) st := by
  have changes := isChange_statements c 0
  cases c with
  | createDocument _ _ _ _ | deleteDocument _ _ | createMapRow _ _ _ _ | deleteMapRows _ _ _
  | deleteReduceRow _ _ _ =>
    exact S.throughout_executeAll faithful changes (h 0 trivial)
  | updateDocument names id typeName content version expected =>
    have change :
        (statement (.updateDocument names id typeName content version expected)).IsChange := trivial
    refine (S.throughout_execute faithful (c := conn) change here (h 0 trivial 1)).bind
      fun n st' hs => ?_
    have last : I (S.tables st') := by
      rw [S.tables_of_executed faithful change (Action.yields_execute_iff.1 hs)]
      exact h 0 trivial 1
    split
    · exact Action.throughout_throw last
    · exact Action.throughout_pure last
  | createReduceRow names index cells link =>
    have insertion : Action.Throughout S.answer (fun st => I (S.tables st))
        (Action.scalar conn (.insertReturning (names.index index) cells)) st := by
      refine ⟨here, ?_⟩
      change I
        (S.tables (S.answer (.scalar conn (.insertReturning (names.index index) cells)) st).2)
      rcases hs : S.answer (.scalar conn (.insertReturning (names.index index) cells)) st with
        ⟨e | v, st'⟩
      · rw [show S.tables st' = S.tables st from funext fun t => faithful.notInserted hs t trivial]
        exact here
      · obtain ⟨id, _, fresh, tables⟩ := tables_of_inserted faithful hs
        rw [tables]
        exact h id fresh 1
    refine insertion.bind fun v st' hs => ?_
    obtain ⟨id, rfl, fresh, tables⟩ := tables_of_inserted faithful (Action.yields_scalar_iff.1 hs)
    have changes := isChange_statements (.createReduceRow names index cells link) id
    refine S.throughout_executeAll faithful
      (fun s hs => changes s (List.mem_cons_of_mem _ hs)) fun k => ?_
    rw [tables]
    exact h id fresh (k + 1)
  | updateReduceRow names index row cells link unlink =>
    exact S.throughout_executeAll_append faithful (fun s hs =>
        changes s (List.mem_append_left _ hs))
      (fun s hs => changes s (List.mem_append_right (_ :: _) hs)) (h 0 trivial)

/-- A command that succeeds has executed its statements on the tables that are kept. -/
theorem on_run {kept : String → Prop} (faithful : S.Faithful kept) {c : Command} {st st' : σ}
    (h : Action.Yields S.answer (c.run conn) st () st') :
    ∃ id, ((∀ t ∈ c.tables, kept t.name) → c.Fresh (S.tables st) id) ∧
      ∀ t, kept t → S.tables st' t = (S.tables st).executeAll (c.statements id) t := by
  have changes := isChange_statements c 0
  cases c with
  | createDocument _ _ _ _ | deleteDocument _ _ | createMapRow _ _ _ _ | deleteMapRows _ _ _
  | deleteReduceRow _ _ _ =>
    exact ⟨0, fun _ => trivial, fun t ht => faithful.on_executeAll changes h ht⟩
  | updateDocument names id typeName content version expected =>
    have change :
        (statement (.updateDocument names id typeName content version expected)).IsChange := trivial
    obtain ⟨n, st₁, hs, h⟩ := Action.yields_bind_iff.1 h
    split at h
    · exact absurd h Action.not_yields_throw
    · obtain ⟨_, rfl⟩ := Action.yields_pure_iff.1 h
      exact ⟨0, fun _ => trivial, fun t ht =>
        faithful.executed change (Action.yields_execute_iff.1 hs) t ht⟩
  | createReduceRow names index cells link =>
    obtain ⟨v, st₁, hs, h⟩ := Action.yields_bind_iff.1 h
    obtain ⟨id, rfl, fresh, inserted⟩ := faithful.inserted (Action.yields_scalar_iff.1 hs)
    have changes := isChange_statements (.createReduceRow names index cells link) id
    refine ⟨id, fun keeps => fresh (keeps (.rows .reduce names index) List.mem_cons_self),
      fun t ht => ?_⟩
    rw [faithful.on_executeAll (fun s hs => changes s (List.mem_cons_of_mem _ hs)) h ht]
    exact Database.executeAll_congr (inserted t ht) _
  | updateReduceRow names index row cells link unlink =>
    obtain ⟨_, st₁, hs, h⟩ := Action.yields_bind_iff.1 h
    refine ⟨0, fun _ => trivial, fun t ht => ?_⟩
    have first := faithful.on_executeAll (fun s hs => changes s (List.mem_append_left _ hs)) hs ht
    rw [faithful.on_executeAll (fun s hs => changes s (List.mem_append_right (_ :: _) hs)) h ht,
      Database.executeAll_congr first, ← Database.executeAll_append]
    rfl

/-- A command that succeeds has executed its statements. -/
theorem tables_of_run (faithful : S.Faithful fun _ => True) {c : Command} {st st' : σ}
    (h : Action.Yields S.answer (c.run conn) st () st') :
    ∃ id, c.Fresh (S.tables st) id ∧ S.tables st' = (S.tables st).executeAll (c.statements id) := by
  obtain ⟨id, fresh, on⟩ := on_run faithful h
  exact ⟨id, fresh fun _ _ => trivial, funext fun t => on t trivial⟩

end Command

end DocStore

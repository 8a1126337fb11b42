import DocStore.Proofs.CommandEffects
import DocStore.Proofs.Endings

/-!
# Sessions over one store

Several sessions, each on a connection of its own, share a database. At most one
of them is in a transaction, and until that is committed the others see the
database without it; so every transaction takes effect as a whole or not at all.
Their requests alternate in any order. An `Interleaving` is such an order, with
what each session was called for and what the database made of it.
-/

set_option autoImplicit false

namespace DocStore

/-! ## What a database answers -/

/-- The table of a query for documents. -/
def Statement.documentTable? : Statement → Option String
  | .query (.documentById table) _ => some table
  | .query (.documents source _ _) _ => some source.table
  | _ => none

/-- How many rows a change meets. -/
def Statement.affected (s : Statement) (db : Database) : Nat :=
  match s with
  | .insert _ _ | .insertReturning _ _ => 1
  | .update table _ keys | .delete table keys => (db table).countP fun row => row.meets keys
  | .query _ _ | .schema _ => 0

theorem Statement.IsChange.writes {s : Statement} (h : s.IsChange) : s.writes = true := by
  cases s with
  | query _ _ | insertReturning _ _ | schema _ => cases h
  | insert _ _ | update _ _ _ | delete _ _ => rfl

/-- Rows that may answer a query. Only its text is known to who answers: if that asks for documents
of a table, each row is a document that stands there. -/
def Database.MayAnswer (db : Database) (d : Dialect) (s : Statement) (rows : List Row) : Prop :=
  ∀ (s' : Statement) (table : String), s'.text d = s.text d → s'.documentTable? = some table →
    ∀ row ∈ rows, ∃ stored ∈ db table, Document.ofRow row = Document.ofRow stored

/-- What was asked failed, or is about something else than the rows of tables. -/
def Event.isQuiet : Event → Bool
  | ⟨.begin _, .error _⟩ | ⟨.commit _, .error _⟩ | ⟨.rollback _, .error _⟩
  | ⟨.execute _ _, .error _⟩
  | ⟨.scalar _ _, .error _⟩ | ⟨.query _ _, .error _⟩ => true
  | ⟨.scalar _ (.query _ _), _⟩ => true
  | ⟨.connect, _⟩ | ⟨.idsSeeded _, _⟩ | ⟨.seedIds _ _, _⟩ | ⟨.nextId _, _⟩ | ⟨.descriptors _ _, _⟩
  | ⟨.compiledSql _ _ _, _⟩ => true
  | _ => false

/-! ## A shared database -/

/-- What is committed, and the open transaction: whose it is, and the database as
that session has made it. -/
structure Shared (ι : Type) where
  committed : Database
  opened : Option (ι × Database)

namespace Shared

variable {ι : Type}

/-- The database as a session sees it. -/
def view [DecidableEq ι] (w : Shared ι) (i : ι) : Database :=
  match w.opened with
  | some (j, own) => if j = i then own else w.committed
  | none => w.committed

/-- What the database makes of a request of a session, and how it may answer. A transaction that
cannot be ended may stay open, or be lost. -/
inductive Step [DecidableEq ι] (d : Dialect) (i : ι) : Shared ι → Event → Shared ι → Prop
  | quiet {w : Shared ι} {e : Event} : e.isQuiet = true → Step d i w e w
  | answers {w : Shared ι} {c : Connection} {s : Statement} {rows : List Row} :
      (w.view i).MayAnswer d s rows →
      Step d i w ⟨.query c s, .ok rows⟩ w
  | begins {db : Database}
      {c : Connection} : Step d i ⟨db, none⟩ ⟨.begin c, .ok ()⟩ ⟨db, some (i, db)⟩
  | commits {db own : Database}
      {c : Connection} : Step d i ⟨db, some (i, own)⟩ ⟨.commit c, .ok ()⟩ ⟨own, none⟩
  | loses {db own : Database}
      {e : Event} : e.RollsBack ∨ e.FailsToCommit → Step d i ⟨db, some (i, own)⟩ e ⟨db, none⟩
  | executes {db own : Database} {c : Connection} {s : Statement} : s.IsChange →
      Step d i ⟨db, some (i, own)⟩ ⟨.execute c s, .ok (s.affected own)⟩
        ⟨db, some (i, own.execute s)⟩
  | inserts {db own : Database} {c : Connection} {table : String} {cells : Cells} {id : Int64} :
      (∀ row ∈ own table, row.value? Column.idName ≠ some (.int id)) →
        Step d i ⟨db, some (i, own)⟩ ⟨.scalar c (.insertReturning table cells),
            .ok (some (.int id))⟩
          ⟨db, some (i, own.execute (.insert table (Command.idCell id :: cells)))⟩

/-- Requests of several sessions one after the other. -/
inductive Steps [DecidableEq ι] (d : Dialect) : Shared ι → List (ι × Event) → Shared ι → Prop
  | nil {w : Shared ι} : Steps d w [] w
  | concat {w w₁ w₂ : Shared ι} {trace : List (ι × Event)} {i : ι} {e : Event} :
      Steps d w trace w₁ → Step d i w₁ e w₂ →
      Steps d w (trace ++ [(i, e)]) w₂

variable [DecidableEq ι] {d : Dialect} {w w' : Shared ι}

theorem Steps.of_append {before after : List (ι × Event)} (h : Steps d w (before ++ after) w') :
    ∃ middle, Steps d w before middle ∧ Steps d middle after w' := by
  induction after using List.reverseRecOn generalizing w' with
  | nil => exact ⟨w', List.append_nil before ▸ h, .nil⟩
  | append_singleton after last ih =>
    rw [← List.append_assoc] at h
    generalize split : before ++ after ++ [last] = trace at h
    cases h with
    | nil => exact absurd split (by simp)
    | concat steps step =>
      obtain ⟨rfl, same⟩ := List.append_inj' split rfl
      obtain rfl := List.singleton_inj.1 same
      obtain ⟨middle, first, rest⟩ := ih steps
      exact ⟨middle, first, .concat rest step⟩

theorem Steps.eq_of_nil (h : Steps d w [] w') : w' = w := by
  generalize none : ([] : List (ι × Event)) = trace at h
  cases h with
  | nil => rfl
  | concat steps step => exact absurd none.symm (by simp)

theorem Steps.of_singleton {i : ι} {e : Event} (h : Steps d w [(i, e)] w') : Step d i w e w' := by
  generalize single : [(i, e)] = trace at h
  cases h with
  | nil => cases single
  | @concat _ _ trace _ _ steps step =>
    obtain ⟨rfl, same⟩ := List.append_inj' (show [] ++ [(i, e)] = trace ++ _ from single) rfl
    cases same
    exact steps.eq_of_nil ▸ step

/-- What neither bounds a transaction nor writes leaves the database to all who see it. -/
theorem Step.eq_of_passive {i : ι} {e : Event} (step : Step d i w e w')
    (passive : e.request.Passive) : w' = w := by
  cases step with
  | quiet | answers => rfl
  | begins => cases passive.1.1
  | commits => cases passive.1.2
  | loses loses =>
    rcases loses with ⟨_, same⟩ | ⟨_, _, rfl⟩
    · rw [same] at passive
      cases passive.1.2
    · cases passive.1.2
  | executes changes => cases (Statement.IsChange.writes changes).symm.trans passive.2
  | inserts => cases passive.2

theorem Steps.eq_of_passive {trace : List (ι × Event)} (h : Steps d w trace w')
    (passive : ∀ e ∈ trace, e.2.request.Passive) : w' = w := by
  induction h with
  | nil => rfl
  | concat _ step ih =>
    obtain ⟨first, last⟩ := List.forall_mem_append.1 passive
    exact (step.eq_of_passive (last _ List.mem_cons_self)).trans (ih first)

theorem steps_quiet {trace : List (ι × Event)} (quiet : ∀ e ∈ trace, e.2.isQuiet = true) :
    Steps d w trace w := by
  induction trace using List.reverseRecOn with
  | nil => exact .nil
  | append_singleton trace e ih =>
    obtain ⟨first, last⟩ := List.forall_mem_append.1 quiet
    exact .concat (ih first) (.quiet (last e List.mem_cons_self))

end Shared

/-! ## Interleavings -/

/-- What one of several sessions asked. -/
def eventsOf {ι : Type} [DecidableEq ι] (trace : List (ι × Event)) (i : ι) : List Event :=
  (trace.filter fun e => e.1 = i).map Prod.snd

section EventsOf

variable {ι : Type} [DecidableEq ι] (before after : List (ι × Event)) {i j : ι} {e : Event}

theorem eventsOf_append : eventsOf (before ++ after) i = eventsOf before i ++ eventsOf after i := by
  simp [eventsOf]

theorem eventsOf_cons_self : eventsOf ((i, e) :: after) i = e :: eventsOf after i := by
  simp [eventsOf]

theorem eventsOf_cons_of_ne (other : j ≠ i) : eventsOf ((j, e) :: after) i = eventsOf after i := by
  simp [eventsOf, other]

end EventsOf

/-- A session from its connection on. Nothing is called once it is closed. -/
structure Session.Run (settings : Settings) where
  opening : List Event
  first : Session
  calls : List Called
  last : Session
  connects : (connect settings).Emits opening (.ok first)
  history : History first calls last
  closes : ∀ before after, calls.map Called.call = before ++ .close :: after → after = []

/-- The run of a session on which calls are made in given surroundings, and
which is never closed. -/
def Session.Run.recorded {settings : Settings} {σ : Type} (answer : Answerer σ) (calls : List Call)
    (unclosed : ∀ call ∈ calls, call ≠ .close) (s : σ) : Session.Run settings where
  opening := [⟨.connect, .ok 0⟩]
  first := ⟨settings, 0, ∅, [], [], false, false⟩
  calls := (record answer calls ⟨settings, 0, ∅, [], [], false, false⟩ s).1
  last := (record answer calls ⟨settings, 0, ∅, [], [], false, false⟩ s).2
  connects := .ask (.done _)
  history := history_record answer calls _ s
  closes before after split := by
    rw [map_call_record] at split
    exact absurd rfl (unclosed .close (split ▸ List.mem_append_right before List.mem_cons_self))

/-- All that a session asks. -/
def Session.Run.events {settings : Settings} (r : Run settings) : List Event :=
  r.opening ++ Called.trace r.calls

/-- Entity types are described as they are in a catalog, in collections in use. -/
def Event.Described (settings : Settings) (catalog : Catalog) (e : Event) : Prop :=
  ∀ typeName collection ds, e = ⟨.descriptors typeName collection, .ok ds⟩ →
    catalog.collections (settings.names collection) ∧
      ds = catalog.descriptors (settings.names collection) typeName

/-- Sessions of one store whose requests alternate, each for as long as it goes on. -/
structure Interleaving (ι : Type) [DecidableEq ι] (settings : Settings) (catalog : Catalog) where
  runs : ι → Session.Run settings
  trace : List (ι × Event)
  before : Shared ι
  after : Shared ι
  takes : ∀ i, eventsOf trace i <+: (runs i).events
  steps : Shared.Steps settings.dialect before trace after
  described : ∀ e ∈ trace, e.2.Described settings catalog

namespace Interleaving

variable {ι : Type} [DecidableEq ι] {settings : Settings} {catalog : Catalog}

/-- A request in an interleaving, and the shared database before and after it. -/
structure At (x : Interleaving ι settings catalog) (before : List (ι × Event)) (i : ι) (e : Event)
    (after : List (ι × Event)) (w w' : Shared ι) : Prop where
  split : x.trace = before ++ (i, e) :: after
  reaches : Shared.Steps settings.dialect x.before before w
  step : Shared.Step settings.dialect i w e w'

variable {x : Interleaving ι settings catalog} {before after : List (ι × Event)} {i : ι} {e : Event}

/-- The run of a session goes through a request that it makes in an interleaving. -/
theorem exists_run_eq (split : x.trace = before ++ (i, e) :: after) :
    ∃ rest, (x.runs i).events = eventsOf before i ++ e :: (eventsOf after i ++ rest) := by
  obtain ⟨rest, run⟩ := x.takes i
  refine ⟨rest, ?_⟩
  rw [← run, split, eventsOf_append, eventsOf_cons_self]
  simp

/-- Every request of an interleaving is made somewhere. -/
theorem exists_at (split : x.trace = before ++ (i, e) :: after) :
    ∃ w w', x.At before i e after w w' := by
  have steps := x.steps
  rw [split, List.append_cons] at steps
  obtain ⟨w', made, _⟩ := steps.of_append
  obtain ⟨w, reaches, last⟩ := made.of_append
  exact ⟨w, w', split, reaches, last.of_singleton⟩

theorem described_eventsOf (split : x.trace = before ++ after) :
    ∀ e ∈ eventsOf before i, e.Described settings catalog := by
  intro e he
  obtain ⟨⟨j, _⟩, mem, rfl⟩ := List.mem_map.1 he
  exact x.described _ (split ▸ List.mem_append_left _ (List.mem_filter.1 mem).1)

end Interleaving

end DocStore

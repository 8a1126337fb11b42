import DocStore.Proofs.SharedStore

/-!
# Sessions in turns

Surroundings of sessions that share a database, and two sessions that are called
there in turns. What they ask is an interleaving, whatever is called and in
whatever order, so what is proved of interleavings is proved of some.
-/

set_option autoImplicit false

namespace DocStore

/-! ## Texts of queries for documents -/

/-- Texts that double a character alike are the same. -/
theorem doubling_injective (c : Char) : Function.Injective (doubling c) := by
  intro s t same
  have lists : ∀ l l' : List Char, (l.flatMap fun x => if x = c then [c, c] else [x]) =
      (l'.flatMap fun x => if x = c then [c, c] else [x]) → l = l' := by
    intro l
    induction l with
    | nil =>
      intro l' h
      cases l' with
      | nil => rfl
      | cons y l' => by_cases hy : y = c <;> simp [hy] at h
    | cons x l ih =>
      intro l' h
      cases l' with
      | nil => by_cases hx : x = c <;> simp [hx] at h
      | cons y l' =>
        by_cases hx : x = c <;> by_cases hy : y = c <;> simp [hx, hy] at h
        · rw [hx, hy, ih l' h]
        · exact absurd h.1.symm hy
        · rw [h.1, ih l' h.2]
  exact String.toList_inj.1 (lists _ _ (String.ofList_inj.1 same))

theorem quote_injective : Function.Injective Dialect.sqlite.quote := by
  intro name name' same
  have doubled : doubling '"' name = doubling '"' name' :=
    (String.append_right_inj _).1 ((String.append_left_inj _).1 same)
  exact doubling_injective _ doubled

/-- What a text starts with it starts with when it goes on. -/
theorem starts_append {p s : String} (h : p.toList <+: s.toList) (t : String) :
    p.toList <+: (s ++ t).toList := by
  rw [String.toList_append]
  exact h.trans (List.prefix_append _ _)

/-- A query for documents selects under an alias, or distinct rows; one for a
document does neither. -/
theorem Query.text_documentById_ne (table : String) (source : DocumentSource)
    (order : List SqlOrder) (paging : Paging) :
    (documents source order paging).text .sqlite ≠ (documentById table).text .sqlite := by
  intro same
  have one : "SELECT \"I".toList <+: ((documentById table).text .sqlite).toList :=
    starts_append
      (starts_append
        (starts_append (starts_append (starts_append (starts_append (by decide +kernel) _) _) _) _)
        _) _
  rw [← same] at one
  have many : "SELECT DI".toList <+: ((documents source order paging).text .sqlite).toList ∨
      "SELECT \"d".toList <+: ((documents source order paging).text .sqlite).toList := by
    unfold Query.text
    dsimp only
    split
    · exact .inl (starts_append (starts_append (starts_append (by decide +kernel) _) _) _)
    · exact .inr
        (starts_append
          (starts_append (starts_append (starts_append (starts_append (by decide +kernel) _) _) _)
            _) _)
  rcases many with distinct | grouped
  · exact absurd (List.prefix_of_prefix_length_le distinct one (by decide)) (by decide +kernel)
  · exact absurd (List.prefix_of_prefix_length_le grouped one (by decide)) (by decide +kernel)

/-- The text of a query for a document names its table, and is that of no
other query for documents. -/
theorem Statement.eq_of_text_documentById {s : Statement} {table table' : String} {ps : Parameters}
    (same : s.text .sqlite = (query (.documentById table) ps).text .sqlite)
    (documents : s.documentTable? = some table') : table' = table := by
  unfold Statement.documentTable? at documents
  split at documents
  · cases documents
    have quoted : Dialect.sqlite.quote table' = Dialect.sqlite.quote table :=
      (String.append_right_inj _).1 ((String.append_left_inj _).1 ((String.append_left_inj _).1
        ((String.append_left_inj _).1 ((String.append_left_inj _).1 same))))
    exact quote_injective quoted
  · exact (Query.text_documentById_ne table _ _ _ same).elim
  · cases documents

/-! ## A database that answers -/

instance : DecidablePred Statement.IsChange := fun s =>
  match s with
  | .insert _ _ | .update _ _ _ | .delete _ _ => .isTrue trivial
  | .insertReturning _ _ | .query _ _ | .schema _ => .isFalse id

/-- The rows that answer a query for a document; nothing else is found. -/
def Database.select (db : Database) : Statement → List Row
  | .query (.documentById table) ⟨[(_, id)]⟩ =>
    (db table).filter fun row => row.meets [(Column.idName, id)]
  | _ => []

theorem Database.mayAnswer_select (db : Database) (s : Statement) :
    db.MayAnswer .sqlite s (db.select s) := by
  intro s' table same documents row hrow
  unfold select at hrow
  split at hrow
  · obtain rfl := Statement.eq_of_text_documentById same documents
    exact ⟨row, (List.mem_filter.1 hrow).1, rfl⟩
  · cases hrow

namespace Shared

section Answer

variable {ι : Type} [DecidableEq ι] (settings : Settings) (catalog : Catalog)
  [DecidablePred catalog.collections]

/-- The database in the transaction of a session. -/
def own? (w : Shared ι) (i : ι) : Option Database :=
  match w.opened with
  | some (j, own) => if j = i then some own else none
  | none => none

def locked : Error := .storage "database is locked"

/-- The answers of a shared database to a session: one session at a time is in a transaction, and
changes are made there only. -/
def answer (i : ι) : Answerer (Shared ι)
  | .connect, w => (.ok 0, w)
  | .begin _, w =>
    match w.opened with
    | none => (.ok (), ⟨w.committed, some (i, w.committed)⟩)
    | some _ => (.error locked, w)
  | .commit _, w =>
    match w.own? i with
    | some own => (.ok (), ⟨own, none⟩)
    | none => (.error locked, w)
  | .rollback _, w =>
    match w.own? i with
    | some _ => (.ok (), ⟨w.committed, none⟩)
    | none => (.error locked, w)
  | .execute _ s, w =>
    match w.own? i with
    | some own =>
      if s.IsChange then (.ok (s.affected own), ⟨w.committed, some (i, own.execute s)⟩)
        else (.error locked, w)
    | none => (.error locked, w)
  | .scalar _ _, w => (.error locked, w)
  | .query _ s, w => (.ok ((w.view i).select s), w)
  | .idsSeeded _, w => (true, w)
  | .seedIds _ _, w => ((), w)
  | .nextId _, w => (1, w)
  | .descriptors typeName collection, w =>
    (if catalog.collections (settings.names collection) then
      .ok (catalog.descriptors (settings.names collection) typeName)
      else .error locked, w)
  | .compiledSql _ _ _, w => (.error locked, w)

variable {settings catalog} {w : Shared ι} {i : ι}

omit [DecidablePred catalog.collections] in
theorem eq_of_own? {own : Database} (h : w.own? i = some own) :
    w = ⟨w.committed, some (i, own)⟩ := by
  obtain ⟨committed, opened⟩ := w
  unfold own? at h
  cases opened with
  | none => cases h
  | some opened =>
    obtain ⟨j, own'⟩ := opened
    dsimp only at h
    split at h
    · next same =>
      cases h
      rw [same]
    · cases h

/-- Every answer is one that the database may give. -/
theorem step_answer (i : ι) (r : Request) (w : Shared ι) :
    Step .sqlite i w ⟨r, (answer settings catalog i r w).1⟩ (answer settings catalog i r w).2 := by
  cases r with
  | connect | idsSeeded _ | seedIds _ _ | nextId _ | descriptors _ _ | compiledSql _ _ _
  | scalar _ _ => exact .quiet rfl
  | query c s => exact .answers (Database.mayAnswer_select _ s)
  | begin c =>
    obtain ⟨committed, opened⟩ := w
    cases opened with
    | none => exact .begins
    | some opened => exact .quiet rfl
  | commit c =>
    unfold answer
    dsimp only
    split
    · next own here =>
      rw [eq_of_own? here]
      exact .commits
    · exact .quiet rfl
  | rollback c =>
    unfold answer
    dsimp only
    split
    · next own here =>
      rw [eq_of_own? here]
      exact .loses (.inl ⟨c, rfl⟩)
    · exact .quiet rfl
  | execute c s =>
    unfold answer
    dsimp only
    split
    · next own here =>
      rw [eq_of_own? here]
      split
      · next changes => exact .executes changes
      · exact .quiet rfl
    · exact .quiet rfl

theorem described_answer (i : ι) (r : Request) (w : Shared ι) :
    Event.Described settings catalog ⟨r, (answer settings catalog i r w).1⟩ := by
  intro typeName collection ds same
  cases r with
  | descriptors typeName' collection' =>
    unfold answer at same
    dsimp only at same
    split at same
    · next used =>
      cases same
      exact ⟨used, rfl⟩
    · cases same
  | connect | begin _ | commit _ | rollback _ | execute _ _ | scalar _ _ | query _ _ | idsSeeded _
  | seedIds _ _ | nextId _
  | compiledSql _ _ _ => cases congrArg Event.request same

end Answer

/-! ## Calls in turns -/

section Steps

variable {ι : Type} [DecidableEq ι] {d : Dialect} {w w₁ w₂ : Shared ι}
  {trace trace' : List (ι × Event)} {i : ι} {e : Event}

theorem Steps.single (step : Step d i w e w₁) : Steps d w [(i, e)] w₁ := by
  have first : Steps d w ([] ++ [(i, e)]) w₁ := .concat .nil step
  exact first

theorem Steps.append (first : Steps d w trace w₁) (rest : Steps d w₁ trace' w₂) :
    Steps d w (trace ++ trace') w₂ := by
  induction rest with
  | nil => exact (List.append_nil trace).symm ▸ first
  | concat _ step ih => exact List.append_assoc .. ▸ .concat ih step

end Steps

variable (settings : Settings) (catalog : Catalog) [DecidablePred catalog.collections]

/-- Sessions that are called one at a time, with what they were called for and
the database in the end. -/
def takeTurns :
    List (Bool × Call) → (Bool → Session) → Shared Bool →
    List (Bool × Called) × (Bool → Session) × Shared Bool
  | [], sessions, w => ([], sessions, w)
  | (i, call) :: turns, sessions, w =>
    let first := Program.record (answer settings catalog i) (call.work.run.run (sessions i)) w
    let rest := takeTurns turns (Function.update sessions i first.2.1.2) first.2.2
    ((i, ⟨call, first.1, first.2.1.1⟩) :: rest.1, rest.2)

/-- The calls of a session among others. -/
def callsOf (calls : List (Bool × Called)) (i : Bool) : List Called :=
  (calls.filter fun c => c.1 = i).map Prod.snd

theorem callsOf_cons_self (i : Bool) (c : Called) (calls : List (Bool × Called)) :
    callsOf ((i, c) :: calls) i = c :: callsOf calls i := by simp [callsOf]

theorem callsOf_cons_of_ne {i j : Bool} (other : j ≠ i) (c : Called)
    (calls : List (Bool × Called)) :
    callsOf ((j, c) :: calls) i = callsOf calls i := by simp [callsOf, other]

/-- All that was asked, and who asked it. -/
def traceOf (calls : List (Bool × Called)) : List (Bool × Event) :=
  calls.flatMap fun c => c.2.events.map (c.1, ·)

variable {settings catalog}

theorem eventsOf_map (i j : Bool) (events : List Event) :
    eventsOf (events.map (i, ·)) j = if i = j then events else [] := by
  unfold eventsOf
  by_cases same : i = j
  · simp [same, List.filter_map, Function.comp_def]
  · simp [same, List.filter_map, Function.comp_def]

theorem eventsOf_traceOf (calls : List (Bool × Called)) (i : Bool) :
    eventsOf (traceOf calls) i = Called.trace (callsOf calls i) := by
  induction calls with
  | nil => rfl
  | cons c calls ih =>
    obtain ⟨j, c⟩ := c
    have split : traceOf ((j, c) :: calls) = c.events.map (j, ·) ++ traceOf calls := rfl
    rw [split, eventsOf_append, eventsOf_map, ih]
    by_cases same : j = i <;> simp [callsOf, same, Called.trace]

theorem history_takeTurns (turns : List (Bool × Call)) (sessions : Bool → Session) (w : Shared Bool)
    (i : Bool) :
    Session.History (sessions i) (callsOf (takeTurns settings catalog turns sessions w).1 i)
      ((takeTurns settings catalog turns sessions w).2.1 i) := by
  induction turns generalizing sessions w with
  | nil => exact .nil
  | cons turn turns ih =>
    obtain ⟨j, call⟩ := turn
    -- Only the session that is called goes on; the other one stays where it is.
    have rest := ih
      (Function.update sessions j
        (Program.record (answer settings catalog j) (call.work.run.run (sessions j)) w).2.1.2)
      (Program.record (answer settings catalog j) (call.work.run.run (sessions j)) w).2.2
    by_cases same : j = i
    · subst same
      rw [Function.update_self] at rest
      refine (callsOf_cons_self j _ _).symm ▸ ?_
      exact .cons (Program.emits_record _ _ _) rest
    · rw [Function.update_of_ne (Ne.symm same)] at rest
      exact (callsOf_cons_of_ne same _ _).symm ▸ rest

theorem steps_record {α : Type} (i : Bool) (p : Program α) (w : Shared Bool) :
    Steps .sqlite w ((Program.record (answer settings catalog i) p w).1.map (i, ·))
      (Program.record (answer settings catalog i) p w).2.2 := by
  induction p generalizing w with
  | done a => exact .nil
  | ask r next ih => exact (Steps.single (step_answer i r w)).append (ih _ _)

theorem steps_takeTurns (turns : List (Bool × Call)) (sessions : Bool → Session) (w : Shared Bool) :
    Steps .sqlite w (traceOf (takeTurns settings catalog turns sessions w).1)
      (takeTurns settings catalog turns sessions w).2.2 := by
  induction turns generalizing sessions w with
  | nil => exact .nil
  | cons turn turns ih => exact (steps_record _ _ _).append (ih _ _)

theorem described_record {α : Type} (i : Bool) (p : Program α) (w : Shared Bool) :
    ∀ e ∈ (Program.record (answer settings catalog i) p w).1, e.Described settings catalog := by
  rintro ⟨r, outcome⟩ asked
  obtain ⟨w', answered⟩ := Program.answered_of_record _ p w _ asked
  exact (show outcome = _ from answered) ▸ described_answer i r w'

theorem described_takeTurns (turns : List (Bool × Call)) (sessions : Bool → Session)
    (w : Shared Bool) :
    ∀ e ∈ traceOf (takeTurns settings catalog turns sessions w).1,
      e.2.Described settings catalog := by
  induction turns generalizing sessions w with
  | nil => exact fun _ he => by cases he
  | cons turn turns ih =>
    exact List.forall_mem_append.2 ⟨List.forall_mem_map.2 (described_record _ _ _), ih _ _⟩

theorem calls_takeTurns (turns : List (Bool × Call)) (sessions : Bool → Session) (w : Shared Bool) :
    (takeTurns settings catalog turns sessions w).1.map (fun c => (c.1, c.2.call)) = turns := by
  induction turns generalizing sessions w with
  | nil => rfl
  | cons turn turns ih => exact congrArg (turn :: ·) (ih _ _)

end Shared

/-- A session that has just connected. -/
def Session.connected (settings : Settings) : Session := ⟨settings, 0, ∅, [], [], false, false⟩

/-- Two sessions that connect, and then are called in turns and never closed. -/
def Interleaving.ofTurns (settings : Settings) (catalog : Catalog)
    [DecidablePred catalog.collections] (sqlite : settings.dialect = .sqlite)
    (turns : List (Bool × Call)) (unclosed : ∀ turn ∈ turns, turn.2 ≠ .close) (w : Shared Bool) :
    Interleaving Bool settings catalog where
  runs i :=
    { opening := [⟨.connect, .ok 0⟩]
      first := .connected settings
      calls :=
        Shared.callsOf (Shared.takeTurns settings catalog turns (fun _ => .connected settings) w).1
          i
      last := (Shared.takeTurns settings catalog turns (fun _ => .connected settings) w).2.1 i
      connects := .ask (.done _)
      history := Shared.history_takeTurns turns (fun _ => .connected settings) w i
      closes := by
        intro before after split
        obtain ⟨c, hc, closes⟩ :=
          List.exists_of_mem_map (split ▸ List.mem_append_right before List.mem_cons_self)
        obtain ⟨⟨j, _⟩, mem, rfl⟩ := List.exists_of_mem_map hc
        have turn := List.mem_map_of_mem (f := fun c : Bool × Called => (c.1, c.2.call))
          (List.mem_filter.1 mem).1
        rw [Shared.calls_takeTurns] at turn
        exact absurd closes (unclosed _ turn) }
  trace := [(false, ⟨.connect, .ok 0⟩), (true, ⟨.connect, .ok 0⟩)] ++
    Shared.traceOf (Shared.takeTurns settings catalog turns (fun _ => .connected settings) w).1
  before := w
  after := (Shared.takeTurns settings catalog turns (fun _ => .connected settings) w).2.2
  takes i := by
    rw [eventsOf_append, Shared.eventsOf_traceOf]
    cases i <;> exact List.prefix_rfl
  steps := sqlite ▸ .append (.append (.single (.quiet rfl)) (.single (.quiet rfl)))
    (Shared.steps_takeTurns turns _ w)
  described := by
    refine List.forall_mem_append.2 ⟨?_, Shared.described_takeTurns turns _ w⟩
    intro e he typeName collection ds same
    simp at he
    rcases he with rfl | rfl <;> cases same

end DocStore

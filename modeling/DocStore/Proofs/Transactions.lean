import DocStore.Proofs.Refinement

/-!
# The transactions of a session

What one session asks, in any order of calls and with any answers, bounds its
transactions properly: it begins and ends them in turn, writes only while one is
open, and after a failed flush or a cancellation neither commits nor writes.
`Phase` is what the requests so far say of the transaction; a session's flags
agree with it between calls.
-/

set_option autoImplicit false

namespace DocStore

/-! ## Kinds of requests -/

def Statement.writes : Statement → Bool
  | .insert .. | .insertReturning .. | .update .. | .delete .. => true
  | .query .. | .schema _ => false

namespace Request

def begins : Request → Bool
  | .begin _ => true
  | _ => false

def commits : Request → Bool
  | .commit _ => true
  | _ => false

/-- The request is to end a transaction, one way or the other. -/
def ends : Request → Bool
  | .commit _ | .rollback _ => true
  | _ => false

/-- The request sends an insertion, an update or a deletion. -/
def writes : Request → Bool
  | .execute _ s | .scalar _ s | .query _ s => s.writes
  | _ => false

/-- The request leaves the transaction as it is. -/
def Inside (r : Request) : Prop := r.begins = false ∧ r.ends = false

/-- The request neither bounds a transaction nor writes. -/
def Passive (r : Request) : Prop := r.Inside ∧ r.writes = false

theorem commits_of_inside {r : Request} (h : r.Inside) : r.commits = false := by
  cases r with
  | commit _ => cases h.2
  | _ => rfl

theorem begins_of_ends {r : Request} (h : r.ends = true) : r.begins = false := by
  cases r with
  | commit _ | rollback _ => rfl
  | _ => cases h

end Request

namespace Event

/-- The event bounds a transaction, or was to. -/
def bounds (e : Event) : Bool := e.request.begins || e.request.ends

/-- A transaction was begun. -/
def Opens (e : Event) : Prop := ∃ c, e = ⟨.begin c, .ok ()⟩

end Event

/-! ## Calls on a session -/

/-- A query of a session. -/
inductive Read where
  | get (entity : EntityType) (collection : String) (id : Int64)
  | documents (q : DocumentQuery)
  | firstDocument (q : DocumentQuery)
  | documentCount (q : DocumentQuery)
  | rows (q : IndexQuery)
  | firstRow (q : IndexQuery)
  | rowCount (q : IndexQuery)
  | compiled (q : CompiledQuery) (collection : String) (args : Arguments)

/-- What a query answers. -/
inductive ReadAnswer where
  | one (json : Option Json)
  | many (jsons : List Json)
  | count (n : Nat)

/-- Starts a query. -/
def Read.start : Read → Work (Reading ReadAnswer)
  | .get entity collection id => Reading.map .one <$> Session.get entity collection id
  | .documents q => Reading.map .many <$> Session.listDocuments q
  | .firstDocument q => Reading.map .one <$> Session.firstDocument q
  | .documentCount q => Reading.map .count <$> Session.countDocuments q
  | .rows q => Reading.map .many <$> Session.listRows q
  | .firstRow q => Reading.map .one <$> Session.firstRow q
  | .rowCount q => Reading.map .count <$> Session.countRows q
  | .compiled q collection args => Reading.map .many <$> Session.runCompiled q collection args

/-- What can be called on a session. -/
inductive Call where
  | save (entity : EntityType) (collection : String) (content : Json)
  | delete (entity : EntityType) (collection : String) (content : Json)
  | read (q : Read)
  /-- Queries that are under way together. -/
  | join (qs : List Read)
  | flush
  | saveChanges
  | cancel
  | close

/-- The work of a call, whatever it answers. -/
def Call.work : Call → Work Unit
  | .save entity collection content => do
    let _ ← Session.save entity collection content
    pure ()
  | .delete entity collection content => Session.delete entity collection content
  | .read q => do
    let _ ← Reading.alone q.start
    pure ()
  | .join qs => do
    let _ ← Session.joinAll (qs.map Read.start)
    pure ()
  | .flush => Session.flush
  | .saveChanges => Session.saveChanges
  | .cancel => Session.cancel
  | .close => Session.close

/-- A call with all that was asked for it and how it ended. -/
structure Called where
  call : Call
  events : List Event
  result : Except Error Unit

/-- The calls on a session one after the other; after a failure there may be more. -/
inductive Session.History : Session → List Called → Session → Prop where
  | nil {session : Session} : History session [] session
  | cons {session session₁ session₂ : Session} {call : Call} {events : List Event}
      {result : Except Error Unit} {calls : List Called} :
      Work.Emits call.work session events result session₁ → History session₁ calls session₂ →
      History session (⟨call, events, result⟩ :: calls) session₂

/-- The calls made on a session in given surroundings. -/
def Session.record {σ : Type} (answer : Answerer σ) :
    List Call → Session → σ → List Called × Session
  | [], session, _ => ([], session)
  | call :: calls, session, s =>
    let first := Program.record answer (call.work.run.run session) s
    let rest := record answer calls first.2.1.2 first.2.2
    (⟨call, first.1, first.2.1.1⟩ :: rest.1, rest.2)

theorem Session.history_record {σ : Type} (answer : Answerer σ) (calls : List Call)
    (session : Session) (s : σ) :
    History session (record answer calls session s).1 (record answer calls session s).2 := by
  induction calls generalizing session s with
  | nil => exact .nil
  | cons call calls ih => exact .cons (Program.emits_record answer _ s) (ih _ _)

theorem Session.map_call_record {σ : Type} (answer : Answerer σ) (calls : List Call)
    (session : Session) (s : σ) : (record answer calls session s).1.map Called.call = calls := by
  induction calls generalizing session s with
  | nil => rfl
  | cons call calls ih => exact congrArg (call :: ·) (ih _ _)

namespace Called

/-- All that was asked, in order. -/
def trace (calls : List Called) : List Event := calls.flatMap Called.events

/-- The call cancelled the session: it was told to, or its flush failed. Saving
changes flushes first, so what fails there before a transaction was to be ended
is the flush. -/
def GivesUp (c : Called) : Prop :=
  c.call = .cancel ∨ (c.call = .flush ∧ ∃ e, c.result = .error e) ∨
    c.call = .saveChanges ∧ (∃ e, c.result = .error e) ∧ ∀ e ∈ c.events, e.request.ends = false

end Called

/-- Transactions are begun and ended in turn, written in, and not touched any more
once the session gave up. -/
structure Called.Disciplined (calls : List Called) : Prop where
  alternates : ∀ i e, ((Called.trace calls).filter Event.bounds)[i]? = some e →
    (e.request.begins = true ↔ i % 2 = 0)
  encloses : ∀ before e after, Called.trace calls = before ++ e :: after → e.request.writes = true →
    ∃ earlier opening since, before = earlier ++ opening :: since ∧
      opening.Opens ∧ ∀ e' ∈ since, e'.bounds = false
  stops : ∀ before c after, calls = before ++ c :: after → c.GivesUp →
    ∀ e ∈ Called.trace after, e.request.commits = false ∧ e.request.writes = false

/-! ## Phases -/

/-- What the requests so far say of the transaction of a session. -/
inductive Phase where
  | closed
  | opened
  /-- A transaction could not be begun. -/
  | refused
deriving DecidableEq

namespace Phase

inductive Step : Phase → Event → Phase → Prop where
  | begins {c : Connection} : Step .closed ⟨.begin c, .ok ()⟩ .opened
  | refuses {c : Connection} {e : Error} : Step .closed ⟨.begin c, .error e⟩ .refused
  | ends {e : Event} : e.request.ends = true → Step .opened e .closed
  | inside {e : Event} : e.request.Inside → Step .opened e .opened
  | passive {phase : Phase} {e : Event} : e.request.Passive → Step phase e phase

inductive Steps : Phase → List Event → Phase → Prop where
  | nil {phase : Phase} : Steps phase [] phase
  | cons {phase phase₁ phase₂ : Phase} {e : Event} {events : List Event} :
      Step phase e phase₁ → Steps phase₁ events phase₂ →
    Steps phase (e :: events) phase₂

variable {phase phase₁ phase₂ : Phase} {events events₁ events₂ : List Event}

theorem Steps.append (h₁ : Steps phase events₁ phase₁) (h₂ : Steps phase₁ events₂ phase₂) :
    Steps phase (events₁ ++ events₂) phase₂ := by
  induction h₁ with
  | nil => exact h₂
  | cons step _ ih => exact .cons step (ih h₂)

theorem steps_passive (h : ∀ e ∈ events, e.request.Passive) : Steps phase events phase := by
  induction events with
  | nil => exact .nil
  | cons e events ih =>
    obtain ⟨first, rest⟩ := List.forall_mem_cons.1 h
    exact .cons (.passive first) (ih rest)

theorem steps_inside (h : ∀ e ∈ events, e.request.Inside) : Steps .opened events .opened := by
  induction events with
  | nil => exact .nil
  | cons e events ih =>
    obtain ⟨first, rest⟩ := List.forall_mem_cons.1 h
    exact .cons (.inside first) (ih rest)

theorem Steps.of_append {before after : List Event} (h : Steps phase (before ++ after) phase₂) :
    ∃ middle, Steps phase before middle ∧ Steps middle after phase₂ := by
  induction before generalizing phase with
  | nil => exact ⟨phase, .nil, h⟩
  | cons e before ih =>
    cases h with
    | cons step h =>
      obtain ⟨middle, first, rest⟩ := ih h
      exact ⟨middle, .cons step first, rest⟩

theorem bounds_of_inside {e : Event} (h : e.request.Inside) : e.bounds = false := by
  rw [Event.bounds, h.1, h.2]
  rfl

/-- From a closed transaction on, every second bound is a begin. -/
theorem Steps.alternates (h : Steps phase events phase₁) {i : Nat} {e : Event}
    (he : (events.filter Event.bounds)[i]? = some e) :
    e.request.begins = true ↔ (i % 2 = 0 ↔ phase = .closed) := by
  induction h generalizing i with
  | nil => cases he
  | @cons _ _ _ first _ step _ ih =>
    cases step with
    | begins | refuses =>
      rw [List.filter_cons_of_pos rfl] at he
      cases i with
      | zero =>
        cases he
        simp [Request.begins]
      | succ i =>
        rw [ih he]
        simp
        omega
    | ends ended =>
      rw [List.filter_cons_of_pos (by rw [Event.bounds, ended, Bool.or_true])] at he
      cases i with
      | zero =>
        cases he
        simp [Request.begins_of_ends ended]
      | succ i =>
        rw [ih he]
        simp
        omega
    | inside inside =>
      rw [List.filter_cons_of_neg (by rw [bounds_of_inside inside]; decide)] at he
      exact ih he
    | passive passive =>
      rw [List.filter_cons_of_neg (by rw [bounds_of_inside passive.1]; decide)] at he
      exact ih he

/-- What is sent in an open transaction is sent after it was begun, with nothing in
between that was to end it. -/
theorem Steps.encloses (h : Steps phase events phase₁) (opened : phase₁ = .opened) :
    (phase = .opened ∧ ∀ e ∈ events, e.bounds = false) ∨
      ∃ earlier opening since, events = earlier ++ opening :: since ∧
        opening.Opens ∧ ∀ e ∈ since, e.bounds = false := by
  induction h with
  | nil => exact .inl ⟨opened, fun _ h => by cases h⟩
  | @cons _ _ _ first rest step _ ih =>
    rcases ih opened with ⟨middle, unbounded⟩ | ⟨earlier, opening, since, rfl, opens, unbounded⟩
    · subst middle
      cases step with
      | begins => exact .inr ⟨[], _, rest, rfl, ⟨_, rfl⟩, unbounded⟩
      | inside inside =>
        exact .inl ⟨rfl, List.forall_mem_cons.2 ⟨bounds_of_inside inside, unbounded⟩⟩
      | passive passive =>
        exact .inl ⟨rfl, List.forall_mem_cons.2 ⟨bounds_of_inside passive.1, unbounded⟩⟩
    · exact .inr ⟨first :: earlier, opening, since, rfl, opens, unbounded⟩

/-- Only in an open transaction anything is written. -/
theorem Step.opened_of_writes {e : Event} (step : Step phase e phase₁)
    (writes : e.request.writes = true) : phase = .opened := by
  cases step with
  | begins | refuses => cases writes
  | ends _ => rfl
  | inside _ => rfl
  | passive passive =>
    rw [passive.2] at writes
    cases writes

end Phase

/-! ## Operations and phases -/

/-- What a session knows of its transaction and of having been given up. -/
def Session.flags (session : Session) : Bool × Bool := (session.inTransaction, session.cancelled)

theorem Request.hasLookups_passive : HasLookups Passive where
  query _ _ _ := ⟨⟨rfl, rfl⟩, rfl⟩
  descriptors _ _ := ⟨⟨rfl, rfl⟩, rfl⟩
  compiledSql _ _ _ := ⟨⟨rfl, rfl⟩, rfl⟩

/-- An operation that neither bounds transactions nor writes, and leaves the flags. -/
abbrev Work.Passive {α : Type} (w : Work α) : Prop :=
  w.Ensures Request.Passive Session.flags fun _ => True

/-- The transaction of a session, as the phase has it, in the middle of an operation. -/
def Phase.Holds (phase : Phase) (session : Session) : Prop :=
  session.inTransaction = true ↔ phase = .opened

theorem Phase.Holds.congr {phase : Phase} {session session' : Session} (holds : phase.Holds session)
    (same : session'.flags = session.flags) : phase.Holds session' := by
  have inTransaction : session'.inTransaction = session.inTransaction := congrArg Prod.fst same
  unfold Holds
  rw [inTransaction]
  exact holds

/-- A session between two calls: it is in a transaction if one is open, and cancelled if
one could not be begun. -/
structure Phase.Fits (phase : Phase) (session : Session) : Prop where
  holds : phase.Holds session
  refused : phase = .refused → session.cancelled = true

/-- A kind of requests to which all those belong by which documents get their identities. -/
structure Request.HasIdentities (P : Request → Prop) : Prop where
  seeded : ∀ collection, P (.idsSeeded collection)
  highest : ∀ c q ps, P (.scalar c (.query q ps))
  seeds : ∀ collection atLeast, P (.seedIds collection atLeast)
  next : ∀ collection, P (.nextId collection)

theorem Request.hasIdentities_passive : HasIdentities Passive where
  seeded _ := ⟨⟨rfl, rfl⟩, rfl⟩
  highest _ _ _ := ⟨⟨rfl, rfl⟩, rfl⟩
  seeds _ _ := ⟨⟨rfl, rfl⟩, rfl⟩
  next _ := ⟨⟨rfl, rfl⟩, rfl⟩

/-- A part of a session that does not depend on the documents: on what is loaded, what waits
and what has got an id. -/
def Session.Steady {γ : Type} (view : Session → γ) : Prop :=
  ∀ session tracked pending created, view { session with tracked, pending, created } = view session

theorem Session.Steady.untracked {γ : Type} {view : Session → γ} (steady : Steady view) :
    Untracked view :=
  fun session tracked => steady session tracked session.pending session.created

theorem Session.steady_flags : Steady flags := fun _ _ _ _ => rfl

theorem Session.untracked_flags : Untracked flags := steady_flags.untracked

section Calls

variable {P : Request → Prop} (lookups : Request.HasLookups P)
  (identities : Request.HasIdentities P) {γ : Type} {view : Session → γ}
  (steady : Session.Steady view)

namespace Session

include identities

theorem asks_ensureSeeded (settings : Settings) (conn : Connection) (collection : String) :
    (Action.ensureSeeded settings conn collection).Asks P := by
  refine Action.Asks.bind (Program.asks_request (identities.seeded _)) fun seeded => ?_
  split
  · exact Action.asks_pure ()
  · exact Action.Asks.bind (Program.asks_request (identities.highest _ _ _)) fun _ =>
      Program.asks_request (identities.seeds _ _)

include steady

theorem ensures_identify (entity : EntityType) (collection : String) (content : Json) :
    (identify entity collection content).Ensures P view fun _ => True := by
  refine Work.ensures_get_bind fun session => ?_
  dsimp only
  split
  · refine Work.ensures_ofAction_bind ?_ fun id => ?_
    · exact (asks_ensureSeeded identities _ _ _).bind fun _ =>
        Program.asks_request (identities.next _)
    · exact Work.Ensures.bind (Work.ensures_modify fun s => steady s _ _ _) fun _ _ =>
        Work.ensures_pure trivial
  · refine Work.ensures_ofAction_bind ?_ fun _ => Work.ensures_pure trivial
    exact (asks_ensureSeeded identities _ _ _).bind fun _ =>
      Program.asks_request (identities.seeds _ _)

theorem ensures_save (entity : EntityType) (collection : String) (content : Json) :
    (save entity collection content).Ensures P view fun _ => True := by
  refine (ensures_identify identities steady entity collection content).bind fun json _ =>
    Work.ensures_get_bind fun session => ?_
  refine Work.ensures_ofExcept_bind fun text _ => ?_
  exact Work.Ensures.bind (Work.ensures_modify fun s => steady s _ _ _) fun _ _ =>
    Work.ensures_pure trivial

omit identities in
theorem ensures_delete (entity : EntityType) (collection : String) (content : Json) :
    (delete entity collection content).Ensures P view fun _ => True := by
  refine Work.Ensures.bind (Work.ensures_modify fun s => steady s _ _ _) fun _ _ =>
    Work.ensures_get_bind fun session => ?_
  split
  · exact Work.ensures_modify fun s => steady s _ _ _
  · exact Work.ensures_modify fun s => steady s _ _ _

end Session

include lookups

/-- A query only looks something up. -/
theorem Read.inquires (untracked : Session.Untracked view) (q : Read) :
    q.start.Inquires P view := by
  cases q with
  | get entity collection id =>
    exact Work.Inquires.map (Session.inquires_get untracked entity collection id) _
  | documents q => exact Work.Inquires.map (Session.inquires_listDocuments lookups untracked q) _
  | firstDocument q =>
    exact Work.Inquires.map (Session.inquires_firstDocument lookups untracked q) _
  | documentCount q => exact Work.Inquires.map (Session.inquires_countDocuments lookups q) _
  | rows q => exact Work.Inquires.map (Session.inquires_listRows q) _
  | firstRow q => exact Work.Inquires.map (Session.inquires_firstRow q) _
  | rowCount q => exact Work.Inquires.map (Session.inquires_countRows q) _
  | compiled q collection args =>
    exact Work.Inquires.map (Session.inquires_runCompiled lookups q collection args) _

include steady identities

/-- The calls that do not end, write or give up anything look something up or get identities. -/
theorem Call.ensures_work (call : Call)
    (h : call ≠ .flush ∧ call ≠ .saveChanges ∧ call ≠ .cancel ∧ call ≠ .close) :
    call.work.Ensures P view fun _ => True := by
  cases call with
  | save entity collection content =>
    exact (Session.ensures_save identities steady entity collection content).bind fun _ _ =>
      Work.ensures_pure trivial
  | delete entity collection content =>
    exact Session.ensures_delete steady entity collection content
  | read q =>
    exact (Reading.ensures_alone lookups (q.inquires lookups steady.untracked)).bind fun _ _ =>
      Work.ensures_pure trivial
  | join qs =>
    refine (Session.ensures_joinAll lookups fun start hstart => ?_).bind fun _ _ =>
      Work.ensures_pure trivial
    obtain ⟨q, _, rfl⟩ := List.mem_map.1 hstart
    exact q.inquires lookups steady.untracked
  | flush => exact absurd rfl h.1
  | saveChanges => exact absurd rfl h.2.1
  | cancel => exact absurd rfl h.2.2.1
  | close => exact absurd rfl h.2.2.2

end Calls

namespace Session

variable {session session' : Session} {events : List Event}

/-- A transaction is begun unless one is open. -/
theorem emits_begin {phase : Phase} (holds : phase.Holds session) (usable : phase ≠ .refused)
    {result : Except Error Unit} (h : Work.Emits begin session events result session') :
    ∃ phase', Phase.Steps phase events phase' ∧
      phase'.Holds session' ∧ session'.cancelled = session.cancelled ∧
      (result = .ok () → phase' = .opened) ∧ (phase' = .refused → ∃ e, result = .error e) := by
  have run : Work.Emits (if session.inTransaction then pure () else do
      Work.ofAction (Action.begin session.connection)
      modify fun s => { s with inTransaction := true }) session events result session' := h
  split at run
  · next opened =>
    obtain ⟨rfl, rfl, rfl⟩ := Work.emits_pure_iff.1 run
    have phase_eq := holds.1 opened
    exact ⟨phase, .nil, holds, rfl, fun _ => phase_eq, fun refused => absurd refused usable⟩
  · next closed =>
    have phase_eq : phase = .closed := by
      cases phase with
      | closed => rfl
      | opened => exact absurd (holds.2 rfl) closed
      | refused => exact absurd rfl usable
    subst phase_eq
    rcases Work.emits_bind_iff.1 run with
      ⟨e, rfl, failed⟩ | ⟨_, middle, first, rest, rfl, began, marked⟩
    · obtain ⟨rfl, asked⟩ := Work.emits_ofAction_iff.1 failed
      obtain rfl := Program.emits_request_iff.1 asked
      exact ⟨.refused, .cons .refuses .nil, ⟨fun h => absurd h closed, fun h => (by cases h)⟩, rfl,
        fun h => (by cases h), fun _ => ⟨e, rfl⟩⟩
    · obtain ⟨rfl, asked⟩ := Work.emits_ofAction_iff.1 began
      obtain rfl := Program.emits_request_iff.1 asked
      obtain ⟨rfl, rfl, rfl⟩ := Work.emits_modify_iff.1 marked
      exact ⟨.opened, .cons .begins .nil, ⟨fun _ => rfl, fun _ => rfl⟩, rfl, fun _ => rfl,
        fun h => (by cases h)⟩

/-- Runs what a flush has planned. -/
def runPlan (session : Session) (plan : FlushPlan) : Work Unit := do
  let commands ← Work.ofAction (plan.arena.finish session.connection session.settings.dialect)
  Work.ofAction (Command.runAll session.connection commands)
  modify (remember plan.applied)

theorem flushPending_eq : flushPending = (do
    let session ← MonadState.get
    let plan ← planChanges ∅ session.pending
    if plan.arena.isEmpty then session.runPlan plan
    else do
      begin
      session.runPlan plan) := by
  unfold flushPending
  refine congrArg (MonadState.get >>= ·) (funext fun session =>
    congrArg (planChanges ∅ session.pending >>= ·) (funext fun plan => ?_))
  dsimp only
  split <;> rfl

theorem ensures_runPlan (session : Session) (plan : FlushPlan) :
    (session.runPlan plan).Ensures Request.Inside flags fun _ => True := by
  have lookups : Request.HasLookups Request.Inside :=
    ⟨fun _ _ _ => ⟨rfl, rfl⟩, fun _ _ => ⟨rfl, rfl⟩, fun _ _ _ => ⟨rfl, rfl⟩⟩
  refine Work.ensures_ofAction_bind (plan.arena.asks_finish lookups _ _) fun commands => ?_
  refine Work.ensures_ofAction_bind (Command.asks_runAll (fun _ => ⟨rfl, rfl⟩) (fun _ => ⟨rfl, rfl⟩)
    commands) fun _ => ?_
  exact Work.ensures_modify fun _ => rfl

/-- A flush with nothing to write writes nothing. -/
theorem passive_runPlan {plan : FlushPlan} (empty : plan.arena.isEmpty = true) (session : Session) :
    (session.runPlan plan).Passive := by
  obtain ⟨commands, buffers⟩ := Bool.and_eq_true_iff.1 empty
  have nothing : plan.arena = ∅ := by
    obtain ⟨⟨bs, cs⟩, applied⟩ := plan
    obtain rfl := List.isEmpty_iff.1 commands
    obtain rfl := List.isEmpty_iff.1 buffers
    rfl
  have finish : plan.arena.finish session.connection session.settings.dialect = pure [] := by
    rw [nothing]
    rfl
  unfold runPlan
  rw [finish]
  refine Work.Ensures.bind (Q := (· = [])) (Work.ensures_ofAction (Action.ensures_pure rfl)) ?_
  rintro _ rfl
  refine Work.ensures_ofAction_bind (Action.asks_pure ()) fun _ => Work.ensures_modify fun _ => rfl

variable {phase : Phase} {result : Except Error Unit}

theorem emits_flushPending (holds : phase.Holds session) (usable : phase ≠ .refused)
    (h : Work.Emits flushPending session events result session') :
    ∃ phase', Phase.Steps phase events phase' ∧
      phase'.Holds session' ∧ session'.cancelled = session.cancelled ∧
      (phase' = .refused → ∃ e, result = .error e) := by
  rw [flushPending_eq, Work.emits_get_bind_iff] at h
  have passive : (planChanges ∅ session.pending).Passive :=
    ensures_planChanges Request.hasLookups_passive untracked_flags ∅ session.pending
  rcases Work.emits_bind_iff.1 h with
    ⟨e, rfl, failed⟩ | ⟨plan, middle, first, rest, rfl, planned, run⟩
  · obtain ⟨asked, same, _⟩ := passive.of_emits failed
    exact ⟨phase, Phase.steps_passive asked, holds.congr same, congrArg Prod.snd same,
      fun _ => ⟨e, rfl⟩⟩
  · obtain ⟨asked, same, _⟩ := passive.of_emits planned
    split at run
    · next empty =>
      obtain ⟨asked', same', _⟩ := (passive_runPlan empty session).of_emits run
      exact ⟨phase, (Phase.steps_passive asked).append (Phase.steps_passive asked'),
        holds.congr (same'.trans same),
        congrArg Prod.snd (same'.trans same), fun refused => absurd refused usable⟩
    · rcases Work.emits_bind_iff.1 run with
        ⟨e, rfl, failed⟩ | ⟨_, opened, begun, written, rfl, began, run⟩
      · obtain ⟨phase', steps, holds', cancelled, _, refused⟩ :=
          emits_begin (holds.congr same) usable failed
        exact ⟨phase', (Phase.steps_passive asked).append steps, holds',
          cancelled.trans (congrArg Prod.snd same), refused⟩
      · obtain ⟨phase', steps, holds', cancelled, opens, _⟩ :=
          emits_begin (holds.congr same) usable began
        obtain rfl := opens rfl
        obtain ⟨inside, same', _⟩ := (ensures_runPlan session plan).of_emits run
        exact ⟨.opened, (Phase.steps_passive asked).append
            (steps.append (Phase.steps_inside inside)), holds'.congr same',
          (congrArg Prod.snd same').trans (cancelled.trans (congrArg Prod.snd same)),
          fun refused => by cases refused⟩

/-- A cancelled session flushes nothing. -/
theorem emits_flush_of_cancelled (cancelled : session.cancelled = true)
    (h : Work.Emits flush session events result session') :
    events = [] ∧ result = .ok () ∧ session' = session := by
  have run : Work.Emits (if session.cancelled || session.pending.isEmpty then pure () else
      tryCatch flushPending fun e => do
        modify fun s => { s with cancelled := true }
        throw e) session events result session' := h
  rw [cancelled] at run
  exact Work.emits_pure_iff.1 run

/-- A flush leaves a session that agrees with what was asked, and one that
fails leaves it cancelled. -/
theorem emits_flush (fits : phase.Fits session)
    (h : Work.Emits flush session events result session') :
    ∃ phase', Phase.Steps phase events phase' ∧ phase'.Fits session' ∧
      (∀ e, result = .error e → session'.cancelled = true) := by
  have run : Work.Emits (if session.cancelled || session.pending.isEmpty then pure () else
      tryCatch flushPending fun e => do
        modify fun s => { s with cancelled := true }
        throw e) session events result session' := h
  split at run
  · obtain ⟨rfl, rfl, rfl⟩ := Work.emits_pure_iff.1 run
    exact ⟨phase, .nil, fits, fun _ h => by cases h⟩
  · next active =>
    have usable : phase ≠ .refused :=
      fun refused => active (by rw [fits.refused refused, Bool.true_or])
    rcases Work.emits_tryCatch_iff.1 run with
      ⟨_, rfl, done⟩ | ⟨e, middle, first, rest, rfl, failed, handled⟩
    · obtain ⟨phase', steps, holds, _, refused⟩ := emits_flushPending fits.holds usable done
      refine ⟨phase', steps, ⟨holds, fun h => ?_⟩, fun _ h => by cases h⟩
      obtain ⟨_, impossible⟩ := refused h
      cases impossible
    · obtain ⟨phase', steps, holds, _, _⟩ := emits_flushPending fits.holds usable failed
      obtain ⟨rfl, rfl, rfl⟩ := Work.emits_throw_iff.1 (Work.emits_modify_bind_iff.1 handled)
      rw [List.append_nil]
      exact ⟨phase', steps, ⟨holds, fun _ => rfl⟩, fun _ _ => rfl⟩

/-- An open transaction is ended; without one nothing is asked. -/
theorem emits_ending {a : Action Unit} {r : Request} (isEnd : r.ends = true)
    (asks : ∀ events result, a.Emits events result → ∃ o, events = [⟨r, o⟩])
    (fits : phase.Fits session) (h : Work.Emits (if session.inTransaction then do
        modify fun s => { s with inTransaction := false }
        Work.ofAction a else pure ()) session events result session') :
    (∃ phase', Phase.Steps phase events phase' ∧ phase'.Fits session') ∧
    session'.cancelled = session.cancelled ∧
      (∀ e ∈ events, e.request = r) ∧ (events = [] → result = .ok ()) := by
  split at h
  · next opened =>
    obtain rfl := fits.holds.1 opened
    obtain ⟨rfl, asked⟩ := Work.emits_ofAction_iff.1 (Work.emits_modify_bind_iff.1 h)
    obtain ⟨o, rfl⟩ := asks _ _ asked
    have closed : Phase.Fits .closed { session with inTransaction := false } :=
      ⟨⟨fun h => (by cases h), fun h => (by cases h)⟩, fun h => (by cases h)⟩
    exact ⟨⟨.closed, .cons (.ends isEnd) .nil, closed⟩, rfl, List.forall_mem_singleton.2 rfl,
      fun h => by cases h⟩
  · obtain ⟨rfl, rfl, rfl⟩ := Work.emits_pure_iff.1 h
    exact ⟨⟨phase, .nil, fits⟩, rfl, fun _ h => (by cases h), fun _ => rfl⟩

theorem emits_rollback (fits : phase.Fits session)
    (h : Work.Emits rollback session events result session') :
    (∃ phase', Phase.Steps phase events phase' ∧ phase'.Fits session') ∧
    session'.cancelled = session.cancelled ∧
      (∀ e ∈ events, e.request = .rollback session.connection) ∧ (events = [] → result = .ok ()) :=
  emits_ending rfl (fun _ o asked => ⟨o, Program.emits_request_iff.1 asked⟩) fits h

/-- What saving changes does after its flush. -/
def conclude : Work Unit := do
  let session ← MonadState.get
  if session.cancelled then rollback
  else if session.inTransaction then do
    modify fun s => { s with inTransaction := false }
    Work.ofAction (Action.commit session.connection)

theorem emits_conclude (fits : phase.Fits session)
    (h : Work.Emits conclude session events result session') :
    (∃ phase', Phase.Steps phase events phase' ∧ phase'.Fits session') ∧
    session'.cancelled = session.cancelled ∧ (∀ e ∈ events, e.request =
        if session.cancelled then .rollback session.connection else .commit session.connection) ∧
      (events = [] → result = .ok ()) := by
  replace h := Work.emits_get_bind_iff.1 h
  split at h
  · next cancelled =>
    rw [if_pos cancelled]
    exact emits_rollback fits h
  · next active =>
    rw [if_neg active]
    exact emits_ending rfl (fun _ o asked => ⟨o, Program.emits_request_iff.1 asked⟩) fits h

theorem saveChanges_eq : saveChanges = flush >>= fun _ => conclude := rfl

section Asks

variable {P : Request → Prop} (rolls : ∀ c, P (.rollback c))
include rolls

theorem asks_rollback : rollback.Asks P := by
  refine Work.asks_get.bind fun session => ?_
  split
  · exact (Work.asks_modify _).bind fun _ => Work.asks_ofAction (Program.asks_request (rolls _))
  · exact Work.asks_pure _

theorem asks_conclude (commits : ∀ c, P (.commit c)) : conclude.Asks P := by
  refine Work.asks_get.bind fun session => ?_
  split
  · exact asks_rollback rolls
  · split
    · exact (Work.asks_modify _).bind fun _ => Work.asks_ofAction (Program.asks_request (commits _))
    · exact Work.asks_pure _

end Asks

end Session

namespace Call

variable {call : Call} {session session' : Session} {events : List Event}
  {result : Except Error Unit} {phase : Phase}

/-- The calls that do not end, write or give up anything. -/
theorem passive_work (call : Call)
    (h : call ≠ .flush ∧ call ≠ .saveChanges ∧ call ≠ .cancel ∧ call ≠ .close) :
    call.work.Passive :=
  ensures_work Request.hasLookups_passive Request.hasIdentities_passive Session.steady_flags call h

/-- A call goes through the phases of a transaction as it should. -/
theorem emits_fits (fits : phase.Fits session)
    (h : Work.Emits call.work session events result session') :
    ∃ phase', Phase.Steps phase events phase' ∧ phase'.Fits session' := by
  have passive : call.work.Passive → ∃ phase', Phase.Steps phase events phase' ∧
      phase'.Fits session' := by
    intro passive
    obtain ⟨asked, same, _⟩ := passive.of_emits h
    have cancelled : session'.cancelled = session.cancelled := congrArg Prod.snd same
    exact ⟨phase, Phase.steps_passive asked, fits.holds.congr same,
      fun refused => cancelled.trans (fits.refused refused)⟩
  cases call with
  | flush =>
    obtain ⟨phase', steps, fits', _⟩ := Session.emits_flush fits h
    exact ⟨phase', steps, fits'⟩
  | saveChanges =>
    rcases Work.emits_bind_iff.1 h with
      ⟨e, rfl, failed⟩ | ⟨_, middle, first, rest, rfl, flushed, concluded⟩
    · obtain ⟨phase', steps, fits', _⟩ := Session.emits_flush fits failed
      exact ⟨phase', steps, fits'⟩
    · obtain ⟨phase₁, steps₁, fits₁, _⟩ := Session.emits_flush fits flushed
      obtain ⟨⟨phase₂, steps₂, fits₂⟩, _⟩ := Session.emits_conclude fits₁ concluded
      exact ⟨phase₂, steps₁.append steps₂, fits₂⟩
  | cancel =>
    obtain ⟨rfl, rfl, rfl⟩ := Work.emits_modify_iff.1 h
    exact ⟨phase, .nil, fits.holds, fun _ => rfl⟩
  | close => exact (Session.emits_rollback fits h).1
  | save | delete | read | join => exact passive (passive_work _ (by simp))

/-- A cancelled session stays so, and neither commits nor writes. -/
theorem emits_of_cancelled (fits : phase.Fits session) (cancelled : session.cancelled = true)
    (h : Work.Emits call.work session events result session') :
    session'.cancelled = true ∧ ∀ e ∈ events, e.request.commits = false ∧
    e.request.writes = false := by
  have passive : call.work.Passive → session'.cancelled = true ∧
      ∀ e ∈ events, e.request.commits = false ∧ e.request.writes = false := by
    intro passive
    obtain ⟨asked, same, _⟩ := passive.of_emits h
    have kept : session'.cancelled = session.cancelled := congrArg Prod.snd same
    exact ⟨kept.trans cancelled, fun e he =>
      ⟨Request.commits_of_inside (asked e he).1, (asked e he).2⟩⟩
  cases call with
  | flush =>
    obtain ⟨rfl, _, rfl⟩ := Session.emits_flush_of_cancelled cancelled h
    exact ⟨cancelled, fun _ h => by cases h⟩
  | saveChanges =>
    rcases Work.emits_bind_iff.1 h with
      ⟨e, rfl, failed⟩ | ⟨_, middle, first, rest, rfl, flushed, concluded⟩
    · obtain ⟨_, impossible, _⟩ := Session.emits_flush_of_cancelled cancelled failed
      cases impossible
    · obtain ⟨rfl, _, rfl⟩ := Session.emits_flush_of_cancelled cancelled flushed
      obtain ⟨_, kept, ends, _⟩ := Session.emits_conclude fits concluded
      rw [cancelled, if_pos rfl] at ends
      refine ⟨kept.trans cancelled, fun e he => ?_⟩
      rw [ends e he]
      exact ⟨rfl, rfl⟩
  | cancel =>
    obtain ⟨rfl, rfl, rfl⟩ := Work.emits_modify_iff.1 h
    exact ⟨rfl, fun _ h => by cases h⟩
  | close =>
    obtain ⟨_, kept, ends, _⟩ := Session.emits_rollback fits h
    refine ⟨kept.trans cancelled, fun e he => ?_⟩
    rw [ends e he]
    exact ⟨rfl, rfl⟩
  | save | delete | read | join => exact passive (passive_work _ (by simp))

/-- Saving changes fails before a transaction was to be ended just where its flush fails. -/
theorem saveChanges_givesUp_iff (fits : phase.Fits session) {e : Error} :
    (Work.Emits Session.saveChanges session events (.error e) session' ∧
        ∀ e' ∈ events, e'.request.ends = false) ↔
      Work.Emits Session.flush session events (.error e) session' := by
  have flushes : Request.HasFlushes fun r => r.ends = false :=
    ⟨⟨fun _ _ _ => rfl, fun _ _ => rfl, fun _ _ _ => rfl⟩, fun _ => rfl, fun _ _ => rfl,
      fun _ _ => rfl⟩
  constructor
  · rintro ⟨h, unended⟩
    rcases Work.emits_bind_iff.1 h with
      ⟨e', same, failed⟩ | ⟨_, middle, first, rest, rfl, flushed, concluded⟩
    · cases same
      exact failed
    · obtain ⟨_, _, fits', _⟩ := Session.emits_flush fits flushed
      obtain ⟨_, _, ends, silent⟩ := Session.emits_conclude fits' concluded
      have nothing : rest = [] := List.eq_nil_iff_forall_not_mem.2 fun e' he => by
        have unended := unended e' (List.mem_append_right _ he)
        rw [ends e' he] at unended
        split at unended <;> cases unended
      cases silent nothing
  · exact fun h => ⟨Work.emits_bind_iff.2 (.inl ⟨e, rfl, h⟩),
      (Session.asks_flush flushes).of_emits h⟩

/-- What gives a session up leaves it cancelled. -/
theorem cancelled_of_givesUp (fits : phase.Fits session)
    (h : Work.Emits call.work session events result session')
    (givesUp : Called.GivesUp ⟨call, events, result⟩) : session'.cancelled = true := by
  have flush : ∀ {e}, Work.Emits Session.flush session events (.error e) session' →
      session'.cancelled = true := by
    intro e failed
    obtain ⟨_, _, _, cancelled⟩ := Session.emits_flush fits failed
    exact cancelled e rfl
  rcases givesUp with rfl | ⟨rfl, e, rfl⟩ | ⟨rfl, ⟨e, rfl⟩, unended⟩
  · obtain ⟨rfl, rfl, rfl⟩ := Work.emits_modify_iff.1 h
    rfl
  · exact flush h
  · exact flush ((saveChanges_givesUp_iff fits).1 ⟨h, unended⟩)

end Call

/-- Calls one after the other go through the phases of transactions. -/
theorem Session.History.steps {session session' : Session} {calls : List Called}
    (h : History session calls session') {phase : Phase} (fits : phase.Fits session) :
    ∃ phase', Phase.Steps phase (Called.trace calls) phase' ∧ phase'.Fits session' := by
  induction h generalizing phase with
  | nil => exact ⟨phase, .nil, fits⟩
  | cons emits _ ih =>
    obtain ⟨phase₁, steps₁, fits₁⟩ := Call.emits_fits fits emits
    obtain ⟨phase₂, steps₂, fits₂⟩ := ih fits₁
    exact ⟨phase₂, steps₁.append steps₂, fits₂⟩

/-- Calls on a cancelled session neither commit nor write. -/
theorem Session.History.of_cancelled {session session' : Session} {calls : List Called}
    (h : History session calls session') {phase : Phase} (fits : phase.Fits session)
    (cancelled : session.cancelled = true) :
    ∀ e ∈ Called.trace calls, e.request.commits = false ∧ e.request.writes = false := by
  induction h generalizing phase with
  | nil => exact fun _ h => by cases h
  | cons emits _ ih =>
    obtain ⟨phase₁, _, fits₁⟩ := Call.emits_fits fits emits
    obtain ⟨cancelled₁, first⟩ := Call.emits_of_cancelled fits cancelled emits
    exact fun e he => (List.mem_append.1 he).elim (first e) (ih fits₁ cancelled₁ e)

theorem Session.History.of_givesUp {session session' : Session} {calls before after : List Called}
    {c : Called} (h : History session calls session') {phase : Phase} (fits : phase.Fits session)
    (split : calls = before ++ c :: after) (givesUp : c.GivesUp) :
    ∀ e ∈ Called.trace after, e.request.commits = false ∧ e.request.writes = false := by
  induction h generalizing phase before with
  | nil => exact absurd split.symm (List.append_ne_nil_of_right_ne_nil _ (List.cons_ne_nil _ _))
  | cons emits rest ih =>
    obtain ⟨phase₁, _, fits₁⟩ := Call.emits_fits fits emits
    cases before with
    | nil =>
      obtain ⟨rfl, rfl⟩ := List.cons.inj split
      exact rest.of_cancelled fits₁ (Call.cancelled_of_givesUp fits emits givesUp)
    | cons _ before => exact ih fits₁ (List.cons.inj split).2

/-- Whatever is called on a session and whatever its surroundings answer, it is disciplined. -/
theorem Session.disciplined {settings : Settings} {opening : List Event}
    {session session' : Session} (opened : (connect settings).Emits opening (.ok session))
    {calls : List Called} (h : History session calls session') : Called.Disciplined calls := by
  have fits : Phase.Fits .closed session := by
    obtain ⟨outcome, first, rest, rfl, connected, ended⟩ := Program.emits_bind_iff.1 opened
    cases outcome with
    | error e =>
      obtain ⟨_, impossible⟩ := Program.emits_done_iff.1 ended
      cases impossible
    | ok conn =>
      obtain ⟨_, same⟩ := Program.emits_done_iff.1 ended
      cases same
      exact ⟨⟨fun h => (by cases h), fun h => (by cases h)⟩, fun h => (by cases h)⟩
  obtain ⟨phase, steps, _⟩ := h.steps fits
  refine ⟨fun i e he => ?_, fun before e after split writes => ?_,
    fun before c after split givesUp => h.of_givesUp fits split givesUp⟩
  · rw [steps.alternates he]
    simp
  · rw [split] at steps
    obtain ⟨middle, first, rest⟩ := steps.of_append
    cases rest with
    | cons step _ =>
      rcases first.encloses (step.opened_of_writes writes) with ⟨impossible, _⟩ | enclosed
      · cases impossible
      · exact enclosed

namespace Counting

/-- Surroundings in which nothing can be written. -/
def readOnly : Answerer Unit
  | .connect, s => (.ok 0, s)
  | .begin _, s | .commit _, s | .rollback _, s => (.ok (), s)
  | .execute _ _, s | .scalar _ _, s => (.error (.storage "read only"), s)
  | .query _ _, s => (.ok [], s)
  | .idsSeeded _, s => (true, s)
  | .seedIds _ _, s => ((), s)
  | .nextId _, s => (1, s)
  | .descriptors _ _, s => (.ok [], s)
  | .compiledSql _ _ _, s => (.error (.storage "read only"), s)

/-- After a flush that failed, another article is saved and changes are to be saved again. -/
def attempts : List Called :=
  (Session.record readOnly [.save entity "" (dated 0 1), .saveChanges, .save entity "" (dated 0 2),
    .saveChanges] opened ()).1

/-- The first flush begins a transaction in which its insertion fails, and nothing
but a rollback follows. -/
theorem disciplined_attempts :
    attempts.map (fun c =>
          c.events.map fun e => (e.request.begins, e.request.ends, e.request.writes)) =
        [[(false, false, false), (false, false, false)],
          [(false, false, false), (true, false, false), (false, false, true)],
          [(false, false, false), (false, false, false)], [(false, true, false)]] ∧
      Called.Disciplined attempts := by
  refine ⟨by decide +kernel, ?_⟩
  have connected : (Session.connect settings).Emits [⟨.connect, .ok 0⟩] (.ok opened) :=
    .ask (.done _)
  exact Session.disciplined connected (Session.history_record _ _ _ _)

end Counting

end DocStore

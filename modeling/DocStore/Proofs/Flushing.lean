import DocStore.Proofs.FlushWrites

/-!
# Sessions in the middle of a flush

Wherever a run writes, it is flushing: its session has planned edits of the
documents that changed, each as the session was shown them before, and sends a
command of these. What such a command comes to decides how the run goes on.
-/

set_option autoImplicit false

namespace DocStore

namespace Session

variable {session session' : Session} {events : List Event} {result : Except Error Unit}

/-! ## The parts of a flush -/

/-- What a flush does once it has planned: it stops before it sends anything, or sends
commands until one fails. -/
inductive Proceeds (planned : Session) (plan : FlushPlan) :
    List Event → Except Error Unit → Session → Prop
  | stops {events : List Event} {error : Error} {left : Session} :
      (∀ e ∈ events, e.request.writes = false) →
      left.knowledge = planned.knowledge → Proceeds planned plan events (.error error) left
  | sends {preparing sent : List Event} {commands : List Command} {conn : Connection}
      {result : Except Error Unit} {left : Session} :
      (∀ e ∈ preparing, e.request.writes = false) → plan.arena.Finishes commands →
      (Command.runAll conn commands).Emits sent result →
      left.knowledge = result.toOption.elim planned.knowledge
          (fun _ => (planned.remember plan.applied).knowledge) →
        Proceeds planned plan (preparing ++ sent) result left

theorem knowledge_remember (applied : List (DocKey × Option Tracked))
    (same : session'.knowledge = session.knowledge) :
    (session'.remember applied).knowledge = (session.remember applied).knowledge := by
  obtain ⟨settings, tracked⟩ := Prod.mk.inj same
  rw [knowledge, knowledge, remember, remember, settings, tracked]

/-- Before a flush proceeds it may ask what neither writes nor is learnt from. -/
theorem Proceeds.prepend {plan : FlushPlan} {first : List Event} {left : Session}
    (h : session'.Proceeds plan events result left) (same : session'.knowledge = session.knowledge)
    (quiet : ∀ e ∈ first, e.request.writes = false) :
    session.Proceeds plan (first ++ events) result left := by
  cases h with
  | stops rest kept => exact .stops (List.forall_mem_append.2 ⟨quiet, rest⟩) (kept.trans same)
  | sends preparing finishes sent kept =>
    rw [← List.append_assoc]
    exact .sends (List.forall_mem_append.2 ⟨quiet, preparing⟩) finishes sent
      (by rw [kept, same, knowledge_remember _ same])

/-- Kinds of requests that do not write. -/
theorem hasLookups_unwriting : Request.HasLookups fun r => r.writes = false :=
  ⟨fun _ _ _ => rfl, fun _ _ => rfl, fun _ _ _ => rfl⟩

theorem proceeds_of_runPlan {plan : FlushPlan} {planned left : Session}
    (h : Work.Emits (session.runPlan plan) planned events result left) :
    planned.Proceeds plan events result left := by
  have asks := plan.arena.asks_finish hasLookups_unwriting session.connection
    session.settings.dialect
  rcases Work.emits_bind_iff.1 h with
    ⟨error, rfl, failed⟩ | ⟨commands, middle, first, rest, rfl, finished, run⟩
  · obtain ⟨rfl, asked⟩ := Work.emits_ofAction_iff.1 failed
    exact .stops (asks.ensures.of_emits asked).1 rfl
  · obtain ⟨rfl, asked⟩ := Work.emits_ofAction_iff.1 finished
    have finishes := (Program.Ensures.of_emits plan.arena.ensures_finish asked).2 commands rfl
    have quiet := (asks.ensures.of_emits asked).1
    rcases Work.emits_bind_iff.1 run with
      ⟨error, rfl, failed⟩ | ⟨_, middle', sent, last, rfl, ran, ended⟩
    · obtain ⟨rfl, sent⟩ := Work.emits_ofAction_iff.1 failed
      exact .sends quiet finishes sent rfl
    · obtain ⟨rfl, sent⟩ := Work.emits_ofAction_iff.1 ran
      obtain ⟨rfl, rfl, rfl⟩ := Work.emits_modify_iff.1 ended
      rw [List.append_nil]
      exact .sends quiet finishes sent rfl

/-- Beginning a transaction writes nothing and leaves all else of the session. -/
theorem exists_of_begin (h : Work.Emits begin session events result session') :
    (∀ e ∈ events, e.request.writes = false) ∧
    ∃ inTransaction, session' = { session with inTransaction } := by
  have ensures : begin.Ensures (fun r => r.writes = false)
      (fun s : Session => { s with inTransaction := false }) fun _ => True := by
    refine Work.ensures_get_bind fun session => ?_
    split
    · exact Work.ensures_pure trivial
    · exact Work.ensures_ofAction_bind (Program.asks_request rfl) fun _ =>
        Work.ensures_modify fun _ => rfl
  obtain ⟨unwritten, same, _⟩ := ensures.of_emits h
  exact ⟨unwritten, session'.inTransaction,
    congrArg (fun s : Session => { s with inTransaction := session'.inTransaction }) same⟩

/-- A flush plans first, and then proceeds by its plan. -/
theorem cases_of_flushPending (h : Work.Emits flushPending session events result session') :
    (∃ error, result = .error error ∧
        Work.Emits (planChanges ∅ session.pending) session events (.error error) session') ∨
      ∃ planning rest plan planned, events = planning ++ rest ∧
        Work.Emits (planChanges ∅ session.pending) session planning (.ok plan) planned ∧
          planned.Proceeds plan rest result session' := by
  rw [flushPending_eq, Work.emits_get_bind_iff] at h
  rcases Work.emits_bind_iff.1 h with failed | ⟨plan, planned, planning, rest, rfl, plans, run⟩
  · exact .inl failed
  · refine .inr ⟨planning, rest, plan, planned, rfl, plans, ?_⟩
    split at run
    · exact proceeds_of_runPlan run
    · rcases Work.emits_bind_iff.1 run with
        ⟨error, rfl, failed⟩ | ⟨_, begun, first, last, rfl, begins, run⟩
      · obtain ⟨quiet, _, rfl⟩ := exists_of_begin failed
        exact .stops quiet rfl
      · obtain ⟨quiet, _, rfl⟩ := exists_of_begin begins
        exact (proceeds_of_runPlan run).prepend rfl quiet

/-- The session after a flush that left it so: cancelled if the flush failed. -/
def concluded (left : Session) : Except Error Unit → Session
  | .ok _ => left
  | .error _ => { left with cancelled := true }

theorem knowledge_concluded (left : Session) (result : Except Error Unit) :
    (left.concluded result).knowledge = left.knowledge := by
  cases result <;> rfl

/-- A flush does nothing, or flushes what is pending. -/
theorem exists_of_flush (h : Work.Emits flush session events result session') :
    (events = [] ∧ result = .ok () ∧ session' = session) ∨
      ∃ left, Work.Emits flushPending session events result left ∧
        session' = left.concluded result := by
  have run : Work.Emits (if session.cancelled || session.pending.isEmpty then pure () else
      tryCatch flushPending fun e => do
        modify fun s => { s with cancelled := true }
        throw e) session events result session' := h
  split at run
  · exact .inl (Work.emits_pure_iff.1 run)
  · refine .inr ?_
    rcases Work.emits_tryCatch_iff.1 run with
      ⟨_, rfl, done⟩ | ⟨e, left, first, rest, rfl, failed, handled⟩
    · exact ⟨session', done, rfl⟩
    · obtain ⟨rfl, rfl, rfl⟩ := Work.emits_throw_iff.1 (Work.emits_modify_bind_iff.1 handled)
      exact ⟨left, (List.append_nil first).symm ▸ failed, rfl⟩

/-- A flush that failed has only been given up besides. -/
theorem Proceeds.congr {planned left left' : Session} {plan : FlushPlan}
    (h : planned.Proceeds plan events result left) (same : left'.knowledge = left.knowledge) :
    planned.Proceeds plan events result left' := by
  cases h with
  | stops rest kept => exact .stops rest (same.trans kept)
  | sends preparing finishes sent kept => exact .sends preparing finishes sent (same.trans kept)

/-- A flush does nothing, or fails to plan, or proceeds by its plan. -/
theorem cases_of_flush (h : Work.Emits flush session events result session') :
    (events = [] ∧ session' = session) ∨
      (∃ error planned, session'.knowledge = planned.knowledge ∧ result = .error error ∧
        Work.Emits (planChanges ∅ session.pending) session events (.error error) planned) ∨
      ∃ planning rest plan planned, events = planning ++ rest ∧
        Work.Emits (planChanges ∅ session.pending) session planning (.ok plan) planned ∧
          planned.Proceeds plan rest result session' := by
  rcases exists_of_flush h with ⟨rfl, _, rfl⟩ | ⟨left, flushed, rfl⟩
  · exact .inl ⟨rfl, rfl⟩
  · refine .inr ?_
    have same := left.knowledge_concluded result
    rcases cases_of_flushPending flushed with
      ⟨error, rfl, failed⟩ | ⟨planning, rest, plan, planned, rfl, plans, proceeds⟩
    · exact .inl ⟨error, left, same, rfl, failed⟩
    · exact .inr ⟨planning, rest, plan, planned, rfl, plans, proceeds.congr same⟩

/-! ## What is known after a flush -/

/-- What holds of all that was tracked, and of all that was written, holds of all that is
tracked after a flush. -/
theorem forall_remember {P : DocKey → Tracked → Prop} {applied : List (DocKey × Option Tracked)}
    (known : ∀ key t, session.tracked.get? key = some t → P key t)
    (written : ∀ key t, (key, some t) ∈ applied → P key t) :
    ∀ key t, (session.remember applied).tracked.get? key = some t → P key t := by
  unfold Session.remember
  dsimp only
  generalize session.tracked = tracked at known ⊢
  induction applied generalizing tracked with
  | nil => exact known
  | cons change rest ih =>
    obtain ⟨key', changed⟩ := change
    refine ih (fun key t mem => written key t (List.mem_cons_of_mem _ mem)) _ fun key t hkey => ?_
    cases changed with
    | none =>
      rw [Assoc.get?_erase] at hkey
      split at hkey
      · cases hkey
      · exact known key t hkey
    | some t' =>
      rw [Assoc.get?_insert] at hkey
      split at hkey
      · next same =>
        cases hkey
        subst same
        exact written _ _ List.mem_cons_self
      · exact known key t hkey

theorem Informed.remember {E : Event → Prop} {settings : Settings}
    {applied : List (DocKey × Option Tracked)} (informed : session.Informed E settings)
    (sourced : ∀ key t, (key, some t) ∈ applied → Sourced E settings key t.content t.version) :
    (session.remember applied).Informed E settings :=
  ⟨informed.same, forall_remember informed.sourced sourced⟩

section Informed

variable {E : Event → Prop} {settings : Settings} {catalog : Catalog}

/-- What was planned and executed is shown by what was executed. -/
theorem sourced_of_executed {edits : List Edit} {plan : FlushPlan} {commands : List Command}
    {conn : Connection} (planned : Edit.planAll true catalog edits = .ok plan)
    (here : ∀ e ∈ edits, e.names = settings.names e.names.collection)
    (finishes : plan.arena.Finishes commands)
    (sent : (Command.runAll conn commands).Emits events (.ok ())) (all : ∀ e ∈ events, E e)
    {key : DocKey} {t : Tracked} (applied : (key, some t) ∈ plan.applied) :
    Sourced E settings key t.content t.version := by
  rw [Edit.applied_of_planAll planned] at applied
  obtain ⟨e, he, same⟩ := List.mem_map.1 applied
  have pushed : e.documentCommand true ∈ commands := by
    obtain ⟨emitted, rfl, _⟩ := finishes
    rw [Command.mem_inOrder_iff, Edit.commands_of_planAll planned]
    exact List.mem_append_left _ (List.mem_flatMap.2 ⟨e, he, List.mem_cons_self⟩)
  obtain ⟨own, ran, inside⟩ := Command.emits_run_of_runAll sent pushed
  obtain ⟨o, rfl, succeeds, guarded⟩ :=
    Command.emits_run_document (e.isDocument_documentCommand true) ran
  obtain ⟨n, rfl⟩ := succeeds rfl
  have happened := all _ (inside _ List.mem_cons_self)
  have document := congrArg TableNames.document (here e he)
  cases e with
  | create names id typeName json content =>
    cases same
    exact ⟨_, happened, .created document rfl⟩
  | update names id typeName json content old =>
    cases same
    refine ⟨_, happened, .updated document ?_⟩
    rintro rfl
    cases guarded _ _ _ _ _ _ rfl rfl
  | delete names id typeName old => cases same

variable (checks : settings.config.checkConcurrency = true)
  (described : ∀ e, E e → e.Described settings catalog)
include checks described

theorem Informed.flush (informed : session.Informed E settings)
    (h : Work.Emits flush session events result session') (all : ∀ e ∈ events, E e) :
    session'.Informed E settings := by
  rcases cases_of_flush h with
    ⟨rfl, rfl⟩ | ⟨error, planned, same, _, failed⟩ | ⟨planning, rest, plan, planned, rfl,
      plans, proceeds⟩
  · exact informed
  · exact .congr same
      ((learns_planChanges ∅ session.pending).of_emits learnable_informed informed failed all).1
  · obtain ⟨first, last⟩ := List.forall_mem_append.1 all
    have learnt :=
      ((learns_planChanges ∅ session.pending).of_emits learnable_informed informed plans first).1
    obtain ⟨_, edits, planned', known⟩ :=
      edits_of_planChanges (fun e he => informed.same ▸ described e (first e he)) plans
    rw [informed.same, checks] at planned'
    cases proceeds with
    | stops _ same => exact .congr same learnt
    | sends _ finishes sent same =>
      cases result with
      | error error => exact .congr same learnt
      | ok =>
        refine .congr same (learnt.remember fun key t applied => ?_)
        refine sourced_of_executed planned' (fun e he => ?_) finishes sent
          (List.forall_mem_append.1 last).2 applied
        exact learnt.same ▸ (known e he).here

theorem Informed.call {call : Call} (informed : session.Informed E settings)
    (h : Work.Emits call.work session events result session') (all : ∀ e ∈ events, E e) :
    session'.Informed E settings := by
  by_cases flushes : call = .flush
  · subst flushes
    exact informed.flush checks described h all
  · by_cases saves : call = .saveChanges
    · subst saves
      rcases Work.emits_bind_iff.1 h with
        ⟨error, rfl, failed⟩ | ⟨_, middle, first, rest, rfl, flushed, concluded⟩
      · exact informed.flush checks described failed all
      · obtain ⟨before, after⟩ := List.forall_mem_append.1 all
        exact (learns_conclude.of_emits learnable_informed
          (informed.flush checks described flushed before) concluded after).1
    · exact ((Call.learns_work flushes saves).of_emits learnable_informed informed h all).1

/-- Whatever was called on it, a session knows only what it was shown. -/
theorem Informed.history {calls : List Called} (informed : session.Informed E settings)
    (h : History session calls session') (all : ∀ e ∈ Called.trace calls, E e) :
    session'.Informed E settings := by
  induction h with
  | nil => exact informed
  | cons emits _ ih =>
    obtain ⟨first, rest⟩ := List.forall_mem_append.1 all
    exact ih (informed.call checks described emits first) rest

end Informed

end Session

/-! ## Where writes come from -/

/-- A call sends a request for a command: what its flush has planned by then, and what
comes of the command. -/
structure Session.FlushAt (session : Session) (before : List Event) (e : Event) (last : List Event)
    (own : Except Error Unit) (planned : Session) (plan : FlushPlan) (c : Command) : Prop where
  plans : ∃ planning written, before = planning ++ written ∧
    Work.Emits (planChanges ∅ session.pending) session planning (.ok plan) planned
  decided : ∃ commands, plan.arena.Finishes commands ∧ c ∈ commands
  sends : ∃ conn first, (c.run conn).Emits (first ++ e :: last) own

namespace Session

variable {session session' : Session} {before after : List Event} {e : Event}
  {result : Except Error Unit}

/-- What a flush writes it sends for a command of its plan, and a command that fails is the last. -/
theorem exists_flushAt_of_flush (writes : e.request.writes = true)
    (h : Work.Emits flush session (before ++ e :: after) result session') :
    ∃ planned plan c last own, session.FlushAt before e last own planned plan c ∧
      ∀ error, own = .error error → after = last ∧ result = .error error := by
  have passive : (planChanges ∅ session.pending).Passive :=
    ensures_planChanges Request.hasLookups_passive untracked_flags ∅ session.pending
  have unwritten {events : List Event} (quiet : ∀ e ∈ events, e.request.writes = false)
      (he : e ∈ events) : False := by
    rw [quiet e he] at writes
    cases writes
  rcases cases_of_flush h with
    ⟨impossible, _⟩ | ⟨error, planned, _, _, failed⟩ | ⟨planning, rest, plan, planned, split,
      plans, proceeds⟩
  · exact absurd impossible (by simp)
  · exact (unwritten (fun e he => ((passive.of_emits failed).1 e he).2) (by simp)).elim
  · rcases cases_of_append_eq split.symm with ⟨middle, rfl, _⟩ | ⟨written, rfl, inside⟩
    · exact (unwritten (fun e he => ((passive.of_emits plans).1 e he).2) (by simp)).elim
    · cases proceeds with
      | stops quiet _ => exact (unwritten quiet (by simp [inside])).elim
      | sends quiet finishes sent _ =>
        rcases cases_of_append_eq inside with ⟨middle, rfl, _⟩ | ⟨middle, rfl, rfl⟩
        · exact (unwritten quiet (by simp)).elim
        · obtain ⟨c, hc, first, last, own, ran, stops⟩ := Command.exists_of_emits_runAll sent
          exact ⟨planned, plan, c, last, own, ⟨⟨planning, _, rfl, plans⟩, ⟨_, finishes, hc⟩, _,
            first, ran⟩, stops⟩

end Session

namespace Call

variable {call : Call} {session session' : Session} {before after : List Event} {e : Event}
  {result : Except Error Unit} {phase : Phase}

/-- What a call writes it sends for a command of its flush, and a command that fails
gives the session up. -/
theorem exists_flushAt (fits : phase.Fits session) (writes : e.request.writes = true)
    (h : Work.Emits call.work session (before ++ e :: after) result session') :
    ∃ planned plan c last own, session.FlushAt before e last own planned plan c ∧
      ∀ error, own = .error error → after = last ∧ result = .error error ∧
        Called.GivesUp ⟨call, before ++ e :: after, result⟩ := by
  have impossible {P : Prop} (quiet : ∀ e' ∈ before ++ e :: after, e'.request.writes = false) :
      P := by
    rw [quiet e (by simp)] at writes
    cases writes
  have passive (passive : call.work.Passive) {P : Prop} : P :=
    impossible fun e' he => ((passive.of_emits h).1 e' he).2
  cases call with
  | flush =>
    obtain ⟨planned, plan, c, last, own, at_, stops⟩ := Session.exists_flushAt_of_flush writes h
    refine ⟨planned, plan, c, last, own, at_, fun error failed => ?_⟩
    obtain ⟨same, rfl⟩ := stops error failed
    exact ⟨same, rfl, .inr (.inl ⟨rfl, error, rfl⟩)⟩
  | saveChanges =>
    rcases Work.emits_bind_iff.1 h with
      ⟨error, rfl, failed⟩ | ⟨_, middle, first, rest, split, flushed, concluded⟩
    · obtain ⟨planned, plan, c, last, own, at_, stops⟩ :=
        Session.exists_flushAt_of_flush writes failed
      refine ⟨planned, plan, c, last, own, at_, fun error' failed' => ?_⟩
      obtain ⟨same, same'⟩ := stops error' failed'
      have unended := (Session.asks_flush Session.hasFlushes_unended).of_emits failed
      exact ⟨same, same', .inr (.inr ⟨rfl, ⟨error, rfl⟩, unended⟩)⟩
    · rcases cases_of_append_eq split.symm with ⟨middle', rfl, rfl⟩ | ⟨_, rfl, rfl⟩
      · obtain ⟨planned, plan, c, last, own, at_, stops⟩ :=
          Session.exists_flushAt_of_flush writes flushed
        refine ⟨planned, plan, c, last, own, at_, fun error failed => ?_⟩
        cases (stops error failed).2
      · obtain ⟨_, _, fits', _⟩ := Session.emits_flush fits flushed
        obtain ⟨_, _, ends, _⟩ := Session.emits_conclude fits' concluded
        have quiet := ends e (by simp)
        split at quiet <;> (rw [quiet] at writes; cases writes)
  | cancel =>
    obtain ⟨nothing, _⟩ := Work.emits_modify_iff.1 h
    exact absurd nothing (by simp)
  | close =>
    obtain ⟨_, _, ends, _⟩ := Session.emits_rollback fits h
    rw [ends e (by simp)] at writes
    cases writes
  | save | delete | read | join => exact passive (passive_work _ (by simp))

end Call

/-- A list of calls at one of its requests. -/
theorem Called.split_trace {calls : List Called} {before after : List Event} {e : Event}
    (h : trace calls = before ++ e :: after) : ∃ done c more first last, calls = done ++ c :: more ∧
      c.events = first ++ e :: last ∧ before = trace done ++ first ∧
        after = last ++ trace more := by
  induction calls generalizing before with
  | nil => exact absurd h (by simp [trace])
  | cons c rest ih =>
    rcases cases_of_append_eq (show c.events ++ trace rest = before ++ e :: after from h) with
      ⟨middle, split, rfl⟩ | ⟨middle, rfl, split⟩
    · exact ⟨[], c, rest, before, middle, rfl, split, rfl, rfl⟩
    · obtain ⟨done, c', more, first, last, rfl, split', rfl, rfl⟩ := ih split
      exact ⟨c :: done, c', more, first, last, rfl, split', (List.append_assoc ..).symm, rfl⟩

/-- What a run has planned in the flush that it is in after some of its requests, and
what its session knows. -/
structure Session.Run.Flushing {settings : Settings} (r : Run settings) (catalog : Catalog)
    (past : List Event) (planned : Session) (edits : List Edit) (call : Called) : Prop where
  plans : ∃ done more session planning written plan, r.calls = done ++ call :: more ∧
    History r.first done session ∧
    past = r.opening ++ (Called.trace done ++ (planning ++ written)) ∧
      Work.Emits (planChanges ∅ session.pending) session planning (.ok plan) planned ∧
        Edit.planAll settings.config.checkConcurrency catalog edits = .ok plan
  known : ∀ e ∈ edits, e.Known catalog planned

namespace Session.Run

variable {settings : Settings} {catalog : Catalog} {r : Run settings}
  {past later : List Event} {e : Event}

theorem eq_of_connects (r : Run settings) : ∃ conn, r.opening = [⟨.connect, .ok conn⟩] ∧
    r.first = ⟨settings, conn, ∅, [], [], false, false⟩ := by
  obtain ⟨outcome, first, rest, opening, connected, ended⟩ := Program.emits_bind_iff.1 r.connects
  cases outcome with
  | error e =>
    obtain ⟨_, impossible⟩ := Program.emits_done_iff.1 ended
    cases impossible
  | ok conn =>
    obtain ⟨rfl, same⟩ := Program.emits_done_iff.1 ended
    obtain rfl := Program.emits_request_iff.1 connected
    exact ⟨conn, opening, Except.ok.inj same⟩

theorem informed_first (r : Run settings) (E : Event → Prop) : r.first.Informed E settings := by
  obtain ⟨conn, _, first⟩ := r.eq_of_connects
  rw [first]
  exact ⟨rfl, fun _ _ known => by cases known⟩

/-- A session in the middle of a flush knows only what it was shown. -/
theorem Flushing.informed {planned : Session} {edits : List Edit} {call : Called}
    (h : r.Flushing catalog past planned edits call)
    (checks : settings.config.checkConcurrency = true)
    (described : ∀ e ∈ past, e.Described settings catalog) :
    planned.Informed (· ∈ past) settings := by
  obtain ⟨done, more, session, planning, written, plan, _, history, rfl, plans, _⟩ := h.plans
  have informed := (r.informed_first _).history checks described history fun e he => by simp [he]
  exact ((learns_planChanges ∅ session.pending).of_emits learnable_informed informed
    plans fun e he => by simp [he]).1

/-- A run is in a call wherever it asks for something else than its connection. -/
theorem exists_call (split : r.events = past ++ e :: later) (other : e.request ≠ .connect) :
    ∃ done call more first after session session' phase, r.calls = done ++ call :: more ∧
      call.events = first ++ e :: after ∧
      past = r.opening ++ (Called.trace done ++ first) ∧
        later = after ++ Called.trace more ∧ History r.first done session ∧
        Phase.Fits phase session ∧
          Work.Emits call.call.work session (first ++ e :: after) call.result session' ∧
          History session' more r.last := by
  have traced : ∃ before, past = r.opening ++ before ∧
      Called.trace r.calls = before ++ e :: later := by
    rcases cases_of_append_eq split with ⟨middle, opening, _⟩ | found
    · obtain ⟨conn, connect, _⟩ := r.eq_of_connects
      have inside : e ∈ r.opening := by simp [opening]
      rw [connect, List.mem_singleton] at inside
      exact absurd (congrArg Event.request inside) other
    · exact found
  obtain ⟨before, rfl, trace⟩ := traced
  obtain ⟨done, call, more, first, after, calls, events, rfl, rfl⟩ := Called.split_trace trace
  obtain ⟨session, session', begun, emits, others⟩ := History.at_call (calls ▸ r.history)
  obtain ⟨phase, _, fits⟩ := begun.steps (fits_of_connect r.connects).1
  exact ⟨done, call, more, first, after, session, session', phase, calls, events, rfl, rfl, begun,
    fits, events ▸ emits, others⟩

/-- Wherever a run writes it is flushing, and sends a command on a document of its edits or on
another table. If the command fails so does its call, and nothing else is written any more. -/
theorem exists_flushing (split : r.events = past ++ e :: later) (writes : e.request.writes = true)
    (checks : settings.config.checkConcurrency = true)
    (described : ∀ e ∈ past, e.Described settings catalog) :
    ∃ planned edits call c last own, r.Flushing catalog past planned edits call ∧
      ((∃ edit ∈ edits, c = edit.documentCommand true) ∨
        c.isDocument = false ∧ ∀ t ∈ c.tables, catalog.Has t) ∧
      (∃ conn first, (c.run conn).Emits (first ++ e :: last) own) ∧
      ∀ error, own = .error error → call.result = .error error ∧ ∃ more, later = last ++ more ∧
        ∀ e' ∈ more, e'.request.commits = false ∧ e'.request.writes = false := by
  obtain ⟨done, call, more, first, after, session, _, phase, calls, events, rfl, rfl, begun, fits,
      emits, _⟩ :=
    r.exists_call split (by rintro connects; rw [connects] at writes; cases writes)
  obtain ⟨planned, plan, c, last, own, at_, stops⟩ := Call.exists_flushAt fits writes emits
  obtain ⟨planning, written, rfl, plans⟩ := at_.plans
  obtain ⟨commands, finishes, hc⟩ := at_.decided
  have same := ((r.informed_first _).history checks described begun fun e he => by simp [he]).same
  have describes : ∀ e ∈ planning, e.Described session.settings catalog :=
    fun e he => same ▸ described e (by simp [he])
  obtain ⟨_, edits, planned', known⟩ := edits_of_planChanges describes plans
  rw [same] at planned'
  have checked := planned'
  rw [checks] at checked
  refine ⟨planned, edits, _, c, last, own,
    ⟨⟨done, more, session, planning, written, plan, calls, begun, rfl, plans, planned'⟩, known⟩,
    finishes.cases_of_mem checked (fun e he => (known e he).used) hc, at_.sends,
    fun error failed => ?_⟩
  obtain ⟨rfl, failed, givesUp⟩ := stops error failed
  rw [← events] at givesUp
  exact ⟨failed, Called.trace more, rfl,
    r.history.of_givesUp (fits_of_connect r.connects).1 calls givesUp⟩

/-- A run writes for an edit that it has planned, on the document of that edit, or on a table that
holds no documents. A guarded update that meets no row is a conflict, after which the session
neither commits nor writes. -/
theorem cases_of_writes (split : r.events = past ++ e :: later) (writes : e.request.writes = true)
    (checks : settings.config.checkConcurrency = true)
    (described : ∀ e ∈ past, e.Described settings catalog) :
    (∃ planned edits call conn, ∃ edit ∈ edits, r.Flushing catalog past planned edits call ∧
      e.request = .execute conn (edit.documentCommand true).statement ∧
        ∀ names id typeName json content old, edit = .update names id typeName json content old →
          e = ⟨.execute conn (edit.documentCommand true).statement, .ok 0⟩ →
            call.result = .error (.conflict id typeName) ∧
            ∀ e' ∈ later, e'.request.commits = false ∧ e'.request.writes = false) ∨
      ∃ conn s t, (e.request = .execute conn s ∨ e.request = .scalar conn s) ∧
        s.table? = some t.name ∧ catalog.Has t ∧ ∀ names, t ≠ .documents names := by
  obtain ⟨planned, edits, call, c, last, own, flushing, origin, ⟨conn, first, ran⟩, stops⟩ :=
    r.exists_flushing split writes checks described
  rcases origin with ⟨edit, hedit, rfl⟩ | ⟨index, has⟩
  · obtain ⟨o, only, _, guarded⟩ :=
      Command.emits_run_document (edit.isDocument_documentCommand true) ran
    obtain ⟨rfl, rfl, rfl⟩ : first = [] ∧
        e = ⟨.execute conn (edit.documentCommand true).statement, o⟩ ∧ last = [] := by
      cases first with
      | nil => simpa using only
      | cons _ first => simp at only
    refine .inl ⟨planned, edits, call, conn, edit, hedit, flushing, rfl, ?_⟩
    rintro names id typeName json content old rfl same
    have none : o = .ok 0 := by simpa using same
    obtain ⟨failed, more, rfl, quiet⟩ := stops _ (guarded _ _ _ _ _ _ rfl none)
    exact ⟨failed, quiet⟩
  · obtain ⟨⟨s, sent, t, ht, table⟩, _⟩ :=
      ((Command.asks_sends conn c).ensures.of_emits ran).1 e (by simp)
    refine .inr ⟨conn, s, t, sent, table, has t ht, ?_⟩
    rintro names rfl
    exact Command.not_mem_tables index names ht

end Session.Run

/-! ## What comes after a rollback -/

/-- A call that rolls back closes the session, or was made on a session that had been given up. -/
theorem Call.cases_of_rollsBack {call : Call} {session session' : Session}
    {before after : List Event} {e : Event} {result : Except Error Unit} {phase : Phase}
    (fits : phase.Fits session) (rolls : e.RollsBack)
    (h : Work.Emits call.work session (before ++ e :: after) result session') :
    call = .close ∨ session'.cancelled = true ∧ ∀ e' ∈ after, e'.request.writes = false := by
  obtain ⟨conn, request⟩ := rolls
  have ends : e.request.ends = true := by rw [request]; rfl
  have impossible {P : Prop} (unended : ∀ e' ∈ before ++ e :: after, e'.request.ends = false) :
      P := by
    rw [unended e (by simp)] at ends
    cases ends
  have passive (passive : call.work.Passive) {P : Prop} : P :=
    impossible fun e' he => ((passive.of_emits h).1 e' he).1.2
  have flushed {events : List Event} {result : Except Error Unit} {left : Session}
      (h : Work.Emits Session.flush session events result left) :
      ∀ e' ∈ events, e'.request.ends = false :=
    (Session.asks_flush Session.hasFlushes_unended).of_emits h
  cases call with
  | close => exact .inl rfl
  | flush => exact impossible (flushed h)
  | saveChanges =>
    refine .inr ?_
    rcases Work.emits_bind_iff.1 h with
      ⟨error, rfl, failed⟩ | ⟨_, middle, first, rest, split, flushes, concluded⟩
    · exact impossible (flushed failed)
    · obtain ⟨_, _, fits', _⟩ := Session.emits_flush fits flushes
      obtain ⟨_, kept, asks, _⟩ := Session.emits_conclude fits' concluded
      rcases cases_of_append_eq split.symm with ⟨middle', rfl, _⟩ | ⟨written, rfl, rfl⟩
      · rw [flushed flushes e (by simp)] at ends
        cases ends
      · have rolledBack := asks e (by simp)
        split at rolledBack
        · next cancelled =>
          refine ⟨kept.trans cancelled, fun e' he => ?_⟩
          rw [asks e' (by simp [he]), if_pos cancelled]
          rfl
        · rw [request] at rolledBack
          cases rolledBack
  | cancel =>
    obtain ⟨nothing, _⟩ := Work.emits_modify_iff.1 h
    exact absurd nothing (by simp)
  | save | delete | read | join => exact passive (passive_work _ (by simp))

/-- After a rollback a run writes nothing any more. -/
theorem Session.Run.unwritten_of_rollsBack {settings : Settings} {r : Run settings}
    {past later : List Event} {e : Event} (split : r.events = past ++ e :: later)
    (rolls : e.RollsBack) : ∀ e' ∈ later, e'.request.writes = false := by
  obtain ⟨conn, request⟩ := rolls
  obtain ⟨done, call, more, first, after, session, session', phase, calls, _, rfl, rfl, _, fits,
      emits, others⟩ :=
    r.exists_call split (by rw [request]; rintro ⟨⟩)
  obtain ⟨phase', _, fits'⟩ := Call.emits_fits fits emits
  rcases Call.cases_of_rollsBack fits ⟨conn, request⟩ emits with closes | ⟨cancelled, quiet⟩
  · obtain rfl : more = [] := by
      have last := r.closes (done.map Called.call) (more.map Called.call)
        (by rw [calls, List.map_append, List.map_cons, closes])
      simpa using last
    rw [closes] at emits
    obtain ⟨_, _, asks, _⟩ := Session.emits_rollback fits emits
    refine List.forall_mem_append.2 ⟨fun e' he => ?_, fun _ he => by cases he⟩
    rw [asks e' (by simp [he])]
    rfl
  · exact List.forall_mem_append.2 ⟨quiet, fun e' he =>
      (others.of_cancelled fits' cancelled e' he).2⟩

end DocStore

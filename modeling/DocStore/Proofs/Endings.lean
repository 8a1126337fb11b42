import DocStore.Proofs.Transactions

/-!
# How transactions end

A session ends every transaction that it begins, once and before it begins
another one or is closed. It rolls back what it gave up and what is left open,
and commits otherwise. A commit that fails counts as an end: the session takes
its transaction for ended and neither rolls it back nor tries again, and what
was written in it is known to be lost only by the call that failed.
-/

set_option autoImplicit false

namespace DocStore

namespace Event

/-- A transaction was committed. -/
def Commits (e : Event) : Prop := ∃ c, e = ⟨.commit c, .ok ()⟩

/-- A transaction could not be committed. -/
def FailsToCommit (e : Event) : Prop := ∃ c error, e = ⟨.commit c, .error error⟩

/-- A transaction was to be rolled back, whatever came of it. -/
def RollsBack (e : Event) : Prop := ∃ c, e.request = .rollback c

theorem bounds_of_ends {e : Event} (h : e.request.ends = true) : e.bounds = true := by
  rw [bounds, h, Bool.or_true]

theorem bounds_of_writes {e : Event} (h : e.request.writes = true) : e.bounds = false := by
  obtain ⟨request, _⟩ := e
  cases request with
  | execute | scalar | query => rfl
  | _ => cases h

theorem cases_of_ends {e : Event} (h : e.request.ends = true) :
    e.Commits ∨ e.RollsBack ∨ e.FailsToCommit := by
  obtain ⟨request, outcome⟩ := e
  cases request with
  | commit c =>
    cases outcome with
    | ok => exact .inl ⟨c, rfl⟩
    | error error => exact .inr (.inr ⟨c, error, rfl⟩)
  | rollback c => exact .inr (.inl ⟨c, rfl⟩)
  | _ => cases h

end Event

/-- What was begun is ended, and what was saved is committed, but for commits that failed. -/
structure Called.Concluded (calls : List Called) : Prop where
  ended : ∀ before opening after, trace calls = before ++ opening :: after → opening.Opens →
    ∃ ending, after.find? Event.bounds = some ending ∧
      (ending.Commits ∨ ending.RollsBack ∨ ending.FailsToCommit)
  /-- A transaction that could not be committed is left behind: what comes next is
  at most another begin. -/
  abandoned : ∀ before failing after, trace calls = before ++ failing :: after →
    failing.FailsToCommit →
    ∀ next, after.find? Event.bounds = some next → next.request.begins = true
  /-- Where changes are saved with success before the session gave up, all that it wrote is
  committed, except where an earlier call failed to commit it. -/
  saved : ∀ before c after, calls = before ++ c :: after →
    c.call = .saveChanges → c.result = .ok () → (∀ c' ∈ before, ¬c'.GivesUp) →
      ∀ earlier written later, trace (before ++ [c]) = earlier ++ written :: later →
        written.request.writes = true →
        ∃ ending, later.find? Event.bounds = some ending ∧ (ending.Commits ∨
          ending.FailsToCommit ∧ ∃ c' ∈ before, c'.call = .saveChanges ∧
            ending ∈ c'.events ∧ ∃ e, c'.result = .error e)

/-- Saving changes with success neither closes the session nor gives it up. -/
theorem Called.continues_of_saved {c : Called} (call : c.call = .saveChanges)
    (ok : c.result = .ok ()) : c.call ≠ .close ∧ ¬c.GivesUp := by
  refine ⟨fun closes => ?_, ?_⟩
  · rw [call] at closes
    cases closes
  · rintro (cancel | ⟨flush, _⟩ | ⟨_, ⟨e, failed⟩, _⟩)
    · rw [call] at cancel
      cases cancel
    · rw [call] at flush
      cases flush
    · rw [ok] at failed
      cases failed

/-! ## Ends in phases -/

namespace Phase

variable {phase phase' : Phase} {e : Event} {events : List Event}

theorem Step.opened_of_opens (step : Step phase e phase') (opens : e.Opens) : phase' = .opened := by
  obtain ⟨c, rfl⟩ := opens
  cases step with
  | begins => rfl
  | ends h => cases h
  | inside h => cases h.1
  | passive h => cases h.1.1

theorem Step.opened_after_writes (step : Step phase e phase') (writes : e.request.writes = true) :
    phase' = .opened := by
  cases step with
  | begins | refuses => cases writes
  | inside _ => rfl
  | ends h =>
    have unbounded := Event.bounds_of_writes writes
    rw [Event.bounds_of_ends h] at unbounded
    cases unbounded
  | passive h =>
    rw [h.2] at writes
    cases writes

theorem Step.closed_of_ends (step : Step phase e phase') (ends : e.request.ends = true) :
    phase' = .closed := by
  cases step with
  | begins | refuses => cases ends
  | ends _ => rfl
  | inside h =>
    rw [h.2] at ends
    cases ends
  | passive h =>
    rw [h.1.2] at ends
    cases ends

/-- An open transaction that is not open any more was ended by the first bound. -/
theorem Steps.ended (h : Steps phase events phase') (opened : phase = .opened)
    (left : phase' ≠ .opened) :
    ∃ ending, events.find? Event.bounds = some ending ∧ ending.request.ends = true := by
  induction h with
  | nil => exact absurd opened left
  | cons step _ ih =>
    cases step with
    | begins | refuses => cases opened
    | ends ended => exact ⟨_, List.find?_cons_of_pos (Event.bounds_of_ends ended), ended⟩
    | inside inside =>
      rw [List.find?_cons_of_neg (by rw [bounds_of_inside inside]; decide)]
      exact ih rfl left
    | passive passive =>
      rw [List.find?_cons_of_neg (by rw [bounds_of_inside passive.1]; decide)]
      exact ih opened left

/-- Where no transaction is open, the first bound is a begin. -/
theorem Steps.begins_first (h : Steps phase events phase') (left : phase ≠ .opened) {next : Event}
    (found : events.find? Event.bounds = some next) : next.request.begins = true := by
  induction h with
  | nil => cases found
  | cons step _ ih =>
    cases step with
    | begins | refuses =>
      rw [List.find?_cons_of_pos rfl] at found
      cases found
      rfl
    | ends | inside => exact absurd rfl left
    | passive passive =>
      rw [List.find?_cons_of_neg (by rw [bounds_of_inside passive.1]; decide)] at found
      exact ih left found

theorem Fits.ne_opened {session : Session} (fits : phase.Fits session)
    (out : session.inTransaction = false) : phase ≠ .opened := by
  intro opened
  have inside := fits.holds.2 opened
  rw [out] at inside
  cases inside

end Phase

/-! ## Ends in calls -/

/-- What stands before the last element of a list. -/
theorem exists_eq_append_cons_of_concat {α : Type} {init before after : List α} {last x : α}
    (split : init ++ [last] = before ++ x :: after) (other : x ≠ last) :
    ∃ rest, init = before ++ x :: rest := by
  rcases List.eq_nil_or_concat after with rfl | ⟨rest, y, rfl⟩
  · obtain ⟨_, same⟩ := List.append_inj' split rfl
    exact absurd (List.singleton_inj.1 same).symm other
  · rw [List.concat_eq_append, ← List.cons_append, ← List.append_assoc] at split
    exact ⟨rest, (List.append_inj' split rfl).1⟩

namespace Session

variable {session session' : Session} {events : List Event} {result : Except Error Unit}
  {phase : Phase}

/-- Ending asks once in an open transaction, and otherwise nothing. -/
theorem cases_of_ending {a : Action Unit} (h : Work.Emits (if session.inTransaction then do
        modify fun s => { s with inTransaction := false }
        Work.ofAction a else pure ()) session events result session') :
    session'.inTransaction = false ∧ session'.cancelled = session.cancelled ∧
    (events = [] ∨ a.Emits events result) := by
  split at h
  · obtain ⟨rfl, asked⟩ := Work.emits_ofAction_iff.1 (Work.emits_modify_bind_iff.1 h)
    exact ⟨rfl, rfl, .inr asked⟩
  · next out =>
    obtain ⟨rfl, _, rfl⟩ := Work.emits_pure_iff.1 h
    exact ⟨by simpa using out, rfl, .inl rfl⟩

/-- What saving changes asks after its flush; unless the session is cancelled, that is a commit,
and what came of it is the answer. -/
theorem cases_of_conclude (h : Work.Emits conclude session events result session') :
    session'.inTransaction = false ∧ session'.cancelled = session.cancelled ∧
      (session.cancelled = false → events = [] ∨
        events = [⟨.commit session.connection, result⟩]) := by
  replace h := Work.emits_get_bind_iff.1 h
  split at h
  · next cancelled =>
    obtain ⟨out, kept, _⟩ := cases_of_ending h
    refine ⟨out, kept, fun active => ?_⟩
    rw [active] at cancelled
    cases cancelled
  · obtain ⟨out, kept, asked⟩ := cases_of_ending h
    exact ⟨out, kept, fun _ => asked.imp_right Program.emits_request_iff.1⟩

theorem hasFlushes_unended : Request.HasFlushes fun r => r.ends = false :=
  ⟨⟨fun _ _ _ => rfl, fun _ _ => rfl, fun _ _ _ => rfl⟩, fun _ => rfl, fun _ _ => rfl,
    fun _ _ => rfl⟩

/-- A flush that succeeds has given nothing up. -/
theorem cancelled_of_flush (fits : phase.Fits session)
    (h : Work.Emits flush session events (.ok ()) session') :
    session'.cancelled = session.cancelled := by
  have run : Work.Emits (if session.cancelled || session.pending.isEmpty then pure () else
      tryCatch flushPending fun e => do
        modify fun s => { s with cancelled := true }
        throw e) session events (.ok ()) session' := h
  split at run
  · obtain ⟨_, _, rfl⟩ := Work.emits_pure_iff.1 run
    rfl
  · next active =>
    have usable : phase ≠ .refused :=
      fun refused => active (by rw [fits.refused refused, Bool.true_or])
    rcases Work.emits_tryCatch_iff.1 run with ⟨_, _, done⟩ | ⟨e, middle, first, rest, _, _, handled⟩
    · obtain ⟨_, _, _, kept, _⟩ := emits_flushPending fits.holds usable done
      exact kept
    · obtain ⟨_, impossible, _⟩ := Work.emits_throw_iff.1 (Work.emits_modify_bind_iff.1 handled)
      cases impossible

end Session

theorem exists_concat_of_map {calls : List Called} {work : List Call} {call : Call}
    (h : calls.map Called.call = work ++ [call]) :
    ∃ done last, calls = done ++ [last] ∧ done.map Called.call = work ∧ last.call = call := by
  obtain ⟨done, lasts, rfl, hdone, hlasts⟩ := List.map_eq_append_iff.1 h
  obtain ⟨last, rfl, hlast⟩ := List.map_eq_singleton_iff.1 hlasts
  exact ⟨done, last, rfl, hdone, hlast⟩

namespace Call

variable {call : Call} {session session' : Session} {events : List Event}
  {result : Except Error Unit} {phase : Phase}

/-- A call that neither closes nor gives up leaves the session active. All that it asks to end is
committed by saving changes, which answers what came of the commit. -/
theorem commits_of_emits (fits : phase.Fits session) (active : session.cancelled = false)
    (stays : call ≠ .close) (continues : ¬Called.GivesUp ⟨call, events, result⟩)
    (h : Work.Emits call.work session events result session') :
    session'.cancelled = false ∧ ∀ e ∈ events, e.request.ends = true →
      call = .saveChanges ∧ ∃ c, e = ⟨.commit c, result⟩ := by
  have passive : call.work.Passive → session'.cancelled = false ∧
      ∀ e ∈ events, e.request.ends = true →
      call = .saveChanges ∧ ∃ c, e = ⟨.commit c, result⟩ := by
    intro passive
    obtain ⟨asked, same, _⟩ := passive.of_emits h
    have kept : session'.cancelled = session.cancelled := congrArg Prod.snd same
    refine ⟨kept.trans active, fun e he ends => ?_⟩
    rw [(asked e he).1.2] at ends
    cases ends
  cases call with
  | flush =>
    have unended := (Session.asks_flush Session.hasFlushes_unended).of_emits h
    refine ⟨?_, fun e he ends => ?_⟩
    · cases result with
      | ok => exact (Session.cancelled_of_flush fits h).trans active
      | error e => exact absurd (.inr (.inl ⟨rfl, e, rfl⟩)) continues
    · rw [unended e he] at ends
      cases ends
  | saveChanges =>
    rcases Work.emits_bind_iff.1 h with
      ⟨e, rfl, failed⟩ | ⟨_, middle, first, rest, rfl, flushed, concluded⟩
    · have unended := (Session.asks_flush Session.hasFlushes_unended).of_emits failed
      exact absurd (.inr (.inr ⟨rfl, ⟨e, rfl⟩, unended⟩)) continues
    · have unended := (Session.asks_flush Session.hasFlushes_unended).of_emits flushed
      have kept := (Session.cancelled_of_flush fits flushed).trans active
      obtain ⟨_, kept', asked⟩ := Session.cases_of_conclude concluded
      refine ⟨kept'.trans kept, fun e he ends => ⟨rfl, ?_⟩⟩
      rcases List.mem_append.1 he with he | he
      · rw [unended e he] at ends
        cases ends
      · rcases asked kept with rfl | rfl
        · cases he
        · exact ⟨_, List.mem_singleton.1 he⟩
  | cancel => exact absurd (.inl rfl) continues
  | close => exact absurd rfl stays
  | save | delete | read | join => exact passive (passive_work _ (by simp))

end Call

namespace Session.History

variable {session session' : Session} {calls before after : List Called} {phase : Phase}

theorem of_append (h : History session (before ++ after) session') :
    ∃ middle, History session before middle ∧ History middle after session' := by
  induction before generalizing session with
  | nil => exact ⟨session, .nil, h⟩
  | cons c before ih =>
    cases h with
    | cons emits rest =>
      obtain ⟨middle, first, last⟩ := ih rest
      exact ⟨middle, .cons emits first, last⟩

/-- The sessions before and after one of the calls. -/
theorem at_call {c : Called} (h : History session (before ++ c :: after) session') :
    ∃ session₁ session₂, History session before session₁ ∧
      Work.Emits c.call.work session₁ c.events c.result session₂ ∧
      History session₂ after session' := by
  obtain ⟨middle, first, last⟩ := h.of_append
  cases last with
  | cons emits rest => exact ⟨middle, _, first, emits, rest⟩

/-- Calls that neither close nor give up end transactions only by committing. -/
theorem commits (h : History session calls session') (fits : phase.Fits session)
    (active : session.cancelled = false) (continues : ∀ c ∈ calls, c.call ≠ .close ∧ ¬c.GivesUp) :
    ∀ c ∈ calls, ∀ e ∈ c.events, e.request.ends = true →
      c.call = .saveChanges ∧ ∃ conn, e = ⟨.commit conn, c.result⟩ := by
  induction h generalizing phase with
  | nil => exact fun _ h => by cases h
  | cons emits _ ih =>
    obtain ⟨⟨stays, goesOn⟩, rest⟩ := List.forall_mem_cons.1 continues
    obtain ⟨phase₁, _, fits₁⟩ := Call.emits_fits fits emits
    obtain ⟨active₁, first⟩ := Call.commits_of_emits fits active stays goesOn emits
    exact List.forall_mem_cons.2 ⟨first, ih fits₁ active₁ rest⟩

end Session.History

/-- Closing leaves no transaction open, and neither does saving changes that succeeds. -/
theorem Call.out_of_emits {call : Call} {session session' : Session} {events : List Event}
    {result : Except Error Unit} (h : Work.Emits call.work session events result session')
    (ends : call = .close ∨ call = .saveChanges ∧ result = .ok ()) :
    session'.inTransaction = false := by
  rcases ends with rfl | ⟨rfl, rfl⟩
  · exact (Session.cases_of_ending h).1
  · rcases Work.emits_bind_iff.1 h with
      ⟨e, impossible, _⟩ | ⟨_, middle, first, rest, rfl, _, concluded⟩
    · cases impossible
    · exact (Session.cases_of_conclude concluded).1

namespace Session.History

variable {session session' : Session} {calls before : List Called} {c : Called} {phase : Phase}
  {earlier later : List Event} {e : Event}

theorem out_of_concat (h : History session (before ++ [c]) session')
    (ends : c.call = .close ∨ c.call = .saveChanges ∧ c.result = .ok ()) :
    session'.inTransaction = false := by
  obtain ⟨middle, _, last⟩ := h.of_append
  cases last with
  | cons emits rest =>
    cases rest
    exact Call.out_of_emits emits ends

/-- Where no transaction is open at last, the one that an event leaves open is
ended by the next bound. -/
theorem ended (h : History session calls session') (fits : phase.Fits session)
    (out : session'.inTransaction = false) (split : Called.trace calls = earlier ++ e :: later)
    (opens : ∀ {phase₁ phase₂}, Phase.Step phase₁ e phase₂ → phase₂ = .opened) :
    ∃ ending, later.find? Event.bounds = some ending ∧ ending.request.ends = true := by
  obtain ⟨_, steps, fits'⟩ := h.steps fits
  rw [split] at steps
  obtain ⟨_, _, rest⟩ := steps.of_append
  cases rest with
  | cons step rest => exact rest.ended (opens step) (fits'.ne_opened out)

/-- What follows an end is not bounded before the next begin. -/
theorem begins_after (h : History session calls session') (fits : phase.Fits session)
    (split : Called.trace calls = earlier ++ e :: later) (ends : e.request.ends = true)
    {next : Event} (found : later.find? Event.bounds = some next) : next.request.begins = true := by
  obtain ⟨_, steps, _⟩ := h.steps fits
  rw [split] at steps
  obtain ⟨_, _, rest⟩ := steps.of_append
  cases rest with
  | cons step rest => exact rest.begins_first (by rw [step.closed_of_ends ends]; decide) found

/-- What an active session has written when changes are saved with success is committed, unless an
earlier call failed to. -/
theorem committed (h : History session (before ++ [c]) session') (fits : phase.Fits session)
    (active : session.cancelled = false) (continues : ∀ c' ∈ before, c'.call ≠ .close ∧ ¬c'.GivesUp)
    (call : c.call = .saveChanges) (ok : c.result = .ok ())
    (split : Called.trace (before ++ [c]) = earlier ++ e :: later)
    (writes : e.request.writes = true) :
    ∃ ending, later.find? Event.bounds = some ending ∧ (ending.Commits ∨
      ending.FailsToCommit ∧ ∃ c' ∈ before, c'.call = .saveChanges ∧
        ending ∈ c'.events ∧ ∃ e, c'.result = .error e) := by
  obtain ⟨ending, found, ends⟩ :=
    h.ended fits (h.out_of_concat (.inr ⟨call, ok⟩)) split fun step =>
      step.opened_after_writes writes
  refine ⟨ending, found, ?_⟩
  have traced : ending ∈ Called.trace (before ++ [c]) := by
    rw [split]
    exact List.mem_append_right _ (List.mem_cons_of_mem _ (List.mem_of_find?_eq_some found))
  obtain ⟨c', hc', he⟩ := List.mem_flatMap.1 traced
  have goesOn : ∀ c' ∈ before ++ [c], c'.call ≠ .close ∧ ¬c'.GivesUp :=
    List.forall_mem_append.2 ⟨continues,
      List.forall_mem_singleton.2 (Called.continues_of_saved call ok)⟩
  obtain ⟨saves, conn, rfl⟩ := h.commits fits active goesOn c' hc' ending he ends
  cases result : c'.result with
  | ok => exact .inl ⟨conn, rfl⟩
  | error e =>
    refine .inr ⟨⟨conn, e, rfl⟩, c', ?_, saves, result ▸ he, e, result⟩
    rcases List.mem_append.1 hc' with hc' | hc'
    · exact hc'
    · obtain rfl := List.mem_singleton.1 hc'
      rw [ok] at result
      cases result

end Session.History

theorem Session.fits_of_connect {settings : Settings} {opening : List Event} {session : Session}
    (opened : (connect settings).Emits opening (.ok session)) :
    Phase.Fits .closed session ∧ session.cancelled = false := by
  obtain ⟨outcome, first, rest, rfl, connected, ended⟩ := Program.emits_bind_iff.1 opened
  cases outcome with
  | error e =>
    obtain ⟨_, impossible⟩ := Program.emits_done_iff.1 ended
    cases impossible
  | ok conn =>
    obtain ⟨_, same⟩ := Program.emits_done_iff.1 ended
    cases same
    exact ⟨⟨⟨fun h => (by cases h), fun h => (by cases h)⟩, fun h => (by cases h)⟩, rfl⟩

/-- Whatever is called on a session until it is closed, and whatever its surroundings answer, each
transaction is ended, and only a commit that fails leaves one behind. -/
theorem Session.concludes {settings : Settings} {opening : List Event} {session session' : Session}
    (opened : (connect settings).Emits opening (.ok session)) {calls : List Called}
    (h : History session calls session') {work : List Call}
    (last : calls.map Called.call = work ++ [.close]) (once : .close ∉ work) :
    Called.Concluded calls := by
  obtain ⟨fits, active⟩ := fits_of_connect opened
  obtain ⟨done, closing, rfl, rfl, closes⟩ := exists_concat_of_map last
  refine ⟨fun before opening after split opens => ?_,
    fun before failing after split fails next found => ?_,
    fun before c after split call ok continues earlier written later split' writes => ?_⟩
  · obtain ⟨ending, found, ends⟩ :=
      h.ended fits (h.out_of_concat (.inl closes)) split fun step => step.opened_of_opens opens
    exact ⟨ending, found, Event.cases_of_ends ends⟩
  · obtain ⟨c, error, rfl⟩ := fails
    exact h.begins_after fits split rfl found
  · have other : c ≠ closing := by
      rintro rfl
      rw [closes] at call
      cases call
    obtain ⟨rest, rfl⟩ := exists_eq_append_cons_of_concat split other
    have stays : ∀ c' ∈ before, c'.call ≠ .close := fun c' h same =>
      once (same ▸ List.mem_map_of_mem (List.mem_append_left _ h))
    rw [split, List.append_cons] at h
    obtain ⟨middle, first, _⟩ := h.of_append
    exact first.committed fits active (fun c' h => ⟨stays c' h, continues c' h⟩) call ok
      split' writes

namespace Counting

/-- Surroundings that do everything but commit. -/
def uncommitting : Answerer Unit
  | .connect, s => (.ok 0, s)
  | .begin _, s | .rollback _, s => (.ok (), s)
  | .commit _, s => (.error (.storage "disk full"), s)
  | .execute _ _, s => (.ok 1, s)
  | .scalar _ _, s => (.ok (some (.int 1)), s)
  | .query _ _, s => (.ok [], s)
  | .idsSeeded _, s => (true, s)
  | .seedIds _ _, s => ((), s)
  | .nextId _, s => (1, s)
  | .descriptors _ _, s => (.ok [], s)
  | .compiledSql _ _ _, s => (.error (.storage "disk full"), s)

/-- An article is saved, changes are saved twice, and the session is closed. -/
def uncommitted : List Called :=
  (Session.record uncommitting [.save entity "" (dated 0 1), .saveChanges, .saveChanges, .close]
    opened ()).1

/-- The commit fails; saving changes again succeeds and closing does, and
neither asks for anything. -/
theorem concludes_uncommitted :
    uncommitted.map (fun c =>
          (c.events.map fun e => (e.request.begins, e.request.commits, e.request.writes),
            c.result.toOption)) =
        [([(false, false, false), (false, false, false)], some ()),
          ([(false, false, false), (true, false, false), (false, false, true),
            (false, true, false)], none), ([], some ()),
          ([], some ())] ∧
      Called.Concluded uncommitted := by
  refine ⟨by decide +kernel, ?_⟩
  have connected : (Session.connect settings).Emits [⟨.connect, .ok 0⟩] (.ok opened) :=
    .ask (.done _)
  have calls : uncommitted.map Called.call =
      [.save entity "" (dated 0 1), .saveChanges, .saveChanges] ++ [.close] :=
    Session.map_call_record ..
  exact Session.concludes connected (Session.history_record _ _ _ _) calls (by simp)

end Counting

end DocStore

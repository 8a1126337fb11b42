import DocStore.Proofs.FlushWrites

/-!
# Where runs break off

A run that fails asks nothing more after the answer that made it fail:
`Halting` says so of all requests to storage. What commands send is known
request by request: a `Sending` comes with the answers after which there is a
next one, and with those that end the run. `Sending.Run` is a list of them in
order, up to the first that was refused.
-/

set_option autoImplicit false

namespace DocStore

variable {α β : Type}

/-! ## Answers that fail -/

def errorOf : Except Error α → Option Error
  | .ok _ => none
  | .error e => some e

theorem errorOf_eq_some_iff {o : Except Error α} {e : Error} :
    errorOf o = some e ↔ o = .error e := by
  cases o <;> simp [errorOf]

/-- The error that a request was answered with. -/
def Event.error? : Event → Option Error
  | ⟨.connect, o⟩ => errorOf o
  | ⟨.begin _, o⟩ | ⟨.commit _, o⟩ | ⟨.rollback _, o⟩ => errorOf o
  | ⟨.execute _ _, o⟩ => errorOf o
  | ⟨.scalar _ _, o⟩ => errorOf o
  | ⟨.query _ _, o⟩ => errorOf o
  | ⟨.descriptors _ _, o⟩ => errorOf o
  | ⟨.compiledSql _ _ _, o⟩ => errorOf o
  | ⟨.idsSeeded _, _⟩ | ⟨.seedIds _ _, _⟩ | ⟨.nextId _, _⟩ => none

/-- An answer that fails is the last one, and its error is the result. -/
def Halting (events : List Event) (result : Except Error α) : Prop :=
  ∀ before e after error, events = before ++ e :: after →
    e.error? = some error → after = [] ∧ result = .error error

theorem halting_nil (result : Except Error α) : Halting [] result :=
  fun _ _ _ _ split => absurd split (by simp)

theorem halting_singleton {e : Event} {result : Except Error α}
    (h : ∀ error, e.error? = some error → result = .error error) : Halting [e] result := by
  intro before e' after error split fails
  cases before with
  | nil =>
    cases split
    exact ⟨rfl, h error fails⟩
  | cons _ before => exact absurd (List.cons.inj split).2 (by simp)

theorem Halting.append {x : α} {first rest : List Event} {result : Except Error β}
    (h : Halting first (.ok x)) (h' : Halting rest result) : Halting (first ++ rest) result := by
  intro before e after error split fails
  rcases cases_of_append_eq split with ⟨middle, rfl, _⟩ | ⟨middle, _, rfl⟩
  · cases (h before e middle error rfl fails).2
  · exact h' middle e after error rfl fails

theorem Halting.error {error : Error} {events : List Event}
    (h : Halting events (.error error : Except Error α)) :
    Halting events (.error error : Except Error β) := by
  intro before e after err split fails
  obtain ⟨last, same⟩ := h before e after err split fails
  cases same
  exact ⟨last, rfl⟩

/-- Whatever is answered, the action asks nothing after an answer that fails. -/
def Action.Halts (a : Action α) : Prop :=
  ∀ ⦃events : List Event⦄ ⦃result : Except Error α⦄, a.Emits events result → Halting events result

namespace Action

theorem halts_ofExcept (e : Except Error α) : (ofExcept e).Halts := by
  intro events result h
  obtain ⟨rfl, _⟩ := Program.emits_done_iff.1 h
  exact halting_nil result

theorem halts_pure (x : α) : (pure x : Action α).Halts := halts_ofExcept (.ok x)

theorem halts_throw (e : Error) : (throw e : Action α).Halts := halts_ofExcept (.error e)

/-- The action is one request, and fails just as that is answered. -/
def IsRequest (a : Action α) : Prop :=
  ∀ ⦃events : List Event⦄ ⦃result : Except Error α⦄, a.Emits events result →
    ∃ e, events = [e] ∧ e.error? = errorOf result

theorem isRequest_begin (conn : Connection) : (begin conn).IsRequest :=
  fun _ _ h => ⟨_, Program.emits_request_iff.1 h, rfl⟩

theorem isRequest_execute (conn : Connection) (s : Statement) : (execute conn s).IsRequest :=
  fun _ _ h => ⟨_, Program.emits_request_iff.1 h, rfl⟩

theorem isRequest_scalar (conn : Connection) (s : Statement) : (scalar conn s).IsRequest :=
  fun _ _ h => ⟨_, Program.emits_request_iff.1 h, rfl⟩

theorem isRequest_query (conn : Connection) (s : Statement) : (query conn s).IsRequest :=
  fun _ _ h => ⟨_, Program.emits_request_iff.1 h, rfl⟩

theorem isRequest_descriptors (typeName collection : String) :
    (descriptors typeName collection).IsRequest :=
  fun _ _ h => ⟨_, Program.emits_request_iff.1 h, rfl⟩

theorem IsRequest.halts {a : Action α} (ha : a.IsRequest) : a.Halts := by
  intro events result h
  obtain ⟨e, rfl, answered⟩ := ha h
  exact halting_singleton fun error fails => errorOf_eq_some_iff.1 (answered ▸ fails)

theorem Halts.bind {a : Action α} {f : α → Action β} (ha : a.Halts) (hf : ∀ x, (f x).Halts) :
    (a >>= f).Halts := by
  intro events result h
  rcases emits_bind_iff.1 h with ⟨e, rfl, failed⟩ | ⟨x, first, rest, rfl, asked, next⟩
  · exact (ha failed).error
  · exact (ha asked).append (hf x next)

theorem halts_executeAll (conn : Connection) (ss : List Statement) :
    (executeAll conn ss).Halts := by
  induction ss with
  | nil => exact halts_pure ()
  | cons s ss ih => exact (isRequest_execute conn s).halts.bind fun _ => ih

end Action

theorem Buffer.halts_reduceGroup (b : Buffer) (conn : Connection) (dialect : Dialect)
    (key : Value) : (b.reduceGroup conn dialect key).Halts := by
  rw [reduceGroup_eq]
  refine (Action.halts_ofExcept _).bind fun _ => (Action.halts_ofExcept _).bind fun _ => ?_
  refine (Action.isRequest_query _ _).halts.bind fun _ => (Action.halts_ofExcept _).bind fun _ => ?_
  exact (Action.halts_ofExcept _).bind fun _ =>
    (Action.halts_ofExcept _).bind fun _ => Action.halts_pure _

theorem Buffer.halts_reduceGroups (b : Buffer) (conn : Connection) (dialect : Dialect)
    (keys : List Value) : (b.reduceGroups conn dialect keys).Halts := by
  induction keys with
  | nil => exact Action.halts_pure _
  | cons key keys ih =>
    exact (b.halts_reduceGroup conn dialect key).bind fun _ => ih.bind fun _ => Action.halts_pure _

theorem Arena.halts_finish (arena : Arena) (conn : Connection) (dialect : Dialect) :
    (arena.finish conn dialect).Halts := by
  have all : ∀ bs : List Buffer, (Buffer.reduceAll conn dialect bs).Halts := by
    intro bs
    induction bs with
    | nil => exact Action.halts_pure _
    | cons b bs ih =>
      exact (b.halts_reduceGroups conn dialect b.keys).bind fun _ =>
        ih.bind fun _ => Action.halts_pure _
  exact (all arena.buffers).bind fun _ => Action.halts_pure _

theorem Command.halts_run (conn : Connection) (c : Command) : (c.run conn).Halts := by
  cases c with
  | createDocument | deleteDocument | createMapRow | deleteMapRows
  | deleteReduceRow => exact Action.halts_executeAll conn _
  | updateDocument =>
    refine (Action.isRequest_execute conn _).halts.bind fun affected => ?_
    split
    · exact Action.halts_throw _
    · exact Action.halts_pure ()
  | createReduceRow =>
    refine (Action.isRequest_scalar conn _).halts.bind fun answer => ?_
    split
    · exact Action.halts_executeAll conn _
    · exact Action.halts_throw _
  | updateReduceRow =>
    exact (Action.halts_executeAll conn _).bind fun _ => Action.halts_executeAll conn _

theorem Command.halts_runAll (conn : Connection) (commands : List Command) :
    (runAll conn commands).Halts := by
  induction commands with
  | nil => exact Action.halts_pure ()
  | cons c rest ih => exact (c.halts_run conn).bind fun _ => ih

namespace Work

/-- Whatever is answered, the operation asks nothing after an answer that fails. -/
def Halts (w : Work α) : Prop :=
  ∀ ⦃session events result session'⦄, w.Emits session events result session' → Halting events result

theorem halts_ofAction {a : Action α} (h : a.Halts) : (ofAction a).Halts := fun _ _ _ _ emits =>
  h (emits_ofAction_iff.1 emits).2

theorem halts_ofExcept (e : Except Error α) : (ofExcept e).Halts :=
  halts_ofAction (Action.halts_ofExcept e)

theorem halts_pure (x : α) : (pure x : Work α).Halts := by
  intro session events result session' h
  obtain ⟨rfl, _⟩ := emits_pure_iff.1 h
  exact halting_nil result

theorem halts_modify (f : Session → Session) : (modify f : Work Unit).Halts := by
  intro session events result session' h
  obtain ⟨rfl, _⟩ := emits_modify_iff.1 h
  exact halting_nil result

theorem halts_get_bind {f : Session → Work β} (h : ∀ session, (f session).Halts) :
    (get >>= f).Halts :=
  fun session _ _ _ emits => h session (emits_get_bind_iff.1 emits)

theorem Halts.bind {w : Work α} {f : α → Work β} (hw : w.Halts) (hf : ∀ x, (f x).Halts) :
    (w >>= f).Halts := by
  intro session events result session' h
  rcases emits_bind_iff.1 h with ⟨e, rfl, failed⟩ | ⟨x, middle, first, rest, rfl, asked, next⟩
  · exact (hw failed).error
  · exact (hw asked).append (hf x next)

end Work

namespace Session

theorem halts_track (collection : String) (doc : Document) : (track collection doc).Halts := by
  refine Work.halts_get_bind fun session => ?_
  dsimp only
  split
  · exact Work.halts_pure _
  · exact (Work.halts_ofExcept _).bind fun _ =>
      (Work.halts_modify _).bind fun _ => Work.halts_pure _

theorem halts_lastStored (key : DocKey) : (lastStored key).Halts := by
  refine Work.halts_get_bind fun session => ?_
  split
  · exact Work.halts_pure _
  · refine Work.Halts.bind (Work.halts_get_bind fun _ =>
      Work.halts_ofAction (Action.isRequest_query _ _).halts) fun rows => ?_
    split
    · exact Work.halts_pure _
    · refine (Work.halts_ofExcept _).bind fun _ => (halts_track _ _).bind fun _ => ?_
      exact Work.halts_get_bind fun _ => Work.halts_pure _

theorem halts_planChange (plan : FlushPlan) (change : Pending) :
    (planChange plan change).Halts := by
  cases change with
  | delete key typeName =>
    refine Work.halts_get_bind fun session => (halts_lastStored key).bind fun old => ?_
    split
    · exact Work.halts_pure _
    · exact (Work.halts_ofAction (Action.isRequest_descriptors _ _).halts).bind fun _ =>
        Work.halts_ofExcept _
  | save key typeName json content =>
    rw [planChange_save]
    refine Work.halts_get_bind fun session =>
      (Work.halts_ofAction (Action.isRequest_descriptors _ _).halts).bind fun ds => ?_
    refine Work.Halts.bind ?_ fun _ => Work.halts_ofExcept _
    split
    · exact Work.halts_pure _
    · exact halts_lastStored key

theorem halts_planChanges (plan : FlushPlan) (changes : List Pending) :
    (planChanges plan changes).Halts := by
  induction changes generalizing plan with
  | nil => exact Work.halts_pure _
  | cons change changes ih => exact (halts_planChange plan change).bind ih

theorem halts_begin : begin.Halts := by
  refine Work.halts_get_bind fun session => ?_
  split
  · exact Work.halts_pure _
  · exact (Work.halts_ofAction (Action.isRequest_begin _).halts).bind fun _ => Work.halts_modify _

theorem halts_flushPending : flushPending.Halts := by
  rw [flushPending_eq]
  refine Work.halts_get_bind fun session => (halts_planChanges _ _).bind fun plan => ?_
  have runs : (session.runPlan plan).Halts :=
    (Work.halts_ofAction (plan.arena.halts_finish _ _)).bind fun commands =>
      (Work.halts_ofAction (Command.halts_runAll _ commands)).bind fun _ => Work.halts_modify _
  split
  · exact runs
  · exact halts_begin.bind fun _ => runs

end Session

/-! ## Requests in order -/

/-- A request, the answers after which a next one is sent, and those that end
the run with an error. -/
structure Sending where
  request : Request
  accepts : request.Outcome → Prop
  refuses : request.Outcome → Error → Prop

namespace Sending

/-- The sendings in order, each after the one before was accepted, up to the
first that is refused. -/
inductive Run : List Sending → List Event → Except Error Unit → Prop
  | done : Run [] [] (.ok ())
  | accepted {s : Sending} {rest : List Sending} {o : s.request.Outcome} {events : List Event}
      {result : Except Error Unit} :
    s.accepts o → Run rest events result → Run (s :: rest) (⟨s.request, o⟩ :: events) result
  | refused {s : Sending} {rest : List Sending} {o : s.request.Outcome} {error : Error} :
    s.refuses o error → Run (s :: rest) [⟨s.request, o⟩] (.error error)

variable {xs ys : List Sending} {events events' : List Event} {result : Except Error Unit}
  {error : Error}

theorem Run.append (h : Run xs events (.ok ())) (h' : Run ys events' result) :
    Run (xs ++ ys) (events ++ events') result := by
  generalize ok : (.ok () : Except Error Unit) = first at h
  induction h with
  | done => exact h'
  | accepted accepts _ ih => exact .accepted accepts (ih ok)
  | refused _ => cases ok

/-- What comes after a sending that is refused is not sent. -/
theorem Run.append_left (h : Run xs events (.error error)) (ys : List Sending) :
    Run (xs ++ ys) events (.error error) := by
  generalize failed : (.error error : Except Error Unit) = result at h ⊢
  induction h with
  | done => cases failed
  | accepted accepts _ ih => exact .accepted accepts (ih failed)
  | refused refuses => exact .refused refuses

/-- Executes a statement, whatever it affects. -/
def execute (conn : Connection) (s : Statement) : Sending where
  request := .execute conn s
  accepts o := ∃ n, o = .ok n
  refuses o error := o = .error error

/-- Executes an update of a document, which is refused if it is guarded and meets no row. -/
def update (conn : Connection) (s : Statement) (id : Int64) (typeName : String) (guarded : Bool) :
    Sending where
  request := .execute conn s
  accepts o := ∃ n, o = .ok n ∧ ¬(n = 0 ∧ guarded = true)
  refuses o error := o = .error error ∨ o = .ok 0 ∧ guarded = true ∧ error = .conflict id typeName

/-- Inserts an aggregate row, which must answer its id. -/
def insert (conn : Connection) (s : Statement) (index : String) (id : Int64) : Sending where
  request := .scalar conn s
  accepts o := ∃ v, o = .ok v ∧ v.bind Value.int64? = some id
  refuses o error := o = .error error ∨
    ∃ v, o = .ok v ∧ v.bind Value.int64? = none ∧ error = .internal (.noInsertedId index)

theorem run_executeAll {conn : Connection} {ss : List Statement}
    (h : (Action.executeAll conn ss).Emits events result) :
    Run (ss.map (execute conn)) events result := by
  induction ss generalizing events with
  | nil =>
    obtain ⟨rfl, rfl⟩ := Program.emits_done_iff.1 h
    exact .done
  | cons s ss ih =>
    rcases Action.emits_bind_iff.1 h with ⟨e, rfl, asked⟩ | ⟨n, first, rest, rfl, asked, next⟩
    · obtain rfl := Program.emits_request_iff.1 asked
      exact .refused (s := execute conn s) rfl
    · obtain rfl := Program.emits_request_iff.1 asked
      exact .accepted (s := execute conn s) ⟨n, rfl⟩ (ih next)

end Sending

namespace Command

/-- What a command sends, if an aggregate row that it inserts gets the id. -/
def sendings (conn : Connection) (id : Int64) (c : Command) : List Sending :=
  match c with
  | .updateDocument _ document typeName _ _ expected =>
    [.update conn c.statement document typeName expected.isSome]
  | .createReduceRow names index _ link =>
    .insert conn c.statement index id :: link.map fun d =>
      .execute conn (linkStatement names index id d)
  | c => (c.statements id).map (.execute conn)

variable {conn : Connection} {c : Command} {commands : List Command} {events : List Event}
  {result : Except Error Unit}

/-- A command sends its sendings. -/
theorem run_of_emits (h : (c.run conn).Emits events result) :
    ∃ id, Sending.Run (c.sendings conn id) events result := by
  cases c with
  | createDocument | deleteDocument | createMapRow | deleteMapRows
  | deleteReduceRow => exact ⟨0, Sending.run_executeAll h⟩
  | updateDocument names id typeName content version expected =>
    refine ⟨0, ?_⟩
    rcases Action.emits_bind_iff.1 h with ⟨e, rfl, asked⟩ | ⟨n, first, rest, rfl, asked, ended⟩
    · obtain rfl := Program.emits_request_iff.1 asked
      exact .refused (s := .update conn _ id typeName expected.isSome) (.inl rfl)
    · obtain rfl := Program.emits_request_iff.1 asked
      split at ended
      · next conflict =>
        obtain ⟨rfl, rfl⟩ := Program.emits_done_iff.1 ended
        exact .refused (s := .update conn _ id typeName expected.isSome)
          (.inr ⟨by rw [conflict.1], conflict.2, rfl⟩)
      · next passes =>
        obtain ⟨rfl, rfl⟩ := Program.emits_done_iff.1 ended
        exact .accepted (s := .update conn _ id typeName expected.isSome) ⟨n, rfl, passes⟩ .done
  | createReduceRow names index cells link =>
    rcases Action.emits_bind_iff.1 h with ⟨e, rfl, asked⟩ | ⟨v, first, rest, rfl, asked, next⟩
    · obtain rfl := Program.emits_request_iff.1 asked
      exact ⟨0, .refused (s := .insert conn _ index 0) (.inl rfl)⟩
    · obtain rfl := Program.emits_request_iff.1 asked
      split at next
      · next id given =>
        have linked := Sending.run_executeAll next
        rw [List.map_map] at linked
        exact ⟨id, .accepted (s := .insert conn _ index id) ⟨v, rfl, given⟩ linked⟩
      · next missing =>
        obtain ⟨rfl, rfl⟩ := Program.emits_done_iff.1 next
        exact ⟨0, .refused (s := .insert conn _ index 0) (.inr ⟨v, rfl, missing, rfl⟩)⟩
  | updateReduceRow names index row cells link unlink =>
    refine ⟨0, ?_⟩
    have split : (updateReduceRow names index row cells link unlink).sendings conn 0 =
        ((updateReduceRow names index row cells link unlink).statement ::
            unlink.map (unlinkStatement names index row)).map
          (.execute conn) ++ (link.map (linkStatement names index row)).map (.execute conn) := by
      simp [sendings, statements, statement]
    rw [split]
    rcases Action.emits_bind_iff.1 h with ⟨e, rfl, failed⟩ | ⟨_, first, rest, rfl, ran, next⟩
    · exact (Sending.run_executeAll failed).append_left _
    · exact (Sending.run_executeAll ran).append (Sending.run_executeAll next)

/-- What commands send one after the other, each with the id for an
aggregate row that it inserts. -/
def sendingsAll (conn : Connection) (numbered : List (Command × Int64)) : List Sending :=
  numbered.flatMap fun c => c.1.sendings conn c.2

/-- Commands send their sendings in order, until one is refused. -/
theorem run_of_emits_runAll (h : (runAll conn commands).Emits events result) :
    ∃ numbered, numbered.map Prod.fst = commands ∧
      Sending.Run (sendingsAll conn numbered) events result := by
  induction commands generalizing events with
  | nil =>
    obtain ⟨rfl, rfl⟩ := Program.emits_done_iff.1 h
    exact ⟨[], rfl, .done⟩
  | cons c rest ih =>
    rcases Action.emits_bind_iff.1 h with ⟨error, rfl, failed⟩ | ⟨_, first, last, rfl, ran, next⟩
    · obtain ⟨id, run⟩ := run_of_emits failed
      exact ⟨(c, id) :: rest.map fun c => (c, 0), by simp [Function.comp_def], run.append_left _⟩
    · obtain ⟨id, run⟩ := run_of_emits ran
      obtain ⟨numbered, rfl, later⟩ := ih next
      exact ⟨(c, id) :: numbered, rfl, run.append later⟩

end Command

end DocStore

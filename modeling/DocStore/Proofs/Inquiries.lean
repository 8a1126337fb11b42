import DocStore.Proofs.Events
import DocStore.Proofs.SessionPlanning
import DocStore.Session.Join

/-!
# What is only looked up

Queries, the planning of a flush and the reduction of groups look up documents,
rows and descriptors, and remember what they loaded. They ask nothing else, and
whatever does not depend on what a session has loaded stays as it is.
-/

set_option autoImplicit false

namespace DocStore

variable {α β γ : Type}

/-- A kind of requests to which all those belong that only look something up. -/
structure Request.HasLookups (P : Request → Prop) : Prop where
  query : ∀ c q ps, P (.query c (.query q ps))
  descriptors : ∀ entityType collection, P (.descriptors entityType collection)
  compiledSql : ∀ q collection args, P (.compiledSql q collection args)

/-- A part of a session that does not depend on what it has loaded. -/
def Session.Untracked (view : Session → γ) : Prop :=
  ∀ session tracked, view { session with tracked } = view session

/-- The statement is a query. -/
def Statement.IsQuery (s : Statement) : Prop := ∃ q ps, s = .query q ps

theorem Request.HasLookups.of_isQuery {P : Request → Prop} (lookups : HasLookups P) {s : Statement}
    (h : s.IsQuery) (c : Connection) : P (.query c s) := by
  obtain ⟨q, ps, rfl⟩ := h
  exact lookups.query c q ps

section Lookups

variable {P : Request → Prop} (lookups : Request.HasLookups P) {view : Session → γ}
  (untracked : Session.Untracked view)

/-! ## Reducing groups -/

namespace Buffer

theorem isQuery_of_lookup {b : Buffer} {dialect : Dialect} {key : Value} {s : Statement}
    (h : b.lookup dialect key = .ok s) : s.IsQuery := by
  unfold lookup at h
  split at h
  · cases h
  · obtain ⟨filter, _, h⟩ := bind_eq_ok_iff.1 h
    cases h
    exact ⟨_, _, rfl⟩

variable {conn : Connection} {dialect : Dialect}

theorem asks_reduceGroup {b : Buffer} {key : Value}
    (looks : ∀ s, b.lookup dialect key = .ok s → P (.query conn s)) :
    (b.reduceGroup conn dialect key).Asks P := by
  refine Action.Ensures.asks (Q := fun _ => True) ?_
  rw [reduceGroup_eq]
  refine Action.ensures_ofExcept_bind fun _ _ => Action.ensures_ofExcept_bind fun lookup found => ?_
  refine Action.Asks.bind_ensures (Program.asks_request (looks lookup found)) fun _ => ?_
  refine Action.ensures_ofExcept_bind fun _ _ => Action.ensures_ofExcept_bind fun _ _ => ?_
  exact Action.ensures_ofExcept_bind fun _ _ => Action.ensures_pure trivial

theorem asks_reduceGroups {b : Buffer}
    (looks : ∀ key s, b.lookup dialect key = .ok s → P (.query conn s)) (keys : List Value) :
    (b.reduceGroups conn dialect keys).Asks P := by
  induction keys with
  | nil => exact Action.asks_pure _
  | cons key keys ih =>
    exact (asks_reduceGroup (looks key)).bind fun _ => ih.bind fun _ => Action.asks_pure _

theorem asks_reduceAll {buffers : List Buffer}
    (looks : ∀ b ∈ buffers, ∀ key s, b.lookup dialect key = .ok s → P (.query conn s)) :
    (reduceAll conn dialect buffers).Asks P := by
  induction buffers with
  | nil => exact Action.asks_pure _
  | cons b bs ih =>
    obtain ⟨here, later⟩ := List.forall_mem_cons.1 looks
    exact (asks_reduceGroups here b.keys).bind fun _ => (ih later).bind fun _ => Action.asks_pure _

end Buffer

/-- Finishing a plan asks for nothing but the rows that are stored for the groups of its buffers. -/
theorem Arena.asks_finish_of {arena : Arena} {conn : Connection} {dialect : Dialect}
    (looks : ∀ b ∈ arena.buffers, ∀ key s, b.lookup dialect key = .ok s → P (.query conn s)) :
    (arena.finish conn dialect).Asks P :=
  (Buffer.asks_reduceAll looks).bind fun _ => Action.asks_pure _

include lookups in
theorem Arena.asks_finish (arena : Arena) (conn : Connection) (dialect : Dialect) :
    (arena.finish conn dialect).Asks P :=
  Arena.asks_finish_of fun _ _ _ _ found => lookups.of_isQuery (Buffer.isQuery_of_lookup found) conn

namespace Session

/-! ## Planning changes -/

include untracked in
theorem ensures_track (collection : String) (doc : Document) :
    (track collection doc).Ensures P view fun _ => True := by
  refine Work.ensures_get_bind fun session => ?_
  dsimp only
  split
  · exact Work.ensures_pure trivial
  · refine Work.ensures_ofExcept_bind fun json _ => ?_
    exact (Work.ensures_modify fun s => untracked s _).bind fun _ _ => Work.ensures_pure trivial

include lookups in
theorem ensures_query {s : Statement} (h : s.IsQuery) :
    (Work.query s).Ensures P view fun _ => True :=
  Work.ensures_get_bind fun session =>
    Work.ensures_ofAction
      (Action.Asks.ensures (Program.asks_request (lookups.of_isQuery h session.connection)))

include lookups untracked

theorem ensures_lastStored (key : DocKey) : (lastStored key).Ensures P view fun _ => True := by
  refine Work.ensures_get_bind fun session => ?_
  split
  · exact Work.ensures_pure trivial
  · refine (ensures_query lookups ⟨_, _, rfl⟩).bind fun rows _ => ?_
    split
    · exact Work.ensures_pure trivial
    · refine Work.ensures_ofExcept_bind fun doc _ =>
        (ensures_track untracked _ doc).bind fun _ _ => ?_
      exact Work.ensures_get_bind fun _ => Work.ensures_pure trivial

theorem ensures_planChange (plan : FlushPlan) (change : Pending) :
    (planChange plan change).Ensures P view fun _ => True := by
  have describes : ∀ typeName collection, (Action.descriptors typeName collection).Asks P :=
    fun _ _ => Program.asks_request (lookups.descriptors _ _)
  cases change with
  | delete key typeName =>
    refine Work.ensures_get_bind fun session =>
      (ensures_lastStored lookups untracked key).bind fun old _ => ?_
    cases old with
    | none => exact Work.ensures_pure trivial
    | some old =>
      exact Work.ensures_ofAction_bind (describes _ _) fun _ =>
        Work.ensures_ofExcept fun _ _ => trivial
  | save key typeName json content =>
    rw [planChange_save]
    refine Work.ensures_get_bind fun session =>
      Work.ensures_ofAction_bind (describes _ _) fun ds => ?_
    refine Work.Ensures.bind (Q := fun _ => True) ?_ fun _ _ =>
      Work.ensures_ofExcept fun _ _ => trivial
    split
    · exact Work.ensures_pure trivial
    · exact ensures_lastStored lookups untracked key

theorem ensures_planChanges (plan : FlushPlan) (changes : List Pending) :
    (planChanges plan changes).Ensures P view fun _ => True := by
  induction changes generalizing plan with
  | nil => exact Work.ensures_pure trivial
  | cons change changes ih =>
    exact (ensures_planChange lookups untracked plan change).bind fun plan _ => ih plan

end Session

end Lookups

/-! ## Reading -/

theorem isQuery_of_toStatement {step : Compile Query} {s : Statement}
    (h : step.toStatement = .ok s) : s.IsQuery := by
  unfold Compile.toStatement at h
  split at h
  · cases h
    exact ⟨_, _, rfl⟩
  · cases h

/-- A read that has started only looks something up from then on. -/
def Reading.Inquires (P : Request → Prop) (view : Session → γ) : Reading α → Prop
  | .answered _ => True
  | .asking s finish => s.IsQuery ∧ ∀ rows, (finish rows).Ensures P view fun _ => True

/-- A read that only looks something up. -/
abbrev Work.Inquires (P : Request → Prop) (view : Session → γ) (start : Work (Reading α)) : Prop :=
  start.Ensures P view (Reading.Inquires P view)

theorem Reading.Inquires.map {P : Request → Prop} {view : Session → γ} {reading : Reading α}
    (h : reading.Inquires P view) (f : α → β) : (reading.map f).Inquires P view := by
  cases reading with
  | answered a => trivial
  | asking s finish => exact ⟨h.1, fun rows => (h.2 rows).bind fun _ _ => Work.ensures_pure trivial⟩

theorem Work.Inquires.map {P : Request → Prop} {view : Session → γ} {start : Work (Reading α)}
    (h : start.Inquires P view) (f : α → β) : (Reading.map f <$> start).Inquires P view := by
  rw [map_eq_pure_bind]
  exact h.bind fun reading inquires => Work.ensures_pure (inquires.map f)

section Lookups

variable {P : Request → Prop} (lookups : Request.HasLookups P) {view : Session → γ}
  (untracked : Session.Untracked view)

theorem Reading.inquires_ofStatement {s : Except Error Statement}
    (isQuery : ∀ q, s = .ok q → q.IsQuery) {finish : List Row → Work α}
    (finishes : ∀ rows, (finish rows).Ensures P view fun _ => True) :
    (ofStatement s finish).Inquires P view :=
  Work.ensures_ofExcept_bind fun q hq => Work.ensures_pure ⟨isQuery q hq, finishes⟩

namespace DocumentQuery

include lookups

theorem asks_lookupJoins (entity collection : String) (names : TableNames) (indexes : List String) :
    (lookupJoins entity collection names indexes).Asks P := by
  induction indexes with
  | nil => exact Action.asks_pure _
  | cons index indexes ih =>
    refine Action.Asks.bind (Program.asks_request (lookups.descriptors _ _)) fun ds => ?_
    split
    · exact Action.asks_throw _
    · exact ih.bind fun _ => Action.asks_pure _

theorem ensures_statement (q : DocumentQuery) (settings : Settings) :
    (q.statement settings).Ensures P Statement.IsQuery :=
  (asks_lookupJoins lookups _ _ _ _).bind_ensures fun _ =>
    Action.ensures_ofExcept fun _ => isQuery_of_toStatement

theorem ensures_countStatement (q : DocumentQuery) (settings : Settings) :
    (q.countStatement settings).Ensures P Statement.IsQuery :=
  (asks_lookupJoins lookups _ _ _ _).bind_ensures fun _ =>
    Action.ensures_ofExcept fun _ => isQuery_of_toStatement

end DocumentQuery

namespace Session

include untracked

theorem inquires_get (entity : EntityType) (collection : String) (id : Int64) :
    (get entity collection id).Inquires P view := by
  refine Work.ensures_get_bind fun session => ?_
  dsimp only
  split
  · exact Work.ensures_ofExcept_bind fun _ _ => Work.ensures_pure trivial
  · exact Work.ensures_pure trivial
  · split
    · exact Work.ensures_ofExcept_bind fun _ _ => Work.ensures_pure trivial
    · refine Work.ensures_pure ⟨⟨_, _, rfl⟩, fun rows => ?_⟩
      dsimp only
      split
      · exact Work.ensures_pure trivial
      · refine Work.ensures_ofExcept_bind fun doc _ => ?_
        split
        · exact Work.ensures_pure trivial
        · refine (ensures_track untracked collection doc).bind fun _ _ => ?_
          exact Work.ensures_ofExcept_bind fun _ _ => Work.ensures_pure trivial

theorem ensures_materialize (entity : EntityType) (collection : String) (row : Row) :
    (materialize entity collection row).Ensures P view fun _ => True := by
  refine Work.ensures_ofExcept_bind fun doc _ => Work.ensures_get_bind fun session => ?_
  split
  · exact Work.ensures_ofExcept fun _ _ => trivial
  · exact (ensures_track untracked collection doc).bind fun _ _ =>
      Work.ensures_ofExcept fun _ _ => trivial

theorem ensures_materializeAll (entity : EntityType) (collection : String) (rows : List Row) :
    (materializeAll entity collection rows).Ensures P view fun _ => True := by
  induction rows with
  | nil => exact Work.ensures_pure trivial
  | cons row rows ih =>
    exact (ensures_materialize untracked entity collection row).bind fun _ _ =>
      ih.bind fun _ _ => Work.ensures_pure trivial

include lookups in
theorem inquires_listDocuments (q : DocumentQuery) : (listDocuments q).Inquires P view :=
  Work.ensures_get_bind fun session =>
    (Work.ensures_ofAction (q.ensures_statement lookups session.settings)).bind fun _ hs =>
      Work.ensures_pure ⟨hs, fun rows =>
        ensures_materializeAll untracked q.entity q.collection rows⟩

include lookups in
theorem inquires_firstDocument (q : DocumentQuery) : (firstDocument q).Inquires P view :=
  (inquires_listDocuments lookups untracked (q.take 1)).bind fun _ inquires =>
    Work.ensures_pure (inquires.map _)

omit untracked
include lookups

theorem inquires_countDocuments (q : DocumentQuery) : (countDocuments q).Inquires P view :=
  Work.ensures_get_bind fun session =>
    (Work.ensures_ofAction (q.ensures_countStatement lookups session.settings)).bind fun _ hs =>
      Work.ensures_pure ⟨hs, fun _ => Work.ensures_ofExcept fun _ _ => trivial⟩

theorem inquires_runCompiled (q : CompiledQuery) (collection : String) (args : Arguments) :
    (runCompiled q collection args).Inquires P view := by
  refine Work.ensures_ofAction_bind (Program.asks_request (lookups.compiledSql q collection args))
    fun sql => ?_
  refine Reading.inquires_ofStatement (fun s hs => ?_) fun _ =>
    Work.ensures_ofExcept fun _ _ => trivial
  obtain ⟨ps, _, rfl⟩ := map_eq_ok_iff.1 hs
  exact ⟨_, _, rfl⟩

omit lookups

theorem inquires_listRows (q : IndexQuery) : (listRows q).Inquires P view :=
  Work.ensures_get_bind fun _ =>
    Reading.inquires_ofStatement (fun _ => isQuery_of_toStatement) fun _ =>
      Work.ensures_ofExcept fun _ _ => trivial

theorem inquires_firstRow (q : IndexQuery) : (firstRow q).Inquires P view :=
  (inquires_listRows (q.take 1)).bind fun _ inquires => Work.ensures_pure (inquires.map _)

theorem inquires_countRows (q : IndexQuery) : (countRows q).Inquires P view :=
  Work.ensures_get_bind fun _ =>
    Reading.inquires_ofStatement (fun _ => isQuery_of_toStatement) fun _ =>
      Work.ensures_ofExcept fun _ _ => trivial

end Session

/-! ## Reading alone and together -/

include lookups

theorem Reading.ensures_alone {start : Work (Reading α)} (h : start.Inquires P view) :
    (alone start).Ensures P view fun _ => True := by
  refine h.bind fun reading inquires => ?_
  cases reading with
  | answered a => exact Work.ensures_pure trivial
  | asking s finish =>
    exact (Session.ensures_query lookups inquires.1).bind fun rows _ => inquires.2 rows

namespace JoinedRead

omit lookups

/-- A read of a join only looks something up from then on. -/
def Inquires (P : Request → Prop) (view : Session → γ) : JoinedRead α → Prop
  | .start begin => begin.Inquires P view
  | .asking _ s finish => s.IsQuery ∧ ∀ rows, (finish rows).Ensures P view fun _ => True
  | .finished _ => True

include lookups

theorem ensures_look (co : Coalescer) (number : Caller) (caller : ScheduledCaller) {s : Statement}
    {finish : List Row → Work α} (isQuery : s.IsQuery)
    (finishes : ∀ rows, (finish rows).Ensures P view fun _ => True) :
    (look co number caller s finish).Ensures P view fun r => r.2.Inquires P view := by
  unfold look
  split
  split
  · refine Work.Ensures.bind (Q := fun read => JoinedRead.Inquires P view read) ?_ fun _ h =>
      Work.ensures_pure h
    exact (finishes _).lift.bind fun _ _ => Work.ensures_pure trivial
  · exact Work.ensures_pure trivial
  · split
    · exact (Session.ensures_query lookups isQuery).lift.bind fun _ _ =>
        Work.ensures_pure ⟨isQuery, finishes⟩
    · exact Work.ensures_pure ⟨isQuery, finishes⟩

theorem ensures_turn (co : Coalescer) (number : Caller) {read : JoinedRead α}
    (h : read.Inquires P view) :
    (turn co number read).Ensures P view fun r => r.2.Inquires P view := by
  cases read with
  | start begin =>
    refine (Work.Ensures.lift h).bind fun result inquires => ?_
    rcases result with e | reading
    · exact Work.ensures_pure trivial
    · cases reading with
      | answered a => exact Work.ensures_pure trivial
      | asking s finish =>
        have asking := inquires _ rfl
        exact Work.ensures_get_bind fun session => ensures_look lookups _ _ _ asking.1 asking.2
  | asking caller s finish => exact ensures_look lookups _ _ _ h.1 h.2
  | finished r => exact Work.ensures_pure trivial

theorem ensures_round (co : Coalescer) (number : Caller) {reads : List (JoinedRead α)}
    (h : ∀ read ∈ reads, read.Inquires P view) :
    (round co number reads).Ensures P view fun r => ∀ read ∈ r.2, read.Inquires P view := by
  induction reads generalizing co number with
  | nil => exact Work.ensures_pure fun _ h => by cases h
  | cons read reads ih =>
    obtain ⟨first, rest⟩ := List.forall_mem_cons.1 h
    refine (ensures_turn lookups co number first).bind fun r hr =>
      (ih r.1 (number + 1) rest).bind fun r' hr' => ?_
    exact Work.ensures_pure (List.forall_mem_cons.2 ⟨hr, hr'⟩)

theorem ensures_rounds (co : Coalescer) {reads : List (JoinedRead α)}
    (h : ∀ read ∈ reads, read.Inquires P view) (n : Nat) :
    (rounds co reads n).Ensures P view fun _ => True := by
  induction n generalizing co reads with
  | zero => exact Work.ensures_pure trivial
  | succ n ih =>
    unfold rounds
    split
    · exact Work.ensures_pure trivial
    · exact (ensures_round lookups co 0 h).bind fun r hr => ih r.1 hr

end JoinedRead

theorem Session.ensures_joinAll {starts : List (Work (Reading α))}
    (h : ∀ start ∈ starts, start.Inquires P view) :
    (joinAll starts).Ensures P view fun _ => True := by
  refine (JoinedRead.ensures_rounds lookups ∅ (fun read hread => ?_) _).bind fun _ _ =>
    Work.ensures_pure trivial
  obtain ⟨start, hstart, rfl⟩ := List.mem_map.1 hread
  exact h start hstart

end Lookups

end DocStore

import DocStore.Proofs.Waiting

/-!
# Loads of tracked documents

A load of a document that a session tracks is answered from what is tracked, any
other from storage. Only storage says of which type a document is, so the two
ways agree where the document is of the type asked for and its content still
reads as what is tracked. Whatever was called on a session, what it tracks was
read from the content tracked with it, or written to it.
-/

set_option autoImplicit false

namespace DocStore

/-- Content that was read as some JSON, or written from it. -/
def ContentSerializer.Relates (serializer : ContentSerializer) (content : String)
    (json : Json) : Prop :=
  serializer.deserialize content = .ok json ∨ serializer.serialize json = .ok content

/-- A save waits with the content that its JSON was written to. -/
def Pending.Written (serializer : ContentSerializer) : Pending → Prop
  | .save _ _ json content => serializer.serialize json = .ok content
  | .delete .. => True

theorem Call.proposes_written (settings : Settings) (call : Call) :
    call.Proposes settings (Pending.Written settings.serializer) := by
  cases call with
  | save => exact fun _ _ written => written
  | _ => trivial

/-- All that a plan has a session know relates to its content. -/
def FlushPlan.Relates (serializer : ContentSerializer) (plan : FlushPlan) : Prop :=
  ∀ key t, (key, some t) ∈ plan.applied → serializer.Relates t.content t.json

theorem FlushPlan.Relates.add {serializer : ContentSerializer} {plan : FlushPlan}
    (relates : plan.Relates serializer) (arena : Arena) (key : DocKey) {known : Option Tracked}
    (h : ∀ t ∈ known, serializer.Relates t.content t.json) :
    (plan.add arena key known).Relates serializer := by
  intro key' t mem
  rcases List.mem_append.1 mem with mem | mem
  · exact relates key' t mem
  · cases List.mem_singleton.1 mem
    exact h t rfl

/-- A session of a store that tracks every document with JSON that relates to its content. -/
structure Session.Legible (settings : Settings) (session : Session) : Prop where
  same : session.settings = settings
  relates : ∀ key t, session.tracked.get? key = some t →
    settings.serializer.Relates t.content t.json

namespace Session

variable {settings : Settings} {session session' : Session}

theorem Legible.congr (legible : session.Legible settings)
    (same : session'.knowledge = session.knowledge) : session'.Legible settings := by
  obtain ⟨settings', tracked'⟩ := Prod.mk.inj same
  exact ⟨settings'.trans legible.same, fun key t hkey => legible.relates key t (tracked' ▸ hkey)⟩

theorem learnable_legible {E : Event → Prop} : Learnable E settings (Legible settings) :=
  learnable_of_tracked (fun _ => ⟨fun h => ⟨h.same, h.relates⟩, fun h => ⟨h.1, h.2⟩⟩)
    fun _ _ _ _ _ read => .inl read

/-! ## Flushes -/

section Flush

variable {serializer : ContentSerializer} {plan : FlushPlan}

theorem relates_planSave (relates : plan.Relates serializer) {ds : List Descriptor} {key : DocKey}
    {typeName content : String} {json : Json} (written : serializer.serialize json = .ok content)
    {old : Option Tracked} {plan' : FlushPlan}
    (h : session.planSave plan ds key typeName json content old = .ok plan') :
    plan'.Relates serializer := by
  have known (version : Int64) : ∀ t ∈ some (⟨content, json, version⟩ : Tracked),
      serializer.Relates t.content t.json := by
    rintro t ⟨⟩
    exact .inr written
  cases old with
  | none =>
    obtain ⟨arena, _, added⟩ := bind_eq_ok_iff.1 h
    cases added
    exact relates.add arena key (known 1)
  | some old =>
    rw [planSave] at h
    split at h
    · cases h
      exact relates
    · obtain ⟨arena, _, added⟩ := bind_eq_ok_iff.1 h
      cases added
      exact relates.add arena key (known (old.version + 1))

theorem relates_planChange (relates : plan.Relates serializer) {change : Pending}
    (written : change.Written serializer) :
    (planChange plan change).Ensures (fun _ => True) (fun _ => ())
      (FlushPlan.Relates serializer) := by
  have loads (key : DocKey) : (lastStored key).Ensures (fun _ => True)
      (fun _ => ()) fun _ => True :=
    ensures_lastStored Request.hasLookups_any (fun _ _ => rfl) key
  have describes (typeName collection : String) :
      (Action.descriptors typeName collection).Asks fun _ => True :=
    Program.asks_request trivial
  cases change with
  | delete key typeName =>
    refine Work.ensures_get_bind fun session => (loads key).bind fun old _ => ?_
    cases old with
    | none => exact Work.ensures_pure relates
    | some old =>
      refine Work.ensures_ofAction_bind (describes _ _) fun ds =>
        Work.ensures_ofExcept fun plan' h => ?_
      obtain ⟨arena, _, added⟩ := bind_eq_ok_iff.1 h
      cases added
      exact relates.add _ key (fun _ known => by cases known)
  | save key typeName json content =>
    rw [planChange_save]
    refine Work.ensures_get_bind fun session =>
      Work.ensures_ofAction_bind (describes _ _) fun ds => ?_
    refine Work.Ensures.bind (Q := fun _ => True) ?_ fun old _ =>
      Work.ensures_ofExcept fun plan' h => relates_planSave relates written h
    split
    · exact Work.ensures_pure trivial
    · exact loads key

theorem relates_planChanges (relates : plan.Relates serializer) {changes : List Pending}
    (written : ∀ change ∈ changes, change.Written serializer) :
    (planChanges plan changes).Ensures (fun _ => True) (fun _ => ())
      (FlushPlan.Relates serializer) := by
  induction changes generalizing plan with
  | nil => exact Work.ensures_pure relates
  | cons change changes ih =>
    obtain ⟨first, rest⟩ := List.forall_mem_cons.1 written
    exact (relates_planChange relates first).bind fun plan' relates' => ih relates' rest

/-- What is written is tracked as it waited. -/
theorem Legible.flush {events : List Event} {result : Except Error Unit}
    (legible : session.Legible settings)
    (waits : session.Waits settings (Pending.Written settings.serializer))
    (h : Work.Emits flush session events result session') : session'.Legible settings := by
  have loaded {plan : Except Error FlushPlan} {planning : List Event} {planned : Session}
      (plans : Work.Emits (planChanges ∅ session.pending) session planning plan planned) :
      planned.Legible settings :=
    ((learns_planChanges (E := fun _ => True) ∅ session.pending).of_emits learnable_legible legible
      plans fun _ _ => trivial).1
  rcases cases_of_flush h with
    ⟨_, rfl⟩ | ⟨error, planned, same, _, failed⟩ | ⟨planning, rest, plan, planned, _,
      plans, proceeds⟩
  · exact legible
  · exact (loaded failed).congr same
  · have relates : plan.Relates settings.serializer :=
      ((relates_planChanges (fun _ _ h => by cases h) waits.each).of_emits plans).2.2 plan rfl
    cases proceeds with
    | stops _ same => exact (loaded plans).congr same
    | sends _ _ _ same =>
      cases result with
      | error error => exact (loaded plans).congr same
      | ok =>
        have remembers : (planned.remember plan.applied).Legible settings :=
          ⟨(loaded plans).same, forall_remember (loaded plans).relates relates⟩
        exact remembers.congr same

end Flush

/-- Whatever is called on a session, it tracks every document with JSON that
relates to its content. -/
theorem Legible.call {call : Call} {events : List Event} {result : Except Error Unit}
    (legible : session.Legible settings)
    (waits : session.Waits settings (Pending.Written settings.serializer))
    (h : Work.Emits call.work session events result session') : session'.Legible settings := by
  have any {events : List Event} : ∀ e ∈ events, (fun _ : Event => True) e := fun _ _ => trivial
  by_cases flushes : call = .flush
  · subst flushes
    exact legible.flush waits h
  · by_cases saves : call = .saveChanges
    · subst saves
      rcases Work.emits_bind_iff.1 h with
        ⟨error, rfl, failed⟩ | ⟨_, middle, first, rest, rfl, flushed, concluded⟩
      · exact legible.flush waits failed
      · exact (learns_conclude.of_emits learnable_legible (legible.flush waits flushed)
          concluded any).1
    · exact ((Call.learns_work flushes saves).of_emits learnable_legible legible h any).1

theorem Legible.history {calls : List Called} (legible : session.Legible settings)
    (waits : session.Waits settings (Pending.Written settings.serializer))
    (h : History session calls session') : session'.Legible settings := by
  induction h with
  | nil => exact legible
  | cons emits _ ih =>
    have waits' := (Call.waits_work (Call.proposes_written settings _)).of_emits waits
      emits fun _ _ => trivial
    exact ih (legible.call waits emits) waits'.1

/-! ## Loads -/

/-- What a load of a document answers, against given surroundings. -/
def load {σ : Type} (answer : Answerer σ) (s : σ) (entity : EntityType) (key : DocKey)
    (session : Session) : Except Error (Option Json) :=
  (Program.run answer ((Reading.alone (get entity key.collection key.id)).run.run session) s).1.1

/-- The session, had it never seen a document. -/
def forgetting (session : Session) (key : DocKey) : Session :=
  { session with tracked := session.tracked.erase key }

/-- How a load of a document goes on with the rows found. -/
def found (entity : EntityType) (key : DocKey) : List Row → Work (Option Json)
  | [] => pure none
  | row :: _ => do
    let doc ← Work.ofExcept (Document.ofRow row)
    if doc.typeName ≠ entity.name then pure none
    else do
      let json ← track key.collection doc
      let e ← Work.ofExcept (entity.read json)
      pure (some e)

section Load

theorem run_get (entity : EntityType) (key : DocKey) (session : Session) :
    (get entity key.collection key.id).run.run session = ((match session.pendingChange key with
      | some (.save _ _ json _) => do
        let e ← Work.ofExcept (entity.read json)
        pure (.answered (some e))
      | some (.delete _ _) => pure (.answered none)
      | none => match session.tracked.get? key with
        | some known => do
          let e ← Work.ofExcept (entity.read known.json)
          pure (.answered (some e))
        | none => pure (.asking (session.documentStatement key) (found entity key)) :
            Work (Reading (Option Json)))).run.run
          session := by
  have same : (fun rows => match rows with
      | [] => pure none
      | row :: _ => do
        let doc ← Work.ofExcept (Document.ofRow row)
        if doc.typeName ≠ entity.name then pure none
        else do
          let json ← track key.collection doc
          let e ← Work.ofExcept (entity.read json)
          pure (some e)) = found entity key := by
    funext rows
    cases rows <;> rfl
  rw [← same]
  rfl

variable {σ : Type} {answer : Answerer σ} {s s' : σ} {entity : EntityType} {key : DocKey}
  (unchanged : session.pendingChange key = none)
include unchanged

/-- A document that is tracked is read as it is tracked, whatever its type. -/
theorem load_of_tracked {known : Tracked} (tracked : session.tracked.get? key = some known) :
    session.load answer s entity key = some <$> entity.read known.json := by
  have begun : (get entity key.collection key.id).run.run session =
      (do let e ← Work.ofExcept (entity.read known.json)
          pure (.answered (some e)) : Work (Reading (Option Json))).run.run session := by
    rw [run_get, unchanged, tracked]
  rw [load, Reading.alone, Work.run_bind, begun]
  cases entity.read known.json <;> rfl

/-- A document that is not tracked is looked up. -/
theorem load_of_answered {rows : List Row} (untracked : session.tracked.get? key = none)
    (answered : answer (.query session.connection (session.documentStatement key)) s =
      (.ok rows, s')) :
    session.load answer s entity key =
    (Program.run answer ((found entity key rows).run.run session) s').1.1 := by
  have begun : (get entity key.collection key.id).run.run session =
      (pure (.asking (session.documentStatement key) (found entity key)) :
        Work (Reading (Option Json))).run.run session := by
    rw [run_get, unchanged, untracked]
  have asked : Program.run answer ((Work.query (session.documentStatement key)).run.run session) s =
      ((.ok rows, session), s') := by
    rw [show Program.run answer ((Work.query (session.documentStatement key)).run.run session) s =
      (((answer (.query session.connection (session.documentStatement key)) s).1, session),
        (answer (.query session.connection (session.documentStatement key)) s).2) from rfl,
        answered]
  rw [load, Reading.alone, Work.run_bind, begun]
  change (Program.run answer ((Work.query _ >>= found entity key).run.run session) s).1.1 = _
  rw [Work.run_bind, asked]

/-- Where nothing is stored nothing is loaded. -/
theorem load_of_missing (untracked : session.tracked.get? key = none)
    (missing : answer (.query session.connection (session.documentStatement key)) s =
      (.ok [], s')) :
    session.load answer s entity key = .ok none := by
  rw [load_of_answered unchanged untracked missing]
  rfl

/-- A stored document is read if it is of the type that is asked for. -/
theorem load_of_stored {row : Row} {rest : List Row} {typeName content : String} {version : Int64}
    (untracked : session.tracked.get? key = none)
    (stored : answer (.query session.connection (session.documentStatement key)) s =
      (.ok (row :: rest), s'))
    (shows : Document.ofRow row = .ok ⟨key.id, typeName, content, version⟩) :
    session.load answer s entity key = if typeName = entity.name then
      some <$> (session.settings.serializer.deserialize content >>= entity.read) else .ok none := by
  have read : found entity key (row :: rest) = (do
      if typeName ≠ entity.name then pure none
      else do
        let json ← track key.collection ⟨key.id, typeName, content, version⟩
        let e ← Work.ofExcept (entity.read json)
        pure (some e)) := by
    rw [found, shows]
    rfl
  rw [load_of_answered unchanged untracked stored, read]
  by_cases same : typeName = entity.name
  · rw [if_neg (not_not.2 same), if_pos same, Work.run_bind, run_track]
    simp only [untracked]
    cases session.settings.serializer.deserialize content with
    | error e => rfl
    | ok json =>
      change (Program.run answer
          ((Work.ofExcept (entity.read json) >>= fun e => pure (some e)).run.run _) s').1.1 =
        some <$> entity.read json
      cases entity.read json <;> rfl
  · rw [if_pos same, if_neg same]
    rfl

end Load

/-- Whatever was called on a session, a document that it tracks and that is stored as it is tracked
is loaded as if it were not tracked just if it is of the type asked for and its content reads as
what is tracked; and what is tracked was read from that content, or written to it. -/
theorem Run.load_eq_iff (r : Run settings) {σ : Type} {answer : Answerer σ} {s s' : σ}
    {key : DocKey} {known : Tracked} (unchanged : r.last.pendingChange key = none)
    (tracked : r.last.tracked.get? key = some known) {row : Row} {rest : List Row}
    {typeName : String}
    (stored : answer (.query r.last.connection (r.last.documentStatement key)) s =
      (.ok (row :: rest), s'))
    (shows : Document.ofRow row = .ok ⟨key.id, typeName, known.content, known.version⟩)
    (entity : EntityType) :
    (r.last.load answer s entity key = (r.last.forgetting key).load answer s entity key ↔
      typeName = entity.name ∧
        (settings.serializer.deserialize known.content >>= entity.read) = entity.read known.json) ∧
      settings.serializer.Relates known.content known.json := by
  obtain ⟨conn, _, first⟩ := r.eq_of_connects
  have opened : r.first.Legible settings := by
    rw [first]
    exact ⟨rfl, fun _ _ known => by cases known⟩
  have waits : r.first.Waits settings (Pending.Written settings.serializer) := by
    rw [first]
    exact ⟨rfl, List.nodup_nil, fun _ waits => by cases waits⟩
  have legible : r.last.Legible settings := opened.history waits r.history
  have forgotten : (r.last.forgetting key).tracked.get? key = none := by
    rw [forgetting, Assoc.get?_erase, if_pos rfl]
  refine ⟨?_, legible.relates key known tracked⟩
  have reads : (r.last.forgetting key).settings.serializer = settings.serializer :=
    congrArg Settings.serializer legible.same
  have waiting : (r.last.forgetting key).pendingChange key = none := unchanged
  rw [load_of_tracked unchanged tracked, load_of_stored waiting forgotten stored shows, reads]
  by_cases same : typeName = entity.name
  · rw [if_pos same]
    cases settings.serializer.deserialize known.content >>= entity.read <;>
        cases entity.read known.json <;>
      simp [same, Functor.map, Except.map, eq_comm]
  · rw [if_neg same]
    cases entity.read known.json <;> simp [same, Functor.map, Except.map]

end Session

namespace Counting

/-- Authors are read like articles. -/
def author : EntityType := { entity with name := "Author" }

/-- An article is loaded as one. -/
def viewed : Session.Run settings :=
  .recorded store.answer [.read (.get entity "" 7)] (by simp) kept

/-- As an article it is loaded again; as an author it would not be found, but the session
that tracks it finds it. -/
theorem load_viewed :
    viewed.last.load store.answer kept entity ⟨"", 7⟩ = .ok (some (dated 7 1)) ∧
      viewed.last.load store.answer kept entity ⟨"", 7⟩ =
        (viewed.last.forgetting ⟨"", 7⟩).load store.answer kept entity ⟨"", 7⟩ ∧
      viewed.last.load store.answer kept author ⟨"", 7⟩ = .ok (some (dated 7 1)) ∧
      viewed.last.load store.answer kept author ⟨"", 7⟩ ≠
        (viewed.last.forgetting ⟨"", 7⟩).load store.answer kept author ⟨"", 7⟩ := by
  have tracked : viewed.last.tracked.get? ⟨"", 7⟩ = some ⟨(dated 7 1).text, dated 7 1, 3⟩ := by rfl
  have stored :
      store.answer (.query viewed.last.connection (viewed.last.documentStatement ⟨"", 7⟩)) kept =
      (.ok [Row.document 7 ⟨"Article", ⟨(dated 7 1).text, dated 7 1, 3⟩⟩], kept) := by rfl
  have unchanged : viewed.last.pendingChange ⟨"", 7⟩ = none := rfl
  have loads (asked : EntityType) :=
    viewed.load_eq_iff unchanged tracked stored (Document.ofRow_document 7 _) asked
  exact ⟨by rfl, (loads entity).1.2 ⟨rfl, by rfl⟩, by rfl,
    fun same => absurd ((loads author).1.1 same).1 (by decide)⟩

end Counting

end DocStore

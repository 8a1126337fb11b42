import DocStore.Proofs.Flushing

/-!
# The changes that wait

Whatever is called on a session, at most one change waits for each document, and
every change that waits was proposed by a save or a delete. `Session.Waits` says
of all of them what the calls have proposed.
-/

set_option autoImplicit false

namespace DocStore

/-- A session of a store of which every waiting change is of a kind, and no two
are about one document. -/
structure Session.Waits (settings : Settings) (P : Pending → Prop) (session : Session) : Prop where
  same : session.settings = settings
  once : (session.pending.map Pending.key).Nodup
  each : ∀ change ∈ session.pending, P change

/-- The changes that a call proposes are of a kind. -/
def Call.Proposes (settings : Settings) (P : Pending → Prop) : Call → Prop
  | .save entity collection _ => ∀ json text, settings.serializer.serialize json = .ok text →
      P (.save ⟨collection, entity.id json⟩ entity.name json text)
  | .delete entity collection content => P (.delete ⟨collection, entity.id content⟩ entity.name)
  | _ => True

theorem Work.Keeps.tryCatch {α : Type} {E : Event → Prop} {I : Session → Prop} {Q : α → Prop}
    {w : Work α} {handle : Error → Work α} (hw : Keeps E I Q w)
    (failed : ∀ e, Keeps E I Q (handle e)) : Keeps E I Q (MonadExcept.tryCatch w handle) := by
  intro session hi
  refine Program.Given.bind (hw session hi) fun r => ?_
  rintro ⟨hi', hq⟩
  obtain ⟨e | x, middle⟩ := r
  · exact failed e middle hi'
  · exact ⟨hi', hq⟩

namespace Session

variable {settings : Settings} {P : Pending → Prop} {E : Event → Prop} {session session' : Session}

/-- The part of a session on which depends what waits. -/
def waiting (session : Session) : Settings × List Pending := (session.settings, session.pending)

theorem Waits.congr (waits : session.Waits settings P) (same : session'.waiting = session.waiting) :
    session'.Waits settings P := by
  obtain ⟨settings', pending'⟩ := Prod.mk.inj same
  exact ⟨settings'.trans waits.same, pending' ▸ waits.once, pending' ▸ waits.each⟩

theorem Waits.withPending (waits : session.Waits settings P) {change : Pending}
    (proposed : P change) : (session.withPending change).Waits settings P := by
  refine ⟨waits.same, nodup_withPending waits.once change, fun change' h => ?_⟩
  rcases mem_withPending h with rfl | h
  · exact proposed
  · exact waits.each change' h

theorem Waits.withoutPending (waits : session.Waits settings P) (key : DocKey) :
    (session.withoutPending key).Waits settings P :=
  ⟨waits.same, nodup_withoutPending waits.once key, fun change h =>
    waits.each change (List.mem_filter.1 h).1⟩

/-- Work that neither adds to what waits nor flushes it. -/
theorem keeps_waits {α : Type} {Req : Request → Prop} {Q : α → Prop} {w : Work α}
    (h : w.Ensures Req waiting Q) :
    w.Keeps E (Waits settings P) Q := h.keeps fun _ _ same waits => waits.congr same

theorem untracked_waiting : Untracked waiting := fun _ _ => rfl

theorem waits_identify (entity : EntityType) (collection : String) (content : Json) :
    (identify entity collection content).Keeps E (Waits settings P) fun _ => True := by
  refine Work.keeps_get_bind fun session _ => ?_
  dsimp only
  split
  · refine (Work.keeps_request _).bind fun id _ => ?_
    refine (Work.keeps_modify fun _ waits => ?_).bind fun _ _ => Work.keeps_pure trivial
    exact waits.congr rfl
  · exact (Work.keeps_request _).bind fun _ _ => Work.keeps_pure trivial

theorem waits_save {entity : EntityType} {collection : String} (content : Json)
    (proposes : ∀ json text, settings.serializer.serialize json = .ok text →
      P (.save ⟨collection, entity.id json⟩ entity.name json text)) :
    (save entity collection content).Keeps E (Waits settings P) fun _ => True := by
  refine (waits_identify entity collection content).bind fun json _ =>
    Work.keeps_get_bind fun session waits => ?_
  refine Work.keeps_ofExcept_bind fun text written => ?_
  rw [waits.same] at written
  exact (Work.keeps_modify fun _ waits => waits.withPending (proposes json text written)).bind
    fun _ _ => Work.keeps_pure trivial

theorem waits_delete {entity : EntityType} {collection : String} {content : Json}
    (proposes : P (.delete ⟨collection, entity.id content⟩ entity.name)) :
    (delete entity collection content).Keeps E (Waits settings P) fun _ => True := by
  refine (Work.keeps_modify fun _ waits => waits.withoutPending _).bind fun _ _ =>
    Work.keeps_get_bind fun session _ => ?_
  split
  · exact Work.keeps_modify fun _ waits => waits.congr rfl
  · exact Work.keeps_modify fun _ waits => waits.withPending proposes

/-- A flush leaves what waits, or nothing. -/
theorem waits_flush : flush.Keeps E (Waits settings P) fun _ => True := by
  have written (plan : FlushPlan) (session : Session) :
      (session.runPlan plan).Keeps E (Waits settings P) fun _ => True := by
    refine (Work.keeps_request _).bind fun _ _ =>
      (Work.keeps_request _).bind fun _ _ => Work.keeps_modify fun _ waits => ?_
    exact ⟨waits.same, List.nodup_nil, fun _ h => by cases h⟩
  have begun : begin.Keeps E (Waits settings P) fun _ => True := by
    refine Work.keeps_get_bind fun session _ => ?_
    split
    · exact Work.keeps_pure trivial
    · exact (Work.keeps_request _).bind fun _ _ => Work.keeps_modify fun _ waits => waits.congr rfl
  have pending : flushPending.Keeps E (Waits settings P) fun _ => True := by
    rw [flushPending_eq]
    refine Work.keeps_get_bind fun session _ => ?_
    refine (keeps_waits (ensures_planChanges Request.hasLookups_any untracked_waiting ∅
      session.pending)).bind fun plan _ => ?_
    split
    · exact written plan session
    · exact begun.bind fun _ _ => written plan session
  refine Work.keeps_get_bind fun session _ => ?_
  split
  · exact Work.keeps_pure trivial
  · refine pending.tryCatch fun e =>
      (Work.keeps_modify fun _ waits => waits.congr rfl).bind fun _ _ => ?_
    exact fun session waits => ⟨waits, fun _ same => by cases same⟩

theorem waits_rollback : rollback.Keeps E (Waits settings P) fun _ => True := by
  refine Work.keeps_get_bind fun session _ => ?_
  split
  · refine (Work.keeps_modify fun _ waits => waits.congr rfl).bind fun _ _ => ?_
    exact Work.keeps_request _
  · exact Work.keeps_pure trivial

theorem waits_conclude : conclude.Keeps E (Waits settings P) fun _ => True := by
  refine Work.keeps_get_bind fun session _ => ?_
  split
  · exact waits_rollback
  · split
    · refine (Work.keeps_modify fun _ waits => waits.congr rfl).bind fun _ _ => ?_
      exact Work.keeps_request _
    · exact Work.keeps_pure trivial

end Session

/-- What waits after a call is of a kind, if what waited was and what the call proposes is. -/
theorem Call.waits_work {settings : Settings} {P : Pending → Prop} {E : Event → Prop} {call : Call}
    (proposes : call.Proposes settings P) :
    call.work.Keeps E (Session.Waits settings P) fun _ => True := by
  cases call with
  | save entity collection content =>
    exact (Session.waits_save content proposes).bind fun _ _ => Work.keeps_pure trivial
  | delete entity collection content => exact Session.waits_delete proposes
  | read q =>
    have inquires := q.inquires Request.hasLookups_any Session.untracked_waiting
    exact Session.keeps_waits ((Reading.ensures_alone Request.hasLookups_any inquires).bind
      fun _ _ => Work.ensures_pure trivial)
  | join qs =>
    refine Session.keeps_waits
      ((Session.ensures_joinAll Request.hasLookups_any fun start hstart => ?_).bind fun _ _ =>
        Work.ensures_pure trivial)
    obtain ⟨q, _, rfl⟩ := List.mem_map.1 hstart
    exact q.inquires Request.hasLookups_any Session.untracked_waiting
  | flush => exact Session.waits_flush
  | saveChanges => exact Session.waits_flush.bind fun _ _ => Session.waits_conclude
  | cancel => exact Work.keeps_modify fun _ waits => waits.congr rfl
  | close => exact Session.waits_rollback

namespace Session

variable {settings : Settings} {P : Pending → Prop} {session session' : Session}

theorem Run.waits_first (r : Run settings) (P : Pending → Prop) : r.first.Waits settings P := by
  obtain ⟨conn, _, first⟩ := r.eq_of_connects
  rw [first]
  exact ⟨rfl, List.nodup_nil, fun _ waits => by cases waits⟩

/-- If all that can be called proposes changes of a kind, only such changes
wait, whatever is called. -/
theorem Waits.history (waits : session.Waits settings P) {calls : List Called}
    (h : History session calls session') (proposes : ∀ call : Call, call.Proposes settings P) :
    session'.Waits settings P := by
  induction h with
  | nil => exact waits
  | cons emits _ ih =>
    exact ih ((Call.waits_work (proposes _)).of_emits waits emits fun _ _ => trivial).1

end Session

end DocStore

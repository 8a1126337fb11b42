import DocStore.Proofs.Flushing
import DocStore.Proofs.Sendings

/-!
# Flushes that fail

A flush writes nothing before it has worked everything out: what is stored of
each document that it changes, the rows that their contents map to, and what
becomes of every group that these rows touch. So whatever fails on the way fails
before a write; and a write that fails is the last. In memory a flush that failed
leaves only the documents that it has loaded, and the session cancelled.
-/

set_option autoImplicit false

namespace DocStore

variable {α β : Type}

/-! ## What is loaded -/

namespace Session

/-- A document as it was found by a query for one of its collection. -/
def Finds (session : Session) (E : Event → Prop) (key : DocKey) (t : Tracked) : Prop :=
  ∃ sought row rest typeName, sought.collection = key.collection ∧
    E ⟨.query session.connection (session.documentStatement sought), .ok (row :: rest)⟩ ∧
      Document.ofRow row = .ok ⟨key.id, typeName, t.content, t.version⟩ ∧
        session.settings.serializer.deserialize t.content = .ok t.json

/-- A query for a document has found none, or one of another id. -/
def Misses (session : Session) (E : Event → Prop) (key : DocKey) : Prop :=
  ∃ rows, E ⟨.query session.connection (session.documentStatement key), .ok rows⟩ ∧
    ∀ row, rows.head? = some row → ∃ doc, Document.ofRow row = .ok doc ∧ doc.id ≠ key.id

/-- A session has loaded documents that were found, and nothing else of it differs. -/
structure Extends (E : Event → Prop) (session session' : Session) : Prop where
  loads : session.Loads session'
  found : ∀ key t, session'.tracked.get? key = some t →
    session.tracked.get? key = some t ∨ session.Finds E key t

variable {E : Event → Prop} {session session₁ session' : Session} {events : List Event}
  {key : DocKey}

theorem Extends.refl (E : Event → Prop) (session : Session) : Extends E session session :=
  ⟨.refl session, fun _ _ known => .inl known⟩

theorem Extends.trans (h : Extends E session session₁) (h' : Extends E session₁ session') :
    Extends E session session' := by
  refine ⟨h.loads.trans h'.loads, fun key t known => ?_⟩
  obtain ⟨_, rfl, _⟩ := h.loads
  rcases h'.found key t known with known | found
  · exact h.found key t known
  · exact .inr found

end Session

namespace Work

/-- The operation only loads documents, however it ends. -/
def Grows (E : Event → Prop) (w : Work α) : Prop :=
  ∀ ⦃session events result session'⦄, w.Emits session events result session' → (∀ e ∈ events, E e) →
    session.Extends E session'

variable {E : Event → Prop} {session session' : Session} {events : List Event}

theorem grows_ofAction (a : Action α) : (ofAction a).Grows E := by
  intro session events result session' h _
  obtain ⟨rfl, _⟩ := emits_ofAction_iff.1 h
  exact .refl E _

theorem grows_pure (x : α) : (pure x : Work α).Grows E := by
  intro session events result session' h _
  obtain ⟨_, _, rfl⟩ := emits_pure_iff.1 h
  exact .refl E _

theorem Grows.bind {w : Work α} {f : α → Work β} (hw : w.Grows E) (hf : ∀ x, (f x).Grows E) :
    (w >>= f).Grows E := by
  intro session events result session' h all
  rcases emits_bind_iff.1 h with ⟨_, _, failed⟩ | ⟨x, middle, first, rest, rfl, asked, next⟩
  · exact hw failed all
  · obtain ⟨before, after⟩ := List.forall_mem_append.1 all
    exact (hw asked before).trans (hf x next after)

theorem grows_get_bind {f : Session → Work β} (h : ∀ session, (f session).Grows E) :
    (get >>= f).Grows E :=
  fun session _ _ _ emits => h session (emits_get_bind_iff.1 emits)

end Work

namespace Session

variable {E : Event → Prop} {session session' : Session} {events : List Event} {key : DocKey}

/-- Tracking a document that was found. -/
theorem extends_of_track {collection : String} {doc : Document} {result : Except Error Json}
    (h : Work.Emits (track collection doc) session events result session')
    (found : ∀ json, session.settings.serializer.deserialize doc.content = .ok json →
      session.Finds E ⟨collection, doc.id⟩ ⟨doc.content, json, doc.version⟩) :
    session.Extends E session' := by
  have run := Work.emits_get_bind_iff.1 h
  dsimp only at run
  split at run
  · obtain ⟨_, _, rfl⟩ := Work.emits_pure_iff.1 run
    exact .refl E _
  · next unknown =>
    rcases Work.emits_bind_iff.1 run with
      ⟨_, _, failed⟩ | ⟨json, middle, first, rest, rfl, read, run₁⟩
    · obtain ⟨rfl, _⟩ := Work.emits_ofAction_iff.1 failed
      exact .refl E _
    · obtain ⟨means, rfl, rfl⟩ := Work.emits_ok_ofExcept_iff.1 read
      have run₂ := Work.emits_modify_bind_iff.1 run₁
      obtain ⟨_, _, rfl⟩ := Work.emits_pure_iff.1 run₂
      refine ⟨⟨_, rfl, fun key t known => ?_⟩, fun key t known => ?_⟩
      · rw [Assoc.get?_insert]
        split
        · next same =>
          rw [← same, unknown] at known
          cases known
        · exact known
      · rw [Assoc.get?_insert] at known
        split at known
        · next same =>
          cases known
          subst same
          exact .inr (found json means)
        · exact .inl known

theorem grows_lastStored (key : DocKey) : (lastStored key).Grows E := by
  intro session events result session' h all
  have run := Work.emits_get_bind_iff.1 h
  split at run
  · obtain ⟨_, _, rfl⟩ := Work.emits_pure_iff.1 run
    exact .refl E _
  · rcases Work.emits_bind_iff.1 run with
      ⟨_, _, failed⟩ | ⟨rows, middle, first, rest, rfl, queried, run₁⟩
    · obtain ⟨rfl, _⟩ := Work.emits_ofAction_iff.1 (Work.emits_get_bind_iff.1 failed)
      exact .refl E _
    · obtain ⟨rfl, asked⟩ := Work.emits_ofAction_iff.1 (Work.emits_get_bind_iff.1 queried)
      obtain rfl := Program.emits_request_iff.1 asked
      split at run₁
      · obtain ⟨_, _, rfl⟩ := Work.emits_pure_iff.1 run₁
        exact .refl E _
      · next row others =>
        rcases Work.emits_bind_iff.1 run₁ with
          ⟨_, _, failed⟩ | ⟨doc, middle₁, first, rest, rfl, read, run₂⟩
        · obtain ⟨rfl, _⟩ := Work.emits_ofAction_iff.1 failed
          exact .refl E _
        · obtain ⟨isRead, rfl, rfl⟩ := Work.emits_ok_ofExcept_iff.1 read
          have found : ∀ json, middle₁.settings.serializer.deserialize doc.content = .ok json →
              middle₁.Finds E ⟨key.collection, doc.id⟩ ⟨doc.content, json, doc.version⟩ :=
            fun json means => ⟨key, row, others, doc.typeName, rfl, all _ (by simp), isRead, means⟩
          rcases Work.emits_bind_iff.1 run₂ with
            ⟨_, _, failed⟩ | ⟨_, middle₂, first, rest, rfl, tracks, run₃⟩
          · exact extends_of_track failed found
          · have run₄ := Work.emits_get_bind_iff.1 run₃
            obtain ⟨_, _, rfl⟩ := Work.emits_pure_iff.1 run₄
            exact extends_of_track tracks found

theorem grows_planChange (plan : FlushPlan) (change : Pending) :
    (planChange plan change).Grows E := by
  cases change with
  | delete key typeName =>
    refine Work.grows_get_bind fun session => (grows_lastStored key).bind fun old => ?_
    split
    · exact Work.grows_pure _
    · exact (Work.grows_ofAction _).bind fun _ => Work.grows_ofAction _
  | save key typeName json content =>
    rw [planChange_save]
    refine Work.grows_get_bind fun session => (Work.grows_ofAction _).bind fun ds => ?_
    refine Work.Grows.bind ?_ fun _ => Work.grows_ofAction _
    split
    · exact Work.grows_pure _
    · exact grows_lastStored key

theorem grows_planChanges (plan : FlushPlan) (changes : List Pending) :
    (planChanges plan changes).Grows E := by
  induction changes generalizing plan with
  | nil => exact Work.grows_pure _
  | cons change changes ih => exact (grows_planChange plan change).bind ih

end Session

/-! ## What is worked out -/

/-- A content maps to rows, of which each has its column values, or its group
key if they are reduced. -/
def Descriptor.Handles (d : Descriptor) (content : Json) : Prop :=
  ∃ rows, d.mapContent content = .ok rows ∧ ∀ row ∈ rows,
    match d.kind with
    | .map => ∃ cells, d.index.cells row = .ok cells
    | .reduce => ∃ key, d.groupKey row = .ok key

/-- What an edit leaves of its document maps to rows, and so does what it takes away if
the rows are reduced. -/
structure Edit.Works (e : Edit) (d : Descriptor) : Prop where
  after : ∀ json, e.after = some json → d.Handles json
  before : d.kind = .reduce → ∀ json, e.before = some json → d.Handles json

/-- An edit of a document, with the descriptors of the document's type. -/
structure DescribedEdit where
  edit : Edit
  descriptors : List Descriptor

/-- A catalog in which every type has the same descriptors. -/
def Catalog.only (ds : List Descriptor) : Catalog := ⟨fun _ => True, fun _ _ => ds⟩

def DescribedEdit.plan (check : Bool) (p : FlushPlan) (e : DescribedEdit) :
    Except Error FlushPlan :=
  e.edit.plan check (.only e.descriptors) p

/-- What a pending change comes to: no edit of a document that is not stored or
is stored as it is to be, and otherwise an edit of what is known to be stored. -/
inductive Session.Settles (session : Session) (E : Event → Prop) (known : Assoc DocKey Tracked) :
    Pending → Option DescribedEdit → Prop
  | absent {key : DocKey} {typeName : String} :
      session.Misses E key → Settles session E known (.delete key typeName) none
  | deletes {key : DocKey} {typeName : String} {old : Tracked} {ds : List Descriptor} :
    known.get? key = some old → E ⟨.descriptors typeName key.collection, .ok ds⟩ →
      Settles session E known (.delete key typeName)
        (some ⟨.delete (session.names key.collection) key.id typeName old, ds⟩)
  | creates {key : DocKey} {typeName content : String} {json : Json} {ds : List Descriptor} :
    session.created.contains key = true ∨ session.Misses E key →
    E ⟨.descriptors typeName key.collection, .ok ds⟩ →
      Settles session E known (.save key typeName json content)
        (some ⟨.create (session.names key.collection) key.id typeName json content, ds⟩)
  | stays {key : DocKey} {typeName content : String} {json : Json} {old : Tracked} :
    session.created.contains key = false → known.get? key = some old → old.content = content →
      Settles session E known (.save key typeName json content) none
  | updates {key : DocKey} {typeName content : String} {json : Json} {old : Tracked}
      {ds : List Descriptor} :
    session.created.contains key = false → known.get? key = some old → old.content ≠ content →
      E ⟨.descriptors typeName key.collection, .ok ds⟩ →
        Settles session E known (.save key typeName json content)
        (some ⟨.update (session.names key.collection) key.id typeName json content old, ds⟩)

/-- The groups that were touched. -/
def Arena.groups (arena : Arena) : List (Buffer × Value) :=
  arena.buffers.flatMap fun b => b.keys.map fun key => (b, key)

/-- A group was looked up, and decided on by the rows that were found for it:
they were read, reduced, taken out of the aggregate and given column values. -/
def Buffer.Decides (b : Buffer) (conn : Connection) (dialect : Dialect) (E : Event → Prop)
    (key : Value) (c : Option Command) : Prop :=
  ∃ lookup found, b.lookup dialect key = .ok lookup ∧
    E ⟨.query conn lookup, .ok found⟩ ∧ b.outcome key found = .ok c

/-- All that a flush works out before it writes: the edits that its changes come
to and the rows that these map to, and the decision on every group that they touch. -/
inductive Session.WorksOut (session : Session) (E : Event → Prop) (known : Assoc DocKey Tracked) :
    List Command → Prop
  | intro {edits : List (Option DescribedEdit)} {plan : FlushPlan} {decided : List (Option Command)}
    (settled : List.Forall₂ (session.Settles E known) session.pending edits)
    (works : ∀ e ∈ edits.reduceOption, ∀ d ∈ e.descriptors, e.edit.Works d)
    (planned : edits.reduceOption.foldlM
      (DescribedEdit.plan session.settings.config.checkConcurrency) ∅ = .ok plan)
    (groups : List.Forall₂ (fun group =>
        group.1.Decides session.connection session.settings.dialect E group.2)
      plan.arena.groups decided) :
    WorksOut session E known (Command.inOrder (plan.arena.commands ++ decided.reduceOption))

/-! ### Contents -/

section Contents

variable {e : Edit} {d : Descriptor} {arena arena' : Arena} {names : TableNames} {id : Int64}
  {change : Change}
variable {content : Json} {rows : List Json}

theorem Descriptor.handles_of_createMapRows (kind : d.kind = .map)
    (mapped : d.mapContent content = .ok rows)
    (h : arena.createMapRows names d id rows = .ok arena') : d.Handles content := by
  obtain ⟨commands, collected, _⟩ := bind_eq_ok_iff.1 h
  refine ⟨rows, mapped, fun row hrow => ?_⟩
  obtain ⟨c, extracted⟩ := (mapM_eq_ok collected).2 row hrow
  obtain ⟨cells, hcells, _⟩ := map_eq_ok_iff.1 extracted
  rw [kind]
  exact ⟨cells, hcells⟩

theorem Descriptor.handles_of_collect (kind : d.kind = .reduce)
    (mapped : d.mapContent content = .ok rows)
    (h : arena.collect names d id change rows = .ok arena') : d.Handles content := by
  obtain ⟨entries, collected, _⟩ := bind_eq_ok_iff.1 h
  refine ⟨rows, mapped, fun row hrow => ?_⟩
  obtain ⟨r, keyed⟩ := (mapM_eq_ok collected).2 row hrow
  obtain ⟨key, hkey, _⟩ := map_eq_ok_iff.1 keyed
  rw [kind]
  exact ⟨key, hkey⟩

/-- Index work that is done is done for rows that the contents map to. -/
theorem Edit.works_of_work (h : e.work arena d = .ok arena') : e.Works d := by
  cases kind : d.kind with
  | map =>
    refine ⟨fun json left => ?_, fun reduced => by cases kind.symm.trans reduced⟩
    cases e with
    | create names id entity json content =>
      cases left
      simp only [work, Arena.created, kind] at h
      obtain ⟨rows, mapped, h⟩ := bind_eq_ok_iff.1 h
      exact Descriptor.handles_of_createMapRows kind mapped h
    | update names id entity json content old =>
      cases left
      simp only [work, Arena.updated, kind] at h
      obtain ⟨rows, mapped, h⟩ := bind_eq_ok_iff.1 h
      exact Descriptor.handles_of_createMapRows kind mapped h
    | delete names id entity old => cases left
  | reduce =>
    cases e with
    | create names id entity json content =>
      simp only [work, Arena.created, kind] at h
      obtain ⟨rows, mapped, h⟩ := bind_eq_ok_iff.1 h
      refine ⟨fun json left => ?_, fun _ json taken => by cases taken⟩
      cases left
      exact Descriptor.handles_of_collect kind mapped h
    | update names id entity json content old =>
      simp only [work, Arena.updated, kind] at h
      obtain ⟨oldRows, mappedOld, h⟩ := bind_eq_ok_iff.1 h
      obtain ⟨newRows, mappedNew, h⟩ := bind_eq_ok_iff.1 h
      obtain ⟨between, removed, added⟩ := bind_eq_ok_iff.1 h
      refine ⟨fun json left => ?_, fun _ json taken => ?_⟩
      · cases left
        exact Descriptor.handles_of_collect kind mappedNew added
      · cases taken
        exact Descriptor.handles_of_collect kind mappedOld removed
    | delete names id entity old =>
      simp only [work, Arena.deleted, kind] at h
      obtain ⟨rows, mapped, h⟩ := bind_eq_ok_iff.1 h
      refine ⟨fun json left => (by cases left), fun _ json taken => ?_⟩
      cases taken
      exact Descriptor.handles_of_collect kind mapped h

end Contents

/-! ### Changes -/

namespace DescribedEdit

variable {check : Bool} {p p' : FlushPlan} {es : List DescribedEdit} {e : DescribedEdit}

theorem works_of_plan (h : e.plan check p = .ok p') : ∀ d ∈ e.descriptors, e.edit.Works d := by
  intro d hd
  obtain ⟨_, _, work⟩ := exists_step_of_foldlM (Edit.work_of_plan h) d hd
  exact Edit.works_of_work work

theorem works_of_planned (h : es.foldlM (plan check) p = .ok p') :
    ∀ e ∈ es, ∀ d ∈ e.descriptors, e.edit.Works d := by
  intro e he
  obtain ⟨_, _, planned⟩ := exists_step_of_foldlM h e he
  exact works_of_plan planned

end DescribedEdit

namespace Session

variable {E : Event → Prop} {session session' : Session} {events : List Event} {key : DocKey}
  {change : Pending}
variable {plan plan' : FlushPlan} {edit : Option DescribedEdit}

theorem Settles.mono {session₁ : Session} (h : session.Settles E session₁.tracked change edit)
    (loads : session₁.Loads session') : session.Settles E session'.tracked change edit := by
  cases h with
  | absent missing => exact .absent missing
  | deletes old described => exact .deletes (loads.get? old) described
  | creates new described => exact .creates new described
  | stays stored old same => exact .stays stored (loads.get? old) same
  | updates stored old differs described => exact .updates stored (loads.get? old) differs described

/-- What a change comes to does not depend on documents loaded before. -/
theorem Settles.of_loads {known : Assoc DocKey Tracked} (h : session'.Settles E known change edit)
    (loads : session.Loads session') : session.Settles E known change edit := by
  obtain ⟨_, rfl, _⟩ := loads
  cases h with
  | absent missing => exact .absent missing
  | deletes old described => exact .deletes old described
  | creates new described => exact .creates new described
  | stays stored old same => exact .stays stored old same
  | updates stored old differs described => exact .updates stored old differs described

/-- A document is known once it is tracked. -/
theorem exists_of_track {collection : String} {doc : Document} {json : Json}
    (h : Work.Emits (track collection doc) session events (.ok json) session') :
    ∃ t, session'.tracked.get? ⟨collection, doc.id⟩ = some t := by
  have run := Work.emits_get_bind_iff.1 h
  dsimp only at run
  split at run
  · next known tracked =>
    obtain ⟨_, _, rfl⟩ := Work.emits_pure_iff.1 run
    exact ⟨known, tracked⟩
  · obtain ⟨read, _, run₁⟩ := Work.emits_ok_ofExcept_bind_iff.1 run
    have run₂ := Work.emits_modify_bind_iff.1 run₁
    obtain ⟨_, _, rfl⟩ := Work.emits_pure_iff.1 run₂
    exact ⟨⟨doc.content, read, doc.version⟩, by rw [Assoc.get?_insert, if_pos rfl]⟩

/-- A document of which nothing is known in the end was not found. -/
theorem misses_of_lastStored (h : Work.Emits (lastStored key) session events (.ok none) session')
    (all : ∀ e ∈ events, E e) : session.Misses E key := by
  have run := Work.emits_get_bind_iff.1 h
  split at run
  · obtain ⟨_, absurd, _⟩ := Work.emits_pure_iff.1 run
    cases absurd
  · next unknown =>
    obtain ⟨rows, middle, first, rest, rfl, queried, run₁⟩ := Work.emits_ok_bind_iff.1 run
    obtain ⟨rfl, asked⟩ := Work.emits_ofAction_iff.1 (Work.emits_get_bind_iff.1 queried)
    obtain rfl := Program.emits_request_iff.1 asked
    refine ⟨rows, all _ (by simp), fun row head => ?_⟩
    split at run₁
    · cases head
    · cases head
      obtain ⟨doc, isRead, run₂⟩ := Work.emits_ok_ofExcept_bind_iff.1 run₁
      obtain ⟨json, middle, _, _, _, tracks, run₃⟩ := Work.emits_ok_bind_iff.1 run₂
      have run₄ := Work.emits_get_bind_iff.1 run₃
      obtain ⟨_, untracked, _⟩ := Work.emits_pure_iff.1 run₄
      obtain ⟨t, tracked⟩ := exists_of_track tracks
      refine ⟨doc, isRead, fun same => ?_⟩
      rw [same] at tracked
      cases (Except.ok.inj untracked).trans tracked

/-- Of a document to be saved nothing is known if it is new or was not found. -/
theorem misses_of_known
  (h : Work.Emits (if session.created.contains key then pure none else lastStored key)
    session events
    (.ok none) session') (all : ∀ e ∈ events, E e) :
    session.created.contains key = true ∨ session.Misses E key := by
  split at h
  · next new => exact .inl new
  · exact .inr (misses_of_lastStored h all)

/-- The document to be saved is not new if something is known of it. -/
theorem not_created_of_known {old : Tracked}
    (h : Work.Emits (if session.created.contains key then pure none else lastStored key) session
      events (.ok (some old)) session') : session.created.contains key = false := by
  split at h
  · obtain ⟨_, absurd, _⟩ := Work.emits_pure_iff.1 h
    cases absurd
  · next stored => simpa using stored

theorem settles_of_planChange
  (h : Work.Emits (planChange plan change) session events (.ok plan') session')
    (all : ∀ e ∈ events, E e) :
    session.Loads session' ∧ ∃ edit, session.Settles E session'.tracked change edit ∧
      edit.elim (.ok plan) (DescribedEdit.plan session.settings.config.checkConcurrency plan) =
        .ok plan' := by
  cases change with
  | delete key typeName =>
    obtain ⟨old, middle, first, rest, rfl, loaded, run⟩ :=
      Work.emits_ok_bind_iff.1 (Work.emits_get_bind_iff.1 h)
    obtain ⟨loads, known⟩ := loads_of_lastStored loaded
    obtain ⟨before, after⟩ := List.forall_mem_append.1 all
    cases old with
    | none =>
      obtain ⟨_, same, rfl⟩ := Work.emits_pure_iff.1 run
      cases same
      exact ⟨loads, none, .absent (misses_of_lastStored loaded before), rfl⟩
    | some old =>
      obtain ⟨ds, asked, _, rfl, answered, run₁⟩ := Work.emits_ok_ofAction_bind_iff.1 run
      obtain rfl := Program.emits_request_iff.1 answered
      obtain ⟨planned, _, rfl⟩ := Work.emits_ok_ofExcept_iff.1 run₁
      exact ⟨loads, _, .deletes (known old rfl) (after _ (by simp)), planned⟩
  | save key typeName json content =>
    rw [planChange_save] at h
    obtain ⟨ds, asked, _, rfl, answered, run⟩ :=
      Work.emits_ok_ofAction_bind_iff.1 (Work.emits_get_bind_iff.1 h)
    obtain rfl := Program.emits_request_iff.1 answered
    obtain ⟨old, middle, first, rest, rfl, loaded, run₁⟩ := Work.emits_ok_bind_iff.1 run
    obtain ⟨loads, known⟩ := loads_of_known loaded
    obtain ⟨planned, _, rfl⟩ := Work.emits_ok_ofExcept_iff.1 run₁
    refine ⟨loads, ?_⟩
    cases old with
    | none =>
      have new := misses_of_known loaded fun e he => all e (by simp [he])
      exact ⟨_, .creates new (all _ (by simp)), planned⟩
    | some old =>
      have stored := not_created_of_known loaded
      rw [planSave] at planned
      split at planned
      · next same => exact ⟨none, .stays stored (known old rfl) same, planned⟩
      · next differs =>
          exact ⟨_, .updates stored (known old rfl) differs (all _ (by simp)), planned⟩

theorem settles_of_planChanges {changes : List Pending}
    (h : Work.Emits (planChanges plan changes) session events (.ok plan') session')
    (all : ∀ e ∈ events, E e) :
    session.Loads session' ∧
    ∃ edits, List.Forall₂ (session.Settles E session'.tracked) changes edits ∧
      edits.reduceOption.foldlM (DescribedEdit.plan session.settings.config.checkConcurrency) plan =
        .ok plan' := by
  induction changes generalizing plan session events with
  | nil =>
    obtain ⟨_, same, rfl⟩ := Work.emits_pure_iff.1 h
    cases same
    exact ⟨.refl _, [], .nil, rfl⟩
  | cons change changes ih =>
    obtain ⟨plan₁, middle, first, rest, rfl, changed, run⟩ := Work.emits_ok_bind_iff.1 h
    obtain ⟨before, after⟩ := List.forall_mem_append.1 all
    obtain ⟨loads, edit, settles, planned⟩ := settles_of_planChange changed before
    obtain ⟨loads', edits, settled, planned'⟩ := ih run after
    rw [loads.settings_eq] at planned'
    refine ⟨loads.trans loads', edit :: edits,
      .cons (settles.mono loads') (settled.imp fun _ _ h => h.of_loads loads), ?_⟩
    cases edit with
    | none =>
      cases planned
      exact planned'
    | some e =>
      rw [List.reduceOption_cons_of_some]
      exact bind_eq_ok_iff.2 ⟨plan₁, planned, planned'⟩

end Session

/-! ### Groups -/

section Groups

variable {E : Event → Prop} {conn : Connection} {dialect : Dialect} {events : List Event}
  {emitted : List Command}

theorem Buffer.Decides.mono {b : Buffer} {key : Value} {c : Option Command} {E' : Event → Prop}
    (h : b.Decides conn dialect E key c) (weaker : ∀ e, E e → E' e) :
    b.Decides conn dialect E' key c := by
  obtain ⟨lookup, found, compiled, asked, decided⟩ := h
  exact ⟨lookup, found, compiled, weaker _ asked, decided⟩

theorem Buffer.decides_of_reduceGroup {b : Buffer} {key : Value}
    (h : (b.reduceGroup conn dialect key).Emits events (.ok emitted)) (all : ∀ e ∈ events, E e) :
    ∃ c, b.Decides conn dialect E key c ∧ emitted = c.toList := by
  rw [reduceGroup_eq] at h
  obtain ⟨candidate, reduced, h₁⟩ := Action.emits_ok_ofExcept_bind_iff.1 h
  obtain ⟨lookup, compiled, h₂⟩ := Action.emits_ok_ofExcept_bind_iff.1 h₁
  obtain ⟨found, first, rest, rfl, asked, h₃⟩ := Action.emits_ok_bind_iff.1 h₂
  obtain rfl := Program.emits_request_iff.1 asked
  obtain ⟨stored, persisted, h₄⟩ := Action.emits_ok_ofExcept_bind_iff.1 h₃
  obtain ⟨row, merged, h₅⟩ := Action.emits_ok_ofExcept_bind_iff.1 h₄
  obtain ⟨c, decided, h₆⟩ := Action.emits_ok_ofExcept_bind_iff.1 h₅
  obtain ⟨_, same⟩ := Program.emits_done_iff.1 h₆
  cases same
  refine ⟨c, ⟨lookup, found, compiled, all _ (by simp), ?_⟩, rfl⟩
  exact bind_eq_ok_iff.2 ⟨candidate, reduced,
    bind_eq_ok_iff.2 ⟨stored, persisted, bind_eq_ok_iff.2 ⟨row, merged, decided⟩⟩⟩

theorem Buffer.decides_of_reduceGroups {b : Buffer} {keys : List Value}
    (h : (b.reduceGroups conn dialect keys).Emits events (.ok emitted)) (all : ∀ e ∈ events, E e) :
    ∃ decided, List.Forall₂ (b.Decides conn dialect E) keys decided ∧
      emitted = decided.reduceOption := by
  induction keys generalizing events emitted with
  | nil =>
    obtain ⟨_, same⟩ := Program.emits_done_iff.1 h
    cases same
    exact ⟨[], .nil, rfl⟩
  | cons key keys ih =>
    obtain ⟨here, first, last, rfl, reduced, h₁⟩ := Action.emits_ok_bind_iff.1 h
    obtain ⟨later, middle, nothing, rfl, others, h₂⟩ := Action.emits_ok_bind_iff.1 h₁
    obtain ⟨rfl, same⟩ := Program.emits_done_iff.1 h₂
    cases same
    obtain ⟨c, decides, rfl⟩ := decides_of_reduceGroup reduced fun e he => all e (by simp [he])
    obtain ⟨decided, each, rfl⟩ := ih others fun e he => all e (by simp [he])
    exact ⟨c :: decided, .cons decides each, by cases c <;> rfl⟩

theorem Buffer.decides_of_reduceAll {buffers : List Buffer}
    (h : (reduceAll conn dialect buffers).Emits events (.ok emitted)) (all : ∀ e ∈ events, E e) :
    ∃ decided, List.Forall₂ (fun group => group.1.Decides conn dialect E group.2)
      (Arena.groups ⟨buffers, []⟩) decided ∧ emitted = decided.reduceOption := by
  induction buffers generalizing events emitted with
  | nil =>
    obtain ⟨_, same⟩ := Program.emits_done_iff.1 h
    cases same
    exact ⟨[], .nil, rfl⟩
  | cons b bs ih =>
    obtain ⟨here, first, last, rfl, reduced, h₁⟩ := Action.emits_ok_bind_iff.1 h
    obtain ⟨later, middle, nothing, rfl, others, h₂⟩ := Action.emits_ok_bind_iff.1 h₁
    obtain ⟨rfl, same⟩ := Program.emits_done_iff.1 h₂
    cases same
    obtain ⟨decided, each, rfl⟩ := decides_of_reduceGroups reduced fun e he => all e (by simp [he])
    obtain ⟨decided', each', rfl⟩ := ih others fun e he => all e (by simp [he])
    have first : List.Forall₂ (fun group => group.1.Decides conn dialect E group.2)
        (b.keys.map fun key => (b, key)) decided := List.forall₂_map_left_iff.2 each
    exact ⟨decided ++ decided', List.rel_append first each', (List.reduceOption_append _ _).symm⟩

/-- Commands are worked out for every group that was touched. -/
theorem Arena.decides_of_finish {arena : Arena} {commands : List Command}
    (h : (arena.finish conn dialect).Emits events (.ok commands)) (all : ∀ e ∈ events, E e) :
    ∃ decided, List.Forall₂ (fun group => group.1.Decides conn dialect E group.2)
        arena.groups decided ∧
      commands = Command.inOrder (arena.commands ++ decided.reduceOption) := by
  obtain ⟨emitted, first, rest, rfl, reduced, h₁⟩ := Action.emits_ok_bind_iff.1 h
  obtain ⟨rfl, same⟩ := Program.emits_done_iff.1 h₁
  cases same
  obtain ⟨decided, each, rfl⟩ := Buffer.decides_of_reduceAll reduced fun e he =>
    all e (by simp [he])
  exact ⟨decided, each, rfl⟩

end Groups

/-! ## Flushes, however they end -/

/-- What a flush has done: it has loaded documents, and asked nothing after an
answer that failed; it wrote nothing unless everything was worked out, and then
what its commands send, in order, up to what was refused. One that failed has
only cancelled the session besides, and perhaps begun its transaction. -/
structure Session.Flushed (session known : Session) (events : List Event)
    (result : Except Error Unit) (session' : Session) : Prop where
  loads : session.Extends (· ∈ events) known
  halts : Halting events result
  writes : ∃ asked sent, events = asked ++ sent ∧ (∀ e ∈ asked, e.request.writes = false) ∧
    (sent = [] ∨ ∃ numbered, session.WorksOut (· ∈ asked) known.tracked (numbered.map Prod.fst) ∧
      Sending.Run (Command.sendingsAll session.connection numbered) sent result)
  fails : ∀ error, result = .error error → ∃ inTransaction,
    session' = { known with inTransaction, cancelled := true }

namespace Session

variable {session session' : Session} {events : List Event} {result : Except Error Unit}

theorem unwritten_planChanges {changes : List Pending} {result : Except Error FlushPlan}
    (h : Work.Emits (planChanges ∅ changes) session events result session') :
    ∀ e ∈ events, e.request.writes = false := by
  have passive := ensures_planChanges Request.hasLookups_passive untracked_flags ∅ changes
  exact fun e he => ((passive.of_emits h).1 e he).2

/-- Commands are sent once all groups are decided on. -/
theorem sends_of_runPlan {plan : FlushPlan} {planned left : Session}
    (h : Work.Emits (session.runPlan plan) planned events result left) :
    (∀ error, result = .error error → left = planned) ∧
      ∃ asked sent, events = asked ++ sent ∧ (∀ e ∈ asked, e.request.writes = false) ∧
        (sent = [] ∨ ∃ decided numbered,
        List.Forall₂ (fun group =>
              group.1.Decides session.connection session.settings.dialect (· ∈ asked) group.2)
            plan.arena.groups decided ∧
          numbered.map Prod.fst = Command.inOrder (plan.arena.commands ++ decided.reduceOption) ∧
            Sending.Run (Command.sendingsAll session.connection numbered) sent result) := by
  have asks := plan.arena.asks_finish hasLookups_unwriting session.connection
    session.settings.dialect
  rcases Work.emits_bind_iff.1 h with
    ⟨error, rfl, failed⟩ | ⟨commands, middle, asked, sent, rfl, finished, run⟩
  · obtain ⟨rfl, finishing⟩ := Work.emits_ofAction_iff.1 failed
    exact ⟨fun _ _ => rfl, events, [], (List.append_nil events).symm,
      (asks.ensures.of_emits finishing).1, .inl rfl⟩
  · obtain ⟨rfl, finishing⟩ := Work.emits_ofAction_iff.1 finished
    have unwritten := (asks.ensures.of_emits finishing).1
    obtain ⟨decided, each, rfl⟩ := Arena.decides_of_finish finishing fun _ he => he
    rcases Work.emits_bind_iff.1 run with
      ⟨error, rfl, failed⟩ | ⟨_, middle, sent, last, rfl, ran, ended⟩
    · obtain ⟨rfl, running⟩ := Work.emits_ofAction_iff.1 failed
      obtain ⟨numbered, commands, sends⟩ := Command.run_of_emits_runAll running
      exact ⟨fun _ _ => rfl, asked, sent, rfl, unwritten,
        .inr ⟨decided, numbered, each, commands, sends⟩⟩
    · obtain ⟨_, running⟩ := Work.emits_ofAction_iff.1 ran
      obtain ⟨numbered, commands, sends⟩ := Command.run_of_emits_runAll running
      obtain ⟨rfl, rfl, _⟩ := Work.emits_modify_iff.1 ended
      rw [List.append_nil]
      exact ⟨fun _ absurd => (by cases absurd), asked, sent, rfl, unwritten,
        .inr ⟨decided, numbered, each, commands, sends⟩⟩

/-- Without a write nothing need be known of what was worked out. -/
theorem flushed_of_unwritten {known : Session} (loads : session.Extends (· ∈ events) known)
    (halts : Halting events result) (unwritten : ∀ e ∈ events, e.request.writes = false)
    (fails : ∀ error, result = .error error → ∃ inTransaction,
      session' = { known with inTransaction, cancelled := true }) :
    session.Flushed known events result session' :=
  ⟨loads, halts, ⟨events, [], (List.append_nil events).symm, unwritten, .inl rfl⟩, fails⟩

/-- A run of the plan, after planning and perhaps beginning a transaction. -/
theorem flushed_of_runPlan {planning begun ran : List Event} {plan : FlushPlan}
    {planned opened left : Session} {inTransaction : Bool}
    (plans : Work.Emits (planChanges ∅ session.pending) session planning (.ok plan) planned)
    (begins : opened = { planned with inTransaction })
    (unwritten : ∀ e ∈ begun, e.request.writes = false)
    (run : Work.Emits (session.runPlan plan) opened ran result left)
    (halts : Halting (planning ++ (begun ++ ran)) result)
    (cancels : ∀ error, result = .error error → session' = { left with cancelled := true }) :
    session.Flushed planned (planning ++ (begun ++ ran)) result session' := by
  obtain ⟨stays, asked, sent, rfl, quiet, sends⟩ := sends_of_runPlan run
  refine ⟨grows_planChanges _ _ plans fun e he => (by simp [he]), halts,
    ⟨planning ++ (begun ++ asked), sent, ?_, ?_, ?_⟩, ?_⟩
  · simp only [List.append_assoc]
  · exact List.forall_mem_append.2 ⟨unwritten_planChanges plans,
      List.forall_mem_append.2 ⟨unwritten, quiet⟩⟩
  · refine sends.imp_right ?_
    rintro ⟨decided, numbered, groups, commands, sends⟩
    obtain ⟨_, edits, settled, planned'⟩ :=
      settles_of_planChanges (E := (· ∈ planning ++ (begun ++ asked)))
        plans fun e he => by simp [he]
    refine ⟨numbered, ?_, sends⟩
    rw [commands]
    exact .intro settled (DescribedEdit.works_of_planned planned') planned'
      (groups.imp fun _ _ h => h.mono fun e he => by simp [he])
  · intro error failed
    refine ⟨inTransaction, ?_⟩
    rw [cancels error failed, stays error failed, begins]

/-- A flush writes nothing before it has worked everything out, and sends nothing
after a failure; and a flush that fails leaves no trace in memory but what it has loaded. -/
theorem fails_cleanly (h : Work.Emits flush session events result session') :
    ∃ known, session.Flushed known events result session' := by
  rcases exists_of_flush h with ⟨rfl, rfl, _⟩ | ⟨left, flushed, concluded⟩
  · exact ⟨session, flushed_of_unwritten (.refl _ session) (halting_nil _) (fun _ he => by cases he)
      fun _ absurd => by cases absurd⟩
  have cancels : ∀ error, result = .error error → session' = { left with cancelled := true } := by
    rintro error rfl
    exact concluded
  have halts := halts_flushPending flushed
  rw [flushPending_eq, Work.emits_get_bind_iff] at flushed
  rcases Work.emits_bind_iff.1 flushed with
    ⟨error, rfl, failed⟩ | ⟨plan, planned, planning, rest, rfl, plans, run⟩
  · exact ⟨left, flushed_of_unwritten (grows_planChanges _ _ failed fun _ he => he) halts
      (unwritten_planChanges failed) fun error same => ⟨left.inTransaction, cancels error same⟩⟩
  · split at run
    · have nothing : ∀ e ∈ ([] : List Event), e.request.writes = false := fun _ he => by cases he
      exact ⟨planned, flushed_of_runPlan plans rfl nothing run halts cancels⟩
    · rcases Work.emits_bind_iff.1 run with
        ⟨error, rfl, failed⟩ | ⟨_, opened, begun, ran, rfl, begins, run₁⟩
      · obtain ⟨unwritten, inTransaction, opens⟩ := exists_of_begin failed
        refine ⟨planned,
          flushed_of_unwritten (grows_planChanges _ _ plans fun e he => (by simp [he])) halts
          (List.forall_mem_append.2 ⟨unwritten_planChanges plans, unwritten⟩) fun error same =>
            ⟨inTransaction, ?_⟩⟩
        rw [cancels error same, opens]
      · obtain ⟨unwritten, inTransaction, opens⟩ := exists_of_begin begins
        exact ⟨planned, flushed_of_runPlan plans opens unwritten run₁ halts cancels⟩

end Session

namespace Counting

/-- Reads every text as the same article. -/
def unread : ContentSerializer := ⟨fun _ => .ok "", fun _ => .ok (dated 7 1)⟩

/-- A new article is to be saved, and one that was stored before. -/
def dirty : Session :=
  { opened with
    settings := ⟨.default, .sqlite, unread⟩
    pending := [.save ⟨"", 1⟩ "Article" (dated 1 1) "first",
      .save ⟨"", 7⟩ "Article" (dated 7 2) "second"]
    created := [⟨"", 1⟩] }

/-- Surroundings in which the stored article is found, but changed by someone else
before it is updated. -/
def losing : Answerer Unit
  | .connect, s => (.ok 0, s)
  | .begin _, s | .commit _, s | .rollback _, s => (.ok (), s)
  | .execute _ (.update ..), s => (.ok 0, s)
  | .execute _ _, s => (.ok 1, s)
  | .scalar _ _, s => (.ok (some (.int 1)), s)
  | .query _ (.query (.documentById _) _), s =>
    (.ok [Row.document 7 ⟨"Article", ⟨"as it was", dated 7 1, 3⟩⟩], s)
  | .query _ _, s => (.ok [], s)
  | .idsSeeded _, s => (true, s)
  | .seedIds _ _, s => ((), s)
  | .nextId _, s => (1, s)
  | .descriptors _ _, s => (.ok [articles], s)
  | .compiledSql _ _ _, s => (.error (.storage "read only"), s)

def overtaken : List Event × (Except Error Unit × Session) × Unit :=
  Program.record losing (Session.flush.run.run dirty) ()

/-- The article is inserted and the other one not updated, and the counts of the two days are not
sent any more; what is known then is the other article as it was found. -/
theorem fails_cleanly_overtaken :
    overtaken.1.map (fun e => e.request.writes) = [false, false, false, false, false, false,
        true, true] ∧
      (overtaken.2.1.2.tracked.get? ⟨"", 7⟩).map Tracked.version = some 3 ∧
      ∃ known, dirty.Flushed known overtaken.1 overtaken.2.1.1 overtaken.2.1.2 := by
  refine ⟨by decide +kernel, by decide +kernel, Session.fails_cleanly ?_⟩
  exact Program.emits_record losing _ ()

end Counting

end DocStore

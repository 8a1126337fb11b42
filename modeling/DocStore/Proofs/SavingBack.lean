import DocStore.Proofs.FreshIdentities
import DocStore.Proofs.RepeatableReads
import DocStore.Proofs.SentStatements
import DocStore.Proofs.TrackedRows

/-!
# Documents saved as they were loaded

A flush stores the text of an entity that was saved, a later session tracks the document
with that text, and a save of the entity that it reads from it makes the text again. So
what is saved back unchanged never differs from what is tracked: a flush has nothing to
plan, and the session neither begins a transaction nor sends any change.
-/

set_option autoImplicit false

namespace DocStore

/-! ## Entities and their texts -/

namespace EntityType

variable {entity : EntityType} {serializer : ContentSerializer} {key : DocKey} {e : Json}
  {content : String}

/-- The JSON is that of an entity: it is rebuilt as it is. -/
def Accepts (entity : EntityType) (e : Json) : Prop := entity.read? e = some e

/-- Deserializing a serialized entity gives it back. -/
def Restores (entity : EntityType) (serializer : ContentSerializer) : Prop :=
  ∀ e text, entity.Accepts e → serializer.serialize e = .ok text →
    ∃ json, serializer.deserialize text = .ok json ∧ entity.read? json = some e

/-- The content of a document is the text of an entity of its identity. -/
structure Holds (entity : EntityType) (serializer : ContentSerializer) (key : DocKey) (e : Json)
    (content : String) : Prop where
  accepts : entity.Accepts e
  id : entity.id e = key.id
  identified : key.id ≠ 0
  text : serializer.serialize e = .ok content

theorem read_eq_ok_iff {json : Json} : entity.read json = .ok e ↔ entity.read? json = some e := by
  unfold read
  split <;> simp [*]

/-- What is read from the content is the entity whose text it is. -/
theorem Holds.eq_of_read (holds : entity.Holds serializer key e content)
    (restores : entity.Restores serializer) {json e' : Json}
    (parsed : serializer.deserialize content = .ok json) (reads : entity.read json = .ok e') :
    e' = e := by
  obtain ⟨json', parsed', restored⟩ := restores e content holds.accepts holds.text
  rw [parsed] at parsed'
  cases parsed'
  rw [read_eq_ok_iff, restored] at reads
  exact (Option.some.inj reads).symm

theorem Accepts.eq_of_read (accepts : entity.Accepts e) {e' : Json}
    (reads : entity.read e = .ok e') : e' = e := by
  rw [read_eq_ok_iff, accepts] at reads
  exact (Option.some.inj reads).symm

end EntityType

/-! ## What a flush stores -/

/-- The document that a command writes, and the content that it writes. -/
def Command.stores? : Command → Option (TableNames × Int64 × String)
  | .createDocument names id _ content | .updateDocument names id _ content _ _ =>
    some (names, id, content)
  | _ => none

theorem Command.stores?_of_isDocument {c : Command} (h : c.isDocument = false) :
    c.stores? = none := by
  cases c with
  | createDocument | updateDocument => cases h
  | _ => rfl

/-- What the commands of a plan store is of a kind. -/
def FlushPlan.Stores (W : TableNames × Int64 × String → Prop) (plan : FlushPlan) : Prop :=
  ∀ c ∈ plan.arena.commands, ∀ w, c.stores? = some w → W w

section Storing

variable {W : TableNames × Int64 × String → Prop} {plan plan' : FlushPlan}

/-- A catalog that has the same descriptors for everything. Which were answered does not matter to
what a change stores. -/
def Catalog.answering (ds : List Descriptor) : Catalog := ⟨fun _ => True, fun _ _ => ds⟩

/-- An edit stores what its document command does: the commands on map rows store nothing. -/
theorem FlushPlan.Stores.edit (stores : plan.Stores W) (check : Bool) (catalog : Catalog) (e : Edit)
    (h : e.plan check catalog plan = .ok plan')
    (own : ∀ w, (e.documentCommand check).stores? = some w → W w) : plan'.Stores W := by
  intro c hc w stored
  rw [Edit.commands_of_plan h] at hc
  rcases List.mem_append.1 hc with hc | hc
  · exact stores c hc w stored
  · rcases Edit.mem_commands_iff.1 hc with rfl | ⟨d, _, hc⟩
    · exact own w stored
    · obtain ⟨_, rfl | ⟨_, cells, rfl⟩⟩ := Edit.cases_of_mem_mapCommands hc <;> cases stored

/-- What a save stores is its content, under its key. -/
def Pending.Stores (settings : Settings) (W : TableNames × Int64 × String → Prop) : Pending → Prop
  | .save key _ _ content => W (settings.names key.collection, key.id, content)
  | .delete .. => True

variable {E : Event → Prop} {settings : Settings} {session : Session}

theorem FlushPlan.Stores.planSave (stores : plan.Stores W) (same : session.settings = settings)
    {ds : List Descriptor} {key : DocKey} {typeName content : String} {json : Json}
    {old : Option Tracked} (own : W (settings.names key.collection, key.id, content))
    (h : session.planSave plan ds key typeName json content old = .ok plan') : plan'.Stores W := by
  subst same
  have written {c : Command}
      (same : c.stores? = some (session.names key.collection, key.id, content)) :
      ∀ w, c.stores? = some w → W w := by
    intro w stored
    rw [same] at stored
    exact Option.some.inj stored ▸ own
  cases old with
  | none =>
    exact stores.edit true (.answering ds)
      (.create (session.names key.collection) key.id typeName json content) h (written rfl)
  | some old =>
    rw [Session.planSave] at h
    split at h
    · cases h
      exact stores
    · exact stores.edit session.settings.config.checkConcurrency (.answering ds)
        (.update (session.names key.collection) key.id typeName json content old) h (written rfl)

namespace Session

theorem learns_stores_planChange (stores : plan.Stores W) {change : Pending}
    (own : change.Stores settings W) :
    (planChange plan change).Learns E settings (FlushPlan.Stores W) := by
  cases change with
  | delete key typeName =>
    refine Work.learns_get_bind fun session same => (learns_lastStored key).bind fun old _ => ?_
    cases old with
    | none => exact Work.learns_pure stores
    | some old =>
      refine (Work.learns_ofAction _).bind fun ds _ => Work.learns_ofExcept fun plan' h => ?_
      exact stores.edit true (.answering ds)
        (.delete (session.names key.collection) key.id typeName old) h
        fun _ stored => by cases stored
  | save key typeName json content =>
    rw [planChange_save]
    refine Work.learns_get_bind fun session same => (Work.learns_ofAction _).bind fun ds _ => ?_
    refine Work.Learns.bind (Q := fun _ => True) ?_ fun old _ =>
      Work.learns_ofExcept fun plan' h => stores.planSave same own h
    split
    · exact Work.learns_pure trivial
    · exact learns_lastStored key

theorem learns_stores_planChanges (stores : plan.Stores W) {changes : List Pending}
    (own : ∀ change ∈ changes, change.Stores settings W) :
    (planChanges plan changes).Learns E settings (FlushPlan.Stores W) := by
  induction changes generalizing plan with
  | nil => exact Work.learns_pure stores
  | cons change changes ih =>
    obtain ⟨first, rest⟩ := List.forall_mem_cons.1 own
    exact (learns_stores_planChange stores first).bind fun plan' stores' => ih stores' rest

end Session

end Storing

namespace Session

variable {settings : Settings} {session session' : Session} {before last : List Event} {ev : Event}
  {own : Except Error Unit} {planned : Session} {plan : FlushPlan} {c : Command} {content : String}

theorem learnable_settings {E : Event → Prop} :
    Learnable E settings fun session => session.settings = settings :=
  learnable_of_tracked (P := fun _ _ => True) (fun _ => (and_iff_left fun _ _ _ => trivial).symm)
    fun _ _ _ _ _ _ => trivial

/-- A save that waits is to store a content. -/
def Schedules (session : Session) (w : TableNames × Int64 × String) : Prop :=
  ∃ key typeName json content, .save key typeName json content ∈ session.pending ∧
    w = (session.names key.collection, key.id, content)

/-- What a flush stores for a document is the content of the save that waits for it. -/
theorem FlushAt.exists_save (h : session.FlushAt before ev last own planned plan c)
    (once : (session.pending.map Pending.key).Nodup) (key : DocKey)
    (stores : c.stores? = some (session.names key.collection, key.id, content)) :
    ∃ typeName json, session.pendingChange key = some (.save key typeName json content) := by
  have proposed : ∀ change ∈ session.pending, change.Stores session.settings session.Schedules := by
    intro change waits
    cases change with
    | save key typeName json content => exact ⟨key, typeName, json, content, waits, rfl⟩
    | delete => trivial
  obtain ⟨planning, _, _, plans⟩ := h.plans
  have kinds : plan.Stores session.Schedules := by
    have learns : (planChanges ∅ session.pending).Learns (fun _ => True) session.settings
        (FlushPlan.Stores session.Schedules) :=
      learns_stores_planChanges (fun _ hc => by cases hc) proposed
    exact (learns.of_emits learnable_settings rfl plans fun _ _ => trivial).2 plan rfl
  obtain ⟨commands, ⟨emitted, rfl, sources⟩, hc⟩ := h.decided
  have pushed : c ∈ plan.arena.commands := by
    refine (List.mem_append.1 (Command.mem_inOrder_iff.1 hc)).resolve_right fun hc => ?_
    obtain ⟨b, _, k, found, outcome⟩ := sources c hc
    rw [Command.stores?_of_isDocument (Buffer.tables_of_outcome outcome).1] at stores
    cases stores
  obtain ⟨key', typeName, json, content', waits, same⟩ := kinds c pushed _ stores
  obtain ⟨names, id, rfl⟩ : session.names key.collection = session.names key'.collection ∧
    key.id = key'.id ∧ content = content' := by simpa using same
  have here : key = key' := by
    obtain ⟨collection, id⟩ := key
    obtain ⟨collection', id'⟩ := key'
    cases congrArg TableNames.collection names
    cases id
    rfl
  subst here
  exact ⟨typeName, json, pendingChange_of_mem once waits⟩

/-- A save that succeeds waits with the text of the entity that it answers. -/
theorem exists_text_of_save {entity : EntityType} {collection : String} {given e : Json}
    {events : List Event}
    (h : Work.Emits (save entity collection given) session events (.ok e) session') :
    ∃ text, session.settings.serializer.serialize e = .ok text ∧
      session'.pendingChange ⟨collection, entity.id e⟩ =
        some (.save ⟨collection, entity.id e⟩ entity.name e text) := by
  obtain ⟨json, middle, _, _, _, identified, run⟩ := Work.emits_ok_bind_iff.1 h
  obtain ⟨text, written, run⟩ := Work.emits_ok_ofExcept_bind_iff.1 (Work.emits_get_bind_iff.1 run)
  have run := Work.emits_modify_bind_iff.1 run
  obtain ⟨_, same, rfl⟩ := Work.emits_pure_iff.1 run
  cases same
  have steady : Steady settings := fun _ _ _ _ => rfl
  have settings_eq : middle.settings = session.settings :=
    ((ensures_identify Request.hasIdentities_passive steady entity collection given).of_emits
      identified).2.1
  exact ⟨text, settings_eq ▸ written, (middle.pendingChange_withPending _ _).trans (if_pos rfl)⟩

end Session

/-- A document that was written through a save: after whatever else was called on a session, an
entity that has an identity was saved, and a flush, while that save still waited, sent a command
that stores a content under its key. -/
inductive EntityType.Saved (settings : Settings) (entity : EntityType) :
    DocKey → String → Prop where
  | intro {r : Session.Run settings} {collection content : String} {given e : Json}
      {saving before last : List Event} {later : List Called} {saved session planned : Session}
      {ev : Event} {own : Except Error Unit} {plan : FlushPlan} {c : Command}
      (saves : Work.Emits (Session.save entity collection given) r.last saving (.ok e) saved)
      (accepts : entity.Accepts e) (identified : entity.id e ≠ 0)
      (others : Session.History saved later session)
      (waits : session.pendingChange ⟨collection, entity.id e⟩ =
        saved.pendingChange ⟨collection, entity.id e⟩)
        (flushes : session.FlushAt before ev last own planned plan c)
        (stores : c.stores? = some (settings.names collection, entity.id e, content)) :
    Saved settings entity ⟨collection, entity.id e⟩ content

/-- What was stored is the text of the entity that was saved. -/
theorem EntityType.Saved.holds {settings : Settings} {entity : EntityType} {key : DocKey}
    {content : String} (saved : entity.Saved settings key content) :
    ∃ e, entity.Holds settings.serializer key e content := by
  obtain @⟨r, collection, content, given, e, saving, _, _, later, saved, session, _, _, _, _, _,
    saves, accepts, identified,
    others, waits, flushes, stores⟩ := saved
  obtain ⟨text, written, scheduled⟩ := Session.exists_text_of_save saves
  have proposes (call : Call) := call.proposes_written settings
  have before := (r.waits_first (Pending.Written settings.serializer)).history r.history proposes
  have called : Work.Emits (Call.work (.save entity collection given)) r.last saving
      (.ok ()) saved :=
    Work.emits_bind_iff.2 (.inr ⟨e, saved, saving, [], (List.append_nil saving).symm,
      saves, .done _⟩)
  have after : session.Waits settings (Pending.Written settings.serializer) :=
    ((Call.waits_work (proposes _)).of_emits before called fun _ _ => trivial).1.history others
      proposes
  rw [before.same] at written
  rw [← after.same] at stores
  obtain ⟨typeName, json, stored⟩ := flushes.exists_save after.once ⟨collection, entity.id e⟩ stores
  rw [waits, scheduled] at stored
  cases stored
  exact ⟨e, accepts, rfl, identified, written⟩

/-! ## Sessions that leave documents as they are -/

/-- The request leaves the transaction as it is, and a statement that it sends only reads. -/
def Request.OnlyReads (r : Request) : Prop := r.Inside ∧ r.Carries Statement.IsQuery

theorem Request.hasLookups_onlyReads : HasLookups OnlyReads where
  query _ q ps := ⟨⟨rfl, rfl⟩, carries_of_some rfl ⟨q, ps, rfl⟩⟩
  descriptors _ _ := ⟨⟨rfl, rfl⟩, carries_of_none rfl⟩
  compiledSql _ _ _ := ⟨⟨rfl, rfl⟩, carries_of_none rfl⟩

theorem Request.hasIdentities_onlyReads : HasIdentities OnlyReads where
  seeded _ := ⟨⟨rfl, rfl⟩, carries_of_none rfl⟩
  highest _ q ps := ⟨⟨rfl, rfl⟩, carries_of_some rfl ⟨q, ps, rfl⟩⟩
  seeds _ _ := ⟨⟨rfl, rfl⟩, carries_of_none rfl⟩
  next _ := ⟨⟨rfl, rfl⟩, carries_of_none rfl⟩

/-- Descriptors, or the highest id of a collection, could not be had. -/
def Event.Refuses (error : Error) (e : Event) : Prop :=
  (∃ typeName collection, e = ⟨.descriptors typeName collection, .error error⟩) ∨
  ∃ conn s, e = ⟨.scalar conn s, .error error⟩

/-- A run on a session sent nothing but reads, failed only if it was refused an answer, and left
what is tracked as it was, with no transaction open. -/
structure Session.Spares {α : Type} (session : Session) (events : List Event)
    (result : Except Error α) (session' : Session) : Prop where
  reads : ∀ e ∈ events, e.request.OnlyReads
  refused : ∀ error, result = .error error → ∃ e ∈ events, e.Refuses error
  tracked : session'.tracked = session.tracked
  outside : session'.inTransaction = false

theorem Work.emits_ofExcept_ok_bind_iff {α β : Type} {x : α} {f : α → Work β}
    {session session' : Session} {events : List Event} {result : Except Error β} :
    Emits (ofExcept (.ok x) >>= f) session events result session' ↔
      Emits (f x) session events result session' := Iff.rfl

/-- What is tracked of a document was parsed from its content, and that is the text of
an entity of its kind. -/
structure Tracked.Holds (settings : Settings) (kind : DocKey → EntityType) (key : DocKey)
    (t : Tracked) : Prop where
  parsed : settings.serializer.deserialize t.content = .ok t.json
  holds : ∃ e, (kind key).Holds settings.serializer key e t.content

/-- The row, if it is that of a document, holds what was written through a save of its kind. -/
def Row.Saved (settings : Settings) (kind : DocKey → EntityType) (collection : String)
    (row : Row) : Prop :=
  ∀ doc, Document.ofRow row = .ok doc →
    (kind ⟨collection, doc.id⟩).Saved settings ⟨collection, doc.id⟩ doc.content

theorem Row.Saved.tracks {settings : Settings} {kind : DocKey → EntityType}
    {collection : String} {row : Row} (saved : row.Saved settings kind collection) :
    row.Tracks settings (Tracked.Holds settings kind) collection :=
  fun doc _ read parsed => ⟨parsed, (saved doc read).holds⟩

/-- A session in no transaction that tracks documents, each with the text of an entity of its kind,
and in which nothing waits but saves of these entities. -/
structure Session.Unaltered (settings : Settings) (kind : DocKey → EntityType)
    (session : Session) : Prop
    extends session.Tracks settings (Tracked.Holds settings kind) where
  created : session.created = []
  outside : session.inTransaction = false
  waits : ∀ change ∈ session.pending, ∃ key t e, session.tracked.get? key = some t ∧
    (kind key).Holds settings.serializer key e t.content ∧
      change = .save key (kind key).name e t.content

namespace Session

variable {settings : Settings} {kind : DocKey → EntityType} {session session' : Session}
  {events : List Event}

theorem Run.unaltered_first (r : Run settings) : r.first.Unaltered settings kind := by
  obtain ⟨conn, _, first⟩ := r.eq_of_connects
  rw [first]
  exact ⟨⟨rfl, fun _ _ known => by cases known⟩, rfl, rfl, fun _ waits => by cases waits⟩

/-- Loads of documents that were written through saves change nothing else. -/
theorem Unaltered.loads (unaltered : session.Unaltered settings kind)
    (loads : session.Loads session')
    (tracks : session'.Tracks settings (Tracked.Holds settings kind)) :
    session'.Unaltered settings kind := by
  have kept {key : DocKey} {t : Tracked} (known : session.tracked.get? key = some t) :
      session'.tracked.get? key = some t :=
    loads.get? known
  obtain ⟨tracked, rfl, _⟩ := loads
  refine ⟨tracks, unaltered.created, unaltered.outside, fun change mem => ?_⟩
  obtain ⟨key, t, e, known, holds, same⟩ := unaltered.waits change mem
  exact ⟨key, t, e, kept known, holds, same⟩

/-- A document that is shown as an entity of its kind is tracked with the text of that entity. -/
theorem Unaltered.exists_tracked (unaltered : session.Unaltered settings kind) {r : Returned}
    (own : r.entity = kind r.key) (restores : (kind r.key).Restores settings.serializer)
    (shown : r.Shown session) :
    ∃ t, session.tracked.get? r.key = some t ∧
      (kind r.key).Holds settings.serializer r.key r.content t.content := by
  obtain ⟨json, has, reads⟩ := shown
  rw [own] at reads
  cases waits : session.pendingChange r.key with
  | some change =>
    obtain ⟨mem, here⟩ := mem_of_pendingChange waits
    obtain ⟨key, t, e, known, holds, rfl⟩ := unaltered.waits change mem
    obtain rfl : key = r.key := here
    rw [Session.shown, waits] at has
    cases has
    rw [holds.accepts.eq_of_read reads]
    exact ⟨t, known, holds⟩
  | none =>
    rw [Session.shown, waits] at has
    obtain ⟨t, known, rfl⟩ := Option.map_eq_some_iff.1 has
    obtain ⟨parsed, e, holds⟩ := unaltered.all r.key t known
    rw [holds.eq_of_read restores parsed reads]
    exact ⟨t, known, holds⟩

/-- Saving back an entity schedules the text that is tracked. -/
theorem Unaltered.emits_save (unaltered : session.Unaltered settings kind) {key : DocKey}
    {t : Tracked} {e : Json} (known : session.tracked.get? key = some t)
    (holds : (kind key).Holds settings.serializer key e t.content) {result : Except Error Json}
    (h : Work.Emits (save (kind key) key.collection e) session events result session') :
    session.Spares events result session' ∧ session'.Unaltered settings kind ∧
    ∀ e', result = .ok e' → e' = e := by
  have steady : Steady fun session => session.inTransaction := fun _ _ _ _ => rfl
  obtain ⟨reads, outside, _⟩ :=
    (ensures_save Request.hasIdentities_onlyReads steady _ _ _).of_emits h
  have identified : (kind key).id e ≠ 0 := holds.id ▸ holds.identified
  have identifies {first : List Event} {outcome : Except Error Json} {middle : Session}
      (run : Work.Emits (identify (kind key) key.collection e) session first outcome middle) :
      middle = session ∧
        (outcome = .ok e ∨ ∃ error, outcome = .error error ∧ ∃ ev ∈ first, ev.Refuses error) := by
    have run := Work.emits_get_bind_iff.1 run
    dsimp only at run
    rw [if_neg identified] at run
    rcases Work.emits_bind_iff.1 run with ⟨error, rfl, failed⟩ | ⟨_, _, _, _, rfl, reserved, ended⟩
    · obtain ⟨rfl, failed⟩ := Work.emits_ofAction_iff.1 failed
      refine ⟨rfl, .inr ⟨error, rfl, ?_⟩⟩
      cases Action.seeds_of_failed failed with
      | fails => exact ⟨_, List.mem_cons_of_mem _ List.mem_cons_self, .inr ⟨_, _, rfl⟩⟩
    · obtain ⟨rfl, _⟩ := Work.emits_ofAction_iff.1 reserved
      obtain ⟨_, same, rfl⟩ := Work.emits_pure_iff.1 ended
      exact ⟨rfl, .inl same⟩
  rcases Work.emits_bind_iff.1 h with
    ⟨error, rfl, failed⟩ | ⟨e', middle, first, rest, rfl, named, run⟩
  · obtain ⟨rfl, impossible | ⟨_, same, refused⟩⟩ := identifies failed
    · cases impossible
    · cases same
      refine ⟨⟨reads, fun _ same => ?_, rfl, unaltered.outside⟩, unaltered,
        fun _ impossible => by cases impossible⟩
      cases same
      exact refused
  · obtain ⟨rfl, same | ⟨_, impossible, _⟩⟩ := identifies named
    · cases same
      have run := Work.emits_get_bind_iff.1 run
      rw [unaltered.same, holds.text] at run
      have run := Work.emits_modify_bind_iff.1 (Work.emits_ofExcept_ok_bind_iff.1 run)
      obtain ⟨_, rfl, rfl⟩ := Work.emits_pure_iff.1 run
      have here : (⟨key.collection, (kind key).id e⟩ : DocKey) = key := by rw [holds.id]
      refine ⟨⟨reads, fun _ impossible => (by cases impossible), rfl, unaltered.outside⟩, ?_,
        fun _ same => ?_⟩
      · refine ⟨⟨unaltered.same, unaltered.all⟩, unaltered.created, unaltered.outside,
          fun change mem => ?_⟩
        rcases mem_withPending mem with rfl | mem
        · exact ⟨key, t, e, known, holds, by rw [here]⟩
        · exact unaltered.waits change mem
      · cases same
        rfl
    · cases impossible

/-- Descriptors are asked for, and that is all. -/
def OnlyDescribes (events : List Event) : Prop :=
  ∀ e ∈ events, ∃ typeName collection o, e = ⟨.descriptors typeName collection, o⟩

theorem OnlyDescribes.reads (looks : OnlyDescribes events) : ∀ e ∈ events, e.request.OnlyReads := by
  intro e mem
  obtain ⟨typeName, collection, _, rfl⟩ := looks e mem
  exact Request.hasLookups_onlyReads.descriptors typeName collection

theorem emits_lastStored_of_tracked {key : DocKey} {t : Tracked}
    (known : session.tracked.get? key = some t) {result : Except Error (Option Tracked)}
    (h : Work.Emits (lastStored key) session events result session') :
    events = [] ∧ result = .ok (some t) ∧ session' = session := by
  have run := Work.emits_get_bind_iff.1 h
  rw [known] at run
  exact Work.emits_pure_iff.1 run

/-- For a save of what is tracked nothing is planned. -/
theorem Unaltered.emits_planChange (unaltered : session.Unaltered settings kind) {plan : FlushPlan}
    {change : Pending} (mem : change ∈ session.pending) {result : Except Error FlushPlan}
    (h : Work.Emits (planChange plan change) session events result session') :
    session' = session ∧ OnlyDescribes events ∧
      (result = .ok plan ∨ ∃ error, result = .error error ∧ ∃ e ∈ events, e.Refuses error) := by
  obtain ⟨key, t, e, known, _, rfl⟩ := unaltered.waits change mem
  rw [planChange_save] at h
  rcases Work.emits_bind_iff.1 (Work.emits_get_bind_iff.1 h) with
    ⟨error, rfl, failed⟩ | ⟨ds, middle, first, rest, rfl, described, run⟩
  · obtain ⟨rfl, asked⟩ := Work.emits_ofAction_iff.1 failed
    obtain rfl := Program.emits_request_iff.1 asked
    exact ⟨rfl, List.forall_mem_singleton.2 ⟨_, _, _, rfl⟩,
      .inr ⟨error, rfl, _, List.mem_cons_self, .inl ⟨_, _, rfl⟩⟩⟩
  · obtain ⟨rfl, asked⟩ := Work.emits_ofAction_iff.1 described
    obtain rfl := Program.emits_request_iff.1 asked
    have old : (middle.created.contains key) = false := by
      rw [unaltered.created]
      rfl
    rw [old, if_neg Bool.false_ne_true] at run
    have looks : OnlyDescribes [⟨.descriptors (kind key).name key.collection, .ok ds⟩] :=
      List.forall_mem_singleton.2 ⟨_, _, _, rfl⟩
    rcases Work.emits_bind_iff.1 run with ⟨_, rfl, failed⟩ | ⟨old, _, _, _, rfl, stored, run⟩
    · obtain ⟨_, impossible, _⟩ := emits_lastStored_of_tracked known failed
      cases impossible
    · obtain ⟨rfl, same, rfl⟩ := emits_lastStored_of_tracked known stored
      cases same
      rw [planSave, if_pos rfl] at run
      obtain ⟨rfl, rfl, rfl⟩ := Work.emits_pure_iff.1 run
      exact ⟨rfl, looks, .inl rfl⟩

/-- All that waits is planned as nothing. -/
theorem Unaltered.emits_planChanges (unaltered : session.Unaltered settings kind) {plan : FlushPlan}
    {changes : List Pending} (waits : ∀ change ∈ changes, change ∈ session.pending)
    {result : Except Error FlushPlan}
    (h : Work.Emits (planChanges plan changes) session events result session') :
    session' = session ∧ OnlyDescribes events ∧
      (result = .ok plan ∨ ∃ error, result = .error error ∧ ∃ e ∈ events, e.Refuses error) := by
  induction changes generalizing events with
  | nil =>
    obtain ⟨rfl, rfl, rfl⟩ := Work.emits_pure_iff.1 h
    exact ⟨rfl, fun _ mem => (by cases mem), .inl rfl⟩
  | cons change changes ih =>
    obtain ⟨first, rest⟩ := List.forall_mem_cons.1 waits
    rcases Work.emits_bind_iff.1 h with
      ⟨error, rfl, failed⟩ | ⟨plan', middle, here, later, rfl, planned, run⟩
    · obtain ⟨rfl, looks, impossible | refused⟩ := unaltered.emits_planChange first failed
      · cases impossible
      · obtain ⟨_, same, refused⟩ := refused
        cases same
        exact ⟨rfl, looks, .inr ⟨error, rfl, refused⟩⟩
    · obtain ⟨rfl, looks, same | ⟨_, impossible, _⟩⟩ := unaltered.emits_planChange first planned
      · cases same
        obtain ⟨rfl, looks', outcome⟩ := ih rest run
        refine ⟨rfl, List.forall_mem_append.2 ⟨looks, looks'⟩, outcome.imp_right ?_⟩
        rintro ⟨error, failed, e, mem, refuses⟩
        exact ⟨error, failed, e, List.mem_append_right _ mem, refuses⟩
      · cases impossible

/-- A plan of nothing sends nothing, and nothing waits any more. -/
theorem emits_runPlan_empty {planned : Session} {result : Except Error Unit}
    (h : Work.Emits (planned.runPlan ∅) session events result session') :
    events = [] ∧ result = .ok () ∧ session' = { session with pending := [], created := [] } := by
  have ran : Program.Emits (.done (.ok (), session.remember [])) events (result, session') := h
  obtain ⟨rfl, same⟩ := Program.emits_done_iff.1 ran
  obtain ⟨rfl, rfl⟩ := Prod.mk.inj same
  exact ⟨rfl, rfl, rfl⟩

theorem Unaltered.emits_flush (unaltered : session.Unaltered settings kind)
    {result : Except Error Unit} (h : Work.Emits flush session events result session') :
    session.Spares events result session' ∧ session'.Unaltered settings kind := by
  rcases exists_of_flush h with ⟨rfl, rfl, rfl⟩ | ⟨left, flushed, rfl⟩
  · exact ⟨⟨fun _ mem => (by cases mem), fun _ impossible => (by cases impossible), rfl,
      unaltered.outside⟩, unaltered⟩
  · rw [flushPending_eq, Work.emits_get_bind_iff] at flushed
    rcases Work.emits_bind_iff.1 flushed with
      ⟨error, rfl, failed⟩ | ⟨plan, middle, planning, rest, rfl, planned, run⟩
    · obtain ⟨rfl, looks, impossible | ⟨_, same, refused⟩⟩ :=
        unaltered.emits_planChanges (fun _ mem => mem) failed
      · cases impossible
      · cases same
        refine ⟨⟨looks.reads, fun _ same => ?_, rfl, unaltered.outside⟩, ?_⟩
        · cases same
          exact refused
        · exact ⟨⟨unaltered.same, unaltered.all⟩, unaltered.created, unaltered.outside,
            unaltered.waits⟩
    · obtain ⟨rfl, looks, same | ⟨_, impossible, _⟩⟩ :=
        unaltered.emits_planChanges (fun _ mem => mem) planned
      · cases same
        obtain ⟨rfl, rfl, rfl⟩ :=
          emits_runPlan_empty (show Work.Emits (middle.runPlan ∅) middle rest result left from run)
        rw [List.append_nil]
        refine ⟨⟨looks.reads, fun _ impossible => (by cases impossible), rfl, unaltered.outside⟩,
          ?_⟩
        exact ⟨⟨unaltered.same, unaltered.all⟩, rfl, unaltered.outside, fun _ mem => by cases mem⟩
      · cases impossible

theorem Unaltered.emits_saveChanges (unaltered : session.Unaltered settings kind)
    {result : Except Error Unit} (h : Work.Emits saveChanges session events result session') :
    session.Spares events result session' ∧ session'.Unaltered settings kind := by
  rcases Work.emits_bind_iff.1 h with
    ⟨error, rfl, failed⟩ | ⟨_, middle, first, rest, rfl, flushed, concluded⟩
  · exact unaltered.emits_flush failed
  · obtain ⟨spares, unaltered'⟩ := unaltered.emits_flush flushed
    have closed : ¬middle.inTransaction = true := by
      rw [unaltered'.outside]
      exact Bool.false_ne_true
    have nothing : rest = [] ∧ result = .ok () ∧ session' = middle := by
      have run := Work.emits_get_bind_iff.1 concluded
      split at run
      · have run := Work.emits_get_bind_iff.1 run
        rw [if_neg closed] at run
        exact Work.emits_pure_iff.1 run
      · exact Work.emits_pure_iff.1 run
    obtain ⟨rfl, rfl, rfl⟩ := nothing
    rw [List.append_nil]
    exact ⟨⟨spares.reads, fun _ impossible => (by cases impossible), spares.tracked,
      spares.outside⟩, unaltered'⟩

end Session

/-! ## Courses of loads and saves -/

section Courses

variable {settings : Settings} {kind : DocKey → EntityType}

/-- The collection of whose documents the read returns some. -/
def Underway.collection? : Underway → Option String
  | .started q _ | .listing q .. => q.collection?

/-- A read that goes on makes the session track nothing but documents with the texts of
entities of their kinds. -/
def Underway.Tracks (settings : Settings) (kind : DocKey → EntityType) : Underway → Prop
  | .started q reading => reading.Tracks (fun _ => True) settings (Tracked.Holds settings kind)
      q.collection?
  | .listing _ l _ _ left =>
    ∀ row ∈ left, row.Tracks settings (Tracked.Holds settings kind) l.collection

theorem Read.mem_collection?_of_listing {q : Read} {l : Listing} (lists : q.listing? = some l) :
    l.collection ∈ q.collection? := by
  cases q with
  | documents | firstDocument =>
    cases lists
    rfl
  | _ => cases lists

/-- What a session tracks of rows that hold what was written through saves. -/
theorem Underway.Tracks.proceeds {rows : List Row} {session session' : Session} {u : Underway}
    {us : List Underway} {rs : List Returned} (tracks : u.Tracks settings kind)
    (before : session.Tracks settings (Tracked.Holds settings kind))
    (saved : ∀ collection ∈ u.collection?, ∀ row ∈ rows, row.Saved settings kind collection)
    (h : u.Proceeds rows session session' us rs) :
    session'.Tracks settings (Tracked.Holds settings kind) ∧ ∀ u ∈ us, u.Tracks settings kind := by
  have none : ∀ u ∈ ([] : List Underway), u.Tracks settings kind := fun _ mem => by cases mem
  have arrive : ∀ collection ∈ u.collection?, ∀ row ∈ rows,
      row.Tracks settings (Tracked.Holds settings kind) collection :=
    fun collection mem row hrow => (saved collection mem row hrow).tracks
  cases h with
  | stops | answers | listed => exact ⟨before, none⟩
  | finishes run
  | fails run => exact ⟨((tracks _ arrive).of_emits before run fun _ _ => trivial).1, none⟩
  | lists lists =>
    exact ⟨before, List.forall_mem_singleton.2 (arrive _ (Read.mem_collection?_of_listing lists))⟩
  | @materializes _ _ _ l _ _ _ _ _ _ run =>
    obtain ⟨first, rest⟩ := List.forall_mem_cons.1 tracks
    have keeps := Session.keeps_materialize (E := fun _ => True) l.entity first
    exact ⟨(keeps.of_emits before run fun _ _ => trivial).1, List.forall_mem_singleton.2 rest⟩
  | @spoils _ _ _ l _ _ _ _ _ _ run =>
    have keeps := Session.keeps_materialize (E := fun _ => True) l.entity
      (List.forall_mem_cons.1 tracks).1
    exact ⟨(keeps.of_emits before run fun _ _ => trivial).1, none⟩

namespace Reads

/-- A read starts, or goes on with rows that hold what was written through saves of their kinds; or,
while no read is under way, a document that was returned as an entity of its kind is saved as it was
returned, or changes are flushed or saved. -/
inductive Revisit (settings : Settings) (kind : DocKey → EntityType) : Reads → Reads → Prop where
  | starts {session session' : Session} {us : List Underway} {rs : List Returned} {q : Read}
      {events : List Event} {reading : Reading ReadAnswer} :
      Work.Emits q.start session events (.ok reading) session' →
        Revisit settings kind ⟨session, us, rs⟩ ⟨session', us ++ [.started q reading], rs⟩
  | fails {session session' : Session} {us : List Underway} {rs : List Returned} {q : Read}
      {events : List Event} {e : Error} : Work.Emits q.start session events (.error e) session' →
        Revisit settings kind ⟨session, us, rs⟩ ⟨session', us, rs⟩
  | proceeds {rows : List Row} {session session' : Session} {before after us : List Underway}
      {u : Underway} {rs rs' : List Returned} : u.Proceeds rows session session' us rs' →
      (∀ collection ∈ u.collection?, ∀ row ∈ rows, row.Saved settings kind collection) →
        Revisit settings kind ⟨session, before ++ u :: after, rs⟩
          ⟨session', before ++ us ++ after, rs ++ rs'⟩
  | saves {session session' : Session} {rs : List Returned} {r : Returned} {events : List Event}
      {result : Except Error Json} : r ∈ rs → r.entity = kind r.key →
      Work.Emits (Session.save r.entity r.key.collection r.content) session events result session' →
        Revisit settings kind ⟨session, [], rs⟩ ⟨session', [], rs⟩
  | flushes {session session' : Session} {rs : List Returned} {call : Call} {events : List Event}
      {result : Except Error Unit} :
      call = .flush ∨ call = .saveChanges → Work.Emits call.work session events result session' →
        Revisit settings kind ⟨session, [], rs⟩ ⟨session', [], rs⟩

/-- The session leaves documents as they are, and is going to; and all that it returned as entities
of their kinds it tracks with their texts. -/
structure Unaltered (settings : Settings) (kind : DocKey → EntityType) (x : Reads) : Prop where
  session : x.session.Unaltered settings kind
  fits : ∀ u ∈ x.underway, u.Fits x.session
  tracks : ∀ u ∈ x.underway, u.Tracks settings kind
  returned : ∀ r ∈ x.returned, r.entity = kind r.key → ∃ t, x.session.tracked.get? r.key = some t ∧
    (kind r.key).Holds settings.serializer r.key r.content t.content

theorem unaltered_idle (r : Session.Run settings) : (idle r.first).Unaltered settings kind :=
  ⟨r.unaltered_first, fun _ mem => (by cases mem), fun _ mem => (by cases mem),
    fun _ mem => by cases mem⟩

namespace Unaltered

variable {x y : Reads}

/-- What a session tracks it tracks after a load. -/
theorem returned_loads (unaltered : x.Unaltered settings kind) {session : Session}
    (loads : x.session.Loads session) :
    ∀ r ∈ x.returned, r.entity = kind r.key → ∃ t, session.tracked.get? r.key = some t ∧
      (kind r.key).Holds settings.serializer r.key r.content t.content := by
  intro r mem own
  obtain ⟨t, known, holds⟩ := unaltered.returned r mem own
  exact ⟨t, loads.get? known, holds⟩

variable (restores : ∀ key, (kind key).Restores settings.serializer)
include restores

omit restores in
/-- What a read makes a session track as it starts, and is going to make it track. -/
theorem starts {session session' : Session} {us : List Underway} {rs : List Returned} {q : Read}
    {events : List Event} {result : Except Error (Reading ReadAnswer)}
    (unaltered : Unaltered settings kind ⟨session, us, rs⟩)
    (run : Work.Emits q.start session events result session') :
    Unaltered settings kind ⟨session', us, rs⟩ ∧
      ∀ reading, result = .ok reading →
        (Underway.started q reading).Fits session' ∧
          (Underway.started q reading).Tracks settings kind := by
  obtain ⟨loads, reveals⟩ := q.reveals _ _ _ _ run
  obtain ⟨tracks, started⟩ := q.keeps_start.of_emits (E := fun _ => True) unaltered.session.toTracks
    run fun _ _ => trivial
  exact ⟨⟨unaltered.session.loads loads tracks, fun u mem => (unaltered.fits u mem).loads loads,
    unaltered.tracks,
    unaltered.returned_loads loads⟩, fun reading same =>
      ⟨reveals reading same, started reading same⟩⟩

theorem proceeds {rows : List Row} {session session' : Session} {before after us : List Underway}
    {u : Underway} {rs rs' : List Returned}
    (unaltered : Unaltered settings kind ⟨session, before ++ u :: after, rs⟩)
    (saved : ∀ collection ∈ u.collection?, ∀ row ∈ rows, row.Saved settings kind collection)
    (h : u.Proceeds rows session session' us rs') :
    Unaltered settings kind ⟨session', before ++ us ++ after, rs ++ rs'⟩ := by
  obtain ⟨fitsBefore, split⟩ := List.forall_mem_append.1 unaltered.fits
  obtain ⟨fitsHere, fitsAfter⟩ := List.forall_mem_cons.1 split
  obtain ⟨tracksBefore, split⟩ := List.forall_mem_append.1 unaltered.tracks
  obtain ⟨tracksHere, tracksAfter⟩ := List.forall_mem_cons.1 split
  obtain ⟨loads, still, shown⟩ := fitsHere.proceeds h
  obtain ⟨tracks, tracking⟩ := tracksHere.proceeds unaltered.session.toTracks saved h
  have left := unaltered.session.loads loads tracks
  refine ⟨left, ?_, ?_, ?_⟩
  · exact List.forall_mem_append.2 ⟨List.forall_mem_append.2 ⟨fun u mem =>
        (fitsBefore u mem).loads loads, still⟩,
      fun u mem => (fitsAfter u mem).loads loads⟩
  · exact List.forall_mem_append.2 ⟨List.forall_mem_append.2 ⟨tracksBefore, tracking⟩, tracksAfter⟩
  · refine List.forall_mem_append.2 ⟨unaltered.returned_loads loads, fun r mem own => ?_⟩
    exact left.exists_tracked own (restores r.key) (shown r mem)

omit restores in
/-- What is saved back is what is tracked. -/
theorem emits_save (unaltered : x.Unaltered settings kind) {r : Returned} (mem : r ∈ x.returned)
    (own : r.entity = kind r.key) {events : List Event} {result : Except Error Json}
    {session' : Session}
    (h : Work.Emits (Session.save r.entity r.key.collection r.content) x.session events
      result session') :
    x.session.Spares events result session' ∧
    session'.Unaltered settings kind ∧ ∀ e, result = .ok e → e = r.content := by
  obtain ⟨t, known, holds⟩ := unaltered.returned r mem own
  rw [own] at h
  exact unaltered.session.emits_save known holds h

omit restores in
theorem emits_flush (unaltered : x.Unaltered settings kind) {call : Call}
    (flushes : call = .flush ∨ call = .saveChanges) {events : List Event}
    {result : Except Error Unit} {session' : Session}
    (h : Work.Emits call.work x.session events result session') :
    x.session.Spares events result session' ∧ session'.Unaltered settings kind := by
  rcases flushes with rfl | rfl
  · exact unaltered.session.emits_flush h
  · exact unaltered.session.emits_saveChanges h

omit restores in
/-- With nothing under way only the session matters, and of it what is tracked. -/
theorem of_idle {session session' : Session} {rs : List Returned}
    (unaltered : Unaltered settings kind ⟨session, [], rs⟩)
    (same : session'.tracked = session.tracked) (h : session'.Unaltered settings kind) :
    Unaltered settings kind ⟨session', [], rs⟩ :=
  ⟨h, fun _ mem => (by cases mem), fun _ mem => (by cases mem), same.symm ▸ unaltered.returned⟩

theorem revisit (unaltered : x.Unaltered settings kind) (h : Revisit settings kind x y) :
    y.Unaltered settings kind := by
  cases h with
  | starts run =>
    obtain ⟨left, started⟩ := unaltered.starts run
    obtain ⟨fits, tracks⟩ := started _ rfl
    exact ⟨left.session, List.forall_mem_append.2 ⟨left.fits, List.forall_mem_singleton.2 fits⟩,
      List.forall_mem_append.2 ⟨left.tracks, List.forall_mem_singleton.2 tracks⟩, left.returned⟩
  | fails run => exact (unaltered.starts run).1
  | proceeds h saved => exact unaltered.proceeds restores saved h
  | saves mem own run =>
    obtain ⟨spares, left, _⟩ := unaltered.emits_save mem own run
    exact unaltered.of_idle spares.tracked left
  | flushes call run =>
    obtain ⟨spares, left⟩ := unaltered.emits_flush call run
    exact unaltered.of_idle spares.tracked left

end Unaltered

/-- Whatever documents that were written through saves a later session loads, and however often and
in whatever order it saves them back as they were returned and saves its changes: whatever it does
next sends nothing but reads and begins no transaction. Saves and flushes leave what it tracks as it
was, fail only if they are refused an answer, and a save answers what was saved. -/
theorem saving_back_changes_nothing (restores : ∀ key, (kind key).Restores settings.serializer)
    (run : Session.Run settings) {x : Reads}
    (course : Relation.ReflTransGen (Revisit settings kind) (idle run.first) x) :
    (∀ q : Read, q.start.Inquires Request.OnlyReads Session.flags) ∧
    (∀ r ∈ x.returned, r.entity = kind r.key → ∀ events result session',
      Work.Emits (Session.save r.entity r.key.collection r.content) x.session events
          result session' →
        x.session.Spares events result session' ∧ ∀ e, result = .ok e → e = r.content) ∧
    ∀ call, call = .flush ∨ call = .saveChanges → ∀ events result session',
      Work.Emits (Call.work call) x.session events result session' →
        x.session.Spares events result session' := by
  have unaltered : x.Unaltered settings kind := by
    induction course with
    | refl => exact unaltered_idle run
    | tail _ step ih => exact ih.revisit restores step
  refine ⟨fun q => q.inquires Request.hasLookups_onlyReads Session.untracked_flags, ?_, ?_⟩
  · intro r mem own events result session' h
    obtain ⟨spares, _, same⟩ := unaltered.emits_save mem own h
    exact ⟨spares, same⟩
  · exact fun call flushes events result session' h => (unaltered.emits_flush flushes h).1

end Reads

end Courses

namespace Counting

/-- Articles of which there is but one. -/
def bulletin : EntityType :=
  { entity with read? := fun json => if entity.id json = 7 then some (dated 7 1) else none }

theorem accepts_bulletin : bulletin.Accepts (dated 7 1) :=
  show (if entity.id (dated 7 1) = 7 then some (dated 7 1) else none) = _ from if_pos (by decide)

theorem restores_bulletin : bulletin.Restores settings.serializer := by
  intro e text accepts written
  have same : e = dated 7 1 := by
    unfold EntityType.Accepts bulletin at accepts
    dsimp only at accepts
    split at accepts
    · exact (Option.some.inj accepts).symm
    · cases accepts
  subst same
  cases written
  exact ⟨dated 7 1, by rfl, accepts_bulletin⟩

/-- A session on which nothing was called yet. -/
def visiting : Session.Run settings := ⟨[⟨.connect, .ok 0⟩], opened, [], opened, .ask (.done _),
  .nil, by simp⟩

/-- The bulletin is to be saved. -/
def publishing (session : Session) : Session :=
  session.withPending (.save ⟨"", 7⟩ "Article" (dated 7 1) (dated 7 1).text)

theorem emits_publishing {session : Session} (same : session.settings = settings) :
    Work.Emits (Session.save bulletin "" (dated 7 1)) session [⟨.idsSeeded "", true⟩,
        ⟨.seedIds "" 7, ()⟩] (.ok (dated 7 1))
      (publishing session) := by
  obtain ⟨_, conn, tracked, pending, created, inTransaction, cancelled⟩ := session
  subst same
  exact .ask (.ask (.done _))

def bulletinCommand : Command := .createDocument (settings.names "") 7 "Article" (dated 7 1).text

def bulletinPlan : FlushPlan := ⟨⟨[], [bulletinCommand]⟩,
  [(⟨"", 7⟩, some ⟨(dated 7 1).text, dated 7 1, 1⟩)]⟩

/-- Nothing is stored yet, so the bulletin is created. -/
theorem flushAt_publishing : (publishing opened).FlushAt
    [⟨.descriptors "Article" "", .ok []⟩, ⟨.query 0 (opened.documentStatement ⟨"", 7⟩), .ok []⟩]
    ⟨.execute 0 bulletinCommand.statement, .ok 1⟩ [] (.ok ()) (publishing opened) bulletinPlan
    bulletinCommand where
  plans := ⟨_, [], (List.append_nil _).symm, .ask (.ask (.done _))⟩
  decided := ⟨[bulletinCommand], ⟨[], rfl, fun _ mem => by cases mem⟩, List.mem_singleton_self _⟩
  sends := ⟨0, [], .ask (.done _)⟩

theorem saved_bulletin : bulletin.Saved settings ⟨"", 7⟩ (dated 7 1).text :=
  .intro (r := visiting) (emits_publishing rfl) accepts_bulletin (by decide) .nil rfl
    flushAt_publishing rfl

def bulletinFetched : Reading ReadAnswer :=
  Reading.map .one (.asking (opened.documentStatement ⟨"", 7⟩) (Session.found bulletin ⟨"", 7⟩))

theorem emits_bulletin :
    Work.Emits (Read.get bulletin "" 7).start opened [] (.ok bulletinFetched) opened := by
  have get : Work.Emits (Session.get bulletin "" 7) opened []
      (.ok (.asking (opened.documentStatement ⟨"", 7⟩)
      (Session.found bulletin ⟨"", 7⟩))) opened := by
    rw [Work.Emits, Session.run_get bulletin ⟨"", 7⟩ opened]
    exact .done _
  rw [Read.start, map_eq_pure_bind]
  exact Work.emits_bind_iff.2 (.inr ⟨_, opened, [], [], rfl, get, .done _⟩)

/-- The bulletin as a load returns it. -/
def bulletinSeen : Returned := ⟨bulletin, ⟨"", 7⟩, dated 7 1⟩

/-- The bulletin is loaded and saved back; then saving changes, which has one to flush, asks
for descriptors only. -/
theorem saving_back_bulletin : ∃ x events left,
    Relation.ReflTransGen (Reads.Revisit settings fun _ => bulletin) (.idle visiting.first) x ∧
      x.returned = [bulletinSeen] ∧
      x.session.hasChanges = true ∧ Work.Emits Session.saveChanges x.session events (.ok ()) left ∧
        x.session.Spares events (.ok ()) left := by
  have written : (stored 7 1).Saved settings (fun _ => bulletin) "" := by
    intro doc read
    cases read
    exact saved_bulletin
  have started : Relation.ReflTransGen (Reads.Revisit settings fun _ => bulletin) (.idle opened)
      ⟨opened, [.started (.get bulletin "" 7) bulletinFetched], []⟩ :=
    .single (.starts emits_bulletin)
  have found : (Underway.started (.get bulletin "" 7) bulletinFetched).Proceeds [stored 7 1] opened
      (knowing 1) []
      [bulletinSeen] := @Underway.Proceeds.finishes _ _ _ _ _ [stored 7 1] []
      (.one (some (dated 7 1))) (.done _)
  have shown : ∀ collection ∈ some "", ∀ row ∈ [stored 7 1],
      row.Saved settings (fun _ => bulletin) collection := by
    intro collection here
    obtain rfl : "" = collection := Option.some.inj here
    exact List.forall_mem_singleton.2 written
  have loaded := started.tail (@Reads.Revisit.proceeds _ _ _ _ _ [] [] _ _ _ _ found shown)
  have saved := loaded.tail (.saves List.mem_cons_self rfl (emits_publishing rfl))
  have flushed : Work.Emits Session.saveChanges (publishing (knowing 1))
      [⟨.descriptors "Article" "", .ok []⟩] (.ok ())
      { publishing (knowing 1) with pending := [] } := .ask (.done _)
  exact ⟨_, _, _, saved, rfl, rfl, flushed,
    (Reads.saving_back_changes_nothing (fun _ => restores_bulletin) visiting saved).2.2 .saveChanges
      (.inr rfl) _ _ _ flushed⟩

end Counting

end DocStore

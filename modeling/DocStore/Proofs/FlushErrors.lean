import DocStore.Proofs.Confinement
import DocStore.Proofs.FailedFlushes
import DocStore.Proofs.Registrations

/-!
# What a flush does not fail with

The reductions of a flush turn a descriptor down that has no group column, or one
that its index does not declare, or no function to reduce with. Descriptors that
were collected for an entity type have been checked for that, so that no flush
over such descriptors ever comes to it, whatever its surroundings answer.
-/

set_option autoImplicit false

namespace DocStore

/-- The error says that a descriptor lacks a part that it needs for reducing. -/
inductive Error.HalfConfigured : Error → Prop where
  | noGroupKey (index : String) : HalfConfigured (.invariant (.noGroupKey index))
  | noGroupColumn (index column : String) :
      HalfConfigured (.invariant (.noGroupColumn index column))
  | noReduce (index : String) : HalfConfigured (.invariant (.noReduce index))

/-- Errors among which are all that do not say so. -/
def Error.Admits (S : Error → Prop) : Prop := ∀ err, ¬err.HalfConfigured → S err

section Functions

variable {S : Error → Prop} (admits : Error.Admits S)
include admits

theorem admits_invalid (cause : Invalid) : S (.invalid cause) := admits _ (by rintro ⟨⟩)

theorem admits_internal (cause : Fault) : S (.internal cause) := admits _ (by rintro ⟨⟩)

theorem admits_json : S .json := admits _ (by rintro ⟨⟩)

/-! ## Rows and contents -/

theorem confined_cellOfJson (column : Column) (json : Option Json) :
    Confined S (fun _ => True) (IndexType.cellOfJson column json) := by
  have read {α : Type} (found : Option α) (mismatch : Invalid) (value : α → Value) :
      Confined S (fun _ => True) (found.elim (.error (.invalid mismatch)) fun a =>
        .ok (value a)) := by
    cases found with
    | none => exact admits_invalid admits mismatch
    | some a => trivial
  cases json with
  | none => trivial
  | some json =>
    unfold IndexType.cellOfJson
    dsimp only
    split
    · trivial
    · exact read _ _ _
    · exact read _ _ _
    · exact read _ _ _
    · exact read _ _ _

theorem confined_cells (index : IndexType) (row : Json) :
    Confined S (fun _ => True) (index.cells row) := by
  unfold IndexType.cells
  split
  · exact Confined.mapM (fun c => (confined_cellOfJson admits c _).map fun _ _ => trivial)
      index.columns
  · exact admits_invalid admits _

theorem confined_decode (index : IndexType) (row : Row) :
    Confined S (fun _ => True) (index.decode row) := by
  unfold IndexType.decode
  split
  · trivial
  · exact admits_json admits

theorem confined_getInt64 (row : Row) (name : String) :
    Confined S (fun _ => True) (row.getInt64 name) := by
  unfold Row.getInt64
  split
  · trivial
  · exact admits_internal admits _

theorem confined_getText (row : Row) (name : String) :
    Confined S (fun _ => True) (row.getText name) := by
  unfold Row.getText
  split
  · trivial
  · exact admits_internal admits _

theorem confined_ofRow (row : Row) : Confined S (fun _ => True) (Document.ofRow row) :=
  (confined_getInt64 admits row _).bind fun _ _ => (confined_getText admits row _).bind fun _ _ =>
    (confined_getText admits row _).bind fun _ _ =>
      (confined_getInt64 admits row _).bind fun _ _ => trivial

theorem confined_mapContent (d : Descriptor) (content : Json) :
    Confined S (fun _ => True) (d.mapContent content) := by
  refine Confined.map (Q := fun _ => True) ?_ fun _ _ => trivial
  unfold EntityType.read
  split
  · trivial
  · exact admits_json admits

/-! ## Reducing -/

/-- The group column is among the cells of every row. -/
theorem confined_groupKey {d : Descriptor} (grouped : d.Grouped) (reduces : d.kind = .reduce)
    (row : Json) : Confined S (fun _ => True) (d.groupKey row) := by
  obtain ⟨c, member, column⟩ := grouped reduces
  unfold Descriptor.groupKey
  rw [column]
  cases cells : d.index.cells row with
  | error err =>
    have failed := confined_cells admits d.index row
    rwa [cells] at failed
  | ok found =>
    have named : c.name ∈ found.map Prod.fst := by
      rw [IndexType.names_cells cells]
      exact List.mem_map_of_mem member
    simp only [bind, Except.bind]
    split
    · trivial
    · next absent =>
      obtain ⟨cell, present, same⟩ := List.mem_map.1 named
      exact absurd same (by simpa using List.find?_eq_none.1 absent cell present)

omit admits in
theorem confined_reduceRows {d : Descriptor} (reduces : d.kind = .reduce) (rows : List Json) :
    Confined S (fun _ => True) (d.reduceRows rows) := by
  obtain ⟨reduce, has⟩ := Option.isSome_iff_exists.1 (Descriptor.isSome_reduce reduces)
  unfold Descriptor.reduceRows
  rw [has]
  trivial

theorem confined_collapse {d : Descriptor} (grouped : d.Grouped) (reduces : d.kind = .reduce)
    (rows : List Json) (key : Value) : Confined S (fun _ => True) (Buffer.collapse d rows key) := by
  refine (confined_reduceRows reduces rows).bind fun reduced _ => ?_
  cases reduced with
  | none => exact admits _ (by rintro ⟨⟩)
  | some row =>
    refine (confined_groupKey admits grouped reduces row).bind fun produced _ => ?_
    split
    · trivial
    · exact admits _ (by rintro ⟨⟩)

/-- What the buffers of an arena collect is to be reduced by descriptors
that have a group column. -/
def Arena.Complete (arena : Arena) : Prop :=
  ∀ b ∈ arena.buffers, b.descriptor.Grouped ∧ b.descriptor.kind = .reduce

section Buffers

variable {b : Buffer} (complete : b.descriptor.Grouped ∧ b.descriptor.kind = .reduce) (key : Value)
include complete

theorem confined_candidate : Confined S (fun _ => True) (b.candidate key) := by
  unfold Buffer.candidate
  split
  · trivial
  · exact (confined_collapse admits complete.1 complete.2 _ key).map fun _ _ => trivial

omit admits in
/-- A group can always be looked up. -/
theorem confined_lookup (dialect : Dialect) :
    Confined S (fun _ => True) (b.lookup dialect key) := by
  obtain ⟨c, member, column⟩ := complete.1 complete.2
  obtain ⟨q, found⟩ :=
    b.exists_lookup dialect key column (Descriptor.isSome_column?_iff.2 ⟨c, member, rfl⟩)
  rw [found]
  trivial

omit complete in
theorem confined_persisted (rows : List Row) :
    Confined S (fun _ => True) (b.persisted key rows) := by
  rcases rows with _ | ⟨row, _ | ⟨row', rest⟩⟩
  · trivial
  · exact (confined_getInt64 admits row _).bind fun _ _ =>
      (confined_decode admits _ row).bind fun _ _ => trivial
  · exact admits _ (by rintro ⟨⟩)

theorem confined_merge (stored candidate : Option Json) :
    Confined S (fun _ => True) (b.merge key stored candidate) := by
  rw [Buffer.merge_eq]
  refine Confined.bind (Q := fun _ => True) ?_ fun current _ => ?_
  · cases stored with
    | none => trivial
    | some p =>
      cases candidate with
      | none => trivial
      | some c =>
        exact (confined_collapse admits complete.1 complete.2 _ key).map fun _ _ => trivial
  · unfold Buffer.without
    split
    · unfold Descriptor.deleteRows
      split
      · trivial
      · exact admits _ (by rintro ⟨⟩)
    · trivial

omit complete in
theorem confined_command (stored : Option (Int64 × Json)) (row : Option Json) :
    Confined S (fun _ => True) (b.command key stored row) := by
  unfold Buffer.command
  rcases stored with _ | ⟨id, json⟩ <;> rcases row with _ | row
  · trivial
  · exact (confined_cells admits _ row).bind fun _ _ => trivial
  · trivial
  · exact (confined_cells admits _ row).bind fun _ _ => trivial

end Buffers

/-! ## Index work -/

section Work

variable {arena : Arena} (h : arena.Complete) {d : Descriptor} (grouped : d.Grouped)
  (names : TableNames) (document : Int64)
include h

omit admits in
theorem Arena.Complete.push (command : Command) : (arena.push command).Complete := h

theorem confined_createMapRows (rows : List Json) :
    Confined S Arena.Complete (arena.createMapRows names d document rows) := by
  refine (Confined.mapM (fun row => ?_) rows).bind fun _ _ => h
  exact (confined_cells admits d.index row).map fun _ _ => trivial

include grouped

theorem confined_collect (reduces : d.kind = .reduce) (change : Change) (rows : List Json) :
    Confined S Arena.Complete (arena.collect names d document change rows) := by
  refine (Confined.mapM (fun row => ?_) rows).bind fun entries _ => ?_
  · exact (confined_groupKey admits grouped reduces row).map fun _ _ => trivial
  · intro b member
    rcases Arena.mem_appendTo member with ⟨_, same⟩ | ⟨b', before, _, same⟩
    · rw [same]
      exact ⟨grouped, reduces⟩
    · rw [same]
      exact h b' before

theorem confined_created (content : Json) :
    Confined S Arena.Complete (arena.created names d document content) := by
  refine (confined_mapContent admits d content).bind fun rows _ => ?_
  cases kind : d.kind with
  | map => exact confined_createMapRows admits h names document rows
  | reduce => exact confined_collect admits h grouped names document kind .added rows

theorem confined_deleted (content : Json) :
    Confined S Arena.Complete (arena.deleted names d document content) := by
  unfold Arena.deleted
  cases kind : d.kind with
  | map => exact h
  | reduce =>
    exact (confined_mapContent admits d content).bind fun rows _ =>
      confined_collect admits h grouped names document kind .removed rows

theorem confined_updated (old new : Json) :
    Confined S Arena.Complete (arena.updated names d document old new) := by
  unfold Arena.updated
  cases kind : d.kind with
  | map =>
    refine (confined_mapContent admits d new).bind fun rows _ => ?_
    exact confined_createMapRows admits (h.push _) names document rows
  | reduce =>
    refine (confined_mapContent admits d old).bind fun before _ =>
      (confined_mapContent admits d new).bind fun after _ => ?_
    refine (confined_collect admits h grouped names document kind .removed before).bind
      fun arena' h' => ?_
    exact confined_collect admits h' grouped names document kind .added after

end Work

/-! ## Planning a document -/

section Plans

variable {plan : FlushPlan} (h : plan.arena.Complete) {ds : List Descriptor}
  (grouped : ∀ d ∈ ds, d.Grouped) (names : TableNames) (key : DocKey)
include h grouped

theorem confined_plan_delete (old : Tracked) :
    Confined S (fun plan => plan.arena.Complete) (plan.delete names ds key old) := by
  refine Confined.bind (Q := Arena.Complete) ?_ fun arena h' => h'
  exact Confined.foldlM (fun d member arena h' =>
    confined_deleted admits h' (grouped d member) names _ _) (h.push _)

theorem confined_plan_create (typeName : String) (json : Json) (content : String) :
    Confined S (fun plan => plan.arena.Complete)
      (plan.create names ds key typeName json content) := by
  refine Confined.bind (Q := Arena.Complete) ?_ fun arena h' => h'
  exact Confined.foldlM (fun d member arena h' =>
    confined_created admits h' (grouped d member) names _ _) (h.push _)

theorem confined_plan_update (check : Bool) (typeName : String) (json : Json) (content : String)
    (old : Tracked) :
    Confined S (fun plan => plan.arena.Complete)
      (plan.update check names ds key typeName json content old) := by
  refine Confined.bind (Q := Arena.Complete) ?_ fun arena h' => h'
  exact Confined.foldlM (fun d member arena h' =>
    confined_updated admits h' (grouped d member) names _ _ _) (h.push _)

theorem confined_planSave (session : Session) (typeName : String) (json : Json) (content : String)
    (known : Option Tracked) :
    Confined S (fun plan => plan.arena.Complete)
      (session.planSave plan ds key typeName json content known) := by
  unfold Session.planSave
  split
  · exact confined_plan_create admits h grouped _ key typeName json content
  · split
    · exact h
    · exact confined_plan_update admits h grouped _ key _ typeName json content _

end Plans

end Functions

/-! ## Flushing -/

/-- What may go wrong in a flush over grouped descriptors: whatever its surroundings report, and all
that does not say that a descriptor lacks a part. -/
structure Session.Excuses (settings : Settings) (E : Event → Prop) (S : Error → Prop) : Prop where
  admits : Error.Admits S
  reported : ∀ e err, E e → e.error? = some err → S err
  unread : ∀ text err, settings.serializer.deserialize text = .error err → S err
  described : ∀ typeName collection ds, E ⟨.descriptors typeName collection, .ok ds⟩ →
    ∀ d ∈ ds, d.Grouped

namespace Session.Excuses

variable {settings : Settings} {E : Event → Prop} {S : Error → Prop}
  (h : Session.Excuses settings E S)
include h

theorem asks {α : Type} {a : Action α} (request : a.IsRequest) : a.Confined E S fun _ => True := by
  intro events result emits all
  obtain ⟨e, rfl, answered⟩ := request emits
  cases result with
  | ok x => trivial
  | error err => exact h.reported e err (all e (List.mem_singleton_self e)) answered

theorem descriptors (typeName collection : String) :
    (Action.descriptors typeName collection).Confined E S fun ds => ∀ d ∈ ds, d.Grouped := by
  intro events result emits all
  obtain rfl := Program.emits_request_iff.1 emits
  have happened := all _ (List.mem_singleton_self _)
  cases result with
  | ok ds => exact h.described _ _ ds happened
  | error err => exact h.reported _ err happened rfl

theorem executeAll (conn : Connection) (ss : List Statement) :
    (Action.executeAll conn ss).Confined E S fun _ => True := by
  induction ss with
  | nil => exact Action.confined_pure trivial
  | cons s ss ih => exact (h.asks (Action.isRequest_execute conn s)).bind fun _ _ => ih

/-! ### Commands and groups -/

theorem run (conn : Connection) (c : Command) : (c.run conn).Confined E S fun _ => True := by
  cases c with
  | createDocument | deleteDocument | createMapRow | deleteMapRows
  | deleteReduceRow => exact h.executeAll conn _
  | updateDocument =>
    refine (h.asks (Action.isRequest_execute conn _)).bind fun affected _ => ?_
    split
    · exact Action.confined_throw (h.admits _ (by rintro ⟨⟩))
    · exact Action.confined_pure trivial
  | createReduceRow =>
    refine (h.asks (Action.isRequest_scalar conn _)).bind fun answer _ => ?_
    split
    · exact h.executeAll conn _
    · exact Action.confined_throw (admits_internal h.admits _)
  | updateReduceRow => exact (h.executeAll conn _).bind fun _ _ => h.executeAll conn _

theorem runAll (conn : Connection) (commands : List Command) :
    (Command.runAll conn commands).Confined E S fun _ => True := by
  induction commands with
  | nil => exact Action.confined_pure trivial
  | cons c rest ih => exact (h.run conn c).bind fun _ _ => ih

section Buffers

variable {b : Buffer} (complete : b.descriptor.Grouped ∧ b.descriptor.kind = .reduce)
  (conn : Connection) (dialect : Dialect)
include complete

theorem reduceGroup (key : Value) :
    (b.reduceGroup conn dialect key).Confined E S fun _ => True := by
  rw [Buffer.reduceGroup_eq]
  refine (Action.confined_ofExcept (confined_candidate h.admits complete key)).bind
    fun candidate _ => ?_
  refine (Action.confined_ofExcept (confined_lookup complete key dialect)).bind fun lookup _ => ?_
  refine (h.asks (Action.isRequest_query conn lookup)).bind fun rows _ => ?_
  refine (Action.confined_ofExcept (confined_persisted h.admits key rows)).bind fun stored _ => ?_
  refine (Action.confined_ofExcept (confined_merge h.admits complete key _ candidate)).bind
    fun row _ => ?_
  exact (Action.confined_ofExcept (confined_command h.admits key stored row)).bind fun _ _ =>
    Action.confined_pure trivial

theorem reduceGroups (keys : List Value) :
    (b.reduceGroups conn dialect keys).Confined E S fun _ => True := by
  induction keys with
  | nil => exact Action.confined_pure trivial
  | cons key keys ih =>
    exact (h.reduceGroup complete conn dialect key).bind fun _ _ =>
      ih.bind fun _ _ => Action.confined_pure trivial

end Buffers

theorem finish {arena : Arena} (complete : arena.Complete) (conn : Connection) (dialect : Dialect) :
    (arena.finish conn dialect).Confined E S fun _ => True := by
  have all : ∀ bs : List Buffer, (∀ b ∈ bs, b.descriptor.Grouped ∧ b.descriptor.kind = .reduce) →
      (Buffer.reduceAll conn dialect bs).Confined E S fun _ => True := by
    intro bs each
    induction bs with
    | nil => exact Action.confined_pure trivial
    | cons b bs ih =>
      obtain ⟨here, later⟩ := List.forall_mem_cons.1 each
      exact (h.reduceGroups here conn dialect b.keys).bind fun _ _ =>
        (ih later).bind fun _ _ => Action.confined_pure trivial
  exact (all arena.buffers complete).bind fun _ _ => Action.confined_pure trivial

/-! ### The session -/

theorem track (collection : String) (doc : Document) :
    (Session.track collection doc).Confined settings E S fun _ => True := by
  refine Work.confined_get_bind fun session same => ?_
  dsimp only
  split
  · exact Work.confined_pure trivial
  · refine Work.Confined.bind (Q := fun _ => True) (Work.confined_ofExcept ?_) fun json _ => ?_
    · cases read : session.settings.serializer.deserialize doc.content with
      | ok json => trivial
      | error err => exact h.unread doc.content err (same ▸ read)
    · refine Work.Confined.bind (Q := fun _ => True) (Work.confined_modify fun _ => rfl)
        fun _ _ => ?_
      exact Work.confined_pure trivial

theorem lastStored (key : DocKey) :
    (Session.lastStored key).Confined settings E S fun _ => True := by
  refine Work.confined_get_bind fun session _ => ?_
  split
  · exact Work.confined_pure trivial
  · refine Work.Confined.bind (Q := fun _ => True) (Work.confined_get_bind fun _ _ => ?_)
      fun rows _ => ?_
    · exact Work.confined_ofAction (h.asks (Action.isRequest_query _ _))
    split
    · exact Work.confined_pure trivial
    · refine (Work.confined_ofExcept (confined_ofRow h.admits _)).bind fun doc _ =>
        (h.track _ doc).bind fun _ _ => ?_
      exact Work.confined_get_bind fun _ _ => Work.confined_pure trivial

/-- A change is planned with descriptors that were answered. -/
theorem planChange {plan : FlushPlan} (complete : plan.arena.Complete) (change : Pending) :
    (Session.planChange plan change).Confined settings E S fun plan => plan.arena.Complete := by
  cases change with
  | delete key typeName =>
    refine Work.confined_get_bind fun session _ => (h.lastStored key).bind fun known _ => ?_
    split
    · exact Work.confined_pure complete
    · refine (Work.confined_ofAction (h.descriptors typeName key.collection)).bind fun ds grouped =>
        ?_
      exact Work.confined_ofExcept (confined_plan_delete h.admits complete grouped _ key _)
  | save key typeName json content =>
    rw [Session.planChange_save]
    refine Work.confined_get_bind fun session _ => ?_
    refine (Work.confined_ofAction (h.descriptors typeName key.collection)).bind fun ds grouped =>
      ?_
    refine Work.Confined.bind (Q := fun _ => True) ?_ fun known _ => ?_
    · split
      · exact Work.confined_pure trivial
      · exact h.lastStored key
    · exact Work.confined_ofExcept (confined_planSave h.admits complete grouped key session typeName
        json content known)

theorem planChanges {plan : FlushPlan} (complete : plan.arena.Complete) (changes : List Pending) :
    (Session.planChanges plan changes).Confined settings E S fun plan => plan.arena.Complete := by
  induction changes generalizing plan with
  | nil => exact Work.confined_pure complete
  | cons change changes ih =>
    exact (h.planChange complete change).bind fun _ complete' => ih complete'

theorem flushPending : Session.flushPending.Confined settings E S fun _ => True := by
  rw [Session.flushPending_eq]
  have nothing : (∅ : FlushPlan).arena.Complete := fun _ none => by cases none
  refine Work.confined_get_bind fun session _ =>
    (h.planChanges nothing _).bind fun plan complete => ?_
  have runs : (session.runPlan plan).Confined settings E S fun _ => True :=
    (Work.confined_ofAction (h.finish complete _ _)).bind fun commands _ =>
      (Work.confined_ofAction (h.runAll _ commands)).bind fun _ _ =>
        Work.confined_modify fun _ => rfl
  split
  · exact runs
  · refine Work.Confined.bind (Q := fun _ => True) (Work.confined_get_bind fun session _ => ?_)
      fun _ _ => runs
    split
    · exact Work.confined_pure trivial
    · exact (Work.confined_ofAction (h.asks (Action.isRequest_begin _))).bind fun _ _ =>
        Work.confined_modify fun _ => rfl

end Session.Excuses

/-- Whatever descriptors are added for an entity type, in any order, and whichever are turned down:
those that are kept are of the type, no two are of one index, and each that reduces has a group
column that its index declares. A complete one is missing only if another is of its index. Over such
descriptors no flush fails for want of a group key, a group column or a function to reduce with,
unless its surroundings or the serializer report just that. -/
theorem half_configured_unreachable :
    (∀ (entityType collection : String) (added : List Descriptor),
      let kept := ((Describing.start entityType collection).addEach added).descriptors
      Registered entityType kept ∧
        ∀ d ∈ added, d.entity.name = entityType → d.validate = .ok () →
          ∃ e ∈ kept, e.index.name = d.index.name) ∧
    ∀ (session session' : Session) (events : List Event) (err : Error),
      Work.Emits Session.flush session events (.error err) session' →
      (∀ typeName collection ds, ⟨.descriptors typeName collection, .ok ds⟩ ∈ events →
        ∃ added, ds = ((Describing.start typeName collection).addEach added).descriptors) →
      ¬err.HalfConfigured ∨ (∃ e ∈ events, e.error? = some err) ∨
        ∃ text, session.settings.serializer.deserialize text = .error err := by
  constructor
  · intro entityType collection added
    let ctx : Describing := .start entityType collection
    have start : Registered ctx.entityType ctx.descriptors :=
      Describing.registered_start entityType collection
    exact ⟨Describing.registered_addEach start added, ctx.described_addEach added⟩
  · intro session session' events err flushed described
    have excuses : Session.Excuses session.settings (· ∈ events) fun err => ¬err.HalfConfigured ∨
        (∃ e ∈ events, e.error? = some err) ∨
          ∃ text, session.settings.serializer.deserialize text = .error err := by
      refine ⟨fun _ other => .inl other, fun e _ happened failed =>
          .inr (.inl ⟨e, happened, failed⟩),
        fun text _ unread => .inr (.inr ⟨text, unread⟩), ?_⟩
      intro typeName collection ds answered
      obtain ⟨added, rfl⟩ := described typeName collection ds answered
      let ctx : Describing := .start typeName collection
      have start : Registered ctx.entityType ctx.descriptors :=
        Describing.registered_start typeName collection
      exact (Describing.registered_addEach start added).grouped
    rcases Session.exists_of_flush flushed with ⟨_, impossible, _⟩ | ⟨left, ran, _⟩
    · cases impossible
    · exact (excuses.flushPending ran rfl fun _ happened => happened).2

namespace Counting

/-- The types whose descriptors a request asks for. -/
def typeOf? : Request → Option String
  | .descriptors typeName _ => some typeName
  | _ => none

theorem typeOf?_overtaken :
    overtaken.1.filterMap (fun e => typeOf? e.request) = ["Article", "Article"] := by decide +kernel

/-- The flush that is overtaken fails, but not for want of a group key: its descriptors are what is
kept of two of the same index. -/
theorem fails_configured_overtaken :
    ((Describing.start "Article" "").addEach [articles, articles]).descriptors = [articles] ∧
    ∃ err, overtaken.2.1.1 = .error err ∧ ¬err.HalfConfigured := by
  refine ⟨rfl, ?_⟩
  have failed : overtaken.2.1.1.isOk = false := by decide +kernel
  cases ended : overtaken.2.1.1 with
  | ok u =>
    rw [ended] at failed
    cases failed
  | error err =>
    have emits : Work.Emits Session.flush dirty overtaken.1 (.error err) overtaken.2.1.2 := by
      rw [← ended]
      exact Program.emits_record losing _ ()
    refine ⟨err, rfl, (half_configured_unreachable.2 _ _ _ _ emits ?_).resolve_right ?_⟩
    · intro typeName collection ds answered
      obtain ⟨_, outcome⟩ := Program.answered_of_record losing _ () _ answered
      cases outcome
      have asked : typeName ∈ ["Article", "Article"] :=
        typeOf?_overtaken ▸ List.mem_filterMap.2 ⟨_, answered, rfl⟩
      obtain rfl : typeName = "Article" := by simpa using asked
      exact ⟨[articles, articles], rfl⟩
    · rintro (⟨e, happened, reported⟩ | ⟨text, unreadable⟩)
      · have none : overtaken.1.all (fun e => e.error?.isNone) = true := by decide +kernel
        have clean := List.all_eq_true.1 none e happened
        rw [reported] at clean
        cases clean
      · cases unreadable

end Counting

end DocStore

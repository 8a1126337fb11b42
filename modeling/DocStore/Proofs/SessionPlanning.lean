import DocStore.Proofs.Reference

/-!
# What a session knows and plans

A session knows the documents that it has loaded or written as they are stored.
It plans a flush by what it knows of every document it changes, and loads what it
does not know; so the plan of a flush is that of edits, each of which finds its
document.
-/

set_option autoImplicit false

namespace DocStore

/-- Documents are looked up by id as they are stored. -/
def Storage.FindsDocuments {σ : Type} (S : Storage σ) (catalog : Catalog) : Prop :=
  ∀ {conn table parameter id st rows st'}, catalog.IsDocuments table →
    S.answer (.query conn (.query (.documentById table) ⟨[(parameter, .int id)]⟩)) st =
        (.ok rows, st') →
      rows.Perm ((S.tables st).byId table id)

/-- The descriptors of an entity type in a collection are those of a catalog. -/
def Storage.Describes {σ : Type} (S : Storage σ) (settings : Settings) (catalog : Catalog) : Prop :=
  ∀ {typeName collection st ds st'}, S.answer (.descriptors typeName collection) st =
      (.ok ds, st') →
    ds = catalog.descriptors (settings.names collection) typeName

/-- What is tracked is as it is stored, and the content of any other document is
read as the entity that it stands for. -/
structure Knows (serializer : ContentSerializer) (docs : Documents)
    (tracked : Assoc DocKey Tracked) : Prop where
  agrees : ∀ key t, tracked.get? key = some t → (docs key).map StoredDocument.state = some t
  unread : ∀ key doc, docs key = some doc → tracked.get? key = none → ∀ json,
    serializer.deserialize doc.state.content = .ok json → json = doc.state.json

/-- The edit that a change comes to, if it comes to any. Deletes of documents that
are not there and saves that leave the content come to none. -/
def Pending.edit (settings : Settings) (docs : Documents) : Pending → Option Edit
  | .delete key typeName =>
    (docs key).map fun doc => .delete (settings.names key.collection) key.id typeName doc.state
  | .save key typeName json content =>
    match docs key with
    | none => some (.create (settings.names key.collection) key.id typeName json content)
    | some doc =>
      if doc.state.content = content then none
      else some (.update (settings.names key.collection) key.id typeName json content doc.state)

def Pending.intent : Pending → Intent
  | .save _ typeName json content => .save typeName json content
  | .delete .. => .delete

namespace Session

/-- The documents as a flush takes them to be when it plans a change: those to which the
session gave an id are new. -/
def expects (session : Session) (docs : Documents) : Pending → Documents
  | .save key .. => if session.created.contains key then fun _ => none else docs
  | .delete .. => docs

/-- What a flush of the changes that wait makes of documents. -/
def flushed (session : Session) (docs : Documents) : Documents := fun key =>
  (session.pendingChange key).elim (docs key) fun change => change.intent.apply (docs key)

/-- The edits that the changes which wait come to. -/
def edits (session : Session) (docs : Documents) : List Edit :=
  session.pending.filterMap (Pending.edit session.settings docs)

/-- Plans a save of a document, from what is known of it to be stored. -/
def planSave (session : Session) (plan : FlushPlan) (ds : List Descriptor) (key : DocKey)
    (typeName : String) (json : Json) (content : String) : Option Tracked → Except Error FlushPlan
  | none => plan.create (session.names key.collection) ds key typeName json content
  | some old =>
    if old.content = content then .ok plan
    else plan.update session.settings.config.checkConcurrency (session.names key.collection) ds key
      typeName json content old

theorem planChange_save (plan : FlushPlan) (key : DocKey) (typeName : String) (json : Json)
    (content : String) : planChange plan (.save key typeName json content) = (do
      let session ← MonadState.get
      let ds ← Work.ofAction (Action.descriptors typeName key.collection)
      let old ← (if session.created.contains key then pure none
          else lastStored key : Work (Option Tracked))
      Work.ofExcept (session.planSave plan ds key typeName json content old)) := by
  have planned : ∀ (session : Session) ds old, (match old with
      | none =>
        Work.ofExcept (plan.create (session.names key.collection) ds key typeName json content)
      | some old =>
        if old.content = content then pure plan
        else Work.ofExcept (plan.update session.settings.config.checkConcurrency
          (session.names key.collection) ds key
          typeName json content old)) =
          Work.ofExcept (session.planSave plan ds key typeName json content old) := by
    intro session ds old
    cases old with
    | none => rfl
    | some old =>
      dsimp only [planSave]
      split <;> rfl
  unfold planChange
  simp only [← planned]
  refine congrArg (MonadState.get >>= ·) (funext fun session =>
    congrArg (Work.ofAction _ >>= ·) (funext fun ds => ?_))
  split <;> rfl

section Loading

variable {σ : Type} {S : Storage σ} {catalog : Catalog} {session session' : Session}
  {docs : Documents} {st st' : σ} (knows : Knows session.settings.serializer docs session.tracked)
include knows

/-- Tracking a stored document. -/
theorem of_track {collection : String} {id : Int64} {doc : StoredDocument}
    (stored : docs ⟨collection, id⟩ = some doc) {json : Json}
    (h : Work.Yields S.answer
      (track collection ⟨id, doc.typeName, doc.state.content, doc.state.version⟩) session st json
      session' st') :
    json = doc.state.json ∧ st' = st ∧ ∃ tracked, session' = { session with tracked } ∧
        Knows session.settings.serializer docs tracked ∧
          tracked.get? ⟨collection, id⟩ = some doc.state := by
  have run := Work.yields_get_bind_iff.1 h
  dsimp only at run
  split at run
  · next known hknown =>
    obtain ⟨rfl, rfl, rfl⟩ := Work.yields_pure_iff.1 run
    have same := knows.agrees _ known hknown
    rw [stored, Option.map_some, Option.some.injEq] at same
    exact ⟨by rw [same], rfl, _, rfl, knows, by rw [same]; exact hknown⟩
  · next unknown =>
    obtain ⟨json', read, run⟩ := Work.yields_ofExcept_bind_iff.1 run
    have run := Work.yields_modify_bind_iff.1 run
    obtain ⟨rfl, rfl, rfl⟩ := Work.yields_pure_iff.1 run
    obtain rfl := knows.unread _ doc stored unknown _ read
    refine ⟨rfl, rfl, _, rfl, ⟨fun key t hkey => ?_, fun key doc' hkey none => ?_⟩, ?_⟩
    · rw [Assoc.get?_insert] at hkey
      split at hkey
      · next same =>
        cases hkey
        rw [← same, stored]
        rfl
      · exact knows.agrees key t hkey
    · rw [Assoc.get?_insert] at none
      split at none
      · cases none
      · exact knows.unread key doc' hkey none
    · rw [Assoc.get?_insert, if_pos rfl]

variable (faithful : S.Faithful catalog.IsDocuments) (finds : S.FindsDocuments catalog)
  (stored : docs.Stored session.settings catalog (S.tables st))
include faithful finds stored

/-- What is last known of a document to be stored is stored. -/
theorem of_lastStored {key : DocKey} (used : catalog.collections (session.names key.collection))
    {old : Option Tracked} (h : Work.Yields S.answer (lastStored key) session st old session' st') :
    old = (docs key).map StoredDocument.state ∧
    (∀ t, catalog.IsDocuments t → S.tables st' t = S.tables st t) ∧
      ∃ tracked, session' = { session with tracked } ∧
        Knows session.settings.serializer docs tracked := by
  unfold lastStored at h
  have run := Work.yields_get_bind_iff.1 h
  split at run
  · next known hknown =>
    obtain ⟨rfl, rfl, rfl⟩ := Work.yields_pure_iff.1 run
    exact ⟨(knows.agrees key known hknown).symm, fun _ _ => rfl, _, rfl, knows⟩
  · next unknown =>
    obtain ⟨found, st₁, hquery, run₁⟩ := Work.yields_query_bind_iff.1 run
    have tables := faithful.quiet (r := .query session.connection (session.documentStatement key))
      (s := st) trivial
    rw [hquery] at tables
    have rows := stored.found_eq used (finds ⟨_, used, rfl⟩ hquery)
    cases hdoc : docs key with
    | none =>
      obtain rfl : found = [] := by
        rw [rows, show docs ⟨key.collection, key.id⟩ = none from hdoc]
        rfl
      obtain ⟨rfl, rfl, rfl⟩ := Work.yields_pure_iff.1 run₁
      exact ⟨rfl, tables, _, rfl, knows⟩
    | some doc =>
      obtain rfl : found = [Row.document key.id doc] := by
        rw [rows, show docs ⟨key.collection, key.id⟩ = some doc from hdoc]
        rfl
      obtain ⟨read, hread, run₂⟩ := Work.yields_ofExcept_bind_iff.1 run₁
      rw [Document.ofRow_document] at hread
      cases hread
      obtain ⟨json, session₂, st₂, htrack, run₃⟩ := Work.yields_bind_iff.1 run₂
      obtain ⟨_, rfl, tracked, rfl, knows', known⟩ := of_track knows hdoc htrack
      have run₄ := Work.yields_get_bind_iff.1 run₃
      obtain ⟨rfl, rfl, rfl⟩ := Work.yields_pure_iff.1 run₄
      exact ⟨known, tables, tracked, rfl, knows'⟩

omit knows faithful finds stored in
/-- What is planned for a document that is saved is the edit that this comes to. -/
theorem of_planSave {key : DocKey} {typeName content : String} {json : Json}
    {plan plan' : FlushPlan}
    (planned : session.planSave plan (catalog.descriptors (session.names key.collection) typeName)
      key typeName json content ((docs key).map StoredDocument.state) = .ok plan') :
    ((Pending.save key typeName json content).edit session.settings docs).elim
      (plan' = plan) fun e =>
        e.plan session.settings.config.checkConcurrency catalog plan = .ok plan' := by
  cases hdoc : docs key with
  | none =>
    rw [hdoc] at planned
    simp only [Pending.edit, hdoc]
    exact planned
  | some doc =>
    rw [hdoc] at planned
    simp only [Pending.edit, hdoc]
    by_cases same : doc.state.content = content
    · rw [Option.map_some, planSave, if_pos same] at planned
      cases planned
      rw [if_pos same]
      rfl
    · rw [Option.map_some, planSave, if_neg same] at planned
      rw [if_neg same]
      exact planned

omit knows finds stored in
/-- The descriptors answered are those of the catalog, and the tables of documents stay. -/
theorem of_descriptors (describes : S.Describes session.settings catalog)
    {typeName collection : String} {ds : List Descriptor}
    (h : Action.Yields S.answer (Action.descriptors typeName collection) st ds st') :
    ds = catalog.descriptors (session.names collection) typeName ∧
      ∀ t, catalog.IsDocuments t → S.tables st' t = S.tables st t := by
  have asked : S.answer (.descriptors typeName collection) st = (.ok ds, st') := h
  have tables := faithful.quiet (r := .descriptors typeName collection) (s := st) trivial
  rw [asked] at tables
  exact ⟨describes asked, tables⟩

/-- A change is planned as the edit that it comes to. -/
theorem of_planChange (describes : S.Describes session.settings catalog) {change : Pending}
    (used : catalog.collections (session.names change.key.collection)) {plan plan' : FlushPlan}
    (h : Work.Yields S.answer (planChange plan change) session st plan' session' st') :
    ((change.edit session.settings (session.expects docs change)).elim (plan' = plan) fun e =>
      e.plan session.settings.config.checkConcurrency catalog plan = .ok plan') ∧
      (∀ t, catalog.IsDocuments t → S.tables st' t = S.tables st t) ∧
        ∃ tracked, session' = { session with tracked } ∧
          Knows session.settings.serializer docs tracked := by
  cases change with
  | delete key typeName =>
    have used' : catalog.collections (session.names key.collection) := used
    have run := Work.yields_get_bind_iff.1 h
    obtain ⟨old, session₁, st₁, hold, run₁⟩ := Work.yields_bind_iff.1 run
    obtain ⟨rfl, tables, tracked, rfl, knows'⟩ :=
      of_lastStored knows faithful finds stored used' hold
    cases hdoc : docs key with
    | none =>
      rw [hdoc] at run₁
      obtain ⟨rfl, rfl, rfl⟩ := Work.yields_pure_iff.1 run₁
      simp only [expects, Pending.edit, hdoc]
      exact ⟨trivial, tables, tracked, rfl, knows'⟩
    | some doc =>
      rw [hdoc] at run₁
      obtain ⟨ds, st₂, hds, run₂⟩ := Work.yields_ofAction_bind_iff.1 run₁
      obtain ⟨planned, rfl, rfl⟩ := Work.yields_ofExcept_iff.1 run₂
      obtain ⟨rfl, tables'⟩ := of_descriptors faithful describes hds
      simp only [expects, Pending.edit, hdoc]
      exact ⟨planned, fun t ht => (tables' t ht).trans (tables t ht), tracked, rfl, knows'⟩
  | save key typeName json content =>
    have used' : catalog.collections (session.names key.collection) := used
    rw [planChange_save] at h
    obtain ⟨ds, st₁, hds, run⟩ := Work.yields_ofAction_bind_iff.1 (Work.yields_get_bind_iff.1 h)
    obtain ⟨rfl, tables⟩ := of_descriptors faithful describes hds
    obtain ⟨old, session₂, st₂, hold, run₂⟩ := Work.yields_bind_iff.1 run
    have loaded :
        old = (session.expects docs (.save key typeName json content) key).map
          StoredDocument.state ∧
        (∀ t, catalog.IsDocuments t → S.tables st₂ t = S.tables st₁ t) ∧
          ∃ tracked, session₂ = { session with tracked } ∧
            Knows session.settings.serializer docs tracked := by
      dsimp only [expects]
      split at hold
      · next new =>
        obtain ⟨rfl, rfl, rfl⟩ := Work.yields_pure_iff.1 hold
        rw [if_pos new]
        exact ⟨rfl, fun _ _ => rfl, _, rfl, knows⟩
      · next other =>
        rw [if_neg other]
        exact of_lastStored knows faithful finds (stored.congr tables) used' hold
    obtain ⟨rfl, tables₂, tracked, rfl, knows'⟩ := loaded
    obtain ⟨planned, rfl, rfl⟩ := Work.yields_ofExcept_iff.1 run₂
    exact ⟨of_planSave planned, fun t ht => (tables₂ t ht).trans (tables t ht), tracked,
      rfl, knows'⟩

end Loading

/-- Changes are planned as the edits that they come to. -/
theorem of_planChanges {σ : Type} {S : Storage σ} {catalog : Catalog} {docs : Documents}
    {session session' : Session} {st st' : σ} (faithful : S.Faithful catalog.IsDocuments)
    (finds : S.FindsDocuments catalog) (describes : S.Describes session.settings catalog)
    {changes : List Pending}
    (used : ∀ change ∈ changes, catalog.collections (session.names change.key.collection))
    (knows : Knows session.settings.serializer docs session.tracked)
    (stored : docs.Stored session.settings catalog (S.tables st)) {plan plan' : FlushPlan}
    (h : Work.Yields S.answer (planChanges plan changes) session st plan' session' st') :
    (changes.filterMap fun change =>
          change.edit session.settings (session.expects docs change)).foldlM
        (Edit.plan session.settings.config.checkConcurrency catalog) plan = .ok plan' ∧
      (∀ t, catalog.IsDocuments t → S.tables st' t = S.tables st t) ∧
        ∃ tracked, session' = { session with tracked } ∧
          Knows session.settings.serializer docs tracked := by
  induction changes generalizing plan session st with
  | nil =>
    obtain ⟨rfl, rfl, rfl⟩ := Work.yields_pure_iff.1 h
    exact ⟨rfl, fun _ _ => rfl, _, rfl, knows⟩
  | cons change changes ih =>
    obtain ⟨plan₁, session₁, st₁, hchange, hchanges⟩ := Work.yields_bind_iff.1 h
    obtain ⟨planned, tables₁, tracked₁, rfl, knows₁⟩ :=
      of_planChange knows faithful finds stored describes
      (used change List.mem_cons_self) hchange
    have rest := @ih { session with tracked := tracked₁ } st₁ describes
      (fun c hc => used c (List.mem_cons_of_mem change hc)) knows₁ (stored.congr tables₁)
      plan₁ hchanges
    obtain ⟨planned', tables₂, tracked₂, rfl, knows₂⟩ := rest
    refine ⟨?_, fun t ht => (tables₂ t ht).trans (tables₁ t ht), tracked₂, rfl, knows₂⟩
    cases hedit : change.edit session.settings (session.expects docs change) with
    | none =>
      rw [hedit] at planned
      obtain rfl : plan₁ = plan := planned
      rw [List.filterMap_cons, hedit]
      exact planned'
    | some e =>
      rw [hedit] at planned
      rw [List.filterMap_cons, hedit, List.foldlM_cons]
      exact bind_eq_ok_iff.2 ⟨plan₁, planned, planned'⟩

end Session

/-! ## After a flush -/

theorem Edit.applied_of_planAll {check : Bool} {catalog : Catalog} {edits : List Edit}
    {p : FlushPlan} (h : planAll check catalog edits = .ok p) :
    p.applied = edits.map fun e => (e.key, e.leaves.map StoredDocument.state) := by
  have all :
      p.applied = [] ++ edits.flatMap fun e => [(e.key, e.leaves.map StoredDocument.state)] :=
    foldlM_adds FlushPlan.applied h fun e p p' h => by
      cases e <;> (obtain ⟨arena, _, h⟩ := bind_eq_ok_iff.1 h; cases h; rfl)
  rw [all]
  exact List.flatMap_pure_eq_map _ _

/-- What a plan has a session know is what the edits leave, under whatever type. -/
theorem Edit.applied_of_planAll_typed {check : Bool} {catalog : Catalog} {edits : List Edit}
    {p : FlushPlan} (docs : Documents) (h : planAll check catalog edits = .ok p) :
    p.applied = (edits.map (typed docs)).map fun e =>
      (e.key, e.leaves.map StoredDocument.state) := by
  rw [applied_of_planAll h, List.map_map]
  exact List.map_congr_left fun e _ => by rw [Function.comp, e.key_typed, e.state_leaves_typed]

/-- A plan that writes nothing is that of no edits. -/
theorem Edit.eq_nil_of_planAll {check : Bool} {catalog : Catalog} {edits : List Edit}
    {p : FlushPlan} (h : planAll check catalog edits = .ok p) (empty : p.arena.isEmpty = true) :
    edits = [] := by
  have none : p.arena.commands = [] := by simpa using (Bool.and_eq_true_iff.1 empty).1
  rw [commands_of_planAll h] at none
  cases edits with
  | nil => rfl
  | cons e es => cases none

/-- After an edit its document is tracked as the edit leaves it. -/
theorem Edit.get?_tracked (e : Edit) (tracked : Assoc DocKey Tracked) (key : DocKey) :
    (match e.leaves.map StoredDocument.state with
      | some t => tracked.insert e.key t
      | none => tracked.erase e.key).get? key =
      if e.key = key then e.leaves.map StoredDocument.state else tracked.get? key := by
  cases e.leaves with
  | none => exact Assoc.get?_erase ..
  | some doc => exact Assoc.get?_insert ..

/-- What an edit leaves is known. -/
theorem Knows.edit {serializer : ContentSerializer} {docs : Documents}
    {tracked : Assoc DocKey Tracked} (knows : Knows serializer docs tracked) (e : Edit) :
    Knows serializer (docs.edit e)
      (match e.leaves.map StoredDocument.state with
        | some t => tracked.insert e.key t
        | none => tracked.erase e.key) := by
  refine ⟨fun key t h => ?_, fun key doc h none json hjson => ?_⟩
  · rw [e.get?_tracked] at h
    split at h
    · next same =>
      rw [← same, Documents.edit, Function.update_self]
      exact h
    · next other =>
      rw [Documents.edit, Function.update_of_ne (Ne.symm other)]
      exact knows.agrees key t h
  · rw [e.get?_tracked] at none
    split at none
    · next same =>
      rw [← same, Documents.edit, Function.update_self] at h
      rw [h] at none
      cases none
    · next other =>
      rw [Documents.edit, Function.update_of_ne (Ne.symm other)] at h
      exact knows.unread key doc h none json hjson

/-- After a flush a session knows what its edits left. -/
theorem Knows.remember {serializer : ContentSerializer} {docs : Documents} {session : Session}
    (knows : Knows serializer docs session.tracked) (edits : List Edit) :
    Knows serializer (docs.edited edits)
      (session.remember (edits.map fun e =>
        (e.key, e.leaves.map StoredDocument.state))).tracked := by
  unfold Session.remember
  dsimp only
  generalize session.tracked = tracked at knows ⊢
  induction edits generalizing docs tracked with
  | nil => exact knows
  | cons e es ih => exact ih _ (knows.edit e)

/-- The type of the document that a change is about. -/
def Pending.typeName : Pending → String
  | .save _ typeName .. | .delete _ typeName => typeName

theorem Pending.key_of_edit {settings : Settings} {docs : Documents} {change : Pending} {e : Edit}
    (h : change.edit settings docs = some e) :
    e.key = change.key ∧ e.names = settings.names change.key.collection := by
  cases change with
  | delete key typeName =>
    obtain ⟨doc, _, rfl⟩ := Option.map_eq_some_iff.1 h
    exact ⟨rfl, rfl⟩
  | save key typeName json content =>
    simp only [Pending.edit] at h
    split at h
    · cases h
      exact ⟨rfl, rfl⟩
    · split at h
      · cases h
      · cases h
        exact ⟨rfl, rfl⟩

/-- The edit of a change is planned for the document as it is stored. -/
theorem Pending.finds_of_edit {settings : Settings} {docs : Documents} {change : Pending} {e : Edit}
    (h : change.edit settings docs = some e) :
    (docs change.key).map StoredDocument.state = e.finds.map StoredDocument.state := by
  cases change with
  | delete key typeName =>
    obtain ⟨doc, hdoc, rfl⟩ := Option.map_eq_some_iff.1 h
    rw [show docs (Pending.delete key typeName).key = some doc from hdoc]
    rfl
  | save key typeName json content =>
    cases hdoc : docs key with
    | none =>
      simp only [Pending.edit, hdoc] at h
      cases h
      rw [show docs (Pending.save key typeName json content).key = none from hdoc]
      rfl
    | some doc =>
      rw [show docs (Pending.save key typeName json content).key = some doc from hdoc]
      simp only [Pending.edit, hdoc] at h
      split at h
      · cases h
      · cases h
        rfl

/-- What a flush makes of a document is what the edit of its change leaves, if
the change comes to one. -/
theorem Pending.apply_intent (settings : Settings) (docs : Documents) (change : Pending) :
    change.intent.apply (docs change.key) =
      (change.edit settings docs).elim (docs change.key) fun e => (e.typed docs).leaves := by
  cases change with
  | delete key typeName =>
    cases hdoc : docs key with
    | none => simp [intent, Intent.apply, edit, Pending.key, hdoc]
    | some doc => simp [intent, Intent.apply, edit, hdoc, Edit.typed, Edit.leaves]
  | save key typeName json content =>
    cases hdoc : docs key with
    | none => simp [intent, Intent.apply, edit, Pending.key, hdoc, Edit.typed, Edit.leaves]
    | some doc =>
      have here : docs ⟨(settings.names key.collection).collection, key.id⟩ = some doc := hdoc
      by_cases same : doc.state.content = content
      · simp [intent, Intent.apply, edit, Pending.key, hdoc, same]
      · simp [intent, Intent.apply, edit, Pending.key, hdoc, same, Edit.typed, Edit.leaves, here]

/-- Changes of different documents come to edits of different documents,
whatever is known of each. -/
theorem Pending.nodup_edits {settings : Settings} (docs : Pending → Documents)
    {changes : List Pending} (once : (changes.map Pending.key).Nodup) :
    ((changes.filterMap fun change => change.edit settings (docs change)).map Edit.key).Nodup := by
  rw [List.Nodup, List.pairwise_map] at once ⊢
  refine once.filterMap _ fun change change' apart e he e' he' => ?_
  rw [(key_of_edit he).1, (key_of_edit he').1]
  exact apart

namespace Session

theorem mem_of_pendingChange {session : Session} {key : DocKey} {change : Pending}
    (h : session.pendingChange key = some change) : change ∈ session.pending ∧ change.key = key :=
  ⟨List.mem_of_find?_eq_some h, by simpa using List.find?_some h⟩

theorem ne_of_pendingChange {session : Session} {key : DocKey}
    (h : session.pendingChange key = none) {change : Pending} (mem : change ∈ session.pending) :
    change.key ≠ key := by
  simpa using List.find?_eq_none.1 h change mem

theorem pendingChange_of_mem {session : Session} (once : (session.pending.map Pending.key).Nodup)
    {change : Pending} (mem : change ∈ session.pending) :
    session.pendingChange change.key = some change := by
  cases hpending : session.pendingChange change.key with
  | none => exact absurd rfl (ne_of_pendingChange hpending mem)
  | some change' =>
    obtain ⟨mem', same⟩ := mem_of_pendingChange hpending
    rw [List.inj_on_of_nodup_map once mem mem' same.symm]

/-- Every edit is that of a change that waits. -/
theorem exists_of_mem_edits {session : Session} {docs : Documents} {e : Edit}
    (h : e ∈ session.edits docs) :
    ∃ change ∈ session.pending, change.edit session.settings docs = some e ∧
      e.key = change.key := by
  obtain ⟨change, hchange, hedit⟩ := List.mem_filterMap.1 h
  exact ⟨change, hchange, hedit, (Pending.key_of_edit hedit).1⟩

theorem nodup_edits {session : Session} (docs : Documents)
    (once : (session.pending.map Pending.key).Nodup) :
    ((session.edits docs).map Edit.key).Nodup := Pending.nodup_edits (fun _ => docs) once

/-- Documents of which no change comes to an edit stay. -/
theorem flushed_of_not_mem {session : Session} {docs : Documents} {key : DocKey}
    (h : key ∉ (session.edits docs).map Edit.key) : session.flushed docs key = docs key := by
  unfold flushed
  cases hpending : session.pendingChange key with
  | none => rfl
  | some change =>
    obtain ⟨hchange, rfl⟩ := mem_of_pendingChange hpending
    rw [Option.elim_some, change.apply_intent session.settings]
    cases hedit : change.edit session.settings docs with
    | none => rfl
    | some e =>
      refine absurd (List.mem_map.2 ⟨e, ?_, (Pending.key_of_edit hedit).1⟩) h
      exact List.mem_filterMap.2 ⟨change, hchange, hedit⟩

/-- Of all other documents the edits leave what they describe, under the type that these have. -/
theorem flushed_of_mem {session : Session} {docs : Documents}
    (once : (session.pending.map Pending.key).Nodup) {e : Edit} (h : e ∈ session.edits docs) :
    session.flushed docs e.key = (e.typed docs).leaves := by
  obtain ⟨change, hchange, hedit, key⟩ := exists_of_mem_edits h
  rw [key, flushed, pendingChange_of_mem once hchange, Option.elim_some,
    change.apply_intent session.settings, hedit]
  rfl

/-- The edits of a flush leave what the changes make of the documents. -/
theorem flushed_eq {session : Session} (docs : Documents)
    (once : (session.pending.map Pending.key).Nodup) :
    session.flushed docs = docs.edited ((session.edits docs).map (Edit.typed docs)) := by
  have keys := Edit.map_key_typed docs (session.edits docs)
  funext key
  by_cases mem : key ∈ (session.edits docs).map Edit.key
  · obtain ⟨e, he, rfl⟩ := List.mem_map.1 mem
    rw [flushed_of_mem once he, ← e.key_typed docs]
    exact (Documents.edited_of_mem (keys ▸ nodup_edits docs once) (List.mem_map_of_mem he)).symm
  · rw [flushed_of_not_mem mem, Documents.edited_of_not_mem (keys.symm ▸ mem)]

end Session

theorem Session.of_begin {σ : Type} {S : Storage σ} {kept : String → Prop}
    (faithful : S.Faithful kept) {session session' : Session} {st st' : σ}
    (h : Work.Yields S.answer begin session st () session' st') :
    (∀ t, kept t → S.tables st' t = S.tables st t) ∧
    ∃ inTransaction, session' = { session with inTransaction } := by
  have run := Work.yields_get_bind_iff.1 h
  split at run
  · obtain ⟨_, rfl, rfl⟩ := Work.yields_pure_iff.1 run
    exact ⟨fun _ _ => rfl, _, rfl⟩
  · obtain ⟨_, st₁, hbegin, run₁⟩ := Work.yields_ofAction_bind_iff.1 run
    obtain ⟨rfl, rfl⟩ := Work.yields_modify_iff.1 run₁
    have tables := faithful.quiet (r := .begin session.connection) (s := st) trivial
    rw [show S.answer (.begin session.connection) st = _ from hbegin] at tables
    exact ⟨tables, true, rfl⟩

/-- The steps of a flush that succeeds: it has planned, begun a transaction if it had anything to
write, worked out its commands and run them. -/
structure Session.Writes {σ : Type} (answer : Answerer σ) (session : Session) (st : σ)
    (plan : FlushPlan) (planned : Session) (st₁ : σ) (begun : Session) (st₂ : σ)
    (commands : List Command) (st₃ : σ) (session' : Session) (st' : σ) : Prop where
  plans : Work.Yields answer (planChanges ∅ session.pending) session st plan planned st₁
  begins : plan.arena.isEmpty = true ∧ begun = planned ∧ st₂ = st₁ ∨
    plan.arena.isEmpty = false ∧ Work.Yields answer begin planned st₁ () begun st₂
  finishes : Action.Yields answer (plan.arena.finish session.connection session.settings.dialect)
    st₂ commands st₃
  runs : Action.Yields answer (Command.runAll session.connection commands) st₃ () st'
  remembers : session' = begun.remember plan.applied

theorem Session.writes_of_flushPending {σ : Type} {answer : Answerer σ} {session session' : Session}
    {st st' : σ} (h : Work.Yields answer flushPending session st () session' st') :
    ∃ plan planned st₁ begun st₂ commands st₃,
      session.Writes answer st plan planned st₁ begun st₂ commands st₃ session' st' := by
  unfold flushPending at h
  have run := Work.yields_get_bind_iff.1 h
  obtain ⟨plan, planned, st₁, plans, run₁⟩ := Work.yields_bind_iff.1 run
  have begun : ∃ begun st₂, (plan.arena.isEmpty = true ∧ begun = planned ∧ st₂ = st₁ ∨
      plan.arena.isEmpty = false ∧ Work.Yields answer begin planned st₁ () begun st₂) ∧
        Work.Yields answer (do
          let commands ←
            Work.ofAction (plan.arena.finish session.connection session.settings.dialect)
          Work.ofAction (Command.runAll session.connection commands)
          modify (remember plan.applied)) begun st₂ () session' st' := by
    dsimp only at run₁
    split at run₁
    · next empty => exact ⟨planned, st₁, .inl ⟨empty, rfl, rfl⟩, run₁⟩
    · next filled =>
      obtain ⟨_, begun, st₂, begins, run₂⟩ := Work.yields_bind_iff.1 run₁
      exact ⟨begun, st₂, .inr ⟨by simpa using filled, begins⟩, run₂⟩
  obtain ⟨begun, st₂, begins, run₂⟩ := begun
  obtain ⟨commands, st₃, finishes, run₃⟩ := Work.yields_ofAction_bind_iff.1 run₂
  obtain ⟨_, st₄, runs, run₄⟩ := Work.yields_ofAction_bind_iff.1 run₃
  obtain ⟨rfl, rfl⟩ := Work.yields_modify_iff.1 run₄
  exact ⟨plan, planned, st₁, begun, st₂, commands, st₃, plans, begins, finishes, runs, rfl⟩

/-- A flush that succeeds has flushed all that waits. -/
theorem Session.cases_of_yields_flush {σ : Type} {answer : Answerer σ} {session session' : Session}
    {st st' : σ} (active : session.cancelled = false)
    (h : Work.Yields answer flush session st () session' st') :
    session.pending = [] ∧ session' = session ∧ st' = st ∨
    Work.Yields answer flushPending session st () session' st' := by
  have run := Work.yields_get_bind_iff.1 h
  split at run
  · next nothing =>
    obtain ⟨_, rfl, rfl⟩ := Work.yields_pure_iff.1 run
    exact .inl ⟨by simpa [active] using nothing, rfl, rfl⟩
  · exact .inr (Work.yields_of_tryCatch (fun e session₁ st₁ h =>
      Work.not_yields_throw (Work.yields_modify_bind_iff.1 h)) run)

/-- Where nothing waits a flush leaves the documents. -/
theorem Session.flushed_of_nil {session : Session} (nothing : session.pending = [])
    (docs : Documents) : session.flushed docs = docs := by
  funext key
  rw [flushed, pendingChange, nothing]
  rfl

section Flush

variable {σ : Type} {S : Storage σ} {catalog : Catalog} {docs : Documents}
  {session session' : Session} {st st' : σ} (faithful : S.Faithful catalog.IsDocuments)
  (distinct : catalog.Distinct) (finds : S.FindsDocuments catalog)
  (describes : S.Describes session.settings catalog)
  (used : ∀ change ∈ session.pending, catalog.collections (session.names change.key.collection))
  (fresh : (∀ change ∈ session.pending, session.created.contains change.key →
    docs change.key = none) ∨ S.Keyed catalog) (once : (session.pending.map Pending.key).Nodup)
    (knows : Knows session.settings.serializer docs session.tracked)
    (stored : docs.Stored session.settings catalog (S.tables st))
include faithful distinct finds describes used fresh once knows stored

/-- What a flush that succeeds has planned are the edits that its changes come to,
and these are stored. -/
theorem Session.Writes.edits {plan : FlushPlan} {planned begun : Session} {st₁ st₂ st₃ : σ}
    {commands : List Command}
    (h : session.Writes S.answer st plan planned st₁ begun st₂ commands st₃ session' st') :
    Edit.planAll session.settings.config.checkConcurrency catalog (session.edits docs) = .ok plan ∧
      (∃ tracked, planned = { session with tracked } ∧
          Knows session.settings.serializer docs tracked) ∧
        (∃ inTransaction, begun = { planned with inTransaction }) ∧
          (session.flushed docs).Stored session.settings catalog (S.tables st') := by
  obtain ⟨planned', tables₁, tracked, rfl, knows'⟩ :=
    of_planChanges faithful finds describes used knows stored h.plans
  have begins : (∀ t, catalog.IsDocuments t → S.tables st₂ t = S.tables st₁ t) ∧
      ∃ inTransaction, begun = { { session with tracked } with inTransaction } := by
    rcases h.begins with ⟨_, rfl, rfl⟩ | ⟨_, begins⟩
    · exact ⟨fun _ _ => rfl, _, rfl⟩
    · exact of_begin faithful begins
  obtain ⟨tables₂, begun⟩ := begins
  have stored₂ := stored.congr fun t ht => (tables₂ t ht).trans (tables₁ t ht)
  have ofEdit : ∀ e ∈ session.pending.filterMap fun change =>
        change.edit session.settings (session.expects docs change),
      ∃ change ∈ session.pending,
        change.edit session.settings (session.expects docs change) = some e ∧
        e.key = change.key ∧ e.names = session.settings.names change.key.collection := by
    intro e he
    obtain ⟨change, hchange, hedit⟩ := List.mem_filterMap.1 he
    exact ⟨change, hchange, hedit, Pending.key_of_edit hedit⟩
  obtain ⟨missing, written⟩ := Documents.Stored.flush faithful distinct stored₂ planned'
    (fun e he => by
      obtain ⟨change, hchange, _, _, names⟩ := ofEdit e he
      rw [names]
      exact used change hchange)
    (fun e he => by
      obtain ⟨change, _, _, _, names⟩ := ofEdit e he
      rw [names]
      rfl)
    (fun e he => by
      obtain ⟨change, hchange, hedit, key, _⟩ := ofEdit e he
      rw [key]
      cases change with
      | delete key typeName => exact .inl (Pending.finds_of_edit hedit)
      | save key typeName json content =>
        dsimp only [expects] at hedit
        split at hedit
        · next new =>
          cases hedit
          refine fresh.imp (fun none => ?_) fun keyed => ⟨rfl, keyed⟩
          rw [none _ hchange new]
          rfl
        · exact .inl (Pending.finds_of_edit hedit))
    (Pending.nodup_edits (session.expects docs) once) h.finishes h.runs
  have expected :
      (session.pending.filterMap fun change =>
        change.edit session.settings (session.expects docs change)) =
      session.edits docs := by
    refine List.filterMap_congr fun change hchange => ?_
    cases change with
    | delete key typeName => rfl
    | save key typeName json content =>
      dsimp only [expects]
      split
      · next new =>
        have none : docs key = none := by
          have mem :
              Edit.create (session.settings.names key.collection) key.id typeName json content ∈
              session.pending.filterMap fun change =>
                change.edit session.settings (session.expects docs change) :=
            List.mem_filterMap.2 ⟨_, hchange, by dsimp only [expects]; rw [if_pos new]; rfl⟩
          exact missing _ mem rfl
        simp only [Pending.edit, none]
      · rfl
  rw [expected] at planned' written
  exact ⟨planned', ⟨tracked, rfl, knows'⟩, begun, flushed_eq docs once ▸ written⟩

/-- A flush of the changes of a session makes of the documents what they say, and leaves a session
that knows the documents and has nothing to flush. -/
theorem Session.of_flushPending (h : Work.Yields S.answer flushPending session st () session' st') :
    (session.flushed docs).Stored session.settings catalog (S.tables st') ∧
      ∃ tracked inTransaction,
        session' = { session with tracked, inTransaction, pending := [], created := [] } ∧
        Knows session.settings.serializer (session.flushed docs) tracked := by
  obtain ⟨plan, planned, st₁, begun, st₂, commands, st₃, writes⟩ := writes_of_flushPending h
  obtain ⟨plans, ⟨tracked, rfl, knows'⟩, ⟨inTransaction, rfl⟩, written⟩ :=
    writes.edits faithful distinct finds describes used fresh once knows stored
  refine ⟨written, _, inTransaction, writes.remembers, ?_⟩
  rw [Edit.applied_of_planAll_typed docs plans, flushed_eq docs once]
  exact @Knows.remember _ _ { { session with tracked } with inTransaction } knows' _

end Flush

end DocStore

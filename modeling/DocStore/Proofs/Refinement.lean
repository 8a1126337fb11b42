import DocStore.Proofs.Counting
import DocStore.Proofs.FlushRequests
import DocStore.Proofs.Reference

/-!
# A session refines a map of documents

`Session.Agrees` ties the four views that there are of a document, the changes
that wait, the ids given out, what is tracked and what is stored, to the
reference. Every operation that succeeds keeps it, and answers as the reference
says.
-/

set_option autoImplicit false

namespace DocStore

/-- What a session relies on: surroundings that keep the document tables, look
documents up in them, hand out ids, and describe the indexes of a catalog. Of
index tables nothing is asked. -/
structure Storage.Serves {σ : Type} (S : Storage σ) (settings : Settings) (catalog : Catalog)
    (bounds : σ → Bounds) : Prop where
  faithful : S.Faithful catalog.IsDocuments
  finds : S.FindsDocuments catalog
  highest : S.FindsHighest catalog
  describes : S.Describes settings catalog
  identifies : S.Identifies bounds
  distinct : catalog.Distinct

/-- An operation on a document of a collection in use. Every id is used with one
entity type, and entities keep the ids that they are given. -/
def Operation.Proper (settings : Settings) (catalog : Catalog) (typeOf : DocKey → String) :
    Operation → Option Json → Prop
  | .save entity collection content, answer =>
    catalog.collections (settings.names collection) ∧
    (∀ id, entity.id (entity.setId id content) = id) ∧
      ∀ json ∈ answer, entity.name = typeOf ⟨collection, entity.id json⟩
  | .delete entity collection content, _ =>
    catalog.collections (settings.names collection) ∧
    entity.name = typeOf ⟨collection, entity.id content⟩
  | .get entity collection id, _ =>
    catalog.collections (settings.names collection) ∧ entity.name = typeOf ⟨collection, id⟩
  | .flush, _ | .saveChanges, _ => True

namespace Session

/-! ## The changes that wait -/

theorem pendingChange_withoutPending (session : Session) (key' key : DocKey) :
    (session.withoutPending key').pendingChange key = if key' = key then none
      else session.pendingChange key := by
  unfold pendingChange withoutPending
  rw [List.find?_filter]
  split
  · next same => exact List.find?_eq_none.2 fun p _ => by simp [same]
  · next other =>
    congr 1
    funext p
    by_cases here : p.key = key
    · simp [here, Ne.symm other]
    · simp [here]

theorem pendingChange_withPending (session : Session) (change : Pending) (key : DocKey) :
    (session.withPending change).pendingChange key =
    if change.key = key then some change else session.pendingChange key := by
  have before := session.pendingChange_withoutPending change.key key
  unfold pendingChange withoutPending at before
  unfold pendingChange withPending
  rw [List.find?_append, before]
  by_cases same : change.key = key <;> simp [same]

theorem mem_withPending {session : Session} {change change' : Pending}
    (h : change' ∈ (session.withPending change).pending) :
    change' = change ∨ change' ∈ session.pending := by
  rcases List.mem_append.1 h with h | h
  · exact .inr (List.mem_filter.1 h).1
  · exact .inl (List.mem_singleton.1 h)

theorem nodup_withoutPending {session : Session} (once : (session.pending.map Pending.key).Nodup)
    (key : DocKey) : ((session.withoutPending key).pending.map Pending.key).Nodup :=
  once.sublist (List.filter_sublist.map Pending.key)

/-- No two changes wait for one document. -/
theorem nodup_withPending {session : Session} (once : (session.pending.map Pending.key).Nodup)
    (change : Pending) : ((session.withPending change).pending.map Pending.key).Nodup := by
  have before := nodup_withoutPending once change.key
  unfold withPending
  rw [List.map_append]
  refine List.nodup_append.2 ⟨before, List.nodup_singleton _, fun key h key' h' same => ?_⟩
  obtain ⟨p, hp, rfl⟩ := List.mem_map.1 h
  obtain rfl := List.mem_singleton.1 h'
  simpa [same] using (List.mem_filter.1 hp).2

/-- A change forgets the one before it. -/
theorem withPending_withoutPending (session : Session) (change : Pending) :
    (session.withoutPending change.key).withPending change = session.withPending change := by
  unfold withPending withoutPending
  dsimp only
  rw [List.filter_filter]
  simp only [Bool.and_self]

/-! ## Agreement with the reference -/

/-- The changes that wait, the ids given out, what is tracked and what is stored,
tied to the reference. -/
structure Agrees (settings : Settings) (catalog : Catalog) (typeOf : DocKey → String)
    (bounds : Bounds) (db : Database) (session : Session) (r : Reference) : Prop where
  configured : session.settings = settings
  goesOn : session.cancelled = false
  stored : r.docs.Stored settings catalog db
  knows : Knows settings.serializer r.docs session.tracked
  created : ∀ key ∈ session.created, r.docs key = none
  once : (session.pending.map Pending.key).Nodup
  /-- What waits is what is wanted; only the delete of a document that was never
  flushed does not wait. -/
  intents : ∀ key, r.intents key = (session.pendingChange key).map Pending.intent ∨
    session.pendingChange key = none ∧ r.intents key = some .delete ∧ r.docs key = none
  changes : ∀ change ∈ session.pending,
    catalog.collections (settings.names change.key.collection) ∧ change.typeName = typeOf change.key
  typed : ∀ key doc, r.docs key = some doc → doc.typeName = typeOf key
  covers : bounds.Covers r.docs
  reserves : ∀ key typeName json content, .save key typeName json content ∈ session.pending →
    bounds.Reserves key

namespace Agrees

variable {settings : Settings} {catalog : Catalog} {typeOf : DocKey → String}
  {bounds bounds' : Bounds} {db db' : Database} {session : Session} {r : Reference}
  (agrees : Agrees settings catalog typeOf bounds db session r)
include agrees

/-- Where the document tables stay and the source of ids only moves on, nothing else changes. -/
theorem move (same : ∀ t, catalog.IsDocuments t → db' t = db t) (covers : bounds'.Covers r.docs)
    (grows : bounds.Grows bounds') : Agrees settings catalog typeOf bounds' db' session r :=
  { agrees with
    stored := agrees.stored.congr same
    covers
    reserves := fun key typeName json content h =>
      grows.reserves (agrees.reserves key typeName json content h) }

/-- A change that takes the place of what waited for its document. -/
theorem withPending {change : Pending}
    (used : catalog.collections (settings.names change.key.collection))
    (typed : change.typeName = typeOf change.key)
    (reserves : ∀ key typeName json content, change = .save key typeName json content →
      bounds.Reserves key) :
    Agrees settings catalog typeOf bounds db (session.withPending change)
      (r.want change.key change.intent) :=
  { agrees with
    once := nodup_withPending agrees.once change
    intents := fun key => by
      rw [pendingChange_withPending, Reference.want]
      by_cases same : change.key = key
      · rw [if_pos same, ← same]
        exact .inl (Function.update_self ..)
      · rw [if_neg same]
        dsimp only
        rw [Function.update_of_ne (Ne.symm same)]
        exact agrees.intents key
    changes := fun change' h => by
      rcases mem_withPending h with rfl | h
      · exact ⟨used, typed⟩
      · exact agrees.changes change' h
    reserves := fun key typeName json content h => by
      rcases mem_withPending h with same | h
      · exact reserves key typeName json content same.symm
      · exact agrees.reserves key typeName json content h }

/-- The change that waited for a document is forgotten, if what is wanted is the
delete of a document that is not there. -/
theorem withoutPending {key : DocKey} (missing : r.docs key = none) :
    Agrees settings catalog typeOf bounds db (session.withoutPending key) (r.want key .delete) :=
  { agrees with
    once := nodup_withoutPending agrees.once key
    intents := fun key' => by
      rw [pendingChange_withoutPending, Reference.want]
      by_cases same : key = key'
      · rw [if_pos same, ← same]
        exact .inr ⟨rfl, Function.update_self .., missing⟩
      · rw [if_neg same]
        dsimp only
        rw [Function.update_of_ne (Ne.symm same)]
        exact agrees.intents key'
    changes := fun change h => agrees.changes change (List.mem_filter.1 h).1
    reserves := fun key typeName json content h =>
      agrees.reserves key typeName json content (List.mem_filter.1 h).1 }

/-- A flush does to every document what the change that waits for it says. -/
theorem flushed_docs_eq : r.flushed.docs = session.flushed r.docs := by
  funext key
  unfold Reference.flushed Session.flushed
  dsimp only
  rcases agrees.intents key with wanted | ⟨none, wanted, missing⟩
  · rw [wanted]
    cases session.pendingChange key <;> rfl
  · rw [wanted, none, missing]
    rfl

/-- What a flush leaves is of the type that it was of, or that it was saved with; and
ids of documents are not handed out. -/
theorem of_flushed_docs {key : DocKey} {doc : StoredDocument} (h : r.flushed.docs key = some doc) :
    doc.typeName = typeOf key ∧ ∀ b ∈ bounds key.collection, key.id ≤ b := by
  rw [agrees.flushed_docs_eq, Session.flushed] at h
  cases hpending : session.pendingChange key with
  | none =>
    rw [hpending] at h
    exact ⟨agrees.typed key doc h,
      agrees.covers key (by rw [show r.docs key = some doc from h]; rfl)⟩
  | some change =>
    rw [hpending] at h
    obtain ⟨hchange, rfl⟩ := mem_of_pendingChange hpending
    have typed := (agrees.changes change hchange).2
    cases change with
    | delete key typeName => cases h
    | save key typeName json content =>
      change Intent.apply (.save typeName json content) (r.docs key) = some doc at h
      cases hdoc : r.docs key with
      | none =>
        rw [hdoc] at h
        cases h
        obtain ⟨b, hb, le⟩ := agrees.reserves key typeName json content hchange
        refine ⟨typed, fun b' hb' => ?_⟩
        obtain rfl := Option.mem_unique hb hb'
        exact le
      | some old =>
        have kept : doc.typeName = old.typeName := by
          rw [hdoc, Intent.apply] at h
          split at h <;> (cases h; rfl)
        exact ⟨kept.trans (agrees.typed key old hdoc), agrees.covers key (by rw [hdoc]; rfl)⟩

end Agrees

/-! ## Operations -/

section Operations

variable {σ : Type} {S : Storage σ} {settings : Settings} {catalog : Catalog}
  {typeOf : DocKey → String} {bounds : σ → Bounds} (serves : S.Serves settings catalog bounds)
  {session session' : Session} {r : Reference} {st st' : σ}
  (agrees : Agrees settings catalog typeOf (bounds st) (S.tables st) session r)

/-- An entity without an identity gets a new one; any other keeps its own. -/
theorem of_identify {entity : EntityType} {collection : String} {content json : Json}
    (h : Work.Yields S.answer (identify entity collection content) session st json session' st') :
    (entity.id content = 0 ∧ ∃ id,
      Action.Yields S.answer (Action.newId session.settings session.connection collection) st id
          st' ∧
        json = entity.setId id content ∧
          session' = { session with created := ⟨collection, id⟩ :: session.created }) ∨
      (entity.id content ≠ 0 ∧
        Action.Yields S.answer (Action.reserveId session.settings session.connection collection
            (entity.id content)) st () st' ∧
          json = content ∧ session' = session) := by
  have run := Work.yields_get_bind_iff.1 h
  dsimp only at run
  split at run
  · next without =>
    obtain ⟨id, st₁, hid, run₁⟩ := Work.yields_ofAction_bind_iff.1 run
    have run₂ := Work.yields_modify_bind_iff.1 run₁
    obtain ⟨rfl, rfl, rfl⟩ := Work.yields_pure_iff.1 run₂
    exact .inl ⟨without, id, hid, rfl, rfl⟩
  · next other =>
    obtain ⟨_, st₁, hid, run₁⟩ := Work.yields_ofAction_bind_iff.1 run
    obtain ⟨rfl, rfl, rfl⟩ := Work.yields_pure_iff.1 run₁
    exact .inr ⟨other, hid, rfl, rfl⟩

/-- What is saved once the entity has its identity. -/
theorem of_save {entity : EntityType} {collection : String} {content json : Json}
    (h : Work.Yields S.answer (save entity collection content) session st json session' st') :
    ∃ session₁ text, Work.Yields S.answer (identify entity collection content) session st json
        session₁ st' ∧
      session₁.settings.serializer.serialize json = .ok text ∧
        session' =
          session₁.withPending (.save ⟨collection, entity.id json⟩ entity.name json text) := by
  obtain ⟨content', session₁, st₁, hidentify, run⟩ := Work.yields_bind_iff.1 h
  obtain ⟨text, htext, run₁⟩ := Work.yields_ofExcept_bind_iff.1 (Work.yields_get_bind_iff.1 run)
  have run₂ := Work.yields_modify_bind_iff.1 run₁
  obtain ⟨rfl, rfl, rfl⟩ := Work.yields_pure_iff.1 run₂
  exact ⟨session₁, text, hidentify, htext, rfl⟩

include serves agrees

theorem Agrees.save {entity : EntityType} {collection : String} {content json : Json}
    (proper : Operation.Proper settings catalog typeOf (.save entity collection content)
      (some json))
    (above : entity.id content = 0 → entity.id json ≠ Int64.minValue)
    (h : Work.Yields S.answer (save entity collection content) session st json session' st') :
    ∃ r', Reference.Step settings.serializer r (.save entity collection content) (some json) r' ∧
      Agrees settings catalog typeOf (bounds st') (S.tables st') session' r' := by
  obtain ⟨used, keeps, proper⟩ := proper
  have typed := proper json rfl
  obtain ⟨session₁, text, hidentify, htext, rfl⟩ := of_save h
  have configured := agrees.configured
  subst configured
  rcases of_identify hidentify with ⟨without, id, hid, rfl, rfl⟩ | ⟨other, hid, rfl, rfl⟩
  · rw [keeps] at typed above
    obtain ⟨tables, covers, grows, reserves, missing⟩ :=
      serves.identifies.of_newId serves.faithful serves.highest used
      agrees.stored agrees.covers hid (above without)
    have moved := agrees.move tables covers grows
    have given : Agrees session.settings catalog typeOf (bounds st') (S.tables st')
        { session with created := ⟨collection, id⟩ :: session.created } r :=
      { moved with
        created := fun key hkey => by
          rcases List.mem_cons.1 hkey with rfl | hkey
          · exact missing
          · exact agrees.created key hkey }
    rw [keeps]
    refine ⟨_, .create without missing htext,
      given.withPending used typed fun key typeName json content same => ?_⟩
    cases same
    exact reserves
  · obtain ⟨tables, covers, grows, reserves⟩ :=
      serves.identifies.of_reserveId serves.faithful serves.highest used
      agrees.stored agrees.covers hid
    have moved := agrees.move tables covers grows
    refine ⟨_, .save other htext,
      moved.withPending used typed fun key typeName json content same => ?_⟩
    cases same
    exact reserves

omit serves in
theorem Agrees.delete {entity : EntityType} {collection : String} {content : Json} {answer : Unit}
    (proper : Operation.Proper settings catalog typeOf (.delete entity collection content) none)
    (h : Work.Yields S.answer (delete entity collection content) session st answer session' st') :
    ∃ r', Reference.Step settings.serializer r (.delete entity collection content) none r' ∧
      Agrees settings catalog typeOf (bounds st') (S.tables st') session' r' := by
  obtain ⟨used, typed⟩ := proper
  have run := Work.yields_get_bind_iff.1 (Work.yields_modify_bind_iff.1 h)
  refine ⟨_, .delete, ?_⟩
  split at run
  · next created =>
    obtain ⟨rfl, rfl⟩ := Work.yields_modify_iff.1 run
    have missing := agrees.created ⟨collection, entity.id content⟩ (List.contains_iff_mem.1 created)
    have forgotten := agrees.withoutPending missing
    exact { forgotten with
      created := fun key hkey => forgotten.created key (List.mem_filter.1 hkey).1 }
  · obtain ⟨rfl, rfl⟩ := Work.yields_modify_iff.1 run
    have waits : Agrees settings catalog typeOf (bounds st') (S.tables st')
        (session.withPending (.delete ⟨collection, entity.id content⟩ entity.name))
        (r.want ⟨collection, entity.id content⟩ .delete) :=
      agrees.withPending used typed fun _ _ _ _ same => nomatch same
    rw [← withPending_withoutPending] at waits
    exact waits

omit serves in
/-- What is wanted of a document is the change that waits for it. -/
theorem Agrees.intents_of_pending {key : DocKey} {change : Pending}
    (waits : session.pendingChange key = some change) : r.intents key = some change.intent := by
  rcases agrees.intents key with wanted | ⟨none, _⟩
  · rw [wanted, waits]
    rfl
  · rw [waits] at none
    cases none

omit serves in
/-- A document that no change waits for is what is stored of it. -/
theorem Agrees.json?_of_none {key : DocKey} (none : session.pendingChange key = none) :
    r.json? key = (r.docs key).map fun doc => doc.state.json := by
  unfold Reference.json?
  rcases agrees.intents key with wanted | ⟨_, wanted, missing⟩
  · rw [wanted, none]
    rfl
  · rw [wanted, missing]
    rfl

/-- To look a document up finds what is stored of it, and changes nothing. -/
theorem Agrees.found {key : DocKey} (used : catalog.collections (settings.names key.collection))
    {found : List Row}
    (asked : S.answer (.query session.connection (session.documentStatement key)) st =
      (.ok found, st')) :
    found = ((r.docs key).map (Row.document key.id)).toList ∧
      Agrees settings catalog typeOf (bounds st') (S.tables st') session r := by
  have configured := agrees.configured
  subst configured
  have tables :=
    serves.faithful.quiet (r := .query session.connection (session.documentStatement key))
      (s := st) trivial
  have same := serves.identifies.keeps (.query session.connection (session.documentStatement key))
    st (fun h => h)
  rw [asked] at tables same
  refine ⟨agrees.stored.found_eq used (serves.finds ⟨_, used, rfl⟩ asked), ?_⟩
  exact agrees.move tables (same ▸ agrees.covers) fun _ b hb =>
    ⟨b, by rw [same]; exact hb, Int64.le_refl b⟩

/-- A document that no change waits for is read as it is stored. -/
theorem Agrees.get {entity : EntityType} {collection : String} {id : Int64} {answer : Option Json}
    (proper : Operation.Proper settings catalog typeOf (.get entity collection id) answer)
    (h : Work.Yields S.answer (Reading.alone (get entity collection id)) session st answer
      session' st') :
    Reference.Step settings.serializer r (.get entity collection id) answer r ∧
      Agrees settings catalog typeOf (bounds st') (S.tables st') session' r := by
  obtain ⟨used, typed⟩ := proper
  obtain ⟨reading, session₁, st₁, hreading, run⟩ := Work.yields_bind_iff.1 h
  have configured := agrees.configured
  subst configured
  have run₁ := Work.yields_get_bind_iff.1 hreading
  dsimp only at run₁
  cases hpending : session.pendingChange ⟨collection, id⟩ with
  | some change =>
    have wanted := agrees.intents_of_pending hpending
    rw [hpending] at run₁
    cases change with
    | save key typeName json content =>
      obtain ⟨e, read, run₂⟩ := Work.yields_ofExcept_bind_iff.1 run₁
      obtain ⟨rfl, rfl, rfl⟩ := Work.yields_pure_iff.1 run₂
      obtain ⟨rfl, rfl, rfl⟩ := Work.yields_pure_iff.1 run
      exact ⟨.get (by rw [Reference.json?, wanted]; rfl) read, agrees⟩
    | delete key typeName =>
      obtain ⟨rfl, rfl, rfl⟩ := Work.yields_pure_iff.1 run₁
      obtain ⟨rfl, rfl, rfl⟩ := Work.yields_pure_iff.1 run
      exact ⟨.missing (by rw [Reference.json?, wanted]; rfl), agrees⟩
  | none =>
    have stored := agrees.json?_of_none hpending
    rw [hpending] at run₁
    cases known : session.tracked.get? ⟨collection, id⟩ with
    | some t =>
      rw [known] at run₁
      obtain ⟨e, read, run₂⟩ := Work.yields_ofExcept_bind_iff.1 run₁
      obtain ⟨rfl, rfl, rfl⟩ := Work.yields_pure_iff.1 run₂
      obtain ⟨rfl, rfl, rfl⟩ := Work.yields_pure_iff.1 run
      obtain ⟨doc, hdoc, rfl⟩ := Option.map_eq_some_iff.1 (agrees.knows.agrees _ t known)
      exact ⟨.get (by rw [stored, hdoc]; rfl) read, agrees⟩
    | none =>
      rw [known] at run₁
      obtain ⟨rfl, rfl, rfl⟩ := Work.yields_pure_iff.1 run₁
      obtain ⟨found, st₂, hquery, run₂⟩ := Work.yields_query_bind_iff.1 run
      obtain ⟨rows, moved⟩ := agrees.found serves used hquery
      cases hdoc : r.docs ⟨collection, id⟩ with
      | none =>
        obtain rfl : found = [] := by
          rw [rows, hdoc]
          rfl
        obtain ⟨rfl, rfl, rfl⟩ := Work.yields_pure_iff.1 run₂
        exact ⟨.missing (by rw [stored, hdoc]; rfl), moved⟩
      | some doc =>
        obtain rfl : found = [Row.document id doc] := by
          rw [rows, hdoc]
          rfl
        obtain ⟨read, hread, run₃⟩ := Work.yields_ofExcept_bind_iff.1 run₂
        rw [Document.ofRow_document] at hread
        cases hread
        rw [if_neg (not_not.2 ((agrees.typed _ doc hdoc).trans typed.symm))] at run₃
        obtain ⟨json, session₂, st₃, htrack, run₄⟩ := Work.yields_bind_iff.1 run₃
        obtain ⟨rfl, rfl, tracked, rfl, knows, _⟩ := of_track agrees.knows hdoc htrack
        obtain ⟨e, read, run₅⟩ := Work.yields_ofExcept_bind_iff.1 run₄
        obtain ⟨rfl, rfl, rfl⟩ := Work.yields_pure_iff.1 run₅
        exact ⟨.get (by rw [stored, hdoc]; rfl) read, { moved with knows }⟩

/-- A flush that succeeds takes the reference on. -/
theorem Agrees.flush {answer : Unit}
    (h : Work.Yields S.answer flush session st answer session' st') :
    Agrees settings catalog typeOf (bounds st') (S.tables st') session' r.flushed := by
  have configured := agrees.configured
  subst configured
  have same : bounds st' = bounds st := (asks_flush Request.hasFlushes_plain).eq_of_yields bounds
    (fun r st plain => serves.identifies.keeps r st plain) h
  have flushed : r.flushed.docs.Stored session.settings catalog (S.tables st') ∧
      ∃ tracked inTransaction created,
      session' = { session with tracked, inTransaction, created, pending := [] } ∧
        Knows session.settings.serializer r.flushed.docs tracked ∧
          ∀ key ∈ created, r.flushed.docs key = none := by
    rw [agrees.flushed_docs_eq]
    rcases cases_of_yields_flush agrees.goesOn h with ⟨nothing, rfl, rfl⟩ | written
    · rw [flushed_of_nil nothing]
      refine ⟨agrees.stored, session'.tracked, session'.inTransaction, session'.created, ?_,
        agrees.knows, agrees.created⟩
      rw [← nothing]
    · obtain ⟨stored, tracked, inTransaction, flushed, knows⟩ :=
        of_flushPending serves.faithful serves.distinct serves.finds
        serves.describes (fun change hchange => (agrees.changes change hchange).1)
        (.inl fun change hchange created => agrees.created _ (List.contains_iff_mem.1 created))
        agrees.once agrees.knows agrees.stored written
      exact ⟨stored, tracked, inTransaction, [], flushed, knows, fun _ h => nomatch h⟩
  obtain ⟨stored, tracked, inTransaction, created, rfl, knows, missing⟩ := flushed
  exact {
    configured := rfl
    goesOn := agrees.goesOn
    stored
    knows
    created := missing
    once := List.nodup_nil
    intents := fun _ => .inl rfl
    changes := fun _ h => nomatch h
    typed := fun key doc h => (agrees.of_flushed_docs h).1
    covers := fun key some b hb => by
      obtain ⟨doc, hdoc⟩ := Option.isSome_iff_exists.1 some
      exact (agrees.of_flushed_docs hdoc).2 b (same ▸ hb)
    reserves := fun _ _ _ _ h => nomatch h }

theorem Agrees.saveChanges {answer : Unit}
    (h : Work.Yields S.answer saveChanges session st answer session' st') :
    Agrees settings catalog typeOf (bounds st') (S.tables st') session' r.flushed := by
  obtain ⟨_, session₁, st₁, hflush, run⟩ := Work.yields_bind_iff.1 h
  have flushed := agrees.flush serves hflush
  have run₁ := Work.yields_get_bind_iff.1 run
  rw [if_neg (by simp [flushed.goesOn])] at run₁
  split at run₁
  · obtain ⟨rfl, hcommit⟩ := Work.yields_ofAction_iff.1 (Work.yields_modify_bind_iff.1 run₁)
    have committed : S.answer (.commit session₁.connection) st₁ = (.ok answer, st') := hcommit
    have tables := serves.faithful.quiet (r := .commit session₁.connection) (s := st₁) trivial
    have same := serves.identifies.keeps (.commit session₁.connection) st₁ (fun h => h)
    rw [committed] at tables same
    have moved := flushed.move tables (same ▸ flushed.covers)
      (fun _ b hb => ⟨b, by rw [same]; exact hb, Int64.le_refl b⟩)
    exact { moved with }
  · obtain ⟨_, rfl, rfl⟩ := Work.yields_pure_iff.1 run₁
    exact flushed

/-- Every operation that succeeds is a step of the reference. -/
theorem Agrees.run {op : Operation} {answer : Option Json}
    (proper : op.Proper settings catalog typeOf answer)
    (above : ∀ entity collection content json, op = .save entity collection content →
      answer = some json → entity.id content = 0 → entity.id json ≠ Int64.minValue)
    (h : Work.Yields S.answer op.run session st answer session' st') :
    ∃ r', Reference.Step settings.serializer r op answer r' ∧
      Agrees settings catalog typeOf (bounds st') (S.tables st') session' r' := by
  cases op with
  | save entity collection content =>
    obtain ⟨json, session₁, st₁, hsave, run⟩ := Work.yields_bind_iff.1 h
    obtain ⟨rfl, rfl, rfl⟩ := Work.yields_pure_iff.1 run
    exact agrees.save serves proper (above _ _ _ _ rfl rfl) hsave
  | delete entity collection content =>
    obtain ⟨_, session₁, st₁, hdelete, run⟩ := Work.yields_bind_iff.1 h
    obtain ⟨rfl, rfl, rfl⟩ := Work.yields_pure_iff.1 run
    exact agrees.delete proper hdelete
  | get entity collection id => exact ⟨r, agrees.get serves proper h⟩
  | flush =>
    obtain ⟨_, session₁, st₁, hflush, run⟩ := Work.yields_bind_iff.1 h
    obtain ⟨rfl, rfl, rfl⟩ := Work.yields_pure_iff.1 run
    exact ⟨_, .flush, agrees.flush serves hflush⟩
  | saveChanges =>
    obtain ⟨_, session₁, st₁, hsave, run⟩ := Work.yields_bind_iff.1 h
    obtain ⟨rfl, rfl, rfl⟩ := Work.yields_pure_iff.1 run
    exact ⟨_, .saveChanges, agrees.saveChanges serves hsave⟩

theorem Agrees.runAll {ops : List Operation} {answers : List (Option Json)}
    (proper : ∀ x ∈ ops.zip answers, x.1.Proper settings catalog typeOf x.2)
    (above : ∀ entity collection content json,
      (.save entity collection content, some json) ∈ ops.zip answers →
      entity.id content = 0 → entity.id json ≠ Int64.minValue)
    (h : Work.Yields S.answer (Operation.runAll ops) session st answers session' st') :
    ∃ r', Reference.Steps settings.serializer r ops answers r' ∧
      Agrees settings catalog typeOf (bounds st') (S.tables st') session' r' := by
  induction ops generalizing session r st answers with
  | nil =>
    obtain ⟨rfl, rfl, rfl⟩ := Work.yields_pure_iff.1 h
    exact ⟨r, .nil, agrees⟩
  | cons op ops ih =>
    obtain ⟨answer, session₁, st₁, hop, run⟩ := Work.yields_bind_iff.1 h
    obtain ⟨rest, session₂, st₂, hops, run₁⟩ := Work.yields_bind_iff.1 run
    obtain ⟨rfl, rfl, rfl⟩ := Work.yields_pure_iff.1 run₁
    rw [List.zip_cons_cons] at proper above
    have here : ∀ entity collection content json, op = .save entity collection content →
        answer = some json → entity.id content = 0 → entity.id json ≠ Int64.minValue := by
      rintro entity collection content json rfl rfl
      exact above entity collection content json List.mem_cons_self
    obtain ⟨r₁, step, agrees₁⟩ := agrees.run serves (proper _ List.mem_cons_self) here hop
    obtain ⟨r₂, steps, agrees₂⟩ := ih agrees₁ (fun x hx => proper x (List.mem_cons_of_mem _ hx))
      (fun entity collection content json mem =>
        above entity collection content json (List.mem_cons_of_mem _ mem)) hops
    exact ⟨r₂, .cons step steps, agrees₂⟩

end Operations

end Session

/-- Whatever operations a session has performed since it was opened, it answered them
as the reference does, and the document tables hold the documents of the reference.
No new document may get the least id, which may be that of another: that is the one
that is handed out after the greatest. -/
theorem Session.refines {σ : Type} {S : Storage σ} {settings : Settings} {catalog : Catalog}
    {bounds : σ → Bounds} (serves : S.Serves settings catalog bounds) {typeOf : DocKey → String}
    {docs : Documents} {session session' : Session} {st₀ st st' : σ}
    (opened : Action.Yields S.answer (connect settings) st₀ session st)
    (stored : docs.Stored settings catalog (S.tables st)) (covers : (bounds st).Covers docs)
    (typed : ∀ key doc, docs key = some doc → doc.typeName = typeOf key)
    (read : ∀ key doc, docs key = some doc →
      ∀ json, settings.serializer.deserialize doc.state.content = .ok json → json = doc.state.json)
    {ops : List Operation} {answers : List (Option Json)}
    (proper : ∀ x ∈ ops.zip answers, x.1.Proper settings catalog typeOf x.2)
    (above : ∀ entity collection content json,
      (.save entity collection content, some json) ∈ ops.zip answers →
      entity.id content = 0 → entity.id json ≠ Int64.minValue)
    (ran : Work.Yields S.answer (Operation.runAll ops) session st answers session' st') :
    ∃ r, Reference.Steps settings.serializer ⟨docs, fun _ => none⟩ ops answers r ∧
      r.docs.Stored settings catalog (S.tables st') := by
  obtain ⟨conn, st₁, _, h⟩ := Action.yields_bind_iff.1 opened
  obtain ⟨rfl, rfl⟩ := Action.yields_pure_iff.1 h
  have agrees : Agrees settings catalog typeOf (bounds st) (S.tables st)
      ⟨settings, conn, ∅, [], [], false, false⟩ ⟨docs, fun _ => none⟩ := {
    configured := rfl
    goesOn := rfl
    stored
    knows := ⟨fun _ _ h => (nomatch h), fun key doc hdoc _ json hjson =>
      read key doc hdoc json hjson⟩
    created := fun _ h => nomatch h
    once := List.nodup_nil
    intents := fun _ => .inl rfl
    changes := fun _ h => nomatch h
    typed
    covers
    reserves := fun _ _ _ _ h => nomatch h }
  obtain ⟨r, steps, agrees'⟩ := agrees.runAll serves proper above ran
  exact ⟨r, steps, agrees'.stored⟩

namespace Counting

/-- Articles as a session handles them. -/
def entity : EntityType :=
  ⟨"Article", some, fun json => ((json.field? "id").bind Json.int64?).getD 0,
    fun id json => json.setField "id" (.ofInt64 id)⟩

def dated (id day : Int64) : Json := .obj [("Day", .ofInt64 day), ("id", .ofInt64 id)]

theorem id_setId (id id' day : Int64) : entity.id (entity.setId id (dated id' day)) = id := by
  have apart : ¬ "id" < "Day" := by decide
  have fields : entity.setId id (dated id' day) = dated id day := by
    simp [entity, dated, Json.setField, Json.insertField, apart]
  have field : (dated id day).field? "id" = some (.ofInt64 id) := rfl
  rw [fields]
  change (((dated id day).field? "id").bind Json.int64?).getD 0 = id
  rw [field, Option.bind_some, Json.int64?_ofInt64, Option.getD_some]

/-- One article is stored, in its third version. -/
def shelf : Documents := fun key =>
  if key = ⟨"", 7⟩ then some ⟨"Article", ⟨(dated 7 1).text, dated 7 1, 3⟩⟩ else none

def kept : Memory :=
  { (∅ : Memory) with
    tables := fun t =>
      if t = "Document" then [Row.document 7 ⟨"Article", ⟨(dated 7 1).text, dated 7 1, 3⟩⟩]
      else [] }

theorem shelf_stored : shelf.Stored settings catalog (store.tables kept) := by
  have only : ∀ {collection}, catalog.collections (settings.names collection) → collection = "" :=
    fun h => congrArg TableNames.collection h
  refine ⟨fun collection used row hrow => ?_, fun collection used id => ?_⟩
  · obtain rfl := only used
    obtain rfl := List.mem_singleton.1 hrow
    exact ⟨7, rfl⟩
  · obtain rfl := only used
    by_cases same : id = 7
    · subst same
      rfl
    · have other : ¬ (7 : Int64) = id := fun h => same h.symm
      have none : shelf ⟨"", id⟩ = none := if_neg fun h => same (congrArg DocKey.id h)
      rw [none]
      exact List.filter_eq_nil_iff.2 fun row hrow => by
        obtain rfl := List.mem_singleton.1 hrow
        simpa [Row.value?_document] using other

/-- An article is read, one is added, the first is dated anew, and the added one is
taken back after a flush. -/
def operations : List Operation :=
  [.get entity "" 7, .save entity "" (dated 0 1), .save entity "" (dated 7 2), .flush,
    .get entity "" 7, .delete entity "" (dated 8 1), .saveChanges, .get entity "" 8]

def opened : Session := ⟨settings, 0, ∅, [], [], false, false⟩

def edited : (Except Error (List (Option Json)) × Session) × Memory :=
  Program.run store.answer ((Operation.runAll operations).run.run opened) kept

def answers : List (Option Json) := edited.1.1.toOption.getD []

theorem answers_eq : answers.map (Option.map Json.text) =
    [some "\x7b\"Day\":1,\"id\":7\x7d", some "\x7b\"Day\":1,\"id\":8\x7d",
      some "\x7b\"Day\":2,\"id\":7\x7d", none, some "\x7b\"Day\":2,\"id\":7\x7d", none, none,
      none] := by decide +kernel

theorem documents_edited : edited.2.tables "Document" =
    [⟨[Command.idCell 7, (Column.typeName, .text "Article"),
      (Column.contentName, .text "\x7b\"Day\":2,\"id\":7\x7d"),
      (Column.versionName, .int 4)]⟩] := by decide +kernel

theorem operations_proper :
    ∀ x ∈ operations.zip answers, x.1.Proper settings catalog (fun _ => "Article") x.2 := by
  rintro ⟨op, answer⟩ h
  have mem := (List.of_mem_zip h).1
  simp only [operations, List.mem_cons, List.not_mem_nil, or_false] at mem
  obtain rfl | rfl | rfl | rfl | rfl | rfl | rfl | rfl := mem
  · exact ⟨rfl, rfl⟩
  · exact ⟨rfl, fun id => id_setId id 0 1, fun _ _ => rfl⟩
  · exact ⟨rfl, fun id => id_setId id 7 2, fun _ _ => rfl⟩
  · trivial
  · exact ⟨rfl, rfl⟩
  · exact ⟨rfl, rfl⟩
  · trivial
  · exact ⟨rfl, rfl⟩

theorem operations_above : ∀ saved collection content json,
    (.save saved collection content, some json) ∈ operations.zip answers →
    saved.id content = 0 → saved.id json ≠ Int64.minValue := by
  intro saved collection content json mem _
  have above : ∀ answer ∈ answers, ∀ json ∈ answer, entity.id json ≠ Int64.minValue := by
    decide +kernel
  obtain ⟨op, answer⟩ := List.of_mem_zip mem
  obtain rfl : saved = entity := by
    simp only [operations, List.mem_cons, List.not_mem_nil, or_false, reduceCtorEq,
      Operation.save.injEq, false_or] at op
    obtain ⟨rfl, _⟩ | ⟨rfl, _⟩ := op <;> rfl
  exact above _ answer json rfl

theorem store_serves : store.Serves settings catalog fun m => m.ids.bounds where
  faithful := Memory.faithful
  finds := Memory.findsDocuments
  highest := Memory.findsHighest
  describes := Memory.describes
  identifies := Memory.identifies
  distinct := catalog_distinct

theorem shelf_read {key : DocKey} {doc : StoredDocument} (h : shelf key = some doc) {json : Json}
    (read : settings.serializer.deserialize doc.state.content = .ok json) :
    json = doc.state.json := by
  unfold shelf at h
  split at h
  · cases h
    have same : settings.serializer.deserialize (dated 7 1).text = .ok (dated 7 1) := by rfl
    rw [same] at read
    cases read
    rfl
  · cases h

theorem succeeds : edited.1.1.toOption.isSome = true := by decide +kernel

/-- Eight operations on a shelf of articles, what they answer and what they leave. -/
theorem refines_shelf : answers.map (Option.map Json.text) =
    [some "\x7b\"Day\":1,\"id\":7\x7d", some "\x7b\"Day\":1,\"id\":8\x7d",
      some "\x7b\"Day\":2,\"id\":7\x7d", none, some "\x7b\"Day\":2,\"id\":7\x7d", none,
      none, none] ∧
    edited.2.tables "Document" =
      [⟨[Command.idCell 7, (Column.typeName, .text "Article"),
        (Column.contentName, .text "\x7b\"Day\":2,\"id\":7\x7d"), (Column.versionName, .int 4)]⟩] ∧
    ∃ r, Reference.Steps settings.serializer ⟨shelf, fun _ => none⟩ operations answers r ∧
      r.docs.Stored settings catalog (store.tables edited.2) := by
  have ran : Work.Yields store.answer (Operation.runAll operations) opened kept answers
      edited.1.2 edited.2 :=
    Work.yields_of_isSome (r := edited) edited.eq_def.symm succeeds []
  refine ⟨answers_eq, documents_edited, ?_⟩
  have opens : Action.Yields store.answer (Session.connect settings) kept opened kept := rfl
  have typed : ∀ key doc, shelf key = some doc →
      doc.typeName = (fun _ : DocKey => "Article") key := by
    intro key doc h
    unfold shelf at h
    split at h
    · cases h
      rfl
    · cases h
  exact Session.refines store_serves opens shelf_stored (fun _ _ _ h => by cases h) typed
    (fun _ _ h _ read => shelf_read h read) operations_proper operations_above ran

end Counting

end DocStore

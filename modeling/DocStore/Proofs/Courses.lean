import DocStore.Proofs.Alternation
import DocStore.Proofs.MapTables
import DocStore.Proofs.Transparency

/-!
# The course of a session

What a session comes to that goes on, call after call, on storage in which nobody
else writes. A `Moment` is a session with its surroundings and with the documents
as they were last committed and as they were last flushed. Whatever a session
tracks is as it was last flushed, and what it does not track no flush has changed
since the last commit, but for what was deleted.
-/

set_option autoImplicit false

namespace DocStore

variable {σ α : Type}

/-! ## Runs in given surroundings -/

/-- What a program ends with is of a kind, if its requests keep something of the surroundings, and
the answers are of a kind. -/
theorem Program.Given.run {answer : Answerer σ} {P : Request → Prop} {E : Event → Prop}
    {Q : α → Prop} {J : σ → Prop}
    (answers : ∀ r s, P r → J s → E ⟨r, (answer r s).1⟩ ∧ J (answer r s).2) {p : Program α}
    (asks : p.Asks P) (given : p.Given E Q) {s : σ} (holds : J s) :
    Q (Program.run answer p s).1 ∧ J (Program.run answer p s).2 := by
  induction p generalizing s with
  | done a => exact ⟨given, holds⟩
  | ask r next ih =>
    obtain ⟨happens, holds'⟩ := answers r s asks.1 holds
    exact ih _ (asks.2 _) (given _ happens) holds'

theorem Program.asks_any (p : Program α) : p.Asks fun _ => True := by
  induction p with
  | done a => trivial
  | ask r next ih => exact ⟨trivial, ih⟩

section Comes

variable {answer : Answerer σ} {w : Work α} {session session' : Session} {s s' : σ}
  {result : Except Error α}

theorem Work.Keeps.of_comes {P : Request → Prop} {E : Event → Prop} {I : Session → Prop}
    {Q : α → Prop} {J : σ → Prop} (keeps : w.Keeps E I Q) (asks : w.Asks P)
    (answers : ∀ r s, P r → J s → E ⟨r, (answer r s).1⟩ ∧ J (answer r s).2) (hi : I session)
    (holds : J s) (h : w.Comes answer session s result session' s') : I session' ∧ J s' := by
  obtain ⟨⟨hi', _⟩, holds'⟩ := Program.Given.run answers (asks session) (keeps session hi) holds
  rw [h] at hi' holds'
  exact ⟨hi', holds'⟩

/-- What work keeps whatever is answered. -/
theorem Work.Keeps.left {I : Session → Prop} {Q : α → Prop} (keeps : w.Keeps (fun _ => True) I Q)
    (hi : I session) (h : w.Comes answer session s result session' s') : I session' :=
  (keeps.of_comes (J := fun _ => True) (fun _ => Program.asks_any _)
    (fun _ _ _ _ => ⟨trivial, trivial⟩) hi trivial h).1

end Comes

/-! ## Documents shown by a database -/

/-- Requests that neither write nor bound a transaction. -/
def Request.Looks (r : Request) : Prop := r.Quiet ∧ r.Inside

theorem Request.hasLookups_looks : HasLookups Looks where
  query _ _ _ := ⟨trivial, rfl, rfl⟩
  descriptors _ _ := ⟨trivial, rfl, rfl⟩
  compiledSql _ _ _ := ⟨trivial, rfl, rfl⟩

theorem Request.hasIdentities_looks : HasIdentities Looks where
  seeded _ := ⟨trivial, rfl, rfl⟩
  highest _ _ _ := ⟨trivial, rfl, rfl⟩
  seeds _ _ := ⟨trivial, rfl, rfl⟩
  next _ := ⟨trivial, rfl, rfl⟩

/-- A row of a document of a collection in use has a content and a version. -/
def Database.Shows (db : Database) (settings : Settings) (catalog : Catalog) (key : DocKey)
    (content : String) (version : Int64) : Prop :=
  catalog.collections (settings.names key.collection) ∧
  ∃ row ∈ db (settings.names key.collection).document,
    ∃ typeName, Document.ofRow row = .ok ⟨key.id, typeName, content, version⟩

/-- Every row of the document tables is that of a document of the map, but for documents
that may have changed. -/
def Documents.StoredBut (docs : Documents) (settings : Settings) (catalog : Catalog)
    (changed : DocKey → Prop) (db : Database) : Prop :=
  ∀ collection, catalog.collections (settings.names collection) →
    ∀ row ∈ db (settings.names collection).document,
    ∃ id doc, row = Row.document id doc ∧
      (changed ⟨collection, id⟩ ∨ docs ⟨collection, id⟩ = some doc)

theorem Documents.Stored.storedBut {docs : Documents} {settings : Settings} {catalog : Catalog}
    {db : Database} (stored : docs.Stored settings catalog db) (changed : DocKey → Prop) :
    docs.StoredBut settings catalog changed db := by
  intro collection used row hrow
  obtain ⟨id, hid⟩ := stored.identified collection used row hrow
  have mem := Database.mem_byId_iff.2 ⟨hrow, hid⟩
  rw [stored.rows collection used] at mem
  obtain ⟨doc, hdoc, rfl⟩ := Option.map_eq_some_iff.1 (Option.mem_toList.1 mem)
  exact ⟨id, doc, rfl, .inr hdoc⟩

theorem Documents.StoredBut.of_shows {docs : Documents} {settings : Settings} {catalog : Catalog}
    {changed : DocKey → Prop} {db : Database} (stored : docs.StoredBut settings catalog changed db)
    {key : DocKey} {content : String} {version : Int64}
    (shows : db.Shows settings catalog key content version) :
    changed key ∨ ∃ doc, docs key = some doc ∧
    doc.state.content = content ∧ doc.state.version = version := by
  obtain ⟨used, row, hrow, typeName, read⟩ := shows
  obtain ⟨id, doc, rfl, changed | hdoc⟩ := stored key.collection used row hrow
  · rw [Document.ofRow_document] at read
    cases read
    exact .inl changed
  · rw [Document.ofRow_document] at read
    cases read
    exact .inr ⟨doc, hdoc, rfl, rfl⟩

/-- A session of a store that tracks what it did before, and every other document
as a database shows it. -/
structure Session.Recalls (settings : Settings) (catalog : Catalog) (db : Database)
    (before : Assoc DocKey Tracked) (session : Session) : Prop where
  same : session.settings = settings
  kept : ∀ key t, before.get? key = some t → session.tracked.get? key = some t
  learnt : ∀ key t, session.tracked.get? key = some t → before.get? key = some t ∨
    db.Shows settings catalog key t.content t.version ∧
      settings.serializer.deserialize t.content = .ok t.json

namespace Session.Recalls

variable {settings : Settings} {catalog : Catalog} {db : Database} {before : Assoc DocKey Tracked}
  {session : Session}

theorem refl (same : session.settings = settings) :
    session.Recalls settings catalog db session.tracked :=
  ⟨same, fun _ _ h => h, fun _ _ h => .inl h⟩

theorem congr (recalls : session.Recalls settings catalog db before) {session' : Session}
    (same : session'.knowledge = session.knowledge) :
    session'.Recalls settings catalog db before := by
  obtain ⟨settings', tracked'⟩ := Prod.mk.inj same
  exact ⟨settings'.trans recalls.same, fun key t h => tracked' ▸ recalls.kept key t h,
    fun key t h => recalls.learnt key t (tracked' ▸ h)⟩

/-- What is learnt later is learnt besides. -/
theorem trans (recalls : session.Recalls settings catalog db before) {session' : Session}
    (later : session'.Recalls settings catalog db session.tracked) :
    session'.Recalls settings catalog db before :=
  ⟨later.same, fun key t h => later.kept key t (recalls.kept key t h),
    fun key t h => (later.learnt key t h).elim (recalls.learnt key t) .inr⟩

theorem untracked (recalls : session.Recalls settings catalog db before) {key : DocKey}
    (missing : session.tracked.get? key = none) : before.get? key = none := by
  cases known : before.get? key with
  | none => rfl
  | some t =>
    rw [recalls.kept key t known] at missing
    cases missing

/-- What was not tracked before is tracked as the documents have it that are stored. -/
theorem cases_of_tracked (recalls : session.Recalls settings catalog db before) {docs : Documents}
    {changed : DocKey → Prop} (stored : docs.StoredBut settings catalog changed db) {key : DocKey}
    {t : Tracked} (tracked : session.tracked.get? key = some t) :
    before.get? key = some t ∨ before.get? key = none ∧ (changed key ∨ ∃ doc, docs key = some doc ∧
      doc.state.content = t.content ∧ doc.state.version = t.version ∧
        settings.serializer.deserialize t.content = .ok t.json) := by
  rcases recalls.learnt key t tracked with known | ⟨shows, read⟩
  · exact .inl known
  · cases known : before.get? key with
    | some t' =>
      rw [recalls.kept key t' known] at tracked
      exact .inl tracked
    | none =>
      refine .inr ⟨rfl, (stored.of_shows shows).imp_right ?_⟩
      rintro ⟨doc, hdoc, content, version⟩
      exact ⟨doc, hdoc, content, version, read⟩

/-- A session that knows documents tracks each as it is, unless it may have changed. -/
theorem agrees (recalls : session.Recalls settings catalog db before) {docs : Documents}
    {changed : DocKey → Prop} (stored : docs.StoredBut settings catalog changed db)
    (knows : Knows settings.serializer docs before) {key : DocKey} {t : Tracked}
    (tracked : session.tracked.get? key = some t)
    (unchanged : before.get? key = none → ¬changed key) :
    (docs key).map StoredDocument.state = some t := by
  rcases recalls.cases_of_tracked stored tracked with
    known | ⟨none, here | ⟨doc, hdoc, content, version, read⟩⟩
  · exact knows.agrees key t known
  · exact absurd here (unchanged none)
  · have same := knows.unread key doc hdoc none t.json (content ▸ read)
    obtain ⟨content', json', version'⟩ := t
    obtain ⟨typeName, content'', json'', version''⟩ := doc
    dsimp only at content version same
    rw [hdoc, Option.map_some, content, version, same]

theorem knows (recalls : session.Recalls settings catalog db before) {docs : Documents}
    (stored : docs.Stored settings catalog db) (knows : Knows settings.serializer docs before) :
    Knows settings.serializer docs session.tracked where
  agrees _ _ tracked := recalls.agrees (stored.storedBut fun _ => False) knows tracked fun _ h => h
  unread key doc hdoc none := knows.unread key doc hdoc (recalls.untracked none)

end Session.Recalls

/-! ## Storage of one session -/

/-- Storage in which only one session writes: it keeps tables faithfully, finds documents as they
stand in the tables of the collections in use, each under an id of its own, and takes back what was
written since the last transaction was begun. -/
structure Storage.Hosts (S : Storage σ) (settings : Settings) (catalog : Catalog)
    (committed : σ → Database) : Prop where
  faithful : S.Faithful fun _ => True
  distinct : catalog.Distinct
  finds : S.FindsDocuments catalog
  describes : S.Describes settings catalog
  keyed : S.Keyed catalog
  shows : ∀ {c s st rows st'}, S.answer (.query c s) st = (.ok rows, st') →
    (S.tables st).MayAnswer settings.dialect s rows
  used : ∀ {c s st rows st'}, S.answer (.query c s) st = (.ok rows, st') →
    ∀ (s' : Statement) (collection : String), s'.text settings.dialect = s.text settings.dialect →
      s'.documentTable? = some (settings.names collection).document →
        ∀ row ∈ rows, catalog.collections (settings.names collection)
  begins : ∀ {c st st'}, S.answer (.begin c) st = (.ok (), st') → committed st' = S.tables st
  rollsBack : ∀ {c st st'}, S.answer (.rollback c) st = (.ok (), st') → S.tables st' = committed st
  keeps : ∀ {r : Request} st, r.Inside → committed (S.answer r st).2 = committed st

/-- What the storage has answered, when its tables were these, to a request that neither writes nor
bounds a transaction. -/
def Storage.Told (S : Storage σ) (db : Database) (e : Event) : Prop :=
  e.request.Looks ∧ ∃ st st', S.tables st = db ∧ S.answer e.request st = (e.outcome, st')

namespace Storage.Hosts

variable {S : Storage σ} {settings : Settings} {catalog : Catalog} {committed : σ → Database}
  (hosts : S.Hosts settings catalog committed) {db kept : Database}
include hosts

theorem keepsDocuments : S.Faithful catalog.IsDocuments where
  executed change h t _ := hosts.faithful.executed change h t trivial
  refused change h t _ := hosts.faithful.refused change h t trivial
  inserted h := by
    obtain ⟨id, hv, fresh, tables⟩ := hosts.faithful.inserted h
    exact ⟨id, hv, fun _ => fresh trivial, fun t _ => tables t trivial⟩
  notInserted h t _ := hosts.faithful.notInserted h t trivial
  quiet quiet t _ := hosts.faithful.quiet quiet t trivial

theorem shows_of_sourced {key : DocKey} {content : String} {version : Int64}
    (sourced : Sourced (S.Told db) settings key content version) :
    db.Shows settings catalog key content version := by
  obtain ⟨e, ⟨looks, st, st', rfl, answered⟩, shown⟩ := sourced
  cases shown with
  | found same documents hrow read =>
    obtain ⟨stored, hstored, same'⟩ := hosts.shows answered _ _ same documents _ hrow
    exact ⟨hosts.used answered _ _ same documents _ hrow, stored, hstored, _, same' ▸ read⟩
  | created => exact absurd looks.1 id
  | updated => exact absurd looks.1 id

theorem learnable_recalls (before : Assoc DocKey Tracked) :
    Session.Learnable (S.Told db) settings (Session.Recalls settings catalog db before) where
  same _ recalls := recalls.same
  depends _ _ same recalls := recalls.congr same
  loads session key content json version recalls new sourced read := by
    refine ⟨recalls.same, fun key' t h => ?_, fun key' t h => ?_⟩
    · rw [Assoc.get?_insert, if_neg]
      · exact recalls.kept key' t h
      · rintro rfl
        rw [recalls.kept key t h] at new
        cases new
    · rw [Assoc.get?_insert] at h
      split at h
      · next same =>
        cases h
        subst same
        exact .inr ⟨hosts.shows_of_sourced sourced, read⟩
      · exact recalls.learnt key' t h

/-- Work that only looks something up leaves the storage, and what it learns the tables show. -/
theorem recalls {w : Work α} {Q : α → Prop} {session session' : Session} {st st' : σ}
    {result : Except Error α} (learns : w.Learns (S.Told (S.tables st)) settings Q)
    (asks : w.Asks Request.Looks) (same : session.settings = settings)
    (h : w.Comes S.answer session st result session' st') :
    session'.Recalls settings catalog (S.tables st) session.tracked ∧ S.tables st' = S.tables st ∧
      committed st' = committed st := by
  refine (learns _ (hosts.learnable_recalls session.tracked)).of_comes
    (J := fun s => S.tables s = S.tables st ∧ committed s = committed st) asks ?_ (.refl same)
    ⟨rfl, rfl⟩ h
  rintro r s looks ⟨tables, same⟩
  exact ⟨⟨looks, s, _, tables, rfl⟩, (S.tables_of_quiet hosts.faithful s looks.1).trans tables,
    (hosts.keeps s looks.2).trans same⟩

end Storage.Hosts

/-- What is not tracked after a flush was not tracked before and no edit was about it, or the edits
left no such document. -/
theorem Session.untracked_of_remember {session : Session} {key : DocKey} {edits : List Edit}
    (docs : Documents)
    (untracked :
      (session.remember (edits.map fun e =>
        (e.key, e.leaves.map StoredDocument.state))).tracked.get? key = none) :
    session.tracked.get? key = none ∧ key ∉ edits.map Edit.key ∨ docs.edited edits key = none := by
  unfold Session.remember at untracked
  dsimp only at untracked
  generalize session.tracked = tracked at untracked ⊢
  induction edits generalizing docs tracked with
  | nil => exact .inl ⟨untracked, List.not_mem_nil⟩
  | cons e es ih =>
    rcases ih (docs.edit e) _ untracked with ⟨here, others⟩ | gone
    · have here := (e.get?_tracked tracked key).symm.trans here
      split at here
      · next same =>
        refine .inr ?_
        change (docs.edit e).edited es key = none
        rw [Documents.edited_of_not_mem others, Documents.edit, ← same, Function.update_self]
        exact Option.map_eq_none_iff.1 here
      · next other =>
        refine .inl ⟨here, fun mem => ?_⟩
        rcases List.mem_cons.1 mem with same | mem
        · exact other same.symm
        · exact others mem
    · exact .inr gone

/-! ## Moments -/

/-- The calls that do not end, write or give up anything. -/
def Call.Plain (call : Call) : Prop :=
  call ≠ .flush ∧ call ≠ .saveChanges ∧ call ≠ .cancel ∧ call ≠ .close

/-- A change of a document of a collection in use. -/
def Pending.InUse (settings : Settings) (catalog : Catalog) (change : Pending) : Prop :=
  catalog.collections (settings.names change.key.collection)

/-- A session with its surroundings, and the documents as they were last committed and as
they were last flushed. -/
structure Moment (σ : Type) where
  session : Session
  st : σ
  settled : Documents
  current : Documents

namespace Moment

/-- The moment after a flush. -/
def flushed (m : Moment σ) (session : Session) (st : σ) : Moment σ :=
  { m with session, st, current := m.session.flushed m.current }

/-- The moment after changes were saved. -/
def saved (m : Moment σ) (session : Session) (st : σ) : Moment σ :=
  ⟨session, st, m.session.flushed m.current, m.session.flushed m.current⟩

@[simp] theorem st_saved (m : Moment σ) (session : Session) (st : σ) :
    (m.saved session st).st = st := rfl

/-- A session that goes on by a flush, or by saving its changes. -/
inductive Writes (S : Storage σ) (m : Moment σ) : Moment σ → Prop
  | flushes {session : Session}
      {st : σ} : Work.Yields S.answer Session.flush m.session m.st () session st →
      Writes S m (m.flushed session st)
  | saves {session : Session}
      {st : σ} : Work.Yields S.answer Session.saveChanges m.session m.st () session st →
      Writes S m (m.saved session st)

/-- A session that goes on by a call that writes nothing. -/
inductive Calls (S : Storage σ) (settings : Settings) (catalog : Catalog) (m : Moment σ) :
    Moment σ → Prop
  | intro {call : Call} {result : Except Error Unit} {session : Session} {st : σ} : call.Plain →
      call.Proposes settings (Pending.InUse settings catalog) →
        call.work.Comes S.answer m.session m.st result session st →
        Calls S settings catalog m { m with session, st }

/-- A session that goes on, one call later: nothing is given up, and only flushes write. -/
def Next (S : Storage σ) (settings : Settings) (catalog : Catalog) (m m' : Moment σ) : Prop :=
  m.Calls S settings catalog m' ∨ m.Writes S m'

/-- What a session that goes on knows, and what is stored. -/
structure Holds (S : Storage σ) (settings : Settings) (catalog : Catalog) (committed : σ → Database)
    (m : Moment σ) : Prop where
  waits : m.session.Waits settings (Pending.InUse settings catalog)
  active : m.session.cancelled = false
  stored : m.current.Stored settings catalog (S.tables m.st)
  knows : Knows settings.serializer m.current m.session.tracked
  outside : m.session.inTransaction = false → m.settled = m.current
  inside : m.session.inTransaction = true → m.settled.Stored settings catalog (committed m.st)
  untracked : ∀ key, m.session.tracked.get? key = none →
    m.current key = m.settled key ∨ m.current key = none

end Moment

section Course

variable {S : Storage σ} {settings : Settings} {catalog : Catalog} {committed : σ → Database}
  (hosts : S.Hosts settings catalog committed)
include hosts

/-- What is committed is what was committed when a transaction was begun. -/
theorem Storage.Hosts.committed_of_begin {session session' : Session} {st st' : σ}
    (h : Work.Yields S.answer Session.begin session st () session' st') :
    session'.inTransaction = true ∧
      (session.inTransaction = true ∧ committed st' = committed st ∨
        session.inTransaction = false ∧ committed st' = S.tables st) := by
  have run := Work.yields_get_bind_iff.1 h
  split at run
  · next inside =>
    obtain ⟨_, rfl, rfl⟩ := Work.yields_pure_iff.1 run
    exact ⟨inside, .inl ⟨inside, rfl⟩⟩
  · next out =>
    obtain ⟨_, st₁, hbegin, run₁⟩ := Work.yields_ofAction_bind_iff.1 run
    obtain ⟨rfl, rfl⟩ := Work.yields_modify_iff.1 run₁
    exact ⟨rfl, .inr ⟨by simpa using out, hosts.begins hbegin⟩⟩

/-- The end of a flush only looks something up. -/
theorem Storage.Hosts.committed_of_finish {arena : Arena} {conn : Connection} {dialect : Dialect}
    {st st' : σ} {result : Except Error (List Command)}
    (h : Program.run S.answer (arena.finish conn dialect).run st = (result, st')) :
    committed st' = committed st ∧ S.tables st' = S.tables st := by
  have asks := arena.asks_finish Request.hasLookups_looks conn dialect
  have kept := asks.run_eq committed (fun r s looks => hosts.keeps s looks.2) st
  have tables :=
    asks.run_eq S.tables (fun r s looks => S.tables_of_quiet hosts.faithful s looks.1) st
  rw [h] at kept tables
  exact ⟨kept, tables⟩

/-- Commands write in the transaction that is open. -/
theorem Storage.Hosts.committed_of_runAll {commands : List Command} {conn : Connection} {st st' : σ}
    {result : Except Error Unit}
    (h : Program.run S.answer (Command.runAll conn commands).run st = (result, st')) :
    committed st' = committed st := by
  have asks : (Command.runAll conn commands).Asks Request.Inside :=
    Command.asks_runAll (fun _ => ⟨rfl, rfl⟩) (fun _ => ⟨rfl, rfl⟩) commands
  have kept := asks.run_eq committed (fun r s inside => hosts.keeps s inside) st
  rw [h] at kept
  exact kept

/-- A call that writes nothing leaves the storage and what was flushed. -/
theorem Storage.Hosts.plain {call : Call} (plain : call.Plain) {session session' : Session}
    {st st' : σ} {result : Except Error Unit} (same : session.settings = settings)
    (h : call.work.Comes S.answer session st result session' st') :
    session'.Recalls settings catalog (S.tables st) session.tracked ∧
    session'.flags = session.flags ∧ S.tables st' = S.tables st ∧ committed st' = committed st := by
  have looks := Call.ensures_work Request.hasLookups_looks Request.hasIdentities_looks
    Session.steady_flags call plain
  obtain ⟨recalls, tables, kept⟩ :=
    hosts.recalls (Call.learns_work plain.1 plain.2.1) looks.asks same h
  have keeps : call.work.Keeps (fun _ => True) (fun s => s.flags = session.flags) fun _ => True :=
    looks.keeps fun _ _ same flags => same.trans flags
  exact ⟨recalls, keeps.left rfl h, tables, kept⟩

namespace Moment.Holds

variable {m : Moment σ} (holds : m.Holds S settings catalog committed)
include holds

theorem plain {call : Call} (plain : call.Plain)
    (proposes : call.Proposes settings (Pending.InUse settings catalog))
    {result : Except Error Unit} {session : Session} {st : σ}
    (h : call.work.Comes S.answer m.session m.st result session st) :
    Holds S settings catalog committed { m with session, st } := by
  obtain ⟨recalls, flags, tables, kept⟩ := hosts.plain plain holds.waits.same h
  have inTransaction : session.inTransaction = m.session.inTransaction := congrArg Prod.fst flags
  have cancelled : session.cancelled = m.session.cancelled := congrArg Prod.snd flags
  exact {
    waits := (Call.waits_work proposes).left holds.waits h
    active := cancelled.trans holds.active
    stored := by rw [tables]; exact holds.stored
    knows := recalls.knows holds.stored holds.knows
    outside := fun out => holds.outside (inTransaction ▸ out)
    inside := fun inside => by rw [kept]; exact holds.inside (inTransaction ▸ inside)
    untracked := fun key missing => holds.untracked key (recalls.untracked missing) }

/-- In a transaction, what was settled is committed; where one is begun, that is
all that was flushed. -/
theorem inside_of_begin {planned begun : Session} {st₁ st₂ : σ}
    (tables : S.tables st₁ = S.tables m.st) (kept : committed st₁ = committed m.st)
    (same : planned.inTransaction = m.session.inTransaction)
    (begins : begun = planned ∧ st₂ = st₁ ∨
      Work.Yields S.answer Session.begin planned st₁ () begun st₂)
    (inside : begun.inTransaction = true) : m.settled.Stored settings catalog (committed st₂) := by
  rcases begins with ⟨rfl, rfl⟩ | begins
  · rw [kept]
    exact holds.inside (same ▸ inside)
  · obtain ⟨_, ⟨already, committed⟩ | ⟨out, committed⟩⟩ := hosts.committed_of_begin begins
    · rw [committed, kept]
      exact holds.inside (same ▸ already)
    · rw [committed, tables, holds.outside (same ▸ out)]
      exact holds.stored

omit hosts in
theorem used :
    ∀ change ∈ m.session.pending, catalog.collections (m.session.names change.key.collection) := by
  intro change hchange
  rw [Session.names, holds.waits.same]
  exact holds.waits.each change hchange

/-- Planning learns what the tables show, and writes nothing. -/
theorem planning {plan : Except Error FlushPlan} {planned : Session} {st₁ : σ}
    (plans : Work.Comes S.answer (Session.planChanges ∅ m.session.pending) m.session m.st plan
      planned st₁) :
    planned.Recalls settings catalog (S.tables m.st) m.session.tracked ∧
    planned.inTransaction = m.session.inTransaction ∧
      S.tables st₁ = S.tables m.st ∧ committed st₁ = committed m.st := by
  have looks := Session.ensures_planChanges Request.hasLookups_looks Session.untracked_flags ∅
    m.session.pending
  obtain ⟨recalls, tables, kept⟩ :=
    hosts.recalls (Session.learns_planChanges ∅ m.session.pending) looks.asks holds.waits.same plans
  have keeps : (Session.planChanges ∅ m.session.pending).Keeps (fun _ => True)
      (fun s => s.flags = m.session.flags) fun _ => True :=
    looks.keeps fun _ _ same flags => same.trans flags
  exact ⟨recalls, congrArg Prod.fst (keeps.left rfl plans), tables, kept⟩

/-- What a flush that writes has planned and begun: its edits are those of what was flushed last,
and nothing is written yet. -/
theorem of_writes {plan : FlushPlan} {planned begun session : Session} {st₁ st₂ st₃ st : σ}
    {commands : List Command}
    (writes : m.session.Writes S.answer m.st plan planned st₁ begun st₂ commands st₃ session st) :
    Edit.planAll m.session.settings.config.checkConcurrency catalog (m.session.edits m.current) =
        .ok plan ∧
      (∃ tracked inTransaction, planned = { m.session with tracked } ∧
          begun = { planned with inTransaction }) ∧
        planned.Recalls settings catalog (S.tables m.st) m.session.tracked ∧
          (S.tables st₁ = S.tables m.st ∧ committed st₁ = committed m.st) ∧
            S.tables st₂ = S.tables m.st := by
  have same := holds.waits.same
  obtain ⟨plans, ⟨tracked, learnt, _⟩, ⟨inTransaction, begun⟩, _⟩ :=
    writes.edits hosts.keepsDocuments hosts.distinct hosts.finds
    (same ▸ hosts.describes) holds.used (.inr hosts.keyed) holds.waits.once (same ▸ holds.knows)
    (same ▸ holds.stored)
  obtain ⟨recalls, _, tables, kept⟩ := holds.planning hosts writes.plans
  refine ⟨plans, ⟨tracked, inTransaction, learnt, begun⟩, recalls, ⟨tables, kept⟩, ?_⟩
  rcases writes.begins with ⟨_, _, rfl⟩ | ⟨_, begins⟩
  · exact tables
  · exact (funext fun t => (Session.of_begin hosts.faithful begins).1 t trivial).trans tables

/-- A flush that writes. -/
theorem flushPending {session : Session} {st : σ}
    (h : Work.Yields S.answer Session.flushPending m.session m.st () session st) :
    (m.flushed session st).Holds S settings catalog committed := by
  have same := holds.waits.same
  obtain ⟨plan, planned, st₁, begun, st₂, commands, st₃, writes⟩ := Session.writes_of_flushPending h
  obtain ⟨plans, ⟨tracked, inTransaction, rfl, rfl⟩, recalls, ⟨tables, kept⟩, _⟩ :=
    holds.of_writes hosts writes
  obtain ⟨written, tracked', inTransaction', shape, knows'⟩ :=
    Session.of_flushPending hosts.keepsDocuments hosts.distinct hosts.finds
    (same ▸ hosts.describes) holds.used (.inr hosts.keyed) holds.waits.once (same ▸ holds.knows)
    (same ▸ holds.stored) h
  have remembers := writes.remembers
  have inside : session.inTransaction = inTransaction := congrArg Session.inTransaction remembers
  refine {
    waits := ?_
    active := by rw [Moment.flushed, shape]; exact holds.active
    stored := same ▸ written
    knows := by rw [Moment.flushed, shape]; exact same ▸ knows'
    outside := fun out => ?_
    inside := fun opened => ?_
    untracked := fun key missing => ?_ }
  · rw [Moment.flushed, shape]
    exact ⟨same, List.nodup_nil, fun _ h => by cases h⟩
  · rcases writes.begins with ⟨empty, nothing, _⟩ | ⟨_, begins⟩
    · have none : m.session.edits m.current = [] := Edit.eq_nil_of_planAll plans empty
      have stays : m.session.flushed m.current = m.current :=
        funext fun key => Session.flushed_of_not_mem (by rw [none]; exact List.not_mem_nil)
      have before : m.session.inTransaction = inTransaction :=
        (congrArg Session.inTransaction nothing).symm
      exact (holds.outside (before.trans (inside.symm.trans out))).trans stays.symm
    · have opened := inside.trans (hosts.committed_of_begin begins).1
      rw [show session.inTransaction = false from out] at opened
      cases opened
  · rw [show committed (m.flushed session st).st = committed st₂ from
      (hosts.committed_of_runAll writes.runs).trans (hosts.committed_of_finish writes.finishes).1]
    refine holds.inside_of_begin hosts tables kept ?_ (writes.begins.imp And.right And.right) ?_
    · rfl
    · exact inside.symm.trans opened
  · rw [show session = _ from remembers, Edit.applied_of_planAll_typed m.current plans] at missing
    rcases Session.untracked_of_remember m.current missing with ⟨before, unedited⟩ | gone
    · rw [show (m.flushed session st).current key =
        m.current key from Session.flushed_of_not_mem (Edit.map_key_typed m.current _ ▸ unedited)]
      exact holds.untracked key (recalls.untracked before)
    · refine .inr ?_
      rw [← Session.flushed_eq m.current holds.waits.once] at gone
      exact gone

theorem flush {session : Session} {st : σ}
    (h : Work.Yields S.answer Session.flush m.session m.st () session st) :
    (m.flushed session st).Holds S settings catalog committed := by
  rcases Session.cases_of_yields_flush holds.active h with ⟨nothing, rfl, rfl⟩ | written
  · rw [Moment.flushed, Session.flushed_of_nil nothing]
    exact holds
  · exact holds.flushPending hosts written

/-- Saving changes flushes them, and then commits them if a transaction is open. -/
theorem flush_of_saveChanges {session : Session} {st : σ}
    (h : Work.Yields S.answer Session.saveChanges m.session m.st () session st) : ∃ session₁ st₁,
      Work.Yields S.answer Session.flush m.session m.st () session₁ st₁ ∧
        S.tables st = S.tables st₁ ∧ session = { session₁ with inTransaction := false } := by
  obtain ⟨_, session₁, st₁, hflush, run⟩ := Work.yields_bind_iff.1 h
  have active : session₁.cancelled = false := (holds.flush hosts hflush).active
  have run₁ := Work.yields_get_bind_iff.1 run
  rw [if_neg (by simp [active])] at run₁
  refine ⟨session₁, st₁, hflush, ?_⟩
  split at run₁
  · obtain ⟨rfl, hcommit⟩ := Work.yields_ofAction_iff.1 (Work.yields_modify_bind_iff.1 run₁)
    have tables := S.tables_of_quiet hosts.faithful (r := .commit session₁.connection) st₁ trivial
    rw [show S.answer (.commit session₁.connection) st₁ = (.ok (), st) from hcommit] at tables
    exact ⟨tables, rfl⟩
  · next out =>
    obtain ⟨_, rfl, rfl⟩ := Work.yields_pure_iff.1 run₁
    rw [← Bool.eq_false_iff.2 out]
    exact ⟨rfl, rfl⟩

/-- What was flushed is committed with the rest. -/
theorem saveChanges {session : Session} {st : σ}
    (h : Work.Yields S.answer Session.saveChanges m.session m.st () session st) :
    (m.saved session st).Holds S settings catalog committed := by
  obtain ⟨session₁, st₁, hflush, tables, rfl⟩ := holds.flush_of_saveChanges hosts h
  have flushed := holds.flush hosts hflush
  exact {
    waits := flushed.waits.congr rfl
    active := flushed.active
    stored := flushed.stored.congr fun t _ => congrFun tables t
    knows := flushed.knows
    outside := fun _ => rfl
    inside := fun opened => by cases opened
    untracked := fun _ _ => .inl rfl }

theorem calls {m' : Moment σ} (calls : m.Calls S settings catalog m') :
    m'.Holds S settings catalog committed := by
  obtain ⟨plain, proposes, comes⟩ := calls
  exact holds.plain hosts plain proposes comes

theorem writes {m' : Moment σ} (writes : m.Writes S m') :
    m'.Holds S settings catalog committed := by
  cases writes with
  | flushes yields => exact holds.flush hosts yields
  | saves yields => exact holds.saveChanges hosts yields

theorem next {m' : Moment σ} (next : m.Next S settings catalog m') :
    m'.Holds S settings catalog committed :=
  next.elim (holds.calls hosts) (holds.writes hosts)

end Moment.Holds

end Course

/-- A session that goes on, from one moment to a later one. -/
inductive Moment.Leads (S : Storage σ) (settings : Settings) (catalog : Catalog) (m : Moment σ) :
    Moment σ → Prop
  | refl : Leads S settings catalog m m
  | next {m₁ m₂ : Moment σ} : Leads S settings catalog m m₁ →
      m₁.Next S settings catalog m₂ → Leads S settings catalog m m₂

/-- The moment in which a session has just been opened. -/
def Moment.opening (settings : Settings) (conn : Connection) (docs : Documents) (st : σ) :
    Moment σ where
  session := ⟨settings, conn, ∅, [], [], false, false⟩
  st
  settled := docs
  current := docs

section Leads

variable {S : Storage σ} {settings : Settings} {catalog : Catalog} {committed : σ → Database}

theorem Moment.holds_opening {conn : Connection} {docs : Documents} {st : σ}
    (stored : docs.Stored settings catalog (S.tables st))
    (read : ∀ key doc, docs key = some doc →
      ∀ json, settings.serializer.deserialize doc.state.content = .ok json →
      json = doc.state.json) :
    (Moment.opening settings conn docs st).Holds S settings catalog committed where
  waits := ⟨rfl, List.nodup_nil, fun _ h => by cases h⟩
  active := rfl
  stored
  knows := ⟨fun _ _ h => (by cases h), fun key doc hdoc _ json hjson =>
    read key doc hdoc json hjson⟩
  outside _ := rfl
  inside opened := by cases opened
  untracked _ _ := .inl rfl

/-- However long a session goes on, it knows what it last flushed. -/
theorem Moment.Holds.leads (hosts : S.Hosts settings catalog committed) {m m' : Moment σ}
    (holds : m.Holds S settings catalog committed) (leads : m.Leads S settings catalog m') :
    m'.Holds S settings catalog committed := by
  induction leads with
  | refl => exact holds
  | next _ next ih => exact ih.next hosts next

end Leads

/-! ## A database of one session -/

namespace Announcing

instance : DecidablePred catalog.collections :=
  fun names => inferInstanceAs (Decidable (names = Counting.main))

/-- An insertion of a row under an id that another row has. -/
def clashes (db : Database) : Statement → Bool
  | .insert table cells => (db table).any fun row =>
      (row.value? Column.idName).isSome && row.value? Column.idName =
      Row.value? ⟨cells⟩ Column.idName
  | _ => false

/-- The answers of a database to its only session: ids are given once, and
only documents are found. -/
def answer : Answerer (Shared Unit)
  | .query _ s, w => (.ok (if s.documentTable? = some "Document" then (w.view ()).select s else []),
      w)
  | .execute c s, w =>
    if clashes (w.view ()) s then (.error Shared.locked, w)
      else Shared.answer Counting.settings catalog () (.execute c s) w
  | r, w => Shared.answer Counting.settings catalog () r w

def host : Storage (Shared Unit) := ⟨answer, fun w => w.view ()⟩

theorem view_of_own? {w : Shared Unit} {own : Database} (h : w.own? () = some own) :
    w.view () = own := by
  rw [Shared.eq_of_own? h]
  rfl

/-- A change that is executed is made in the transaction. -/
theorem executed {c : Connection} {s : Statement} {w w' : Shared Unit} {n : Nat}
    (h : answer (.execute c s) w = (.ok n, w')) :
    clashes (w.view ()) s = false ∧ w'.view () = (w.view ()).execute s ∧
    w'.committed = w.committed := by
  unfold answer at h
  dsimp only at h
  split at h
  · cases h
  · next free =>
    unfold Shared.answer at h
    dsimp only at h
    split at h
    · next own here =>
      split at h
      · cases h
        exact ⟨by simpa using free, by rw [view_of_own? here]; rfl, rfl⟩
      · cases h
    · cases h

theorem refused {c : Connection} {s : Statement} {w w' : Shared Unit} {e : Error}
    (h : answer (.execute c s) w = (.error e, w')) : w' = w := by
  unfold answer at h
  dsimp only at h
  split at h
  · cases h
    rfl
  · unfold Shared.answer at h
    dsimp only at h
    split at h
    · split at h <;> cases h
      rfl
    · cases h
      rfl

theorem host_faithful : host.Faithful fun _ => True where
  executed _ h t _ := congrFun (executed h).2.1 t
  refused _ h t _ := by rw [refused h]
  inserted h := by cases h
  notInserted h t _ := by
    cases h
    rfl
  quiet {r w} quiet t _ := by
    cases r with
    | execute | rollback => cases quiet
    | begin c =>
      obtain ⟨committed, opened⟩ := w
      cases opened <;> rfl
    | commit c =>
      change (answer (.commit c) w).2.view () t = w.view () t
      unfold answer Shared.answer
      dsimp only
      split
      · next own here =>
        rw [view_of_own? here]
        rfl
      · rfl
    | connect | query | scalar | idsSeeded | seedIds | nextId | descriptors | compiledSql => rfl

/-- Only documents are found, and all of an id. -/
theorem exists_of_found {c : Connection} {s : Statement} {w w' : Shared Unit}
    {rows : List Row} {row : Row} (h : answer (.query c s) w = (.ok rows, w')) (hrow : row ∈ rows) :
    ∃ parameter, s = .query (.documentById "Document") ⟨[parameter]⟩ ∧
      rows = (w.view ()).select s := by
  cases h
  split at hrow
  · next table =>
    rw [if_pos table]
    unfold Database.select at hrow
    split at hrow
    · cases table
      exact ⟨_, rfl, rfl⟩
    · cases hrow
  · cases hrow

theorem host_hosts : host.Hosts Counting.settings catalog Shared.committed where
  faithful := host_faithful
  distinct := catalog_distinct
  finds {c table parameter id w rows w'} documents h := by
    obtain ⟨names, used, rfl⟩ := documents
    obtain rfl : names = Counting.main := used
    cases h
    refine List.Perm.of_eq (List.filter_congr fun row _ => ?_)
    rw [Bool.eq_iff_iff, decide_eq_true_eq]
    exact Row.meets_idCell_iff
  describes {typeName collection w ds w'} h := by
    change Shared.answer Counting.settings catalog () (.descriptors typeName collection) w = _ at h
    unfold Shared.answer at h
    dsimp only at h
    split at h <;> cases h
    rfl
  keyed {c table id cells w n w'} _ h := by
    have free := (executed h).1
    refine List.filter_eq_nil_iff.2 fun row hrow => ?_
    have other := List.any_eq_false.1 free row hrow
    rw [Row.value?_idCell] at other
    intro same
    rw [of_decide_eq_true same] at other
    exact other (by simp)
  shows {c s w rows w'} h s' table same documents row hrow := by
    obtain ⟨_, _, rfl⟩ := exists_of_found h hrow
    exact Database.mayAnswer_select (w.view ()) s s' table same documents row hrow
  used {c s w rows w'} h s' collection same documents row hrow := by
    obtain ⟨_, rfl, _⟩ := exists_of_found h hrow
    have table : (Counting.settings.names collection).document = "Document" :=
      Statement.eq_of_text_documentById same documents
    change (if collection = "" then "" ++ "Document" else "" ++ collection ++ "_" ++ "Document") =
      "Document" at table
    split at table
    · next main => exact congrArg (TableNames.mk "") main
    · have length := congrArg String.length table
      rw [String.length_append, String.length_append] at length
      change _ + 1 + 8 = 8 at length
      omega
  begins {c w w'} h := by
    obtain ⟨committed, opened⟩ := w
    cases opened <;> cases h
    rfl
  rollsBack {c w w'} h := by
    change Shared.answer Counting.settings catalog () (.rollback c) w = _ at h
    unfold Shared.answer at h
    dsimp only at h
    split at h <;> cases h
    rfl
  keeps {r} w inside := by
    cases r with
    | begin | commit | rollback => cases inside.1 <;> cases inside.2
    | execute c s =>
      change (answer (.execute c s) w).2.committed = w.committed
      rcases h : answer (.execute c s) w with ⟨e | n, w'⟩
      · rw [refused h]
      · exact (executed h).2.2
    | connect | query | scalar | idsSeeded | seedIds | nextId | descriptors | compiledSql => rfl

end Announcing

end DocStore

import DocStore.Proofs.Courses

/-!
# Loads after a rollback

A session that is given up rolls back what it has flushed since the last commit,
but it goes on to track what those flushes wrote. So it answers for what it tracks
as if nothing had been rolled back, and only what it does not track it looks up.
-/

set_option autoImplicit false

namespace DocStore

variable {σ α β : Type}

/-! ## Commands that are not all executed -/

namespace Documents.StoredBut

variable {settings : Settings} {catalog : Catalog} {changed : DocKey → Prop} {docs : Documents}
  {db : Database}

/-- A command on a document changes that one only. -/
theorem documentCommand (stored : docs.StoredBut settings catalog changed db)
    (distinct : catalog.Distinct) {e : Edit} (changes : changed e.key)
    (used : catalog.collections e.names) (here : e.names = settings.names e.names.collection)
    (check : Bool) :
    docs.StoredBut settings catalog changed (db.execute (e.documentCommand check).statement) := by
  intro collection used' row hrow
  by_cases same : collection = e.names.collection
  · subst same
    have rows := stored e.names.collection used'
    rw [← here] at hrow rows
    cases e with
    | create names id typeName json content =>
      change row ∈ db.execute (.insert names.document _) names.document at hrow
      rw [Database.execute_insert] at hrow
      rcases List.mem_append.1 hrow with hrow | hrow
      · exact rows row hrow
      · obtain rfl := List.mem_singleton.1 hrow
        exact ⟨id, ⟨typeName, ⟨content, json, 1⟩⟩, rfl, .inl changes⟩
    | update names id typeName json content old =>
      change row ∈ db.execute (.update names.document _ (Command.idCell id :: _))
        names.document at hrow
      rw [Database.execute_update] at hrow
      obtain ⟨row', mem, rfl⟩ := List.mem_map.1 hrow
      obtain ⟨id', doc, rfl, known⟩ := rows row' mem
      generalize hkeys :
        (((if check then some old.version else none).map fun v =>
          (Column.versionName, Value.int v)).toList) = keys
      by_cases meets : (Row.document id' doc).meets (Command.idCell id :: keys) = true
      · rw [if_pos meets]
        have same := of_decide_eq_true (Bool.and_eq_true_iff.1 meets).1
        cases (Row.value?_document id' doc).symm.trans same
        exact ⟨id, _, Row.assign_document id doc.typeName content (old.version + 1) json doc.state,
          .inl changes⟩
      · rw [if_neg meets]
        exact ⟨id', doc, rfl, known⟩
    | delete names id typeName old =>
      change row ∈ db.execute (.delete names.document _) names.document at hrow
      rw [Database.execute_delete] at hrow
      exact rows row (List.mem_filter.1 hrow).1
  · rw [e.execute_of_ne distinct used used' same] at hrow
    exact stored collection used' row hrow

/-- Commands on documents that may have changed, and commands on other tables, change nothing else,
however many are executed. -/
theorem throughout_runAll {S : Storage σ} (faithful : S.Faithful fun _ => True)
    (distinct : catalog.Distinct) (conn : Connection) {commands : List Command}
    (each : ∀ c ∈ commands, (∃ e check, c = Edit.documentCommand check e ∧ changed e.key ∧
      catalog.collections e.names ∧ e.names = settings.names e.names.collection) ∨
        c.isDocument = false ∧ ∀ t ∈ c.tables, catalog.Has t) {st : σ}
    (stored : docs.StoredBut settings catalog changed (S.tables st)) :
    Action.Throughout S.answer (fun st => docs.StoredBut settings catalog changed (S.tables st))
      (Command.runAll conn commands) st := by
  induction commands generalizing st with
  | nil => exact Action.throughout_pure stored
  | cons c cs ih =>
    obtain ⟨first, rest⟩ := List.forall_mem_cons.1 each
    have here : ∀ id k, docs.StoredBut settings catalog changed
        ((S.tables st).executeAll ((c.statements id).take k)) := by
      intro id k
      rcases first with ⟨e, check, rfl, changes, used, here⟩ | ⟨apart, has⟩
      · rw [Command.statements_of_isDocument (e.isDocument_documentCommand check)]
        cases k with
        | zero => exact stored
        | succ k =>
          rw [List.take_of_length_le (by simp)]
          exact stored.documentCommand distinct changes used here check
      · intro collection used row hrow
        rw [Database.executeAll_of_ne] at hrow
        · exact stored collection used row hrow
        · intro s hs
          obtain ⟨t, ht, table⟩ := Command.table?_of_mem_statements (List.mem_of_mem_take hs)
          rw [table, ne_eq, Option.some.injEq]
          refine distinct.name_ne (has t ht) (u := .documents (settings.names collection)) used ?_
          rintro rfl
          exact Command.not_mem_tables apart _ ht
    refine (Command.throughout_run faithful stored fun id _ => here id).bind fun _ st₁ ran =>
      ih rest ?_
    obtain ⟨id, _, tables⟩ := Command.tables_of_run faithful ran
    rw [tables, ← List.take_length (l := c.statements id)]
    exact here id _

end Documents.StoredBut

/-! ## Giving up -/

/-- A flush that fails leaves the session cancelled. -/
theorem Session.exists_of_flush_fails {answer : Answerer σ} {session left : Session}
    {s s' : σ} {e : Error} (h : Work.Comes answer flush session s (.error e) left s') :
    ∃ e' planned,
      Work.Comes answer flushPending session s (.error e') planned s' ∧
        left = { planned with cancelled := true } := by
  have run := Work.comes_get_bind_iff.1 h
  split at run
  · cases run
  · obtain ⟨e', planned, s₁, failed, handled⟩ := Work.cases_of_comes_tryCatch run
    cases handled
    exact ⟨_, planned, failed, rfl⟩

/-- How a session is given up: it is cancelled, or a flush fails, on its own or when changes are
saved. What a failed flush leaves of the documents that it was about is not said. -/
inductive Moment.GivesUp (S : Storage σ) (m : Moment σ) : (DocKey → Prop) → Session → σ → Prop
  | cancels : GivesUp S m (fun _ => False) { m.session with cancelled := true } m.st
  | fails {call : Call} {e : Error} {left : Session} {st : σ} :
      call = .flush ∨ call = .saveChanges →
      call.work.Comes S.answer m.session m.st (.error e) left st → left.cancelled = true →
        GivesUp S m (· ∈ m.session.pending.map Pending.key) left st

section GivesUp

variable {S : Storage σ} {settings : Settings} {catalog : Catalog} {committed : σ → Database}
  (hosts : S.Hosts settings catalog committed) {m : Moment σ}
  (holds : m.Holds S settings catalog committed) {changed : DocKey → Prop} {left : Session} {st : σ}

/-- What is left of a session that was given up. -/
structure Moment.Abandons (S : Storage σ) (settings : Settings) (catalog : Catalog)
    (committed : σ → Database) (m : Moment σ) (changed : DocKey → Prop) (left : Session)
    (st : σ) : Prop where
  recalls : left.Recalls settings catalog (S.tables m.st) m.session.tracked
  stored : m.current.StoredBut settings catalog changed (S.tables st)
  inside : left.inTransaction = true → m.settled.Stored settings catalog (committed st)

include hosts holds

/-- What a failed flush has written is about the documents that waited. -/
theorem Moment.Holds.storedBut_of_runAll {plan : FlushPlan} {planned : Session} {st₁ st₂ st₃ : σ}
    {commands : List Command} {conn : Connection} {dialect : Dialect} {result : Except Error Unit}
    (plans : Work.Yields S.answer (Session.planChanges ∅ m.session.pending) m.session m.st plan
      planned st₁)
    (finishes : Action.Yields S.answer (plan.arena.finish conn dialect) st₂ commands st₃)
    (before : m.current.StoredBut settings catalog (· ∈ m.session.pending.map Pending.key)
      (S.tables st₃))
    (runs : Program.run S.answer (Command.runAll conn commands).run st₃ = (result, st)) :
    m.current.StoredBut settings catalog (· ∈ m.session.pending.map Pending.key) (S.tables st) := by
  have same := holds.waits.same
  obtain ⟨planned, _⟩ := Session.of_planChanges hosts.keepsDocuments hosts.finds
    (same ▸ hosts.describes) holds.used (same ▸ holds.knows) (same ▸ holds.stored) plans
  have ofEdit :
      ∀ e ∈ m.session.pending.filterMap (fun change =>
        change.edit m.session.settings (m.session.expects m.current change)),
      e.key ∈ m.session.pending.map Pending.key ∧
        catalog.collections e.names ∧ e.names = settings.names e.names.collection := by
    intro e he
    obtain ⟨change, hchange, hedit⟩ := List.mem_filterMap.1 he
    obtain ⟨key, names⟩ := Pending.key_of_edit hedit
    refine ⟨List.mem_map.2 ⟨change, hchange, key.symm⟩, names ▸ holds.used change hchange, ?_⟩
    rw [names, same]
    rfl
  obtain ⟨_, ⟨emitted, same, apart⟩, has⟩ :=
    hosts.keepsDocuments.of_finish planned (fun e he => (ofEdit e he).2.1) finishes
  have throughout := before.throughout_runAll hosts.faithful hosts.distinct
      conn fun c (hc : c ∈ commands) => by
    cases document : c.isDocument with
    | false => exact .inr ⟨rfl, has c hc⟩
    | true =>
      refine .inl ?_
      rw [same, Command.mem_inOrder_iff, Edit.commands_of_planAll planned] at hc
      rcases List.mem_append.1 hc with hc | hc
      · obtain ⟨e, he, hc⟩ := List.mem_flatMap.1 hc
        rcases Edit.mem_commands_iff.1 hc with rfl | ⟨d, _, hc⟩
        · exact ⟨e, _, rfl, ofEdit e he⟩
        · obtain ⟨_, rfl | ⟨_, cells, rfl⟩⟩ := Edit.cases_of_mem_mapCommands hc <;> cases document
      · rw [(apart c hc).1] at document
        cases document
  have last := Program.Throughout.last throughout
  rw [runs] at last
  exact last

/-- A flush that fails once it has planned, in a transaction or with nothing to write. -/
theorem Moment.Holds.runPlan_fails {plan : FlushPlan} {planned begun : Session}
    {st₁ st₂ : σ} {e : Error}
    (plans : Work.Yields S.answer (Session.planChanges ∅ m.session.pending) m.session m.st plan
      planned st₁) (recalls : begun.Recalls settings catalog (S.tables m.st) m.session.tracked)
    (tables : S.tables st₂ = S.tables m.st)
    (inside : begun.inTransaction = true → m.settled.Stored settings catalog (committed st₂))
    (run : Work.Comes S.answer (m.session.runPlan plan) begun st₂ (.error e) left st) :
    m.Abandons S settings catalog committed (· ∈ m.session.pending.map Pending.key) left st := by
  have before := holds.stored.storedBut (· ∈ m.session.pending.map Pending.key)
  rcases Work.cases_of_comes_bind run with failed | ⟨commands, _, st₃, finished, run'⟩
  · obtain ⟨rfl, asked⟩ := Work.comes_ofAction_iff.1 failed
    obtain ⟨kept₃, tables₃⟩ := hosts.committed_of_finish asked
    exact ⟨recalls, by rw [tables₃, tables]; exact before,
      fun opened => by rw [kept₃]; exact inside opened⟩
  · obtain ⟨rfl, finishes⟩ := Work.yields_ofAction_iff.1 finished
    obtain ⟨kept₃, tables₃⟩ := hosts.committed_of_finish finishes
    rcases Work.cases_of_comes_bind run' with failed | ⟨_, _, _, _, impossible⟩
    · obtain ⟨rfl, runs⟩ := Work.comes_ofAction_iff.1 failed
      refine ⟨recalls, ?_, fun opened => ?_⟩
      · exact holds.storedBut_of_runAll hosts plans finishes
          (by rw [tables₃, tables]; exact before) runs
      · rw [hosts.committed_of_runAll runs, kept₃]
        exact inside opened
    · cases impossible

/-- A flush that fails, wherever it does. -/
theorem Moment.Holds.fails {e : Error}
    (h : Work.Comes S.answer Session.flushPending m.session m.st (.error e) left st) :
    m.Abandons S settings catalog committed (· ∈ m.session.pending.map Pending.key) left st := by
  have before := holds.stored.storedBut (· ∈ m.session.pending.map Pending.key)
  rw [Session.flushPending_eq] at h
  rcases Work.cases_of_comes_bind (Work.comes_get_bind_iff.1 h) with
    failed | ⟨plan, planned, st₁, plans, run⟩
  · obtain ⟨recalls, inside, tables, kept⟩ := holds.planning hosts failed
    refine ⟨recalls, tables ▸ before, fun opened => ?_⟩
    rw [kept]
    exact holds.inside (inside ▸ opened)
  · obtain ⟨recalls, flag, tables, kept⟩ := holds.planning hosts plans
    split at run
    · exact holds.runPlan_fails hosts plans recalls tables
        (holds.inside_of_begin hosts tables kept flag (.inl ⟨rfl, rfl⟩)) run
    · rcases Work.cases_of_comes_bind run with failed | ⟨_, begun, st₂, begins, run'⟩
      · have asks := Work.comes_get_bind_iff.1 failed
        split at asks
        · cases asks
        · next out =>
          rcases Work.cases_of_comes_bind asks with refused | ⟨_, _, _, _, impossible⟩
          · obtain ⟨rfl, asked⟩ := Work.comes_ofAction_iff.1 refused
            have same := S.tables_of_quiet hosts.faithful (r := .begin left.connection) st₁ trivial
            rw [show S.answer (.begin left.connection) st₁ = (.error e, st) from asked] at same
            exact ⟨recalls, by rw [show S.tables st = _ from same, tables]; exact before,
              fun opened => absurd opened out⟩
          · cases impossible
      · have inside := holds.inside_of_begin hosts tables kept flag (.inr begins)
        obtain ⟨same, _, shape⟩ := Session.of_begin hosts.faithful begins
        exact holds.runPlan_fails hosts plans (recalls.congr (by rw [shape]; rfl))
          ((funext fun t => same t trivial).trans tables) inside run'

theorem Moment.Holds.flush_fails {e : Error}
    (h : Work.Comes S.answer Session.flush m.session m.st (.error e) left st) :
    m.Abandons S settings catalog committed (· ∈ m.session.pending.map Pending.key) left st := by
  obtain ⟨e', planned, failed, rfl⟩ := Session.exists_of_flush_fails h
  have abandons := holds.fails hosts failed
  exact ⟨abandons.recalls.congr rfl, abandons.stored, abandons.inside⟩

/-- Saving changes leaves a session cancelled only where its flush fails; a
commit that fails does not. -/
theorem Moment.Holds.flush_of_saveChanges_fails {e : Error}
    (h : Work.Comes S.answer Session.saveChanges m.session m.st (.error e) left st)
    (cancelled : left.cancelled = true) :
    Work.Comes S.answer Session.flush m.session m.st (.error e) left st := by
  rcases Work.cases_of_comes_bind h with failed | ⟨_, session₁, st₁, flushed, concluded⟩
  · exact failed
  · have active : session₁.cancelled = false := (holds.flush hosts flushed).active
    have run := Work.comes_get_bind_iff.1 concluded
    rw [if_neg (by simp [active])] at run
    split at run
    · rcases Work.cases_of_comes_bind run with impossible | ⟨_, session₂, st₂, marks, commits⟩
      · cases impossible
      · obtain ⟨rfl, _⟩ := Work.yields_modify_iff.1 marks
        obtain ⟨rfl, _⟩ := Work.comes_ofAction_iff.1 commits
        rw [show session₁.cancelled = true from cancelled] at active
        cases active
    · cases run

/-- Whichever way a session is given up. -/
theorem Moment.Holds.givesUp (h : m.GivesUp S changed left st) :
    m.Abandons S settings catalog committed changed left st ∧ left.cancelled = true := by
  cases h with
  | cancels =>
    exact ⟨⟨(Session.Recalls.refl holds.waits.same).congr rfl, holds.stored.storedBut _,
      holds.inside⟩, rfl⟩
  | fails calls h cancelled =>
    rcases calls with rfl | rfl
    · exact ⟨holds.flush_fails hosts h, cancelled⟩
    · exact ⟨holds.flush_fails hosts (holds.flush_of_saveChanges_fails hosts h cancelled),
        cancelled⟩

end GivesUp

/-! ## Calls on a session that was given up -/

/-- Calls on a session that end no transaction of it. -/
inductive Session.Idles (S : Storage σ) (session : Session) (st : σ) : Session → σ → Prop
  | refl : Idles S session st session st
  | call {session₁ session₂ : Session} {st₁ st₂ : σ} {call : Call} {result : Except Error Unit} :
      Idles S session st session₁ st₁ →
      call ≠ .close → (session₁.inTransaction = true → call ≠ .saveChanges) →
        call.work.Comes S.answer session₁ st₁ result session₂ st₂ → Idles S session st session₂ st₂

section Idles

variable {S : Storage σ} {settings : Settings} {catalog : Catalog} {committed : σ → Database}
  (hosts : S.Hosts settings catalog committed) {session session' : Session} {st st' : σ}

/-- On a cancelled session nothing is flushed. -/
theorem Session.comes_flush_of_cancelled {answer : Answerer σ}
    (cancelled : session.cancelled = true) {result : Except Error Unit}
    (h : Work.Comes answer flush session st result session' st') :
    result = .ok () ∧ session' = session ∧ st' = st := by
  have run := Work.comes_get_bind_iff.1 h
  rw [cancelled] at run
  cases run
  exact ⟨rfl, rfl, rfl⟩

theorem Session.yields_saveChanges_of_cancelled {answer : Answerer σ}
    (cancelled : session.cancelled = true) (inside : session.inTransaction = true)
    (h : Work.Yields answer saveChanges session st () session' st') :
    session' = { session with inTransaction := false } ∧
    answer (.rollback session.connection) st = (.ok (), st') := by
  obtain ⟨_, _, _, flushed, concluded⟩ := Work.yields_bind_iff.1 h
  obtain ⟨_, rfl, rfl⟩ := comes_flush_of_cancelled cancelled flushed
  have run := Work.yields_get_bind_iff.1 concluded
  rw [if_pos cancelled] at run
  have run' := Work.yields_get_bind_iff.1 run
  rw [if_pos inside] at run'
  exact Work.yields_ofAction_iff.1 (Work.yields_modify_bind_iff.1 run')

/-- Without a transaction there is nothing to roll back. -/
theorem Session.comes_saveChanges_of_cancelled {answer : Answerer σ}
    (cancelled : session.cancelled = true) (out : session.inTransaction = false)
    {result : Except Error Unit}
    (h : Work.Comes answer saveChanges session st result session' st') :
    session' = session ∧ st' = st := by
  have flushed : Program.run answer (flush.run.run session) st = ((.ok (), session), st) := by
    rcases hr : Program.run answer (flush.run.run session) st with ⟨⟨_, _⟩, _⟩
    obtain ⟨rfl, rfl, rfl⟩ := comes_flush_of_cancelled cancelled hr
    rfl
  rw [saveChanges_eq, Work.Comes, Work.run_bind, flushed] at h
  have run := Work.comes_get_bind_iff.1 h
  rw [if_pos cancelled] at run
  have run' := Work.comes_get_bind_iff.1 run
  rw [out] at run'
  cases run'
  exact ⟨rfl, rfl⟩

include hosts

theorem Session.Idles.recalls (idles : session.Idles S st session' st')
    (same : session.settings = settings) (cancelled : session.cancelled = true) :
    session'.Recalls settings catalog (S.tables st) session.tracked ∧
    session'.flags = session.flags ∧ S.tables st' = S.tables st ∧ committed st' = committed st := by
  induction idles with
  | refl => exact ⟨.refl same, rfl, rfl, rfl⟩
  | @call session₁ session₂ st₁ st₂ call result _ unclosed unsaved comes ih =>
    obtain ⟨recalls, flags, tables, kept⟩ := ih
    have cancelled₁ : session₁.cancelled = true := (congrArg Prod.snd flags).trans cancelled
    by_cases plain : call.Plain
    · obtain ⟨recalls', flags', tables', kept'⟩ := hosts.plain plain recalls.same comes
      rw [tables] at recalls'
      exact ⟨recalls.trans recalls', flags'.trans flags, tables'.trans tables, kept'.trans kept⟩
    · cases call with
      | flush =>
        obtain ⟨_, rfl, rfl⟩ := comes_flush_of_cancelled cancelled₁ comes
        exact ⟨recalls, flags, tables, kept⟩
      | cancel =>
        cases comes
        have inTransaction : session₁.inTransaction = session.inTransaction :=
          congrArg Prod.fst flags
        exact ⟨recalls.congr rfl, Prod.ext inTransaction cancelled.symm, tables, kept⟩
      | saveChanges =>
        have out : session₁.inTransaction = false := by
          cases inside : session₁.inTransaction with
          | false => rfl
          | true => exact absurd rfl (unsaved inside)
        obtain ⟨rfl, rfl⟩ := comes_saveChanges_of_cancelled cancelled₁ out comes
        exact ⟨recalls, flags, tables, kept⟩
      | close => exact absurd rfl unclosed
      | save | delete | read | join => exact absurd ⟨by simp, by simp, by simp, by simp⟩ plain

end Idles

/-! ## Loads -/

/-- What a load answers where just these documents are stored. -/
def Documents.load (docs : Documents) (serializer : ContentSerializer) (entity : EntityType)
    (key : DocKey) : Except Error (Option Json) :=
  match docs key with
  | none => .ok none
  | some doc =>
    if doc.typeName = entity.name then some <$>
      (serializer.deserialize doc.state.content >>= entity.read) else .ok none

section Load

variable {S : Storage σ} {settings : Settings} {catalog : Catalog} {committed : σ → Database}
  (hosts : S.Hosts settings catalog committed) {docs : Documents} {session : Session} {st st' : σ}
  {key : DocKey} (same : session.settings = settings)
  (stored : docs.Stored settings catalog (S.tables st))
  (used : catalog.collections (settings.names key.collection))
  (unchanged : session.pendingChange key = none) {rows : List Row}
  (answered : S.answer (.query session.connection (session.documentStatement key)) st =
    (.ok rows, st'))
include hosts same stored used unchanged answered

/-- A document that is not tracked is loaded as it is stored. -/
theorem Session.load_of_documents (untracked : session.tracked.get? key = none)
    (entity : EntityType) :
    session.load S.answer st entity key = docs.load settings.serializer entity key := by
  subst same
  have found := stored.found_eq used (hosts.finds ⟨_, used, rfl⟩ answered)
  unfold Documents.load
  cases hdoc : docs key with
  | none =>
    rw [show docs ⟨key.collection, key.id⟩ = none from hdoc] at found
    rw [found] at answered
    exact load_of_missing unchanged untracked answered
  | some doc =>
    rw [show docs ⟨key.collection, key.id⟩ = some doc from hdoc] at found
    rw [found] at answered
    exact load_of_stored unchanged untracked answered (Document.ofRow_document key.id doc)

/-- A document that was tracked from what is stored is loaded as it is stored,
by readers of its type. -/
theorem Session.Recalls.load {before : Assoc DocKey Tracked}
    (recalls : session.Recalls settings catalog (S.tables st) before)
    (untracked : before.get? key = none) {entity : EntityType}
    (typed : ∀ doc, docs key = some doc → doc.typeName = entity.name) :
    session.load S.answer st entity key = docs.load settings.serializer entity key := by
  cases tracked : session.tracked.get? key with
  | none => exact load_of_documents hosts same stored used unchanged answered tracked entity
  | some t =>
    rw [load_of_tracked unchanged tracked, Documents.load]
    rcases recalls.cases_of_tracked (stored.storedBut fun _ => False) tracked with
      known | ⟨_, impossible | ⟨doc, hdoc, content, _, read⟩⟩
    · rw [untracked] at known
      cases known
    · exact impossible.elim
    · rw [hdoc]
      dsimp only
      rw [if_pos (typed doc hdoc), content, read]
      rfl

end Load

/-- However a session has gone on since it was opened: if it is given up and rolls back,
storage holds what was settled, but loads of what the session tracks answer what it flushed
last, and only other loads what storage holds. What is not tracked no flush has changed, but
for documents that were deleted. -/
theorem Moment.Leads.load_of_rollback {S : Storage σ} {settings : Settings} {catalog : Catalog}
    {committed : σ → Database} (hosts : S.Hosts settings catalog committed) {conn : Connection}
    {docs : Documents} {st₀ : σ} (stored : docs.Stored settings catalog (S.tables st₀))
    (read : ∀ key doc, docs key = some doc →
      ∀ json, settings.serializer.deserialize doc.state.content = .ok json →
      json = doc.state.json) {m : Moment σ}
    (leads : (Moment.opening settings conn docs st₀).Leads S settings catalog m)
    {changed : DocKey → Prop} {left waiting rolled last : Session} {st₁ st₂ st₃ st st' : σ}
    (givesUp : m.GivesUp S changed left st₁) (idles : left.Idles S st₁ waiting st₂)
    (inside : waiting.inTransaction = true)
    (rolls : Work.Yields S.answer Session.saveChanges waiting st₂ () rolled st₃)
    (later : rolled.Idles S st₃ last st) {key : DocKey}
    (used : catalog.collections (settings.names key.collection))
    (unchanged : last.pendingChange key = none) {rows : List Row}
    (answered : S.answer (.query last.connection (last.documentStatement key)) st = (.ok rows, st'))
    (entity : EntityType) (typed : ∀ doc, m.settled key = some doc → doc.typeName = entity.name) :
    m.settled.Stored settings catalog (S.tables st) ∧
      match rolled.tracked.get? key with
      | some t => last.load S.answer st entity key = some <$> entity.read t.json ∧
          ((left.tracked.get? key = none → ¬changed key) →
            (m.current key).map StoredDocument.state = some t)
      | none => last.load S.answer st entity key = m.settled.load settings.serializer entity key ∧
          (m.current key = m.settled key ∨ m.current key = none) := by
  have holds := (Moment.holds_opening stored read).leads hosts leads
  obtain ⟨abandons, cancelled⟩ := holds.givesUp hosts givesUp
  obtain ⟨recalls₂, flags₂, _, kept₂⟩ := idles.recalls hosts abandons.recalls.same cancelled
  have cancelled₂ : waiting.cancelled = true := (congrArg Prod.snd flags₂).trans cancelled
  obtain ⟨rfl, rolled⟩ := Session.yields_saveChanges_of_cancelled cancelled₂ inside rolls
  obtain ⟨recalls, _, tables, _⟩ := later.recalls hosts recalls₂.same cancelled₂
  have settled : m.settled.Stored settings catalog (S.tables st) := by
    rw [tables, hosts.rollsBack rolled, kept₂]
    exact abandons.inside ((congrArg Prod.fst flags₂).symm.trans inside)
  refine ⟨settled, ?_⟩
  cases tracked : waiting.tracked.get? key with
  | some t =>
    refine ⟨Session.load_of_tracked unchanged (recalls.kept key t tracked), fun certain => ?_⟩
    exact recalls₂.agrees abandons.stored (abandons.recalls.knows holds.stored holds.knows)
      tracked certain
  | none =>
    refine ⟨?_, holds.untracked key (abandons.recalls.untracked (recalls₂.untracked tracked))⟩
    rw [← tables] at recalls
    exact recalls.load hosts recalls.same settled used unchanged answered tracked typed

namespace Announcing

open Counting (entity dated)

/-- An article is saved. -/
def noted : (Except Error Unit × Session) × Shared Unit :=
  Program.run host.answer ((Call.save entity "" (dated 0 1)).work.run.run ⟨Counting.settings, 0, ∅,
      [], [], false, false⟩)
    ⟨fun _ => [], none⟩

/-- It is flushed. -/
def drafted : (Except Error Unit × Session) × Shared Unit :=
  Program.run host.answer (Session.flush.run.run noted.1.2) noted.2

/-- The session is cancelled, and rolls back. -/
def withdrawn : (Except Error Unit × Session) × Shared Unit :=
  Program.run host.answer (Session.saveChanges.run.run { drafted.1.2 with cancelled := true })
    drafted.2

theorem nothing_stored : Documents.Stored (fun _ => none) Counting.settings catalog fun _ => [] :=
  ⟨fun _ _ _ h => (by cases h), fun _ _ _ => rfl⟩

/-- The article is loaded still, and storage has none. -/
theorem load_withdrawn :
    withdrawn.1.2.load host.answer withdrawn.2 entity ⟨"", 1⟩ = .ok (some (dated 1 1)) ∧
      Documents.load (fun _ => none) Counting.settings.serializer entity ⟨"", 1⟩ = .ok none ∧
        Documents.Stored (fun _ => none) Counting.settings catalog (host.tables withdrawn.2) := by
  have saves : (Call.save entity "" (dated 0 1)).work.Comes host.answer
      ⟨Counting.settings, 0, ∅, [], [], false, false⟩
      ⟨fun _ => [], none⟩ noted.1.1 noted.1.2 noted.2 := rfl
  have flushes : Work.Yields host.answer Session.flush noted.1.2 noted.2 () drafted.1.2 drafted.2 :=
    Work.yields_unit_of_isSome rfl (by decide +kernel)
  have rolls : Work.Yields host.answer Session.saveChanges { drafted.1.2 with cancelled := true }
      drafted.2 () withdrawn.1.2 withdrawn.2 :=
    Work.yields_unit_of_isSome rfl (by decide +kernel)
  have uses : (Call.save entity "" (dated 0 1)).Proposes Counting.settings
      (Pending.InUse Counting.settings catalog) :=
    fun _ _ _ => rfl
  have leads : (Moment.opening Counting.settings 0 (fun _ => none) ⟨fun _ => [], none⟩).Leads host
      Counting.settings catalog _ :=
    .next (.next .refl (.inl ⟨by simp [Call.Plain], uses, saves⟩)) (.inr (.flushes flushes))
  have unchanged : withdrawn.1.2.pendingChange ⟨"", 1⟩ = none := by rfl
  have tracked : withdrawn.1.2.tracked.get? ⟨"", 1⟩ = some ⟨(dated 1 1).text, dated 1 1, 1⟩ := by
    rfl
  have loads := leads.load_of_rollback host_hosts nothing_stored (fun _ _ h => by cases h) .cancels
    .refl (by decide +kernel) rolls .refl (by rfl) unchanged rfl entity (fun _ h => by cases h)
  rw [tracked] at loads
  exact ⟨loads.2.1.trans rfl, rfl, loads.1⟩

end Announcing

end DocStore

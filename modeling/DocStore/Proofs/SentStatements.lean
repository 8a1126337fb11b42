import DocStore.Proofs.CachedStatements
import DocStore.Proofs.FlushWrites
import DocStore.Proofs.References
import DocStore.Proofs.StatementTables

/-!
# Statements that are sent

What a session sends, operation by operation, whatever it is answered: `Abides`
says of every statement that it is of a kind. A query names tables that it is
about. A change of a flush, and a look-up before it, names one table of the
collection of a document that waits.
-/

set_option autoImplicit false

namespace DocStore

variable {α β : Type}

/-! ## What is sent -/

/-- The statement that a request carries. -/
def Request.statement? : Request → Option Statement
  | .execute _ s | .scalar _ s | .query _ s => some s
  | _ => none

/-- The request sends no statement but one of a kind. -/
def Request.Carries (P : Statement → Prop) (r : Request) : Prop := ∀ s, r.statement? = some s → P s

theorem Request.carries_of_none {P : Statement → Prop} {r : Request} (none : r.statement? = none) :
    r.Carries P :=
  fun s h => by
    rw [none] at h
    cases h

theorem Request.carries_of_some {P : Statement → Prop} {r : Request} {s : Statement}
    (some : r.statement? = some s) (h : P s) : r.Carries P := fun s' h' => by
  rw [some] at h'
  cases h'
  exact h

/-- SQL that is served for a compiled query was compiled in the collection for the same condition,
before or after terms were added to its order. -/
def Event.Serves (settings : Settings) (e : Event) : Prop :=
  ∀ q collection args sql, e = ⟨.compiledSql q collection args, .ok sql⟩ →
    ∃ q' : CompiledQuery, ∃ args',
    q'.index = q.index ∧ q'.condition = q.condition ∧ q'.order ⊆ q.order ∧
      q'.compile settings.dialect (settings.names collection) args' = .ok sql

section Serving

theorem Store.settings_compiledSql (store : Store) (q : CompiledQuery) (collection : String)
    (args : Arguments) : (store.compiledSql q collection args).2.settings = store.settings := by
  unfold compiledSql
  split
  · rfl
  · split
    · rfl
    · split <;> rfl

theorem Workshop.settings_after (w : Workshop) (moves : List Move) :
    (w.after moves).store.settings = w.store.settings := by
  induction moves generalizing w with
  | nil => rfl
  | cons move moves ih =>
    refine (ih (w.next move)).trans ?_
    cases move with
    | define index condition =>
      rw [next]
      split <;> rfl
    | refine i step => rfl
    | run i collection args =>
      rw [next]
      split
      · exact Store.settings_compiledSql _ _ _ _
      · rfl

/-- However its queries are built, refined and run, a store serves what the query reads. -/
theorem Workshop.serves {first : UInt32} {settings : Settings} {providers : List Provider}
    {moves : List Move}
    (few : ((opening first settings providers).after moves).queries.length ≤ UInt32.size) {i : Nat}
    {q : CompiledQuery} (hq : ((opening first settings providers).after moves).queries[i]? = some q)
    (collection : String) (args : Arguments) :
    Event.Serves settings ⟨.compiledSql q collection args,
      (((opening first settings providers).after moves).store.compiledSql q collection
        args).1⟩ := by
  generalize served :
    (((opening first settings providers).after moves).store.compiledSql q collection args).1 = o
  rintro _ _ _ sql ⟨⟩
  have same (moves : List Move) : ((opening first settings providers).after moves).store.settings =
      settings := settings_after _ _
  unfold Store.compiledSql at served
  split at served
  · cases served
  · next d tells =>
    split at served
    · next kept =>
      cases served
      obtain ⟨before, args₀, later, q₀, rfl, compiles, rfl⟩ :=
        exists_refined_of_cached few hq tells kept
      have compiled := compiles.compiled
      rw [same] at compiled
      rw [Refinement.foldl_apply]
      exact ⟨q₀, args₀, rfl, rfl, List.subset_append_left _ _, compiled⟩
    · split at served
      · cases served
      · next compiled =>
        cases served
        rw [same] at compiled
        exact ⟨q, args, rfl, rfl, List.Subset.refl _, compiled⟩

end Serving

namespace Program

/-- As long as it is answered as it may be, every statement that a program sends is of a kind, and
so is what it ends with. -/
def Abides (E : Event → Prop) (P : Statement → Prop) (Q : α → Prop) : Program α → Prop
  | .done a => Q a
  | .ask r next => r.Carries P ∧ ∀ o, E ⟨r, o⟩ → Abides E P Q (next o)

variable {E : Event → Prop} {P : Statement → Prop} {Q : α → Prop} {R : β → Prop}

theorem Abides.bind {p : Program α} {f : α → Program β} (hp : Abides E P Q p)
    (hf : ∀ a, Q a → Abides E P R (f a)) : Abides E P R (p >>= f) := by
  induction p with
  | done a => exact hf a hp
  | ask r next ih => exact ⟨hp.1, fun o ho => ih o (hp.2 o ho)⟩

theorem Abides.of_emits {p : Program α} (hp : Abides E P Q p) {events : List Event} {a : α}
    (h : Emits p events a) (all : ∀ e ∈ events, E e) :
    (∀ e ∈ events, e.request.Carries P) ∧ Q a := by
  induction h with
  | done a => exact ⟨fun _ h => (by cases h), hp⟩
  | ask h ih =>
    obtain ⟨first, rest⟩ := List.forall_mem_cons.1 all
    obtain ⟨carry, last⟩ := ih (hp.2 _ first) rest
    exact ⟨List.forall_mem_cons.2 ⟨hp.1, carry⟩, last⟩

theorem Ensures.abides {p : Program α} (hp : Ensures (Request.Carries P) Q p) : Abides E P Q p := by
  induction p with
  | done a => exact hp
  | ask r next ih => exact ⟨hp.1, fun o _ => ih o (hp.2 o)⟩

end Program

namespace Program

variable {P P' : Request → Prop} {Q : α → Prop}

theorem Asks.mono {p : Program α} (h : p.Asks P) (weaker : ∀ r, P r → P' r) : p.Asks P' := by
  induction p with
  | done a => trivial
  | ask r next ih => exact ⟨weaker r h.1, fun o => ih o (h.2 o)⟩

/-- What is asked and what is answered may be told apart. -/
theorem Asks.and_ensures {p : Program α} (h : p.Asks P) (h' : p.Ensures P' Q) : p.Ensures P Q := by
  induction p with
  | done a => exact h'
  | ask r next ih => exact ⟨h.1, fun o => ih o (h.2 o) (h'.2 o)⟩

end Program

theorem Action.asks_carries {P : Statement → Prop} {r : Request} {s : Statement}
    (some : r.statement? = some s) (h : P s) :
    (Program.request r).Asks (Request.Carries P) :=
  Program.asks_request (Request.carries_of_some some h)

theorem Action.asks_silent {P : Statement → Prop} {r : Request} (none : r.statement? = none) :
    (Program.request r).Asks (Request.Carries P) :=
  Program.asks_request (Request.carries_of_none none)

namespace Work

/-- On a session of a store every statement that an operation sends is of a kind,
and so is its answer. -/
def AbidesAt (settings : Settings) (P : Statement → Prop) (Q : α → Prop) (w : Work α)
    (session : Session) : Prop :=
  (w.run.run session).Abides (Event.Serves settings) P fun r =>
    r.2.settings = settings ∧ ∀ x, r.1 = .ok x → Q x

/-- The same on every session of the store. -/
def Abides (settings : Settings) (P : Statement → Prop) (Q : α → Prop) (w : Work α) : Prop :=
  ∀ session, session.settings = settings → w.AbidesAt settings P Q session

variable {settings : Settings} {P : Statement → Prop} {Q : α → Prop} {R : β → Prop}
  {session : Session}

theorem AbidesAt.bind {w : Work α} {f : α → Work β} (hw : AbidesAt settings P Q w session)
    (hf : ∀ x, Q x → Abides settings P R (f x)) : AbidesAt settings P R (w >>= f) session := by
  unfold AbidesAt
  rw [ExceptT.run_bind, StateT.run_bind]
  refine Program.Abides.bind hw fun r => ?_
  rintro ⟨kept, holds⟩
  obtain ⟨e | x, middle⟩ := r
  · exact ⟨kept, fun _ equal => by cases equal⟩
  · exact hf x (holds x rfl) middle kept

theorem AbidesAt.tryCatch {w : Work α} {handle : Error → Work α}
    (hw : AbidesAt settings P Q w session) (failed : ∀ e, Abides settings P Q (handle e)) :
    AbidesAt settings P Q (MonadExcept.tryCatch w handle) session := by
  refine Program.Abides.bind hw fun r => ?_
  rintro ⟨kept, holds⟩
  obtain ⟨e | x, middle⟩ := r
  · exact failed e middle kept
  · exact ⟨kept, holds⟩

theorem abidesAt_get_bind_iff {f : Session → Work β} :
    AbidesAt settings P R (get >>= f) session ↔ AbidesAt settings P R (f session) session := Iff.rfl

theorem abides_pure {x : α} (h : Q x) : Abides settings P Q (pure x : Work α) := by
  refine fun session same => ⟨same, fun y equal => ?_⟩
  cases equal
  exact h

theorem abides_throw (e : Error) : Abides settings P Q (throw e : Work α) :=
  fun _ same => ⟨same, fun _ equal => by cases equal⟩

theorem abides_modify {f : Session → Session}
    (keeps : ∀ session, (f session).settings = session.settings) :
    Abides settings P (fun _ => True) (modify f : Work Unit) :=
  fun session same => ⟨(keeps session).trans same, fun _ _ => trivial⟩

theorem abides_get_bind {f : Session → Work β}
    (h : ∀ session, session.settings = settings → Abides settings P R (f session)) :
    Abides settings P R (get >>= f) := fun session same => h session same session same

theorem abides_ofAction {a : Action α} (h : a.Ensures (Request.Carries P) Q) :
    Abides settings P Q (ofAction a) := fun _ same =>
  (Program.Ensures.abides h).bind fun _ hq => ⟨same, hq⟩

theorem abides_ofExcept {e : Except Error α} (h : ∀ x, e = .ok x → Q x) :
    Abides settings P Q (ofExcept e) :=
  abides_ofAction (Action.ensures_ofExcept h)

theorem Abides.bind {w : Work α} {f : α → Work β} (hw : Abides settings P Q w)
    (hf : ∀ x, Q x → Abides settings P R (f x)) :
    Abides settings P R (w >>= f) := fun session same => AbidesAt.bind (hw session same) hf

theorem abides_ofAction_bind {a : Action α} {f : α → Work β} (ha : a.Asks (Request.Carries P))
    (hf : ∀ x, Abides settings P R (f x)) : Abides settings P R (ofAction a >>= f) :=
  (abides_ofAction ha.ensures).bind fun x _ => hf x

theorem abides_ofExcept_bind {e : Except Error α} {f : α → Work β}
    (h : ∀ x, e = .ok x → Abides settings P R (f x)) :
    Abides settings P R (ofExcept e >>= f) := (abides_ofExcept h).bind fun _ hx => hx

/-- Work whose failure is an answer. -/
theorem Abides.lift {w : Work α} (hw : Abides settings P Q w) :
    Abides settings P (fun result => ∀ x, result = .ok x → Q x)
      (ExceptT.lift w.run : Work (Except Error α)) := by
  refine fun session same => Program.Abides.bind (hw session same) fun r h =>
    ⟨h.1, fun result equal => ?_⟩
  cases equal
  exact h.2

theorem Ensures.abides {w : Work α} (hw : Ensures (Request.Carries P) Session.settings Q w) :
    Abides settings P Q w :=
  fun session same => Program.Ensures.abides ((hw session).mono fun _ h => ⟨h.1.trans same, h.2⟩)

theorem abides_query {s : Statement} (h : P s) : Abides settings P (fun _ => True) (query s) :=
  abides_get_bind fun _ _ => abides_ofAction (Action.Asks.ensures (Action.asks_carries rfl h))

end Work

namespace Session

theorem untracked_settings : Untracked settings := fun _ _ => rfl

variable {settings : Settings} {P : Statement → Prop}

/-! ## Identities -/

section Identities

variable {conn : Connection} {collection : String}
  (highest : ∀ ps, P (.query (.maxId (settings.names collection).document) ps))
include highest

theorem asks_seedFromStorage :
    (Action.seedFromStorage settings conn collection).Asks (Request.Carries P) :=
  Action.Asks.bind (Action.asks_carries rfl (highest ∅)) fun _ => Action.asks_silent rfl

theorem asks_seeding : (Action.ensureSeeded settings conn collection).Asks (Request.Carries P) := by
  refine Action.Asks.bind (Action.asks_silent rfl) fun seeded => ?_
  split
  · exact Action.asks_pure ()
  · exact asks_seedFromStorage highest

theorem abides_identify (entity : EntityType) (content : Json) :
    (identify entity collection content).Abides settings P fun _ => True := by
  refine Work.abides_get_bind fun session same => ?_
  subst same
  dsimp only
  split
  · refine Work.abides_ofAction_bind ((asks_seeding highest).bind fun _ => Action.asks_silent rfl)
      fun id => ?_
    exact Work.Abides.bind (Work.abides_modify fun _ => rfl) fun _ _ => Work.abides_pure trivial
  · exact Work.abides_ofAction_bind ((asks_seeding highest).bind fun _ => Action.asks_silent rfl)
      fun _ => Work.abides_pure trivial

theorem abides_save (entity : EntityType) (content : Json) :
    (save entity collection content).Abides settings P fun _ => True := by
  refine (abides_identify highest entity content).bind fun json _ =>
    Work.abides_get_bind fun session _ => ?_
  refine Work.abides_ofExcept_bind fun text _ => ?_
  exact Work.Abides.bind (Work.abides_modify fun _ => rfl) fun _ _ => Work.abides_pure trivial

end Identities

theorem abides_delete (entity : EntityType) (collection : String) (content : Json) :
    (delete entity collection content).Abides settings P fun _ => True := by
  refine Work.Abides.bind (Work.abides_modify fun _ => rfl) fun _ _ =>
    Work.abides_get_bind fun session _ => ?_
  split
  · exact Work.abides_modify fun _ => rfl
  · exact Work.abides_modify fun _ => rfl

theorem abides_lastStored {key : DocKey}
    (loads : ∀ ps, P (.query (.documentById (settings.names key.collection).document) ps)) :
    (lastStored key).Abides settings P fun _ => True := by
  refine Work.abides_get_bind fun session same => ?_
  subst same
  split
  · exact Work.abides_pure trivial
  · refine (Work.abides_query (loads _)).bind fun rows _ => ?_
    split
    · exact Work.abides_pure trivial
    · refine Work.abides_ofExcept_bind fun doc _ => ?_
      refine (Work.Ensures.abides (ensures_track untracked_settings _ doc)).bind fun _ _ => ?_
      exact Work.abides_get_bind fun _ _ => Work.abides_pure trivial

end Session

/-! ## Flushing -/

/-- The look-up of an aggregate row reads the table of its index. -/
theorem Buffer.over_lookup {b : Buffer} {dialect : Dialect} {key : Value} {s : Statement}
    (h : b.lookup dialect key = .ok s) : s.Over b.names [.rows b.descriptor.index.name] := by
  have found : b.names.Named [.rows b.descriptor.index.name]
      (b.names.index b.descriptor.index.name) :=
    b.names.named_of_mem (List.mem_singleton_self _)
  unfold lookup at h
  split at h
  · cases h
  · obtain ⟨filter, compiled, same⟩ := bind_eq_ok_iff.1 h
    cases same
    unfold compileCondition at compiled
    dsimp only at compiled
    split at compiled
    · next sql c ran =>
      cases compiled
      have reads : sql.ReadsOnly (b.names.Named [.rows b.descriptor.index.name]) :=
        Compile.makes_bind (fun _ =>
          Compile.makes_condition _ (allows_of_mem fun _ h => by cases h)) ran
      refine List.forall_mem_cons.2 ⟨found, List.forall_mem_append.2 ⟨reads, fun _ h => by cases h⟩⟩
    · cases compiled

/-- The tables of a command are those of its collection. -/
theorem Command.names_of_mem_tables {c : Command} {t : Table} (h : t ∈ c.tables) :
    t.names = c.names := by
  cases c with
  | createDocument | updateDocument | deleteDocument | createMapRow | deleteMapRows =>
    obtain rfl := List.mem_singleton.1 h
    rfl
  | createReduceRow | updateReduceRow | deleteReduceRow =>
    rcases List.mem_pair.1 h with rfl | rfl <;> rfl

/-- All that a flush has collected is about some collections. -/
structure Arena.Among (used : TableNames → Prop) (arena : Arena) : Prop where
  commands : ∀ c ∈ arena.commands, used c.names
  buffers : ∀ b ∈ arena.buffers, used b.names

namespace Arena

variable {used : TableNames → Prop} {arena arena' : Arena}

theorem among_empty : Among used ∅ := ⟨fun _ h => (by cases h), fun _ h => (by cases h)⟩

theorem Among.push (among : arena.Among used) {c : Command} (hc : used c.names) :
    (arena.push c).Among used :=
  ⟨List.forall_mem_append.2 ⟨among.commands, List.forall_mem_singleton.2 hc⟩, among.buffers⟩

variable {names : TableNames} (here : used names) {d : Descriptor} {document : Int64}
  {rows : List Json}
include here

theorem Among.collect (among : arena.Among used) {change : Change}
    (h : arena.collect names d document change rows = .ok arena') : arena'.Among used := by
  rw [collect_eq_ok h]
  refine ⟨among.commands, fun b hb => ?_⟩
  rcases mem_appendTo hb with ⟨same, _⟩ | ⟨b', hb', same, _⟩
  · exact same ▸ here
  · exact same ▸ among.buffers b' hb'

theorem Among.createMapRows (among : arena.Among used)
    (h : arena.createMapRows names d document rows = .ok arena') : arena'.Among used := by
  rw [createMapRows_eq_ok h]
  exact ⟨List.forall_mem_append.2 ⟨among.commands, List.forall_mem_map.2 fun _ _ => here⟩,
    among.buffers⟩

omit here

/-- The index work of an edit is about its collection. -/
theorem Among.work (among : arena.Among used) {e : Edit} (here : used e.names)
    (h : e.work arena d = .ok arena') : arena'.Among used := by
  cases e with
  | create names id entity json content =>
    obtain ⟨rows, _, h⟩ := bind_eq_ok_iff.1 h
    cases kind : d.kind with
    | map =>
      rw [kind] at h
      exact among.createMapRows here h
    | reduce =>
      rw [kind] at h
      exact among.collect here h
  | update names id entity json content old =>
    simp only [Edit.work, updated] at h
    cases kind : d.kind with
    | map =>
      rw [kind] at h
      obtain ⟨rows, _, h⟩ := bind_eq_ok_iff.1 h
      have pushed : (arena.push (.deleteMapRows names d.index.name id)).Among used :=
        among.push here
      exact pushed.createMapRows here h
    | reduce =>
      rw [kind] at h
      obtain ⟨_, _, h⟩ := bind_eq_ok_iff.1 h
      obtain ⟨_, _, h⟩ := bind_eq_ok_iff.1 h
      obtain ⟨between, collected, h⟩ := bind_eq_ok_iff.1 h
      exact (among.collect here collected).collect here h
  | delete names id entity old =>
    simp only [Edit.work, deleted] at h
    cases kind : d.kind with
    | map =>
      rw [kind] at h
      cases h
      exact among.push here
    | reduce =>
      rw [kind] at h
      obtain ⟨_, _, h⟩ := bind_eq_ok_iff.1 h
      exact among.collect here h

/-- So is all that planning it collects. -/
theorem Among.plan (check : Bool) {e : Edit} {ds : List Descriptor} {p p' : FlushPlan}
    (among : p.arena.Among used) (here : used e.names)
    (h : e.plan check ⟨fun _ => True, fun _ _ => ds⟩ p = .ok p') : p'.arena.Among used := by
  have own : (e.documentCommand check).names = e.names := by cases e <;> rfl
  refine foldlM_keeps (Among used) (Edit.work_of_plan h) (among.push (own ▸ here)) ?_
  exact fun d _ arena arena' before worked => before.work here worked

end Arena

section Flush

variable {settings : Settings} {P : Statement → Prop} {used : TableNames → Prop}
  (single : ∀ (names : TableNames) (t : LogicalTable) (s : Statement),
    used names → s.Over names [t] → P s)
include single

/-- A command sends changes of single tables of its collection. -/
theorem Command.asks_over {c : Command} (here : used c.names) (conn : Connection) :
    (c.run conn).Asks (Request.Carries P) := by
  refine Program.Asks.mono (asks_sends conn c) fun r sent => ?_
  obtain ⟨⟨s, sends, t, ht, table⟩, _⟩ := sent
  have one : s.Over c.names [t.logical] := by
    rw [Statement.Over, Statement.tables_of_table? table, t.name_eq, names_of_mem_tables ht]
    exact List.forall_mem_singleton.2 (TableNames.named_of_mem (List.mem_singleton_self _))
  rcases sends with rfl | rfl <;> exact Request.carries_of_some rfl (single _ _ _ here one)

theorem Command.asks_over_all {commands : List Command} (here : ∀ c ∈ commands, used c.names)
    (conn : Connection) : (runAll conn commands).Asks (Request.Carries P) := by
  induction commands with
  | nil => exact Action.asks_pure ()
  | cons c rest ih =>
    obtain ⟨first, later⟩ := List.forall_mem_cons.1 here
    exact (Command.asks_over single first conn).bind fun _ => ih later

theorem Arena.ensures_over {arena : Arena} (among : arena.Among used) (conn : Connection)
    (dialect : Dialect) :
    (arena.finish conn dialect).Ensures (Request.Carries P) fun commands =>
      ∀ c ∈ commands, used c.names := by
  have sent : (arena.finish conn dialect).Asks (Request.Carries P) :=
    Arena.asks_finish_of fun b hb key s found =>
      Request.carries_of_some rfl (single _ _ _ (among.buffers b hb) (Buffer.over_lookup found))
  refine Program.Ensures.mono (Program.Asks.and_ensures sent arena.ensures_finish)
    fun result finishes commands same c hc => ?_
  obtain ⟨emitted, rfl, sources⟩ := finishes commands same
  rcases List.mem_append.1 (Command.mem_inOrder_iff.1 hc) with hc | hc
  · exact among.commands c hc
  · obtain ⟨b, hb, key, found, outcome⟩ := sources c hc
    have rows : .rows .reduce b.names b.descriptor.index.name ∈ c.tables := by
      rw [(Buffer.tables_of_outcome outcome).2]
      exact List.mem_cons_self
    exact Command.names_of_mem_tables rows ▸ among.buffers b hb

namespace Session

theorem abides_planChange {change : Pending} {plan : FlushPlan}
    (here : used (settings.names change.key.collection)) (among : plan.arena.Among used) :
    (planChange plan change).Abides settings P fun plan' => plan'.arena.Among used := by
  have loads : ∀ ps,
      P (.query (.documentById (settings.names change.key.collection).document) ps) := fun ps =>
    single _ _ _ here (Statement.over_documentById ps)
  cases change with
  | delete key typeName =>
    refine Work.abides_get_bind fun session same => (abides_lastStored loads).bind fun old _ => ?_
    subst same
    cases old with
    | none => exact Work.abides_pure among
    | some old =>
      refine Work.abides_ofAction_bind (Action.asks_silent rfl) fun ds =>
        Work.abides_ofExcept fun plan' planned => ?_
      exact among.plan true (e := .delete (session.names key.collection) key.id typeName old)
        here planned
  | save key typeName json content =>
    rw [planChange_save]
    refine Work.abides_get_bind fun session same => ?_
    subst same
    refine Work.abides_ofAction_bind (Action.asks_silent rfl) fun ds => ?_
    refine Work.Abides.bind (Q := fun _ => True) ?_ fun old _ =>
      Work.abides_ofExcept fun plan' planned => ?_
    · split
      · exact Work.abides_pure trivial
      · exact abides_lastStored loads
    · cases old with
      | none =>
        exact among.plan true (e := .create (session.names key.collection) key.id typeName json
          content) here planned
      | some old =>
        rw [planSave] at planned
        split at planned
        · cases planned
          exact among
        · exact among.plan _ (e := .update (session.names key.collection) key.id typeName json
            content old) here planned

theorem abides_planChanges {changes : List Pending} {plan : FlushPlan}
    (here : ∀ change ∈ changes, used (settings.names change.key.collection))
    (among : plan.arena.Among used) :
    (planChanges plan changes).Abides settings P fun plan' => plan'.arena.Among used := by
  induction changes generalizing plan with
  | nil => exact Work.abides_pure among
  | cons change changes ih =>
    obtain ⟨first, later⟩ := List.forall_mem_cons.1 here
    exact (abides_planChange single first among).bind fun plan' among' => ih later among'

theorem abides_runPlan {plan : FlushPlan} (among : plan.arena.Among used) (session : Session) :
    (session.runPlan plan).Abides settings P fun _ => True := by
  refine (Work.abides_ofAction (Arena.ensures_over single among _ _)).bind fun commands here => ?_
  exact Work.abides_ofAction_bind (Command.asks_over_all single here _) fun _ =>
    Work.abides_modify fun _ => rfl

omit single in
theorem abides_begin : begin.Abides settings P fun _ => True := by
  refine Work.abides_get_bind fun session _ => ?_
  split
  · exact Work.abides_pure trivial
  · exact Work.abides_ofAction_bind (Action.asks_silent rfl) fun _ =>
      Work.abides_modify fun _ => rfl

/-- A flush of changes in some collections sends statements over single tables of these. -/
theorem abidesAt_flush {session : Session} (same : session.settings = settings)
    (here : ∀ change ∈ session.pending, used (settings.names change.key.collection)) :
    flush.AbidesAt settings P (fun _ => True) session := by
  have pending : flushPending.AbidesAt settings P (fun _ => True) session := by
    rw [flushPending_eq, Work.abidesAt_get_bind_iff]
    refine Work.AbidesAt.bind (abides_planChanges single here Arena.among_empty session same)
      fun plan among => ?_
    split
    · exact abides_runPlan single among session
    · exact abides_begin.bind fun _ _ => abides_runPlan single among session
  refine Work.abidesAt_get_bind_iff.2 ?_
  split
  · exact Work.abides_pure trivial session same
  · refine pending.tryCatch fun e => Work.Abides.bind (Work.abides_modify fun _ => rfl) fun _ _ =>
      Work.abides_throw e

end Session

end Flush

namespace Session

variable {settings : Settings} {P : Statement → Prop}

theorem abides_rollback : rollback.Abides settings P fun _ => True := by
  refine Work.abides_get_bind fun session _ => ?_
  split
  · refine Work.Abides.bind (Work.abides_modify fun _ => rfl) fun _ _ => ?_
    exact Work.abides_ofAction (Action.Asks.ensures (Action.asks_silent rfl))
  · exact Work.abides_pure trivial

theorem abides_conclude : conclude.Abides settings P fun _ => True := by
  refine Work.abides_get_bind fun session _ => ?_
  split
  · exact abides_rollback
  · split
    · refine Work.Abides.bind (Work.abides_modify fun _ => rfl) fun _ _ => ?_
      exact Work.abides_ofAction (Action.Asks.ensures (Action.asks_silent rfl))
    · exact Work.abides_pure trivial

end Session

/-! ## Reading -/

/-- A read that has started sends a statement of a kind, and the statements that follow are, too. -/
def Reading.Abides (settings : Settings) (P : Statement → Prop) : Reading α → Prop
  | .answered _ => True
  | .asking s finish => P s ∧ ∀ rows, (finish rows).Abides settings P fun _ => True

namespace Read

/-- The collection that a query is about. -/
def collection : Read → String
  | .get _ collection _ | .compiled _ collection _ => collection
  | .documents q | .firstDocument q | .documentCount q => q.collection
  | .rows q | .firstRow q | .rowCount q => q.collection

/-- The tables of its collection that a query is about. -/
def scope : Read → List LogicalTable
  | .get _ _ _ => [.documents]
  | .documents q | .firstDocument q | .documentCount q => q.scope
  | .rows q | .firstRow q | .rowCount q => q.scope
  | .compiled q _ _ => q.scope

end Read

section Reads

variable {settings : Settings} {P : Statement → Prop}

theorem Work.Abides.map {start : Work (Reading α)}
    (h : start.Abides settings P (Reading.Abides settings P)) (f : α → β) :
    (Reading.map f <$> start).Abides settings P (Reading.Abides settings P) := by
  rw [map_eq_pure_bind]
  refine h.bind fun reading abides => Work.abides_pure ?_
  cases reading with
  | answered a => trivial
  | asking s finish =>
    exact ⟨abides.1, fun rows => (abides.2 rows).bind fun _ _ => Work.abides_pure trivial⟩

theorem Reading.abides_ofStatement {s : Except Error Statement} (made : ∀ q, s = .ok q → P q)
    {finish : List Row → Work α}
    (finishes : ∀ rows, (finish rows).Abides settings P fun _ => True) :
    (ofStatement s finish).Abides settings P (Reading.Abides settings P) :=
  Work.abides_ofExcept_bind fun q hq => Work.abides_pure ⟨made q hq, finishes⟩

namespace DocumentQuery

variable {q : DocumentQuery}

theorem ensures_lookupJoins (names : TableNames) {indexes : List String}
    (joined : ∀ i ∈ indexes, i ∈ q.joins.map Prod.fst) :
    (lookupJoins q.entity.name q.collection names indexes).Ensures (Request.Carries P)
      (q.Joins names) := by
  induction indexes with
  | nil => exact Action.ensures_pure fun _ h => by cases h
  | cons index indexes ih =>
    obtain ⟨here, later⟩ := List.forall_mem_cons.1 joined
    refine Action.Asks.bind_ensures (Action.asks_silent rfl) fun ds => ?_
    split
    · exact Action.ensures_throw _
    · next d _ =>
      refine (ih later).bind fun joins rest => Action.ensures_pure ?_
      exact List.forall_mem_cons.2 ⟨tables_joinOf here d.kind, rest⟩

theorem ensures_over_statement : (q.statement settings).Ensures (Request.Carries P)
    (Statement.Over (settings.names q.collection) q.scope) :=
  (ensures_lookupJoins _ fun _ h => h).bind fun _ joined =>
    Action.ensures_ofExcept fun _ => over_compile joined

theorem ensures_over_countStatement : (q.countStatement settings).Ensures (Request.Carries P)
    (Statement.Over (settings.names q.collection) q.scope) :=
  (ensures_lookupJoins _ fun _ h => h).bind fun _ joined =>
    Action.ensures_ofExcept fun _ => over_compileCount joined

end DocumentQuery

theorem Statement.Over.mono {names : TableNames} {ts ts' : List LogicalTable} {s : Statement}
    (h : s.Over names ts) (sub : ts ⊆ ts') : s.Over names ts' := fun name hname =>
  let ⟨t, ht, same⟩ := h name hname
  ⟨t, sub ht, same⟩

/-- SQL that is served for a compiled query reads what the query is about. -/
theorem CompiledQuery.over_of_serves {q : CompiledQuery} {collection : String} {args : Arguments}
    {sql : CompiledSql} (serves : Event.Serves settings ⟨.compiledSql q collection args, .ok sql⟩)
    (ps : Parameters) :
    (Statement.query sql.query ps).Over (settings.names collection) q.scope := by
  obtain ⟨q', args', index, condition, order, compiled⟩ := serves q collection args sql rfl
  refine (over_of_compile compiled ps).mono fun t ht => ?_
  obtain ⟨i, hi, rfl⟩ := List.mem_map.1 ht
  refine List.mem_map_of_mem ?_
  rw [index, condition] at hi
  refine List.mem_cons.2 ((List.mem_cons.1 hi).imp_right fun hi => ?_)
  refine List.mem_append.2 ((List.mem_append.1 hi).imp_right fun hi => ?_)
  obtain ⟨term, hterm, inside⟩ := List.mem_flatMap.1 hi
  exact List.mem_flatMap.2 ⟨term, order hterm, inside⟩

namespace Session

theorem abides_get (entity : EntityType) {collection : String} (id : Int64)
    (loads : ∀ ps, P (.query (.documentById (settings.names collection).document) ps)) :
    (get entity collection id).Abides settings P (Reading.Abides settings P) := by
  refine Work.abides_get_bind fun session same => ?_
  subst same
  dsimp only
  split
  · exact Work.abides_ofExcept_bind fun _ _ => Work.abides_pure trivial
  · exact Work.abides_pure trivial
  · split
    · exact Work.abides_ofExcept_bind fun _ _ => Work.abides_pure trivial
    · refine Work.abides_pure ⟨loads _, fun rows => ?_⟩
      dsimp only
      split
      · exact Work.abides_pure trivial
      · refine Work.abides_ofExcept_bind fun doc _ => ?_
        split
        · exact Work.abides_pure trivial
        · refine (Work.Ensures.abides (ensures_track untracked_settings _ doc)).bind fun _ _ => ?_
          exact Work.abides_ofExcept_bind fun _ _ => Work.abides_pure trivial

/-- Starting a query of a session, and finishing it, sends nothing but a statement over
what the query is about. -/
theorem abides_start {q : Read}
    (tells : ∀ s, Statement.Over (settings.names q.collection) q.scope s → P s) :
    q.start.Abides settings P (Reading.Abides settings P) := by
  have listed {q : DocumentQuery}
      (tells : ∀ s, Statement.Over (settings.names q.collection) q.scope s → P s) :
      (listDocuments q).Abides settings P (Reading.Abides settings P) := by
    refine Work.abides_get_bind fun session same => ?_
    subst same
    refine (Work.abides_ofAction DocumentQuery.ensures_over_statement).bind fun s hs =>
      Work.abides_pure ⟨tells s hs, fun rows => ?_⟩
    exact Work.Ensures.abides (ensures_materializeAll untracked_settings q.entity q.collection rows)
  have rows {q : IndexQuery}
      (tells : ∀ s, Statement.Over (settings.names q.collection) q.scope s → P s) :
      (listRows q).Abides settings P (Reading.Abides settings P) := by
    refine Work.abides_get_bind fun session same => ?_
    subst same
    exact Reading.abides_ofStatement (fun s hs => tells s (IndexQuery.over_statement hs)) fun _ =>
      Work.abides_ofExcept fun _ _ => trivial
  cases q with
  | get entity collection id =>
    exact Work.Abides.map (abides_get entity id fun ps => tells _ (Statement.over_documentById ps))
      _
  | documents q => exact Work.Abides.map (listed tells) _
  | firstDocument q =>
    exact Work.Abides.map (Work.Abides.map (listed (q := q.take 1) tells) List.head?) _
  | documentCount q =>
    refine Work.Abides.map (Work.abides_get_bind fun session same => ?_) _
    subst same
    refine (Work.abides_ofAction DocumentQuery.ensures_over_countStatement).bind fun s hs =>
      Work.abides_pure ⟨tells s hs, fun rows => ?_⟩
    exact Work.abides_ofExcept fun _ _ => trivial
  | rows q => exact Work.Abides.map (rows tells) _
  | firstRow q => exact Work.Abides.map (Work.Abides.map (rows (q := q.take 1) tells) List.head?) _
  | rowCount q =>
    refine Work.Abides.map (Work.abides_get_bind fun session same => ?_) _
    subst same
    exact Reading.abides_ofStatement (fun s hs => tells s (IndexQuery.over_countStatement hs))
      fun _ => Work.abides_ofExcept fun _ _ => trivial
  | compiled q collection args =>
    have served :
        (Work.ofAction (ExceptT.mk (.request (.compiledSql q collection args)))).Abides settings P
        fun sql => ∀ ps, P (.query sql.query ps) :=
      fun session same => ⟨Request.carries_of_none rfl,
        fun o serves => ⟨same, fun sql equal ps => tells _ (by
          obtain rfl : o = .ok sql := equal
          exact CompiledQuery.over_of_serves serves ps)⟩⟩
    refine Work.Abides.map (served.bind fun sql hsql =>
      Reading.abides_ofStatement (fun s hs => ?_) fun _ =>
        Work.abides_ofExcept fun _ _ => trivial) _
    obtain ⟨ps, _, rfl⟩ := map_eq_ok_iff.1 hs
    exact hsql ps

end Session

theorem Reading.abides_alone {start : Work (Reading α)}
    (h : start.Abides settings P (Reading.Abides settings P)) :
    (alone start).Abides settings P fun _ => True := by
  refine h.bind fun reading abides => ?_
  cases reading with
  | answered a => exact Work.abides_pure trivial
  | asking s finish => exact (Work.abides_query abides.1).bind fun rows _ => abides.2 rows

/-! ## Reading together -/

namespace JoinedRead

/-- A read of a join sends statements of a kind from then on. -/
def Abides (settings : Settings) (P : Statement → Prop) : JoinedRead α → Prop
  | .start begin => begin.Abides settings P (Reading.Abides settings P)
  | .asking _ s finish => P s ∧ ∀ rows, (finish rows).Abides settings P fun _ => True
  | .finished _ => True

theorem abides_look (co : Coalescer) (number : Caller) (caller : ScheduledCaller) {s : Statement}
    {finish : List Row → Work α} (made : P s)
    (finishes : ∀ rows, (finish rows).Abides settings P fun _ => True) :
    (look co number caller s finish).Abides settings P fun r => r.2.Abides settings P := by
  unfold look
  split
  split
  · refine Work.Abides.bind (Q := fun read => JoinedRead.Abides settings P read) ?_ fun _ h =>
      Work.abides_pure h
    exact (finishes _).lift.bind fun _ _ => Work.abides_pure trivial
  · exact Work.abides_pure trivial
  · split
    · exact (Work.abides_query made).lift.bind fun _ _ => Work.abides_pure ⟨made, finishes⟩
    · exact Work.abides_pure ⟨made, finishes⟩

theorem abides_turn (co : Coalescer) (number : Caller) {read : JoinedRead α}
    (h : read.Abides settings P) :
    (turn co number read).Abides settings P fun r => r.2.Abides settings P := by
  cases read with
  | start begin =>
    refine (Work.Abides.lift h).bind fun result abides => ?_
    rcases result with e | reading
    · exact Work.abides_pure trivial
    · cases reading with
      | answered a => exact Work.abides_pure trivial
      | asking s finish =>
        have asking := abides _ rfl
        exact Work.abides_get_bind fun session _ => abides_look _ _ _ asking.1 asking.2
  | asking caller s finish => exact abides_look _ _ _ h.1 h.2
  | finished r => exact Work.abides_pure trivial

theorem abides_round (co : Coalescer) (number : Caller) {reads : List (JoinedRead α)}
    (h : ∀ read ∈ reads, read.Abides settings P) :
    (round co number reads).Abides settings P fun r => ∀ read ∈ r.2, read.Abides settings P := by
  induction reads generalizing co number with
  | nil => exact Work.abides_pure fun _ h => by cases h
  | cons read reads ih =>
    obtain ⟨first, rest⟩ := List.forall_mem_cons.1 h
    refine (abides_turn co number first).bind fun r hr =>
      (ih r.1 (number + 1) rest).bind fun r' hr' => ?_
    exact Work.abides_pure (List.forall_mem_cons.2 ⟨hr, hr'⟩)

theorem abides_rounds (co : Coalescer) {reads : List (JoinedRead α)}
    (h : ∀ read ∈ reads, read.Abides settings P) (n : Nat) :
    (rounds co reads n).Abides settings P fun _ => True := by
  induction n generalizing co reads with
  | zero => exact Work.abides_pure trivial
  | succ n ih =>
    unfold rounds
    split
    · exact Work.abides_pure trivial
    · exact (abides_round co 0 h).bind fun r hr => ih r.1 hr

end JoinedRead

theorem Session.abides_joinAll {starts : List (Work (Reading α))}
    (h : ∀ start ∈ starts, start.Abides settings P (Reading.Abides settings P)) :
    (joinAll starts).Abides settings P fun _ => True :=
  (JoinedRead.abides_rounds ∅ (List.forall_mem_map.2 h) _).bind fun _ _ => Work.abides_pure trivial

end Reads

end DocStore

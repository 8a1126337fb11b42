import DocStore.Proofs.Knowledge

/-!
# What a flush writes

A flush plans the edits that its changes come to, each for the document as the
session knows it by then, and sends the commands of these edits one after the
other until one fails. So what it writes to a document table is what a document
command of one of its edits writes, and a guarded update that meets no row is
the last that it sends.
-/

set_option autoImplicit false

namespace DocStore

variable {α β : Type}

/-! ## Runs that succeed -/

namespace Work

variable {session session' : Session} {events : List Event}

/-- A sequence that succeeds goes through both of its parts. -/
theorem emits_ok_bind_iff {w : Work α} {f : α → Work β} {y : β} :
    Emits (w >>= f) session events (.ok y) session' ↔
    ∃ x middle first rest, events = first ++ rest ∧ Emits w session first (.ok x) middle ∧
      Emits (f x) middle rest (.ok y) session' := by
  rw [emits_bind_iff]
  refine or_iff_right ?_
  rintro ⟨_, impossible, _⟩
  cases impossible

theorem emits_ok_ofExcept_iff {e : Except Error α} {x : α} :
    Emits (ofExcept e) session events (.ok x) session' ↔
    e = .ok x ∧ events = [] ∧ session' = session := by
  rw [ofExcept, emits_ofAction_iff]
  constructor
  · rintro ⟨left, asked⟩
    obtain ⟨rfl, same⟩ := Program.emits_done_iff.1 asked
    exact ⟨same.symm, rfl, left⟩
  · rintro ⟨same, nothing, left⟩
    exact ⟨left, Program.emits_done_iff.2 ⟨nothing, same.symm⟩⟩

theorem emits_ok_ofExcept_bind_iff {e : Except Error α} {f : α → Work β} {y : β} :
    Emits (ofExcept e >>= f) session events (.ok y) session' ↔
    ∃ x, e = .ok x ∧ Emits (f x) session events (.ok y) session' := by
  rw [emits_ok_bind_iff]
  constructor
  · rintro ⟨x, middle, first, rest, rfl, hx, h⟩
    obtain ⟨same, rfl, rfl⟩ := emits_ok_ofExcept_iff.1 hx
    exact ⟨x, same, h⟩
  · rintro ⟨x, same, h⟩
    exact ⟨x, session, [], events, rfl, emits_ok_ofExcept_iff.2 ⟨same, rfl, rfl⟩, h⟩

theorem emits_ok_ofAction_bind_iff {a : Action α} {f : α → Work β} {y : β} :
    Emits (ofAction a >>= f) session events (.ok y) session' ↔
      ∃ x first rest, events = first ++ rest ∧
        a.Emits first (.ok x) ∧ Emits (f x) session rest (.ok y) session' := by
  rw [emits_ok_bind_iff]
  constructor
  · rintro ⟨x, middle, first, rest, rfl, hx, h⟩
    obtain ⟨rfl, asked⟩ := emits_ofAction_iff.1 hx
    exact ⟨x, first, rest, rfl, asked, h⟩
  · rintro ⟨x, first, rest, rfl, asked, h⟩
    exact ⟨x, session, first, rest, rfl, emits_ofAction_iff.2 ⟨rfl, asked⟩, h⟩

end Work

/-! ## The edits of a flush -/

namespace Session

/-- Loading documents leaves a session otherwise as it is, and with all that it tracked. -/
def Loads (session session' : Session) : Prop :=
  ∃ tracked, session' = { session with tracked } ∧
    ∀ key t, session.tracked.get? key = some t → tracked.get? key = some t

theorem Loads.refl (session : Session) : session.Loads session := ⟨_, rfl, fun _ _ known => known⟩

theorem Loads.trans {session session₁ session₂ : Session} (h : session.Loads session₁)
    (h' : session₁.Loads session₂) : session.Loads session₂ := by
  obtain ⟨tracked, rfl, kept⟩ := h
  obtain ⟨tracked', rfl, kept'⟩ := h'
  exact ⟨tracked', rfl, fun key t known => kept' key t (kept key t known)⟩

theorem Loads.get? {session session' : Session} (h : session.Loads session') {key : DocKey}
    {t : Tracked} (known : session.tracked.get? key = some t) :
    session'.tracked.get? key = some t := by
  obtain ⟨tracked, rfl, kept⟩ := h
  exact kept key t known

theorem Loads.settings_eq {session session' : Session} (h : session.Loads session') :
    session'.settings = session.settings := by
  obtain ⟨_, rfl, _⟩ := h
  rfl

end Session

/-- An edit of a document in a collection in use, which the session knows as the edit finds it. -/
structure Edit.Known (catalog : Catalog) (session : Session) (e : Edit) : Prop where
  used : catalog.collections e.names
  here : e.names = session.settings.names e.names.collection
  known : ∀ doc, e.finds = some doc → session.tracked.get? e.key = some doc.state

theorem Edit.Known.loads {catalog : Catalog} {session session' : Session} {e : Edit}
    (h : e.Known catalog session) (loads : session.Loads session') : e.Known catalog session' where
  used := h.used
  here := loads.settings_eq ▸ h.here
  known doc found := loads.get? (h.known doc found)

namespace Session

variable {catalog : Catalog} {session session' : Session} {events : List Event}

theorem loads_of_track {collection : String} {doc : Document} {json : Json}
    (h : Work.Emits (track collection doc) session events (.ok json) session') :
    session.Loads session' := by
  have run := Work.emits_get_bind_iff.1 h
  dsimp only at run
  split at run
  · obtain ⟨_, _, rfl⟩ := Work.emits_pure_iff.1 run
    exact .refl _
  · next unknown =>
    obtain ⟨json', _, run⟩ := Work.emits_ok_ofExcept_bind_iff.1 run
    have run := Work.emits_modify_bind_iff.1 run
    obtain ⟨_, _, rfl⟩ := Work.emits_pure_iff.1 run
    refine ⟨_, rfl, fun key t known => ?_⟩
    rw [Assoc.get?_insert]
    split
    · next same =>
      rw [← same, unknown] at known
      cases known
    · exact known

/-- The state of a document that was loaded is the one tracked from then on. -/
theorem loads_of_lastStored {key : DocKey} {old : Option Tracked}
    (h : Work.Emits (lastStored key) session events (.ok old) session') :
    session.Loads session' ∧ ∀ t, old = some t → session'.tracked.get? key = some t := by
  have run := Work.emits_get_bind_iff.1 h
  split at run
  · next known hknown =>
    obtain ⟨_, same, rfl⟩ := Work.emits_pure_iff.1 run
    cases same
    exact ⟨.refl _, fun t same => same ▸ hknown⟩
  · obtain ⟨rows, middle, first, rest, _, queried, run₁⟩ := Work.emits_ok_bind_iff.1 run
    obtain ⟨rfl, _⟩ := Work.emits_ofAction_iff.1 (Work.emits_get_bind_iff.1 queried)
    split at run₁
    · obtain ⟨_, same, rfl⟩ := Work.emits_pure_iff.1 run₁
      cases same
      exact ⟨.refl _, fun _ impossible => by cases impossible⟩
    · obtain ⟨doc, _, run₂⟩ := Work.emits_ok_ofExcept_bind_iff.1 run₁
      obtain ⟨json, tracking, _, _, _, tracks, run₃⟩ := Work.emits_ok_bind_iff.1 run₂
      have run₄ := Work.emits_get_bind_iff.1 run₃
      obtain ⟨_, same, rfl⟩ := Work.emits_pure_iff.1 run₄
      cases same
      exact ⟨loads_of_track tracks, fun t same => same⟩

/-- The descriptors answered are those of the catalog. -/
theorem eq_of_descriptors {settings : Settings} {typeName collection : String}
    {ds : List Descriptor} (asked : (Action.descriptors typeName collection).Emits events (.ok ds))
    (described : ∀ e ∈ events, e.Described settings catalog) :
    catalog.collections (settings.names collection) ∧
    ds = catalog.descriptors (settings.names collection) typeName := by
  obtain rfl := Program.emits_request_iff.1 asked
  exact described _ List.mem_cons_self typeName collection ds rfl

/-- The state of a document to be saved is one tracked from then on, unless it is new. -/
theorem loads_of_known {key : DocKey} {isNew : Bool} {old : Option Tracked}
    (h : Work.Emits (if isNew then pure none else lastStored key) session events
      (.ok old) session') :
    session.Loads session' ∧ ∀ t, old = some t → session'.tracked.get? key = some t := by
  split at h
  · obtain ⟨_, same, rfl⟩ := Work.emits_pure_iff.1 h
    cases same
    exact ⟨.refl _, fun _ impossible => by cases impossible⟩
  · exact loads_of_lastStored h

/-- What is planned for a document that is saved is an edit of what was loaded of it, or
nothing if that is the same. -/
theorem edit_of_planSave {plan plan' : FlushPlan} {key : DocKey} {typeName content : String}
    {json : Json} {old : Option Tracked}
    (h : session.planSave plan (catalog.descriptors (session.names key.collection) typeName) key
      typeName json content old = .ok plan') :
    plan' = plan ∨
    ∃ e : Edit, e.plan session.settings.config.checkConcurrency catalog plan = .ok plan' ∧
      e.names = session.names key.collection ∧
        e.id = key.id ∧ ∀ doc, e.finds = some doc → old = some doc.state := by
  cases old with
  | none =>
    refine .inr ⟨.create (session.names key.collection) key.id typeName json content, h, rfl, rfl,
      fun _ found => ?_⟩
    cases found
  | some old =>
    rw [planSave] at h
    split at h
    · cases h
      exact .inl rfl
    · refine .inr ⟨.update (session.names key.collection) key.id typeName json content old, h, rfl,
        rfl, fun _ found => ?_⟩
      cases found
      rfl

/-- An edit that was planned for what has been loaded of its document is one of a document
that the session knows. -/
theorem Loads.knows {e : Edit} {key : DocKey} {old : Option Tracked}
    (loads : session.Loads session')
    (known : ∀ t, old = some t → session'.tracked.get? key = some t)
    (used : catalog.collections (session.names key.collection))
    (names : e.names = session.names key.collection) (id : e.id = key.id)
    (found : ∀ doc, e.finds = some doc → old = some doc.state) : e.Known catalog session' where
  used := names ▸ used
  here := by
    rw [loads.settings_eq, names]
    rfl
  known doc finds := by
    have same : e.key = key := by
      rw [Edit.key, names, id]
      rfl
    exact same ▸ known doc.state (found doc finds)

/-- A change is planned as an edit of a document that the session knows by then, or not at all. -/
theorem edit_of_planChange {change : Pending} {plan plan' : FlushPlan}
    (described : ∀ e ∈ events, e.Described session.settings catalog)
    (h : Work.Emits (planChange plan change) session events (.ok plan') session') :
    session.Loads session' ∧ (plan' = plan ∨
      ∃ e : Edit, e.plan session.settings.config.checkConcurrency catalog plan = .ok plan' ∧
        e.Known catalog session') := by
  cases change with
  | delete key typeName =>
    obtain ⟨old, middle, first, rest, rfl, loaded, run⟩ :=
      Work.emits_ok_bind_iff.1 (Work.emits_get_bind_iff.1 h)
    obtain ⟨loads, known⟩ := loads_of_lastStored loaded
    cases old with
    | none =>
      obtain ⟨_, same, rfl⟩ := Work.emits_pure_iff.1 run
      cases same
      exact ⟨loads, .inl rfl⟩
    | some old =>
      obtain ⟨ds, asked, _, rfl, answered, run⟩ := Work.emits_ok_ofAction_bind_iff.1 run
      obtain ⟨used, rfl⟩ := eq_of_descriptors answered fun e he => described e (by simp [he])
      obtain ⟨planned, _, rfl⟩ := Work.emits_ok_ofExcept_iff.1 run
      refine ⟨loads, .inr ⟨.delete (session.names key.collection) key.id typeName old, planned, ?_⟩⟩
      refine loads.knows known used rfl rfl fun doc found => ?_
      cases found
      rfl
  | save key typeName json content =>
    rw [planChange_save] at h
    obtain ⟨ds, asked, _, rfl, answered, run⟩ :=
      Work.emits_ok_ofAction_bind_iff.1 (Work.emits_get_bind_iff.1 h)
    obtain ⟨used, rfl⟩ := eq_of_descriptors answered fun e he => described e (by simp [he])
    obtain ⟨old, middle, first, rest, rfl, loaded, run⟩ := Work.emits_ok_bind_iff.1 run
    obtain ⟨loads, known⟩ := loads_of_known loaded
    obtain ⟨planned, _, rfl⟩ := Work.emits_ok_ofExcept_iff.1 run
    refine ⟨loads, (edit_of_planSave planned).imp_right ?_⟩
    rintro ⟨e, planned, names, id, found⟩
    exact ⟨e, planned, loads.knows known used names id found⟩

/-- Changes are planned as edits of documents that the session knows in the end. -/
theorem edits_of_planChanges {changes : List Pending} {plan plan' : FlushPlan}
    (described : ∀ e ∈ events, e.Described session.settings catalog)
    (h : Work.Emits (planChanges plan changes) session events (.ok plan') session') :
    session.Loads session' ∧ ∃ edits : List Edit,
      edits.foldlM (Edit.plan session.settings.config.checkConcurrency catalog) plan = .ok plan' ∧
        ∀ e ∈ edits, e.Known catalog session' := by
  induction changes generalizing plan session events with
  | nil =>
    obtain ⟨_, same, rfl⟩ := Work.emits_pure_iff.1 h
    cases same
    exact ⟨.refl _, [], rfl, fun _ he => by cases he⟩
  | cons change changes ih =>
    obtain ⟨plan₁, middle, first, rest, rfl, changed, run⟩ := Work.emits_ok_bind_iff.1 h
    obtain ⟨loads, planned⟩ :=
      edit_of_planChange (fun e he => described e (List.mem_append_left _ he)) changed
    have same := loads.settings_eq
    obtain ⟨loads', edits, planned', known⟩ :=
      ih (fun e he => same ▸ described e (List.mem_append_right _ he)) run
    rw [same] at planned'
    refine ⟨loads.trans loads', ?_⟩
    rcases planned with rfl | ⟨e, planned, here⟩
    · exact ⟨edits, planned', known⟩
    · exact ⟨e :: edits, bind_eq_ok_iff.2 ⟨plan₁, planned, planned'⟩,
        List.forall_mem_cons.2 ⟨here.loads loads', known⟩⟩

end Session

/-! ## The commands of a flush -/

/-- Of two ways to split a list, at one element and in two parts: the element is in the one
part or in the other. -/
theorem cases_of_append_eq {first rest before after : List α} {x : α}
    (h : first ++ rest = before ++ x :: after) :
    (∃ middle, first = before ++ x :: middle ∧ after = middle ++ rest) ∨
      ∃ middle, before = first ++ middle ∧ rest = middle ++ x :: after := by
  rcases List.append_eq_append_iff.1 h with ⟨middle, rfl, rfl⟩ | ⟨middle, rfl, split⟩
  · exact .inr ⟨middle, rfl, rfl⟩
  · cases middle with
    | nil => exact .inr ⟨[], by simp, split.symm⟩
    | cons y middle =>
      obtain ⟨rfl, rfl⟩ := List.cons.inj split
      exact .inl ⟨middle, rfl, rfl⟩

theorem eq_of_append_singleton {x y : α} {first rest : List α} (h : first ++ x :: rest = [y]) :
    first = [] ∧ x = y ∧ rest = [] := by
  cases first with
  | nil => simpa using h
  | cons _ first => simp at h

namespace Action

variable {events : List Event} {P : Request → Prop}

theorem emits_bind_iff {a : Action α} {f : α → Action β} {result : Except Error β} :
    (a >>= f).Emits events result ↔
    (∃ e, result = .error e ∧ a.Emits events (.error e)) ∨
      ∃ x first rest, events = first ++ rest ∧ a.Emits first (.ok x) ∧ (f x).Emits rest result := by
  unfold Emits
  rw [ExceptT.run_bind, Program.emits_bind_iff]
  constructor
  · rintro ⟨e | x, first, rest, rfl, ha, h⟩
    · obtain ⟨rfl, rfl⟩ := Program.emits_done_iff.1 h
      rw [List.append_nil]
      exact .inl ⟨e, rfl, ha⟩
    · exact .inr ⟨x, first, rest, rfl, ha, h⟩
  · rintro (⟨e, rfl, ha⟩ | ⟨x, first, rest, rfl, ha, h⟩)
    · exact ⟨.error e, events, [], (List.append_nil events).symm, ha, .done _⟩
    · exact ⟨.ok x, first, rest, rfl, ha, h⟩

theorem emits_ok_bind_iff {a : Action α} {f : α → Action β} {y : β} :
    (a >>= f).Emits events (.ok y) ↔
    ∃ x first rest, events = first ++ rest ∧ a.Emits first (.ok x) ∧ (f x).Emits rest (.ok y) := by
  rw [emits_bind_iff]
  refine or_iff_right ?_
  rintro ⟨_, impossible, _⟩
  cases impossible

theorem emits_ok_ofExcept_bind_iff {e : Except Error α} {f : α → Action β} {y : β} :
    (ofExcept e >>= f).Emits events (.ok y) ↔ ∃ x, e = .ok x ∧ (f x).Emits events (.ok y) := by
  rw [emits_ok_bind_iff]
  constructor
  · rintro ⟨x, first, rest, rfl, hx, h⟩
    obtain ⟨rfl, same⟩ := Program.emits_done_iff.1 hx
    exact ⟨x, same.symm, h⟩
  · rintro ⟨x, rfl, h⟩
    exact ⟨x, [], events, rfl, .done _, h⟩

theorem asks_executeAll_of {conn : Connection} {ss : List Statement}
    (executes : ∀ s ∈ ss, P (.execute conn s)) : (executeAll conn ss).Asks P := by
  induction ss with
  | nil => exact asks_pure ()
  | cons s ss ih =>
    obtain ⟨first, rest⟩ := List.forall_mem_cons.1 executes
    exact Asks.bind (Program.asks_request first) fun _ => ih rest

end Action

section Finish

variable {conn : Connection} {dialect : Dialect}

/-- What is reduced for a group is what is decided on for some rows. -/
theorem Buffer.ensures_reduceGroup (b : Buffer) (key : Value) :
    (b.reduceGroup conn dialect key).Ensures (fun _ => True)
    fun commands => ∀ c ∈ commands, ∃ found, b.outcome key found = .ok (some c) := by
  rw [reduceGroup_eq]
  refine Action.ensures_ofExcept_bind fun candidate hcandidate =>
    Action.ensures_ofExcept_bind fun lookup _ => ?_
  refine Action.Asks.bind_ensures (Program.asks_request trivial) fun found => ?_
  refine Action.ensures_ofExcept_bind fun stored hstored =>
    Action.ensures_ofExcept_bind fun row hrow => ?_
  refine Action.ensures_ofExcept_bind fun command hcommand =>
    Action.ensures_pure fun c hc => ⟨found, ?_⟩
  have decided : b.outcome key found = .ok command := bind_eq_ok_iff.2 ⟨candidate, hcandidate,
    bind_eq_ok_iff.2 ⟨stored, hstored, bind_eq_ok_iff.2 ⟨row, hrow, hcommand⟩⟩⟩
  rw [decided, Option.mem_toList.1 hc]

theorem Buffer.ensures_reduceGroups (b : Buffer) (keys : List Value) :
    (b.reduceGroups conn dialect keys).Ensures (fun _ => True)
    fun commands => ∀ c ∈ commands, ∃ key found, b.outcome key found = .ok (some c) := by
  induction keys with
  | nil => exact Action.ensures_pure fun _ h => by cases h
  | cons key keys ih =>
    refine (b.ensures_reduceGroup key).bind fun here hhere => ih.bind fun rest hrest => ?_
    exact Action.ensures_pure (List.forall_mem_append.2 ⟨fun c hc => ⟨key, hhere c hc⟩, hrest⟩)

theorem Buffer.ensures_reduceAll (buffers : List Buffer) :
    (reduceAll conn dialect buffers).Ensures (fun _ => True)
    fun commands => ∀ c ∈ commands, ∃ b ∈ buffers, ∃ key found,
      b.outcome key found = .ok (some c) := by
  induction buffers with
  | nil => exact Action.ensures_pure fun _ h => by cases h
  | cons b bs ih =>
    refine (b.ensures_reduceGroups b.keys).bind fun here hhere => ih.bind fun rest hrest => ?_
    refine Action.ensures_pure (List.forall_mem_append.2 ⟨fun c hc =>
      ⟨b, List.mem_cons_self, hhere c hc⟩, fun c hc => ?_⟩)
    obtain ⟨b', hb', outcome⟩ := hrest c hc
    exact ⟨b', List.mem_cons_of_mem b hb', outcome⟩

/-- Commands in order, of which those that were not pushed are what is decided on for buffers. -/
def Arena.Finishes (arena : Arena) (commands : List Command) : Prop :=
  ∃ emitted, commands = Command.inOrder (arena.commands ++ emitted) ∧
    ∀ c ∈ emitted, ∃ b ∈ arena.buffers, ∃ key found, b.outcome key found = .ok (some c)

theorem Arena.ensures_finish (arena : Arena) :
    (arena.finish conn dialect).Ensures (fun _ => True) arena.Finishes :=
  (Buffer.ensures_reduceAll arena.buffers).bind fun emitted decided =>
    Action.ensures_pure ⟨emitted, rfl, decided⟩

/-- A flush of edits runs the commands on their documents, and commands on other
tables of the catalog. -/
theorem Arena.Finishes.cases_of_mem {check : Bool} {catalog : Catalog} {edits : List Edit}
    {p : FlushPlan} {commands : List Command} (h : p.arena.Finishes commands)
    (planned : Edit.planAll check catalog edits = .ok p)
    (used : ∀ e ∈ edits, catalog.collections e.names) {c : Command} (hc : c ∈ commands) :
    (∃ e ∈ edits, c = e.documentCommand check) ∨
    c.isDocument = false ∧ ∀ t ∈ c.tables, catalog.Has t := by
  obtain ⟨emitted, rfl, sources⟩ := h
  exact Edit.cases_of_mem_decided planned used sources (Command.mem_inOrder_iff.1 hc)

end Finish

namespace Command

variable {conn : Connection} {commands : List Command} {c : Command} {events : List Event}
  {result : Except Error Unit}

/-- A command sends changes of its tables, and a command on a document sends
only its one statement. -/
def Sends (conn : Connection) (c : Command) (r : Request) : Prop :=
  (∃ s, (r = .execute conn s ∨ r = .scalar conn s) ∧ ∃ t ∈ c.tables, s.table? = some t.name) ∧
    (c.isDocument = true → r = .execute conn c.statement)

theorem asks_sends (conn : Connection) (c : Command) : (c.run conn).Asks (Sends conn c) := by
  have executes (id : Int64) : c.isDocument = false → ∀ s ∈ c.statements id,
      Sends conn c (.execute conn s) :=
    fun index s hs => ⟨⟨s, .inl rfl, table?_of_mem_statements hs⟩,
      fun document => (by rw [index] at document; cases document)⟩
  cases c with
  | createDocument names id typeName content | deleteDocument names id =>
    refine Action.asks_executeAll_of (List.forall_mem_singleton.2 ⟨⟨_, .inl rfl, ?_⟩, fun _ => rfl⟩)
    exact ⟨_, List.mem_singleton_self _, rfl⟩
  | createMapRow _ _ _ _ | deleteMapRows _ _ _
  | deleteReduceRow _ _ _ => exact Action.asks_executeAll_of (executes 0 rfl)
  | updateDocument names id typeName content version expected =>
    refine Action.Asks.bind (Program.asks_request ⟨⟨_, .inl rfl, _, List.mem_singleton_self _, rfl⟩,
      fun _ => rfl⟩) fun affected => ?_
    split
    · exact Action.asks_throw _
    · exact Action.asks_pure ()
  | createReduceRow names index cells link =>
    have inserts : Sends conn (.createReduceRow names index cells link)
        (.scalar conn (.insertReturning (names.index index) cells)) :=
      ⟨⟨_, .inr rfl, _, List.mem_cons_self, rfl⟩, fun document => by cases document⟩
    refine Action.Asks.bind (Program.asks_request inserts) fun answer => ?_
    split
    · next id _ =>
        exact Action.asks_executeAll_of fun s hs => executes id rfl s (List.mem_cons_of_mem _ hs)
    · exact Action.asks_throw _
  | updateReduceRow names index row cells link unlink =>
    refine Action.Asks.bind (Action.asks_executeAll_of fun s hs => executes 0 rfl s ?_) fun _ =>
      Action.asks_executeAll_of fun s hs => executes 0 rfl s ?_
    · exact List.mem_append_left (link.map (linkStatement names index row)) hs
    · exact List.mem_cons_of_mem _ (List.mem_append_right _ hs)

/-- A command on a document asks once; a guarded update that meets no row is a conflict. -/
theorem emits_run_document (document : c.isDocument = true) (h : (c.run conn).Emits events result) :
    ∃ o, events = [⟨.execute conn c.statement, o⟩] ∧ (result = .ok () → ∃ n, o = .ok n) ∧
      ∀ names id typeName content version expected,
        c = .updateDocument names id typeName content version (some expected) →
        o = .ok 0 → result = .error (.conflict id typeName) := by
  have once {s : Statement} (h : (Action.executeAll conn [s]).Emits events result) :
      ∃ o, events = [⟨.execute conn s, o⟩] ∧ (result = .ok () → ∃ n, o = .ok n) := by
    rcases Action.emits_bind_iff.1 h with ⟨e, rfl, asked⟩ | ⟨n, first, rest, rfl, asked, ended⟩
    · exact ⟨.error e, Program.emits_request_iff.1 asked, fun impossible => by cases impossible⟩
    · obtain rfl := Program.emits_request_iff.1 asked
      obtain ⟨rfl, rfl⟩ := Program.emits_done_iff.1 ended
      exact ⟨.ok n, rfl, fun _ => ⟨n, rfl⟩⟩
  cases c with
  | createDocument _ _ _ _ | deleteDocument _ _ =>
    obtain ⟨o, rfl, succeeds⟩ := once h
    exact ⟨o, rfl, succeeds, fun _ _ _ _ _ _ other => by cases other⟩
  | updateDocument names id typeName content version expected =>
    rcases Action.emits_bind_iff.1 h with ⟨e, rfl, asked⟩ | ⟨n, first, rest, rfl, asked, ended⟩
    · refine ⟨.error e, Program.emits_request_iff.1 asked,
        fun impossible => (by cases impossible), ?_⟩
      rintro _ _ _ _ _ _ _ ⟨⟩
    · obtain rfl := Program.emits_request_iff.1 asked
      split at ended
      · obtain ⟨rfl, rfl⟩ := Program.emits_done_iff.1 ended
        refine ⟨.ok n, rfl, fun impossible => (by cases impossible), ?_⟩
        rintro _ _ _ _ _ _ ⟨⟩ _
        rfl
      · next passes =>
        obtain ⟨rfl, rfl⟩ := Program.emits_done_iff.1 ended
        refine ⟨.ok n, rfl, fun _ => ⟨n, rfl⟩, ?_⟩
        rintro _ _ _ _ _ _ ⟨⟩ ⟨⟩
        exact absurd ⟨rfl, rfl⟩ passes
  | createMapRow | deleteMapRows | createReduceRow | updateReduceRow
  | deleteReduceRow => cases document

/-- What commands send one of them sends, and if that one fails nothing comes after it. -/
theorem exists_of_emits_runAll {before after : List Event} {e : Event}
    (h : (runAll conn commands).Emits (before ++ e :: after) result) :
    ∃ c ∈ commands, ∃ first last own, (c.run conn).Emits (first ++ e :: last) own ∧
      ∀ error, own = .error error → after = last ∧ result = .error error := by
  induction commands generalizing before with
  | nil =>
    obtain ⟨impossible, _⟩ := Program.emits_done_iff.1 h
    exact absurd impossible (by simp)
  | cons c rest ih =>
    rcases Action.emits_bind_iff.1 h with ⟨error, rfl, failed⟩ | ⟨_, first, last, split, ran, next⟩
    · refine ⟨c, List.mem_cons_self, before, after, _, failed, fun _ same => ?_⟩
      cases same
      exact ⟨rfl, rfl⟩
    · rcases cases_of_append_eq split.symm with ⟨middle, rfl, rfl⟩ | ⟨middle, rfl, rfl⟩
      · exact ⟨c, List.mem_cons_self, before, middle, _, ran,
          fun _ impossible => by cases impossible⟩
      · obtain ⟨c', hc', found⟩ := ih next
        exact ⟨c', List.mem_cons_of_mem c hc', found⟩

/-- Where all commands succeed, each does. -/
theorem emits_run_of_runAll (h : (runAll conn commands).Emits events (.ok ())) (hc : c ∈ commands) :
    ∃ own, (c.run conn).Emits own (.ok ()) ∧ ∀ e ∈ own, e ∈ events := by
  induction commands generalizing events with
  | nil => cases hc
  | cons c' rest ih =>
    rcases Action.emits_bind_iff.1 h with ⟨_, impossible, _⟩ | ⟨_, first, last, rfl, ran, next⟩
    · cases impossible
    · rcases List.mem_cons.1 hc with rfl | hc
      · exact ⟨first, ran, fun e he => List.mem_append_left _ he⟩
      · obtain ⟨own, emits, inside⟩ := ih next hc
        exact ⟨own, emits, fun e he => List.mem_append_right _ (inside e he)⟩

end Command

end DocStore

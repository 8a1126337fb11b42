import DocStore.Proofs.Compiling
import DocStore.Proofs.SharedStore
import DocStore.Proofs.Sharing

/-!
# What a session has been shown

Whatever a session tracks of a document it has been shown, by an answer to a
query for documents or by a change of its own that was executed. `Given` and
`Keeps` say what a computation comes to if the events of its run are of a kind;
for `Informed` that kind is what has happened so far.
-/

set_option autoImplicit false

namespace DocStore

variable {α β γ : Type}

/-! ## Runs in which surroundings answer as they may -/

namespace Program

/-- What a program ends with is of a kind, if its events are. -/
def Given (E : Event → Prop) (Q : α → Prop) : Program α → Prop
  | .done a => Q a
  | .ask r next => ∀ o, E ⟨r, o⟩ → Given E Q (next o)

variable {E : Event → Prop} {Q : α → Prop} {R : β → Prop}

theorem Given.bind {p : Program α} {f : α → Program β} (hp : Given E Q p)
    (hf : ∀ a, Q a → Given E R (f a)) : Given E R (p >>= f) := by
  induction p with
  | done a => exact hf a hp
  | ask r next ih => exact fun o ho => ih o (hp o ho)

theorem Given.mono {Q' : α → Prop} {p : Program α} (hp : Given E Q p) (weaker : ∀ a, Q a → Q' a) :
    Given E Q' p := by
  induction p with
  | done a => exact weaker a hp
  | ask r next ih => exact fun o ho => ih o (hp o ho)

theorem given_any (p : Program α) : Given E (fun _ => True) p := by
  induction p with
  | done a => trivial
  | ask r next ih => exact fun o _ => ih o

theorem Given.of_emits {p : Program α} (hp : Given E Q p) {events : List Event} {a : α}
    (h : Emits p events a) (all : ∀ e ∈ events, E e) : Q a := by
  induction h with
  | done a => exact hp
  | ask h ih =>
    obtain ⟨first, rest⟩ := List.forall_mem_cons.1 all
    exact ih (hp _ first) rest

theorem Ensures.given {P : Request → Prop} {p : Program α} (hp : Ensures P Q p) : Given E Q p := by
  induction p with
  | done a => exact hp
  | ask r next ih => exact fun o _ => ih o (hp.2 o)

end Program

namespace Work

/-- If the events of a run are of a kind, it keeps something of the session, and its
answer is of a kind too. -/
def Keeps (E : Event → Prop) (I : Session → Prop) (Q : α → Prop) (w : Work α) : Prop :=
  ∀ session, I session → (w.run.run session).Given E fun r => I r.2 ∧ ∀ x, r.1 = .ok x → Q x

variable {E : Event → Prop} {I : Session → Prop} {Q : α → Prop} {R : β → Prop}

theorem keeps_pure {x : α} (h : Q x) : Keeps E I Q (pure x : Work α) := by
  refine fun session hi => ⟨hi, fun y same => ?_⟩
  cases same
  exact h

theorem keeps_modify {f : Session → Session} (keeps : ∀ session, I session → I (f session)) :
    Keeps E I (fun _ => True) (modify f : Work Unit) :=
  fun session hi => ⟨keeps session hi, fun _ _ => trivial⟩

theorem keeps_ofAction {a : Action α} (h : a.run.Given E fun r => ∀ x, r = .ok x → Q x) :
    Keeps E I Q (ofAction a) :=
  fun _ hi => Program.Given.bind h fun _ hq => ⟨hi, hq⟩

theorem keeps_request (a : Action α) : Keeps E I (fun _ => True) (ofAction a) :=
  keeps_ofAction ((Program.given_any a.run).mono fun _ _ _ _ => trivial)

theorem keeps_ofExcept {e : Except Error α} (h : ∀ x, e = .ok x → Q x) : Keeps E I Q (ofExcept e) :=
  keeps_ofAction h

theorem Keeps.bind {w : Work α} {f : α → Work β} (hw : Keeps E I Q w)
    (hf : ∀ x, Q x → Keeps E I R (f x)) : Keeps E I R (w >>= f) := by
  intro session hi
  rw [ExceptT.run_bind, StateT.run_bind]
  refine Program.Given.bind (hw session hi) fun r => ?_
  rintro ⟨hi', hq⟩
  obtain ⟨e | x, middle⟩ := r
  · exact ⟨hi', fun _ same => by cases same⟩
  · exact hf x (hq x rfl) middle hi'

theorem keeps_get_bind {f : Session → Work β} (h : ∀ session, I session → Keeps E I R (f session)) :
    Keeps E I R (get >>= f) := fun session hi => h session hi session hi

theorem keeps_ofExcept_bind {e : Except Error α} {f : α → Work β}
    (h : ∀ x, e = .ok x → Keeps E I R (f x)) :
    Keeps E I R (ofExcept e >>= f) := (keeps_ofExcept h).bind fun _ hx => hx

/-- Work whose failure is an answer. -/
theorem Keeps.lift {w : Work α} (hw : Keeps E I Q w) :
    Keeps E I (fun result => ∀ x, result = .ok x → Q x)
      (ExceptT.lift w.run : Work (Except Error α)) := by
  refine fun session hi => Program.Given.bind (hw session hi) fun r h =>
    ⟨h.1, fun result same => ?_⟩
  cases same
  exact h.2

/-- What leaves the part of a session that matters keeps what depends on that part. -/
theorem Ensures.keeps {P : Request → Prop} {view : Session → γ} {w : Work α}
    (hw : Ensures P view Q w)
    (depends : ∀ session session', view session' = view session → I session → I session') :
    Keeps E I Q w :=
  fun session hi => Program.Given.mono (hw session).given fun r h =>
    ⟨depends session r.2 h.1 hi, h.2⟩

theorem Keeps.of_emits {w : Work α} (hw : Keeps E I Q w) {session session' : Session}
    {events : List Event} {result : Except Error α} (hi : I session)
    (h : Emits w session events result session') (all : ∀ e ∈ events, E e) :
    I session' ∧ ∀ x, result = .ok x → Q x := Program.Given.of_emits (hw session hi) h all

theorem keeps_query (s : Statement) :
    Keeps E I (fun rows => ∃ c, E ⟨.query c s, .ok rows⟩) (query s) := by
  refine keeps_get_bind fun session _ => keeps_ofAction fun o ho rows same => ?_
  obtain rfl : o = .ok rows := same
  exact ⟨session.connection, ho⟩

end Work

/-! ## Documents shown -/

/-- Rows were the answer to a query of a text. -/
def Shown (E : Event → Prop) (d : Dialect) (text : String) (rows : List Row) : Prop :=
  ∃ c s, Statement.text d s = text ∧ E ⟨.query c s, .ok rows⟩

/-- An event shows a version of a document of a table, with its content: the document was
found so, or made so. -/
inductive Event.Shows (d : Dialect) (table : String) (id : Int64) (content : String)
    (version : Int64) : Event → Prop
  | found {c : Connection} {s s' : Statement} {rows : List Row} {row : Row} {typeName : String} :
      s'.text d = s.text d →
      s'.documentTable? = some table → row ∈ rows →
        Document.ofRow row = .ok ⟨id, typeName, content, version⟩ →
        Shows d table id content version ⟨.query c s, .ok rows⟩
  | created {c : Connection} {names : TableNames} {typeName : String} {n : Nat} :
      names.document = table → version = 1 →
      Shows d table id content version
        ⟨.execute c (Command.createDocument names id typeName content).statement, .ok n⟩
  | updated {c : Connection} {names : TableNames} {typeName : String}
      {expected : Option Int64} {n : Nat} :
      names.document = table → n ≠ 0 → Shows d table id content version
        ⟨.execute c (Command.updateDocument names id typeName content version expected).statement,
          .ok n⟩

/-- A version of a document, with its content, was shown. -/
def Sourced (E : Event → Prop) (settings : Settings) (key : DocKey) (content : String)
    (version : Int64) : Prop :=
  ∃ e, E e ∧ e.Shows settings.dialect (settings.names key.collection).document key.id
    content version

/-- A session of a store that tracks only what it was shown. -/
structure Session.Informed (E : Event → Prop) (settings : Settings) (session : Session) : Prop where
  same : session.settings = settings
  sourced : ∀ key t, session.tracked.get? key = some t → Sourced E settings key t.content t.version

/-- The part of a session on which depends how it is informed. -/
def Session.knowledge (session : Session) : Settings × Assoc DocKey Tracked :=
  (session.settings, session.tracked)

section Reading

variable {E : Event → Prop} {settings : Settings}

theorem Session.Informed.congr {session session' : Session}
    (same : session'.knowledge = session.knowledge) (h : session.Informed E settings) :
    session'.Informed E settings := by
  obtain ⟨settings', tracked'⟩ := Prod.mk.inj same
  exact ⟨settings'.trans h.same, fun key t hkey => h.sourced key t (tracked' ▸ hkey)⟩

/-- What can be said of the settings and the tracked documents of a session that tracks
only what it was shown. -/
structure Session.Learnable (E : Event → Prop) (settings : Settings)
    (I : Session → Prop) : Prop where
  same : ∀ session, I session → session.settings = settings
  depends : ∀ session session', session'.knowledge = session.knowledge → I session → I session'
  loads : ∀ session key content json version, I session → session.tracked.get? key = none →
    Sourced E settings key content version → settings.serializer.deserialize content = .ok json →
      I { session with tracked := session.tracked.insert key ⟨content, json, version⟩ }

/-- What is said of each tracked document on its own is learnable if it holds of a document
that was shown and read. -/
theorem Session.learnable_of_tracked {I : Session → Prop} {P : DocKey → Tracked → Prop}
    (means : ∀ session, I session ↔ session.settings = settings ∧
      ∀ key t, session.tracked.get? key = some t → P key t)
    (shown : ∀ key content json version, Sourced E settings key content version →
      settings.serializer.deserialize content = .ok json → P key ⟨content, json, version⟩) :
    Session.Learnable E settings I where
  same session h := ((means session).1 h).1
  depends session session' same h := by
    obtain ⟨settings', tracked'⟩ := Prod.mk.inj same
    obtain ⟨here, all⟩ := (means session).1 h
    exact (means session').2 ⟨settings'.trans here, fun key t hkey => all key t (tracked' ▸ hkey)⟩
  loads session key content json version h _ sourced read := by
    obtain ⟨same, all⟩ := (means session).1 h
    refine (means _).2 ⟨same, fun key' t hkey => ?_⟩
    rw [Assoc.get?_insert] at hkey
    split at hkey
    · next here =>
      cases hkey
      exact here ▸ shown key content json version sourced read
    · exact all key' t hkey

theorem Session.learnable_informed : Session.Learnable E settings (Session.Informed E settings) :=
  Session.learnable_of_tracked (fun _ => ⟨fun h => ⟨h.same, h.sourced⟩, fun h => ⟨h.1, h.2⟩⟩)
    fun _ _ _ _ sourced _ => sourced

/-- Work that keeps whatever can be said of a session that tracks only what it was shown. -/
def Work.Learns (E : Event → Prop) (settings : Settings) (w : Work α) (Q : α → Prop) : Prop :=
  ∀ I, Session.Learnable E settings I → w.Keeps E I Q

namespace Work

variable {Q : α → Prop} {R : β → Prop}

theorem learns_pure {x : α} (h : Q x) : (pure x : Work α).Learns E settings Q :=
  fun _ _ => keeps_pure h

theorem learns_ofExcept {e : Except Error α} (h : ∀ x, e = .ok x → Q x) :
    (ofExcept e).Learns E settings Q :=
  fun _ _ => keeps_ofExcept h

theorem learns_ofAction (a : Action α) : (ofAction a).Learns E settings fun _ => True :=
  fun _ _ => keeps_request a

theorem learns_query (s : Statement) :
    (query s).Learns E settings fun rows => ∃ c, E ⟨.query c s, .ok rows⟩ :=
  fun _ _ => keeps_query s

theorem Learns.bind {w : Work α} {f : α → Work β} (hw : w.Learns E settings Q)
    (hf : ∀ x, Q x → (f x).Learns E settings R) :
    (w >>= f).Learns E settings R := fun I learnable =>
      (hw I learnable).bind fun x hx => hf x hx I learnable

theorem learns_get_bind {f : Session → Work β}
    (h : ∀ session, session.settings = settings → (f session).Learns E settings R) :
    (get >>= f).Learns E settings R :=
  fun I learnable => keeps_get_bind fun session hi =>
    h session (learnable.same session hi) I learnable

theorem learns_ofExcept_bind {e : Except Error α} {f : α → Work β}
    (h : ∀ x, e = .ok x → (f x).Learns E settings R) :
    (ofExcept e >>= f).Learns E settings R := (learns_ofExcept h).bind fun _ hx => hx

theorem Learns.lift {w : Work α} (hw : w.Learns E settings Q) :
    Learns E settings (ExceptT.lift w.run : Work (Except Error α)) fun result =>
      ∀ x, result = .ok x → Q x :=
  fun I learnable => (hw I learnable).lift

theorem learns_modify {f : Session → Session}
    (same : ∀ session, (f session).knowledge = session.knowledge) :
    (modify f : Work Unit).Learns E settings fun _ => True :=
  fun _ learnable => keeps_modify fun session => learnable.depends session _ (same session)

theorem learns_modify_bind {f : Session → Session} {g : Unit → Work α} {Q : α → Prop}
    (same : ∀ session, (f session).knowledge = session.knowledge) (h : (g ()).Learns E settings Q) :
    (modify f >>= g).Learns E settings Q := (learns_modify same).bind fun _ _ => h

theorem Ensures.learns {P : Request → Prop} {w : Work α} (hw : w.Ensures P Session.knowledge Q) :
    w.Learns E settings Q := fun _ learnable => hw.keeps learnable.depends

/-- What is learnable of a session is so after a run, if what happened is of the kind. -/
theorem Learns.of_emits {w : Work α} (hw : w.Learns E settings Q) {I : Session → Prop}
    (learnable : Session.Learnable E settings I) {session session' : Session} {events : List Event}
    {result : Except Error α} (hi : I session) (h : Emits w session events result session')
    (all : ∀ e ∈ events, E e) : I session' ∧ ∀ x, result = .ok x → Q x :=
  (hw I learnable).of_emits hi h all

end Work

namespace Session

/-- What tracking a document answers and makes of the session. -/
theorem run_track (collection : String) (doc : Document) (session : Session) :
    (track collection doc).run.run session =
    pure (match session.tracked.get? ⟨collection, doc.id⟩ with
      | some known => (.ok known.json, session)
      | none => match session.settings.serializer.deserialize doc.content with
        | .error e => (.error e, session)
        | .ok json => (.ok json, { session with
            tracked := session.tracked.insert ⟨collection, doc.id⟩
                ⟨doc.content, json, doc.version⟩ })) := by
  have run : (track collection doc).run.run session =
      ((match session.tracked.get? ⟨collection, doc.id⟩ with
      | some known => pure known.json
      | none => do
        let json ← Work.ofExcept (session.settings.serializer.deserialize doc.content)
        modify fun s =>
            { s with
              tracked := s.tracked.insert ⟨collection, doc.id⟩ ⟨doc.content, json, doc.version⟩ }
        pure json : Work Json)).run.run session := rfl
  rw [run]
  cases session.tracked.get? ⟨collection, doc.id⟩ with
  | some known => rfl
  | none => cases session.settings.serializer.deserialize doc.content <;> rfl

theorem learns_track {collection : String} {doc : Document}
    (sourced : Sourced E settings ⟨collection, doc.id⟩ doc.content doc.version) :
    (track collection doc).Learns E settings fun _ => True := by
  intro I learnable session hi
  cases known : session.tracked.get? ⟨collection, doc.id⟩ with
  | some t =>
    rw [run_track, known]
    exact ⟨hi, fun _ _ => trivial⟩
  | none =>
    rw [run_track, known]
    cases read : session.settings.serializer.deserialize doc.content with
    | error e => exact ⟨hi, fun _ _ => trivial⟩
    | ok json =>
      rw [learnable.same session hi] at read
      exact ⟨learnable.loads session _ _ json _ hi known sourced read, fun _ _ => trivial⟩

/-- What rows of documents show, if they answer a query for documents of a collection. -/
theorem sourced_of_shown {s : Statement} {collection : String} {rows : List Row}
    (documents : s.documentTable? = some (settings.names collection).document)
    (shown : Shown E settings.dialect (s.text settings.dialect) rows) {row : Row}
    (hrow : row ∈ rows) {doc : Document} (read : Document.ofRow row = .ok doc) :
    Sourced E settings ⟨collection, doc.id⟩ doc.content doc.version := by
  obtain ⟨c, s', text, happened⟩ := shown
  exact ⟨_, happened, .found text.symm documents hrow read⟩

theorem documentTable?_documentStatement (session : Session) (key : DocKey) :
    (session.documentStatement key).documentTable? = some (session.names key.collection).document :=
  rfl

theorem learns_lastStored (key : DocKey) : (lastStored key).Learns E settings fun _ => True := by
  refine Work.learns_get_bind fun session same => ?_
  split
  · exact Work.learns_pure trivial
  · refine (Work.learns_query _).bind fun rows ⟨c, happened⟩ => ?_
    split
    · exact Work.learns_pure trivial
    · next row rest =>
      refine Work.learns_ofExcept_bind fun doc read => ?_
      have documents := session.documentTable?_documentStatement key
      rw [Session.names, same] at documents
      have sourced := sourced_of_shown documents ⟨c, _, rfl, happened⟩ List.mem_cons_self read
      refine (learns_track sourced).bind fun _ _ => ?_
      exact Work.learns_get_bind fun _ _ => Work.learns_pure trivial

end Session

/-! ## Reads -/

/-- A read that has started and, when it finishes with rows that were shown,
keeps a session informed. -/
def Reading.Informs (E : Event → Prop) (settings : Settings) : Reading α → Prop
  | .answered _ => True
  | .asking s finish => ∀ rows, Shown E settings.dialect (s.text settings.dialect) rows →
      (finish rows).Learns E settings fun _ => True

theorem Reading.Inquires.informs {P : Request → Prop} {reading : Reading α}
    (h : reading.Inquires P Session.knowledge) : reading.Informs E settings := by
  cases reading with
  | answered => trivial
  | asking s finish => exact fun rows _ => (h.2 rows).learns

theorem Reading.Informs.map {reading : Reading α} (h : reading.Informs E settings) (f : α → β) :
    (reading.map f).Informs E settings := by
  cases reading with
  | answered => trivial
  | asking s finish =>
    exact fun rows shown => (h rows shown).bind fun _ _ => Work.learns_pure trivial

theorem Work.Learns.map_reading {start : Work (Reading α)}
    (h : start.Learns E settings (Reading.Informs E settings)) (f : α → β) :
    (Reading.map f <$> start).Learns E settings (Reading.Informs E settings) := by
  rw [map_eq_pure_bind]
  exact h.bind fun _ informs => Work.learns_pure (informs.map f)

/-- The statement of a document query is for the documents of its collection. -/
theorem DocumentQuery.documentTable?_of_compile {q : DocumentQuery} {joins : List Join}
    {s : Statement} (h : q.compile settings joins = .ok s) :
    s.documentTable? = some (settings.names q.collection).document := by
  unfold compile Compile.toStatement at h
  dsimp only at h
  split at h
  · next query c gives =>
    cases h
    have gives : Compile.Gives _ _ query c := gives
    obtain ⟨source, c₁, hsource, gives⟩ := Compile.gives_bind_iff.1 gives
    obtain ⟨order, c₂, _, gives⟩ := Compile.gives_bind_iff.1 gives
    obtain ⟨rfl, _⟩ := Compile.gives_pure_iff.1 gives
    obtain ⟨_, _, _, hsource⟩ := Compile.gives_bind_iff.1 hsource
    obtain ⟨_, _, _, hsource⟩ := Compile.gives_bind_iff.1 hsource
    obtain ⟨_, _, _, hsource⟩ := Compile.gives_bind_iff.1 hsource
    obtain ⟨rfl, _⟩ := Compile.gives_pure_iff.1 hsource
    rfl
  · cases h

theorem Request.hasLookups_any : HasLookups fun _ => True :=
  ⟨fun _ _ _ => trivial, fun _ _ => trivial, fun _ _ _ => trivial⟩

namespace Session

theorem learns_materialize (entity : EntityType) {collection : String} {row : Row}
    (sourced : ∀ doc, Document.ofRow row = .ok doc →
      Sourced E settings ⟨collection, doc.id⟩ doc.content doc.version) :
    (materialize entity collection row).Learns E settings fun _ => True := by
  refine Work.learns_ofExcept_bind fun doc read => Work.learns_get_bind fun session _ => ?_
  split
  · exact Work.learns_ofExcept fun _ _ => trivial
  · exact (learns_track (sourced doc read)).bind fun _ _ => Work.learns_ofExcept fun _ _ => trivial

theorem learns_materializeAll (entity : EntityType) {collection : String} {rows : List Row}
    (sourced : ∀ row ∈ rows, ∀ doc, Document.ofRow row = .ok doc →
      Sourced E settings ⟨collection, doc.id⟩ doc.content doc.version) :
    (materializeAll entity collection rows).Learns E settings fun _ => True := by
  induction rows with
  | nil => exact Work.learns_pure trivial
  | cons row rows ih =>
    obtain ⟨first, rest⟩ := List.forall_mem_cons.1 sourced
    exact (learns_materialize entity first).bind fun _ _ =>
      (ih rest).bind fun _ _ => Work.learns_pure trivial

theorem learns_get (entity : EntityType) (collection : String) (id : Int64) :
    (get entity collection id).Learns E settings (Reading.Informs E settings) := by
  refine Work.learns_get_bind fun session same => ?_
  dsimp only
  split
  · exact Work.learns_ofExcept_bind fun _ _ => Work.learns_pure trivial
  · exact Work.learns_pure trivial
  · split
    · exact Work.learns_ofExcept_bind fun _ _ => Work.learns_pure trivial
    · refine Work.learns_pure fun rows shown => ?_
      dsimp only
      split
      · exact Work.learns_pure trivial
      · next row rest =>
        refine Work.learns_ofExcept_bind fun doc read => ?_
        have documents := session.documentTable?_documentStatement ⟨collection, id⟩
        rw [Session.names, same] at documents
        split
        · exact Work.learns_pure trivial
        · refine (learns_track (sourced_of_shown documents shown List.mem_cons_self read)).bind
            fun _ _ => ?_
          exact Work.learns_ofExcept_bind fun _ _ => Work.learns_pure trivial

theorem learns_listDocuments (q : DocumentQuery) :
    (listDocuments q).Learns E settings (Reading.Informs E settings) := by
  refine Work.learns_get_bind fun session same => ?_
  have documents : (q.statement session.settings).Ensures (fun _ => True)
      fun s => s.documentTable? = some (settings.names q.collection).document :=
    (DocumentQuery.asks_lookupJoins Request.hasLookups_any _ _ _ _).bind_ensures fun joins =>
      Action.ensures_ofExcept fun s hs => same ▸ DocumentQuery.documentTable?_of_compile hs
  have asked : Work.Learns E settings (Work.ofAction (q.statement session.settings)) fun s =>
      s.documentTable? = some (settings.names q.collection).document :=
    fun _ _ => Work.keeps_ofAction (Program.Ensures.given documents)
  refine asked.bind fun s hs => Work.learns_pure fun rows shown => ?_
  exact learns_materializeAll q.entity fun row hrow doc read => sourced_of_shown hs shown hrow read

theorem learns_firstDocument (q : DocumentQuery) :
    (firstDocument q).Learns E settings (Reading.Informs E settings) :=
  (learns_listDocuments (q.take 1)).bind fun _ informs => Work.learns_pure (informs.map _)

end Session

theorem Read.learns (q : Read) : q.start.Learns E settings (Reading.Informs E settings) := by
  have lookups := Request.hasLookups_any
  have inquires {α : Type} {start : Work (Reading α)}
      (h : start.Inquires (fun _ => True) Session.knowledge) :
      start.Learns E settings (Reading.Informs E settings) :=
    Work.Ensures.learns (h.mono fun _ inquires => inquires.informs)
  cases q with
  | get entity collection id => exact (Session.learns_get entity collection id).map_reading _
  | documents q => exact (Session.learns_listDocuments q).map_reading _
  | firstDocument q => exact (Session.learns_firstDocument q).map_reading _
  | documentCount q => exact (inquires (Session.inquires_countDocuments lookups q)).map_reading _
  | rows q => exact (inquires (Session.inquires_listRows q)).map_reading _
  | firstRow q => exact (inquires (Session.inquires_firstRow q)).map_reading _
  | rowCount q => exact (inquires (Session.inquires_countRows q)).map_reading _
  | compiled q collection args =>
    exact (inquires (Session.inquires_runCompiled lookups q collection args)).map_reading _

theorem Reading.learns_alone {start : Work (Reading α)}
    (h : start.Learns E settings (Reading.Informs E settings)) :
    (alone start).Learns E settings fun _ => True := by
  refine h.bind fun reading informs => ?_
  cases reading with
  | answered a => exact Work.learns_pure trivial
  | asking s finish =>
    exact (Work.learns_query s).bind fun rows ⟨c, happened⟩ => informs rows ⟨c, s, rfl, happened⟩

end Reading

/-! ## Reads under way together -/

/-- Whoever is in a cell asks for its text, and the rows that it shares were the answer to
a query of that text. -/
structure Coalescer.Carries (E : Event → Prop) (d : Dialect) (asks : Caller → Option String)
    (co : Coalescer) : Prop where
  members : ∀ cell ∈ co.cells, ∀ n ∈ cell.queue, asks n = some cell.key.sql
  rows : ∀ cell ∈ co.cells, ∀ rows, cell.rows = some rows → Shown E d cell.key.sql rows

namespace Coalescer

theorem not_mem_leave {co : Coalescer} {n : Caller} {cell : Cell} (h : cell ∈ (co.leave n).cells) :
    n ∉ cell.queue := by
  obtain ⟨cell, _, rfl⟩ := mem_leave h
  simp

namespace Carries

variable {E : Event → Prop} {d : Dialect} {asks : Caller → Option String} {co : Coalescer}
  {n : Caller} {sql : String} (h : co.Carries E d asks)
include h

/-- Of a caller that is in no cell it does not matter what it asks. -/
theorem update (absent : ∀ cell ∈ co.cells, n ∉ cell.queue) (text : Option String) :
    co.Carries E d (Function.update asks n text) := by
  refine ⟨fun cell hcell m hm => ?_, h.rows⟩
  rw [Function.update_of_ne]
  · exact h.members cell hcell m hm
  · rintro rfl
    exact absent cell hcell hm

theorem leave : (co.leave n).Carries E d asks := by
  refine ⟨fun cell' hcell' m hm => ?_, fun cell' hcell' rows hrows => ?_⟩
  · obtain ⟨cell, hcell, rfl⟩ := mem_leave hcell'
    exact h.members cell hcell m (List.mem_filter.1 hm).1
  · obtain ⟨cell, hcell, rfl⟩ := mem_leave hcell'
    exact h.rows cell hcell rows hrows

theorem succeed (asked : asks n = some sql) {rows : List Row} (shown : Shown E d sql rows) :
    (co.succeed n rows).Carries E d asks := by
  refine leave ⟨fun cell' hcell' m hm => ?_, fun cell' hcell' rows' hrows' => ?_⟩
  · rcases mem_updateFirst hcell' with hcell | ⟨cell, hcell, _, rfl⟩
    · exact h.members cell' hcell m hm
    · exact h.members cell hcell m hm
  · rcases mem_updateFirst hcell' with hcell | ⟨cell, hcell, inside, rfl⟩
    · exact h.rows cell' hcell rows' hrows'
    · cases hrows'
      have same := h.members cell hcell n (by simpa using inside)
      rw [asked] at same
      exact Option.some.inj same ▸ shown

theorem found {key : BoundSql} (asked : asks n = some key.sql) (listed : Bool) :
    (co.found n key listed).Carries E d asks := by
  refine ⟨List.forall_mem_append.2 ⟨h.members, List.forall_mem_singleton.2 fun m hm => ?_⟩,
    List.forall_mem_append.2 ⟨h.rows, List.forall_mem_singleton.2 fun _ impossible =>
      (by cases impossible)⟩⟩
  obtain rfl := List.mem_singleton.1 hm
  exact asked

theorem enter {key : BoundSql} (asked : asks n = some key.sql) :
    (co.enter n key).Carries E d asks := by
  rw [Coalescer.enter]
  split
  · refine ⟨fun cell' hcell' m hm => ?_, fun cell' hcell' rows hrows => ?_⟩
    · rcases mem_updateFirst hcell' with hcell | ⟨cell, hcell, joins, rfl⟩
      · exact h.members cell' hcell m hm
      · rcases List.mem_append.1 hm with hm | hm
        · exact h.members cell hcell m hm
        · obtain rfl := List.mem_singleton.1 hm
          have agrees := (Bool.and_eq_true_iff.1 joins).2
          rw [asked, of_decide_eq_true (Bool.and_eq_true_iff.1 agrees).1]
    · rcases mem_updateFirst hcell' with hcell | ⟨cell, hcell, _, rfl⟩
      · exact h.rows cell' hcell rows hrows
      · exact h.rows cell hcell rows hrows
  · exact h.found asked true

/-- A caller that is looked at has rows only that were the answer to a query of its text, and is in
no cell any more when it is done. -/
theorem look {c : ScheduledCaller} (isOpen : c.isOpen = true) (asked : asks n = some sql)
    (outcome : ∀ rows, c.outcome = some (.ok rows) → Shown E d sql rows) {co' : Coalescer}
    {c' : ScheduledCaller} (looked : Schedule.look co n c = (co', c')) :
    co'.Carries E d asks ∧ c'.outcome = c.outcome ∧
      (c'.isOpen = true ∨ (∀ cell ∈ co'.cells, n ∉ cell.queue) ∧
        ∃ result, c'.state = .finished result ∧
          ∀ rows, result = .ok rows → Shown E d sql rows) := by
  rw [Schedule.look, isOpen, Bool.not_true, if_neg Bool.false_ne_true] at looked
  split at looked
  · next rows shared =>
    cases looked
    obtain ⟨cell, found, hrows⟩ := Option.bind_eq_some_iff.1 shared
    have inside : n ∈ cell.queue := by simpa using List.find?_some found
    have hcell := List.mem_of_find?_eq_some found
    have same := h.members cell hcell n inside
    rw [asked] at same
    refine ⟨h.leave, rfl, .inr ⟨fun _ => not_mem_leave, _, rfl, fun rows' same' => ?_⟩⟩
    cases same'
    exact Option.some.inj same ▸ h.rows cell hcell rows hrows
  · split at looked
    · split at looked
      · cases looked
        exact ⟨h, rfl, .inl rfl⟩
      · next rows ended =>
        cases looked
        refine ⟨h.succeed asked (outcome rows ended), rfl,
          .inr ⟨fun _ => not_mem_leave, _, rfl, fun rows' same => ?_⟩⟩
        cases same
        exact outcome rows ended
      · cases looked
        exact ⟨h.leave, rfl, .inr ⟨fun _ => not_mem_leave, _, rfl,
          fun _ impossible => (by cases impossible)⟩⟩
    · cases looked
      exact ⟨h, rfl, .inl isOpen⟩

end Carries

end Coalescer

namespace JoinedRead

variable {E : Event → Prop} {settings : Settings}

/-- The text that a read of a join has asked for. -/
def asks (d : Dialect) : JoinedRead α → Option String
  | .asking _ s _ => some (s.text d)
  | _ => none

/-- A read of a join that keeps a session informed from then on. -/
def Informs (E : Event → Prop) (settings : Settings) : JoinedRead α → Prop
  | .start begin => begin.Learns E settings (Reading.Informs E settings)
  | .asking caller s finish => caller.isOpen = true ∧ (Reading.asking s finish).Informs E settings ∧
      ∀ rows, caller.outcome = some (.ok rows) →
        Shown E settings.dialect (s.text settings.dialect) rows
  | .finished _ => True

/-- A coalescer that carries what callers ask, of which one is the read. -/
def Fits (E : Event → Prop) (settings : Settings) (asked : Caller → Option String) (n : Caller)
    (r : Coalescer × JoinedRead α) : Prop :=
  r.1.Carries E settings.dialect (Function.update asked n (r.2.asks settings.dialect)) ∧
  r.2.Informs E settings

variable {asked : Caller → Option String} {co : Coalescer} {n : Caller}

theorem learns_look {caller : ScheduledCaller} {s : Statement} {finish : List Row → Work α}
    (informs : (asking caller s finish).Informs E settings)
    (carries : co.Carries E settings.dialect
      (Function.update asked n (some (s.text settings.dialect)))) :
    (look co n caller s finish).Learns E settings (Fits E settings asked n) := by
  obtain ⟨isOpen, finishes, outcome⟩ := informs
  unfold look
  split
  next co' seen looked =>
  obtain ⟨carries', same, state⟩ := carries.look isOpen (Function.update_self ..) outcome looked
  have done (absent : ∀ cell ∈ co'.cells, n ∉ cell.queue) :
      co'.Carries E settings.dialect (Function.update asked n none) := by
    have left := carries'.update absent none
    rwa [Function.update_idem] at left
  split
  · next rows finished =>
    obtain ⟨absent, result, finished', shown⟩ :=
      state.resolve_left (by simp [ScheduledCaller.isOpen, finished])
    rw [finished] at finished'
    cases finished'
    have settled : (settle (finish rows)).Learns E settings fun read =>
        read.asks settings.dialect = none ∧ read.Informs E settings :=
      (finishes rows (shown rows rfl)).lift.bind fun _ _ => Work.learns_pure ⟨rfl, trivial⟩
    exact settled.bind fun read h => Work.learns_pure ⟨by rw [h.1]; exact done absent, h.2⟩
  · next e finished =>
    obtain ⟨absent, _⟩ := state.resolve_left (by simp [ScheduledCaller.isOpen, finished])
    exact Work.learns_pure ⟨done absent, trivial⟩
  · next notOk notError =>
    have isOpen' : seen.isOpen = true := by
      refine state.resolve_right ?_
      rintro ⟨_, rows | e, finished, _⟩
      · exact notError _ finished
      · exact notOk _ finished
    split
    · refine (Work.learns_query s).lift.bind fun result shown =>
        Work.learns_pure ⟨carries', isOpen', finishes, fun rows hrows => ?_⟩
      obtain ⟨c, happened⟩ := shown rows (Option.some.inj hrows)
      exact ⟨c, s, rfl, happened⟩
    · exact Work.learns_pure ⟨carries', isOpen', finishes,
        fun rows hrows => outcome rows (same ▸ hrows)⟩

/-- A read that asks for nothing is in no cell, and takes a place in one when it starts. -/
theorem learns_turn {read : JoinedRead α} (informs : read.Informs E settings)
    (carries : co.Carries E settings.dialect asked)
    (agrees : asked n = read.asks settings.dialect) :
    (turn co n read).Learns E settings (Fits E settings asked n) := by
  cases read with
  | start begin =>
    have absent : ∀ cell ∈ co.cells, n ∉ cell.queue := by
      intro cell hcell inside
      have asks := carries.members cell hcell n inside
      rw [agrees] at asks
      cases asks
    have ended {result : Except Error α} : Fits E settings asked n (co, .finished result) :=
      ⟨carries.update absent none, trivial⟩
    refine (Work.Learns.lift informs).bind fun outcome begun => ?_
    rcases outcome with e | a | ⟨s, finish⟩
    · exact Work.learns_pure ended
    · exact Work.learns_pure ended
    · refine Work.learns_get_bind fun session same => ?_
      have finishes : (asking ⟨toString n, none, false, .waiting⟩ s finish).Informs E settings :=
        ⟨rfl, begun _ rfl, fun _ impossible => by cases impossible⟩
      refine learns_look finishes ?_
      have asks := carries.update absent (some (s.text settings.dialect))
      have mine : Function.update asked n (some (s.text settings.dialect)) n =
          some (s.bound session.settings.dialect).sql := by
        rw [Function.update_self, same]
        rfl
      split
      · exact asks.enter mine
      · exact asks.found mine false
  | asking caller s finish =>
    refine learns_look informs ?_
    rw [show some (s.text settings.dialect) = asked n from agrees.symm, Function.update_eq_self]
    exact carries
  | finished result =>
    refine Work.learns_pure ⟨?_, trivial⟩
    rw [show (asks settings.dialect (finished result) : Option String) = asked n from agrees.symm,
      Function.update_eq_self]
    exact carries

/-- Reads in turn from a number on, with a coalescer that carries what they ask. -/
structure Follow (E : Event → Prop) (settings : Settings) (asked : Caller → Option String) (n : Nat)
    (r : Coalescer × List (JoinedRead α)) : Prop where
  carries : r.1.Carries E settings.dialect asked
  agrees : ∀ (k : Nat) read, r.2[k]? = some read → asked (n + k) = read.asks settings.dialect
  informs : ∀ read ∈ r.2, read.Informs E settings

theorem learns_round {n : Nat} {reads : List (JoinedRead α)}
    (follow : Follow E settings asked n (co, reads)) :
    (round co n reads).Learns E settings fun r =>
      ∃ asked', (∀ m < n, asked' m = asked m) ∧ Follow E settings asked' n r := by
  induction reads generalizing co n asked with
  | nil => exact Work.learns_pure ⟨asked, fun _ _ => rfl, follow⟩
  | cons read rest ih =>
    obtain ⟨carries, agrees, informs⟩ := follow
    obtain ⟨first, others⟩ := List.forall_mem_cons.1 informs
    refine (learns_turn first carries (agrees 0 read rfl)).bind fun ⟨co', read'⟩ ⟨carries',
      informs'⟩ => ?_
    have next : Follow E settings (Function.update asked n (read'.asks settings.dialect)) (n + 1)
        (co', rest) := by
      refine ⟨carries', fun k later hk => ?_, others⟩
      rw [Function.update_of_ne (show n + 1 + k ≠ n by omega), Nat.add_assoc, Nat.add_comm 1 k]
      exact agrees (k + 1) later hk
    refine (ih next).bind fun ⟨co'', rest'⟩ ⟨asked', same, follow'⟩ =>
      Work.learns_pure ⟨asked', fun m below => ?_, ?_⟩
    · rw [same m (by omega), Function.update_of_ne (Nat.ne_of_lt below)]
    · refine ⟨follow'.carries, fun k later hk => ?_,
        List.forall_mem_cons.2 ⟨informs', follow'.informs⟩⟩
      cases k with
      | zero =>
        cases hk
        rw [Nat.add_zero, same n (by omega), Function.update_self]
      | succ k =>
        rw [← Nat.add_assoc, Nat.add_right_comm]
        exact follow'.agrees k later hk

theorem learns_rounds {reads : List (JoinedRead α)} (follow : Follow E settings asked 0 (co, reads))
    (fuel : Nat) : (rounds co reads fuel).Learns E settings fun _ => True := by
  induction fuel generalizing co reads asked with
  | zero => exact Work.learns_pure trivial
  | succ fuel ih =>
    unfold rounds
    split
    · exact Work.learns_pure trivial
    · refine (learns_round follow).bind ?_
      rintro r ⟨asked', _, follow'⟩
      exact ih follow'

end JoinedRead

theorem Session.learns_joinAll {E : Event → Prop} {settings : Settings}
    {reads : List (Work (Reading α))}
    (informs : ∀ start ∈ reads, start.Learns E settings (Reading.Informs E settings)) :
    (joinAll reads).Learns E settings fun _ => True := by
  have follow : JoinedRead.Follow E settings (fun _ => none) 0 (∅, reads.map .start) := by
    refine ⟨⟨fun _ h => (by cases h), fun _ h => (by cases h)⟩, fun k read hk => ?_,
      fun read hread => ?_⟩
    · obtain ⟨start, _, rfl⟩ := List.mem_map.1 (List.mem_of_getElem? hk)
      rfl
    · obtain ⟨start, hstart, rfl⟩ := List.mem_map.1 hread
      exact informs start hstart
  exact (JoinedRead.learns_rounds follow _).bind fun _ _ => Work.learns_pure trivial

/-! ## Calls that write nothing -/

section Calls

variable {E : Event → Prop} {settings : Settings}

namespace Session

theorem learns_identify (entity : EntityType) (collection : String) (content : Json) :
    (identify entity collection content).Learns E settings fun _ => True := by
  refine Work.learns_get_bind fun session _ => ?_
  dsimp only
  split
  · refine (Work.learns_ofAction _).bind fun id _ => ?_
    exact Work.learns_modify_bind (fun _ => rfl) (Work.learns_pure trivial)
  · exact (Work.learns_ofAction _).bind fun _ _ => Work.learns_pure trivial

theorem learns_save (entity : EntityType) (collection : String) (content : Json) :
    (save entity collection content).Learns E settings fun _ => True := by
  refine (learns_identify entity collection content).bind fun json _ =>
    Work.learns_get_bind fun session _ => ?_
  refine Work.learns_ofExcept_bind fun text _ => ?_
  exact Work.learns_modify_bind (fun _ => rfl) (Work.learns_pure trivial)

theorem learns_delete (entity : EntityType) (collection : String) (content : Json) :
    (delete entity collection content).Learns E settings fun _ => True := by
  refine Work.learns_modify_bind (fun _ => rfl) (Work.learns_get_bind fun session _ => ?_)
  split <;> exact Work.learns_modify fun _ => rfl

theorem learns_rollback : rollback.Learns E settings fun _ => True := by
  refine Work.learns_get_bind fun session _ => ?_
  split
  · exact Work.learns_modify_bind (fun _ => rfl) (Work.learns_ofAction _)
  · exact Work.learns_pure trivial

theorem learns_conclude : conclude.Learns E settings fun _ => True := by
  refine Work.learns_get_bind fun session _ => ?_
  split
  · exact learns_rollback
  · split
    · exact Work.learns_modify_bind (fun _ => rfl) (Work.learns_ofAction _)
    · exact Work.learns_pure trivial

theorem learns_planChange (plan : FlushPlan) (change : Pending) :
    (planChange plan change).Learns E settings fun _ => True := by
  cases change with
  | delete key typeName =>
    refine Work.learns_get_bind fun session _ => (learns_lastStored key).bind fun old _ => ?_
    cases old with
    | none => exact Work.learns_pure trivial
    | some old =>
      exact (Work.learns_ofAction _).bind fun _ _ => Work.learns_ofExcept fun _ _ => trivial
  | save key typeName json content =>
    rw [planChange_save]
    refine Work.learns_get_bind fun session _ => (Work.learns_ofAction _).bind fun ds _ => ?_
    refine Work.Learns.bind (Q := fun _ => True) ?_ fun _ _ =>
      Work.learns_ofExcept fun _ _ => trivial
    split
    · exact Work.learns_pure trivial
    · exact learns_lastStored key

theorem learns_planChanges (plan : FlushPlan) (changes : List Pending) :
    (planChanges plan changes).Learns E settings fun _ => True := by
  induction changes generalizing plan with
  | nil => exact Work.learns_pure trivial
  | cons change changes ih => exact (learns_planChange plan change).bind fun plan _ => ih plan

end Session

/-- The calls that do not flush keep a session informed. -/
theorem Call.learns_work {call : Call} (flush : call ≠ .flush) (saveChanges : call ≠ .saveChanges) :
    call.work.Learns E settings fun _ => True := by
  cases call with
  | save entity collection content =>
    exact (Session.learns_save entity collection content).bind fun _ _ => Work.learns_pure trivial
  | delete entity collection content => exact Session.learns_delete entity collection content
  | read q => exact (Reading.learns_alone q.learns).bind fun _ _ => Work.learns_pure trivial
  | join qs =>
    refine (Session.learns_joinAll fun start hstart => ?_).bind fun _ _ => Work.learns_pure trivial
    obtain ⟨q, _, rfl⟩ := List.mem_map.1 hstart
    exact q.learns
  | flush => exact absurd rfl flush
  | saveChanges => exact absurd rfl saveChanges
  | cancel => exact Work.learns_modify fun _ => rfl
  | close => exact Session.learns_rollback

end Calls

end DocStore

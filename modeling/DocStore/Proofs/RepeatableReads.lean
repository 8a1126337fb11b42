import DocStore.Proofs.Listings

/-!
# Repeatable reads

Several reads of one session may be under way together. Each starts on the session
as it is then, and goes on whenever its rows are there, with whatever others have
come to track by that time; a list may even be materialized row by row while others
go on. What decides is the first content that is tracked: a read that has only
started makes no promise but that it returns what the session shows in the end, and
what a session shows no read changes.
-/

set_option autoImplicit false

namespace DocStore

variable {α β : Type}

/-- A document that a read returned, as an entity of a type. -/
structure Returned where
  entity : EntityType
  key : DocKey
  content : Json

namespace Returned

variable {r r' : Returned} {session session' : Session}

/-- The content is what the session shows of the document, read as the entity. -/
def Shown (r : Returned) (session : Session) : Prop :=
  ∃ json, session.shown r.key = some json ∧ r.entity.read json = .ok r.content

theorem Shown.loads (shown : r.Shown session) (loads : session.Loads session') :
    r.Shown session' := by
  obtain ⟨json, has, reads⟩ := shown
  exact ⟨json, loads.shown has, reads⟩

/-- A session shows one content of a document. -/
theorem Shown.content_eq (shown : r.Shown session) (shown' : r'.Shown session)
    (entity : r.entity = r'.entity) (key : r.key = r'.key) : r.content = r'.content := by
  obtain ⟨json, has, reads⟩ := shown
  obtain ⟨json', has', reads'⟩ := shown'
  rw [key, has'] at has
  obtain rfl := Option.some.inj has
  rw [entity, reads'] at reads
  exact (Except.ok.inj reads).symm

/-- The documents of rows, each with what it was materialized as. -/
def ofRows (entity : EntityType) (collection : String) (rows : List Row) (es : List Json) :
    List Returned :=
  (rows.zip es).filterMap fun p => (Document.ofRow p.1).toOption.map fun doc =>
    ⟨entity, ⟨collection, doc.id⟩, p.2⟩

section OfRows

variable {entity : EntityType} {collection : String} {row : Row} {rows rows' : List Row} {e : Json}
  {es es' : List Json}

theorem ofRows_cons : ofRows entity collection (row :: rows) (e :: es) =
    ofRows entity collection [row] [e] ++ ofRows entity collection rows es :=
  List.filterMap_append (l := [(row, e)])

theorem ofRows_append (h : rows.length = es.length) :
    ofRows entity collection (rows ++ rows') (es ++ es') =
    ofRows entity collection rows es ++ ofRows entity collection rows' es' := by
  rw [ofRows, List.zip_append h, List.filterMap_append]
  rfl

theorem mem_ofRows_singleton {r : Returned} {doc : Document} (hdoc : Document.ofRow row = .ok doc) :
    r ∈ ofRows entity collection [row] [e] ↔ r = ⟨entity, ⟨collection, doc.id⟩, e⟩ := by
  rw [ofRows, List.zip_cons_cons, List.zip_nil_left, List.filterMap_cons, hdoc]
  exact List.mem_singleton

/-- The first entity is that of the first row. -/
theorem mem_of_mem_ofRows_head (h : r ∈ ofRows entity collection rows [e])
    (first : es.head? = some e) : r ∈ ofRows entity collection rows es := by
  cases es with
  | nil => cases first
  | cons e' es =>
    obtain rfl := Option.some.inj first
    cases rows with
    | nil => exact h
    | cons row rows =>
      rw [ofRows_cons] at h ⊢
      exact List.mem_append_left _
        ((List.mem_append.1 h).resolve_right fun h => by cases rows <;> cases h)

end OfRows

end Returned

/-- The documents that a read returns with its answer, from the rows that it was answered from. An
answer that needed no rows is the document that was asked for; one that did is that document if
the row is of its id. -/
def Read.returned : Read → List Row → ReadAnswer → List Returned
  | .get entity collection id, [], .one (some e) => [⟨entity, ⟨collection, id⟩, e⟩]
  | .get entity collection id, row :: _, .one (some e) =>
    (Returned.ofRows entity collection [row] [e]).filter fun r => r.key.id = id
  | .documents q, found, .many es => Returned.ofRows q.entity q.collection found es
  | .firstDocument q, found, .one (some e) => Returned.ofRows q.entity q.collection found [e]
  | _, _, _ => []

/-- The first document is that of the first row. -/
theorem Read.mem_of_mem_returned_first {q : DocumentQuery} {rows : List Row} {es : List Json}
    {r : Returned} (mem : r ∈ (firstDocument q).returned rows (.one es.head?)) :
    r ∈ Returned.ofRows q.entity q.collection rows es := by
  cases head : es.head? with
  | none =>
    rw [head] at mem
    cases mem
  | some e =>
    rw [head] at mem
    exact Returned.mem_of_mem_ofRows_head mem head

/-! ## Work that only loads -/

namespace Work

/-- Every run on a session only loads documents, and what it answers holds of the
session that it leaves. -/
def Reveals (Q : α → Session → Prop) (w : Work α) (session : Session) : Prop :=
  ∀ events result session', Emits w session events result session' →
    session.Loads session' ∧ ∀ x, result = .ok x → Q x session'

variable {Q : α → Session → Prop} {R : β → Session → Prop} {session : Session}

theorem reveals_pure {x : α} (h : Q x session) : (pure x : Work α).Reveals Q session := by
  intro events result session' run
  obtain ⟨_, rfl, rfl⟩ := emits_pure_iff.1 run
  refine ⟨.refl _, fun y same => ?_⟩
  cases same
  exact h

theorem reveals_ofExcept {e : Except Error α} (h : ∀ x, e = .ok x → Q x session) :
    (ofExcept e).Reveals Q session := by
  intro events result session' run
  obtain ⟨rfl, ran⟩ := emits_ofAction_iff.1 run
  obtain ⟨_, rfl⟩ : events = [] ∧ result = e := Program.emits_done_iff.1 ran
  exact ⟨.refl _, h⟩

theorem Reveals.bind {w : Work α} {f : α → Work β} (hw : w.Reveals Q session)
    (hf : ∀ x middle, session.Loads middle → Q x middle → (f x).Reveals R middle) :
    (w >>= f).Reveals R session := by
  intro events result session' run
  rcases emits_bind_iff.1 run with ⟨error, rfl, failed⟩ | ⟨x, middle, first, rest, rfl, began, run⟩
  · exact ⟨(hw _ _ _ failed).1, fun _ same => by cases same⟩
  · obtain ⟨loads, holds⟩ := hw _ _ _ began
    obtain ⟨loads', holds'⟩ := hf x middle loads (holds x rfl) _ _ _ run
    exact ⟨loads.trans loads', holds'⟩

theorem reveals_get_bind {f : Session → Work β} (h : (f session).Reveals R session) :
    (get >>= f).Reveals R session :=
  fun _ _ _ run => h _ _ _ (emits_get_bind_iff.1 run)

theorem reveals_ofExcept_bind {e : Except Error α} {f : α → Work β}
    (h : ∀ x, e = .ok x → (f x).Reveals R session) : (ofExcept e >>= f).Reveals R session := by
  intro events result session' run
  rcases emits_bind_iff.1 run with ⟨error, rfl, failed⟩ | ⟨x, middle, first, rest, rfl, began, ran⟩
  · obtain ⟨rfl, _⟩ := emits_ofAction_iff.1 failed
    exact ⟨.refl _, fun _ same => by cases same⟩
  · obtain ⟨rfl, answered⟩ := emits_ofAction_iff.1 began
    obtain ⟨_, same⟩ : first = [] ∧ .ok x = e := Program.emits_done_iff.1 answered
    exact h x same.symm _ _ _ ran

theorem Reveals.mono {Q' : α → Session → Prop} {w : Work α} (hw : w.Reveals Q session)
    (weaker : ∀ x session', Q x session' → Q' x session') : w.Reveals Q' session := by
  intro events result session' run
  obtain ⟨loads, holds⟩ := hw _ _ _ run
  exact ⟨loads, fun x same => weaker x session' (holds x same)⟩

/-- Only the run on the session matters. -/
theorem Reveals.congr {w w' : Work α} (same : w.run.run session = w'.run.run session)
    (hw : w'.Reveals Q session) : w.Reveals Q session := by
  intro events result session' run
  rw [Emits, same] at run
  exact hw _ _ _ run

theorem Reveals.map {f : α → β} {w : Work α}
    (hw : w.Reveals (fun x session' => R (f x) session') session) :
    (f <$> w).Reveals R session := by
  rw [map_eq_pure_bind]
  exact hw.bind fun x middle _ h => reveals_pure h

/-- What leaves the session as it is loads nothing. -/
theorem Ensures.reveals {P : Request → Prop} {Q : α → Prop} {w : Work α} (hw : w.Ensures P id Q) :
    w.Reveals (fun x _ => Q x) session := by
  intro events result session' run
  obtain ⟨_, same, holds⟩ := hw.of_emits run
  obtain rfl : session' = session := same
  exact ⟨.refl _, holds⟩

end Work

/-- What a started read returns, now or from rows that are there later, is shown by the
session at that time. -/
def Reading.Reveals (returned : List Row → α → List Returned) (session : Session) : Reading α → Prop
  | .answered a => ∀ r ∈ returned [] a, r.Shown session
  | .asking _ finish => ∀ session', session.Loads session' → ∀ rows,
    (finish rows).Reveals (fun a last => ∀ r ∈ returned rows a, r.Shown last) session'

theorem Reading.Reveals.loads {returned : List Row → α → List Returned} {session session' : Session}
    {reading : Reading α} (reveals : reading.Reveals returned session)
    (loads : session.Loads session') : reading.Reveals returned session' := by
  cases reading with
  | answered a => exact fun r mem => (reveals r mem).loads loads
  | asking s finish => exact fun last loads' => reveals last (loads.trans loads')

theorem Reading.Reveals.map {returned : List Row → β → List Returned} {session : Session}
    {f : α → β} {reading : Reading α}
    (reveals : reading.Reveals (fun rows a => returned rows (f a)) session) :
    (reading.map f).Reveals returned session := by
  cases reading with
  | answered a => exact reveals
  | asking s finish =>
    exact fun session' loads rows => (reveals session' loads rows).bind fun a last _ shown =>
      Work.reveals_pure shown

namespace Session

variable {session : Session} {entity : EntityType} {collection : String} {row : Row}
  {rows : List Row}

/-! ## Each read -/

/-- The content of a document is from then on the one tracked. -/
theorem reveals_track (collection : String) (doc : Document) : (track collection doc).Reveals
    (fun json session' => (session'.tracked.get? ⟨collection, doc.id⟩).map Tracked.json = some json)
    session := by
  refine fun events result session' run => ?_
  rw [Work.Emits, run_track] at run
  obtain ⟨_, same⟩ := Program.emits_done_iff.1 run
  split at same
  · next known tracked =>
    cases same
    refine ⟨.refl _, fun json same => ?_⟩
    cases same
    rw [tracked]
    rfl
  · next unknown =>
    split at same
    · cases same
      exact ⟨.refl _, fun _ same => by cases same⟩
    · next json _ =>
      cases same
      refine ⟨⟨_, rfl, fun key t known => ?_⟩, fun json' same => ?_⟩
      · have apart : ⟨collection, doc.id⟩ ≠ key := by
          rintro rfl
          rw [unknown] at known
          cases known
        rw [Assoc.get?_insert, if_neg apart, known]
      · cases same
        rw [Assoc.get?_insert, if_pos rfl]
        rfl

theorem Unsaved.loads {key : DocKey} {session' : Session} (unsaved : session.Unsaved key)
    (loads : session.Loads session') : session'.Unsaved key := by
  intro key' typeName json content
  rw [loads.pendingChange_eq]
  exact unsaved key' typeName json content

/-- So a document of which no save waits is shown. -/
theorem reveals_shown {doc : Document} (unsaved : session.Unsaved ⟨collection, doc.id⟩) :
    (track collection doc).Reveals
    (fun json session' => session'.shown ⟨collection, doc.id⟩ = some json) session := by
  refine fun events result session' run => ?_
  obtain ⟨loads, tracked⟩ := reveals_track collection doc _ _ _ run
  exact ⟨loads, fun json same => (unsaved.loads loads).shown_eq.trans (tracked json same)⟩

theorem reveals_materialize (entity : EntityType) (collection : String) (row : Row) :
    (materialize entity collection row).Reveals
    (fun e session' => ∀ r ∈ Returned.ofRows entity collection [row] [e], r.Shown session')
    session := by
  refine Work.reveals_ofExcept_bind fun doc hdoc => ?_
  have one {e : Json} {last : Session}
      (shown : Returned.Shown ⟨entity, ⟨collection, doc.id⟩, e⟩ last) :
      ∀ r ∈ Returned.ofRows entity collection [row] [e], r.Shown last := by
    intro r mem
    rw [Returned.mem_ofRows_singleton hdoc] at mem
    exact mem ▸ shown
  refine Work.reveals_get_bind ?_
  split
  · next json content waits =>
    refine Work.reveals_ofExcept fun e reads => ?_
    exact one ⟨json, by rw [shown, waits], reads⟩
  · next unsaved =>
    refine (reveals_shown unsaved).bind fun json middle _ has =>
      Work.reveals_ofExcept fun e reads => ?_
    exact one ⟨json, has, reads⟩

/-- What the rows before came to is shown as it was. -/
theorem reveals_materializeAll (entity : EntityType) (collection : String) (rows : List Row) :
    (materializeAll entity collection rows).Reveals
      (fun es session' => ∀ r ∈ Returned.ofRows entity collection rows es, r.Shown session')
      session := by
  induction rows generalizing session with
  | nil => exact Work.reveals_pure fun r mem => by cases mem
  | cons row rows ih =>
    refine (reveals_materialize entity collection row).bind fun e middle _ first => ?_
    refine (@ih middle).bind fun es last loads rest => Work.reveals_pure fun r mem => ?_
    rw [Returned.ofRows_cons] at mem
    rcases List.mem_append.1 mem with mem | mem
    · exact (first r mem).loads loads
    · exact rest r mem

theorem reveals_found {id : Int64} (unchanged : session.pendingChange ⟨collection, id⟩ = none)
    (rows : List Row) : (found entity ⟨collection, id⟩ rows).Reveals
      (fun e session' => ∀ r ∈ (Read.get entity collection id).returned rows (.one e),
        r.Shown session') session := by
  cases rows with
  | nil => exact Work.reveals_pure fun r mem => by cases mem
  | cons row rest =>
    refine Work.reveals_ofExcept_bind fun doc hdoc => ?_
    split
    · exact Work.reveals_pure fun r mem => by cases mem
    · by_cases same : doc.id = id
      · subst same
        have unsaved : session.Unsaved ⟨collection, doc.id⟩ := fun _ _ _ _ waits => by
          rw [unchanged] at waits
          cases waits
        refine (reveals_shown unsaved).bind fun json middle _ has =>
          Work.reveals_ofExcept_bind fun e reads => ?_
        refine Work.reveals_pure fun r mem => ?_
        rw [(Returned.mem_ofRows_singleton hdoc).1 (List.mem_filter.1 mem).1]
        exact ⟨json, has, reads⟩
      · refine (reveals_track collection doc).bind fun json middle _ _ =>
          Work.reveals_ofExcept_bind fun e _ => ?_
        refine Work.reveals_pure fun r mem => ?_
        obtain ⟨mem, other⟩ := List.mem_filter.1 mem
        rw [(Returned.mem_ofRows_singleton hdoc).1 mem] at other
        exact absurd (of_decide_eq_true other) same

theorem reveals_get (entity : EntityType) (collection : String) (id : Int64) :
    (get entity collection id).Reveals
    (fun reading session' =>
      reading.Reveals (fun rows e => (Read.get entity collection id).returned rows (.one e))
        session')
    session := by
  have shows {json : Json} (has : session.shown ⟨collection, id⟩ = some json) :
      (do let e ← Work.ofExcept (entity.read json)
          pure (.answered (some e)) : Work (Reading (Option Json))).Reveals (fun reading session' =>
        reading.Reveals (fun rows e => (Read.get entity collection id).returned rows (.one e))
          session') session := by
    refine Work.reveals_ofExcept_bind fun e reads => Work.reveals_pure fun r mem => ?_
    rw [List.mem_singleton.1 mem]
    exact ⟨json, has, reads⟩
  refine Work.Reveals.congr (run_get entity ⟨collection, id⟩ session) ?_
  split
  · next waits => exact shows (by rw [shown, waits])
  · exact Work.reveals_pure fun r mem => by cases mem
  · next unchanged =>
    split
    · next known tracked => exact shows (by rw [shown, unchanged, tracked]; rfl)
    · refine Work.reveals_pure fun session' loads rows => reveals_found ?_ rows
      rw [loads.pendingChange_eq, unchanged]

theorem reveals_listDocuments (q : DocumentQuery) : (listDocuments q).Reveals
    (fun reading session' => reading.Reveals (Returned.ofRows q.entity q.collection) session')
    session := by
  have asks : (Work.ofAction (q.statement session.settings)).Reveals (fun _ _ => True) session :=
    (Work.ensures_ofAction (q.ensures_statement Request.hasLookups_any
      session.settings)).reveals.mono fun _ _ _ => trivial
  refine Work.reveals_get_bind (asks.bind fun s middle _ _ => Work.reveals_pure ?_)
  exact fun session' _ rows => reveals_materializeAll q.entity q.collection rows

theorem reveals_firstDocument (q : DocumentQuery) : (firstDocument q).Reveals
    (fun reading session' =>
      reading.Reveals (fun rows e => (Read.firstDocument q).returned rows (.one e)) session')
      session := by
  refine (reveals_listDocuments (q.take 1)).bind fun reading middle _ reveals =>
    Work.reveals_pure (Reading.Reveals.map ?_)
  cases reading with
  | answered es => exact fun r mem => reveals r (Read.mem_of_mem_returned_first (q := q) mem)
  | asking s finish =>
    refine fun session' loads rows =>
      (reveals session' loads rows).mono fun es last shown r mem => ?_
    exact shown r (Read.mem_of_mem_returned_first (q := q) mem)

end Session

/-- What a read returns is shown by the session from then on. -/
theorem Read.reveals (q : Read) (session : Session) :
    q.start.Reveals (fun reading session' => reading.Reveals q.returned session') session := by
  have lookups := Request.hasLookups_any
  -- A read that returns no documents has only to leave the session as it is.
  have leaves {α : Type} {start : Work (Reading α)} {f : α → ReadAnswer}
      (nothing : ∀ rows a, q.returned rows (f a) = [])
      (h : start.Inquires (fun _ => True) id) :
      (Reading.map f <$> start).Reveals (fun reading session' =>
        reading.Reveals q.returned session') session := by
    refine Work.Reveals.map (h.reveals.mono fun reading session' inquires => Reading.Reveals.map ?_)
    cases reading with
    | answered a => exact fun r mem => (List.eq_nil_iff_forall_not_mem.1 (nothing [] a) r mem).elim
    | asking s finish =>
      exact fun session' _ rows => (inquires.2 rows).reveals.mono fun a last _ r mem =>
        (List.eq_nil_iff_forall_not_mem.1 (nothing rows a) r mem).elim
  cases q with
  | get entity collection id =>
    exact Work.Reveals.map ((Session.reveals_get entity collection id).mono fun _ _ reveals =>
      reveals.map)
  | documents q =>
    exact Work.Reveals.map ((Session.reveals_listDocuments q).mono fun _ _ reveals =>
      Reading.Reveals.map reveals)
  | firstDocument q =>
    exact Work.Reveals.map ((Session.reveals_firstDocument q).mono fun _ _ reveals => reveals.map)
  | documentCount q => exact leaves (fun _ _ => rfl) (Session.inquires_countDocuments lookups q)
  | rows q => exact leaves (fun _ _ => rfl) (Session.inquires_listRows q)
  | firstRow q => exact leaves (fun _ _ => rfl) (Session.inquires_firstRow q)
  | rowCount q => exact leaves (fun _ _ => rfl) (Session.inquires_countRows q)
  | compiled q collection args =>
    exact leaves (fun _ _ => rfl) (Session.inquires_runCompiled lookups q collection args)

/-! ## Reads under way over a session -/

/-- A read whose answer is a list of documents: as which entities, of which collection, and
what it answers of them. -/
structure Listing where
  entity : EntityType
  collection : String
  answer : List Json → ReadAnswer

def Read.listing? : Read → Option Listing
  | .documents q => some ⟨q.entity, q.collection, .many⟩
  | .firstDocument q => some ⟨q.entity, q.collection, fun es => .one es.head?⟩
  | _ => none

theorem Read.mem_of_mem_returned {q : Read} {l : Listing} (lists : q.listing? = some l)
    {rows : List Row} {es : List Json} {r : Returned} (mem : r ∈ q.returned rows (l.answer es)) :
    r ∈ Returned.ofRows l.entity l.collection rows es := by
  cases q with
  | documents q =>
    cases lists
    exact mem
  | firstDocument q =>
    cases lists
    exact Read.mem_of_mem_returned_first mem
  | _ => cases lists

/-- A read that is under way. -/
inductive Underway where
  | started (q : Read) (reading : Reading ReadAnswer)
  /-- A list some of whose rows are materialized, and others not yet. -/
  | listing (q : Read) (l : Listing) (rows : List Row) (es : List Json) (left : List Row)

/-- How a read goes on: with the rows that storage answers, the session that it finds and the one
that it leaves, what is still under way of it and what it returned. Storage answers whatever rows it
likes, or fails, and nobody need wait for a read. -/
inductive Underway.Proceeds : List Row → Session → Underway →
    Session → List Underway → List Returned → Prop where
  | stops {session : Session} {u : Underway} : Proceeds [] session u session [] []
  | answers {session : Session} {q : Read} {a : ReadAnswer} :
    Proceeds [] session (.started q (.answered a)) session [] (q.returned [] a)
  | finishes {session session' : Session} {q : Read} {s : Statement}
      {finish : List Row → Work ReadAnswer} {rows : List Row} {events : List Event}
      {a : ReadAnswer} : Work.Emits (finish rows) session events (.ok a) session' →
    Proceeds rows session (.started q (.asking s finish)) session' [] (q.returned rows a)
  | fails {session session' : Session} {q : Read} {s : Statement}
      {finish : List Row → Work ReadAnswer} {rows : List Row} {events : List Event} {e : Error} :
      Work.Emits (finish rows) session events (.error e) session' →
    Proceeds rows session (.started q (.asking s finish)) session' [] []
  | lists {session : Session} {q : Read} {s : Statement} {finish : List Row → Work ReadAnswer}
      {l : Listing} {rows : List Row} :
      q.listing? = some l → Proceeds rows session (.started q (.asking s finish)) session
        [.listing q l [] [] rows] []
  | materializes {session session' : Session} {q : Read} {l : Listing} {rows left : List Row}
      {es : List Json} {row : Row} {events : List Event} {e : Json} :
      Work.Emits (Session.materialize l.entity l.collection row) session events (.ok e) session' →
    Proceeds [] session (.listing q l rows es (row :: left)) session'
      [.listing q l (rows ++ [row]) (es ++ [e]) left] []
  | spoils {session session' : Session} {q : Read} {l : Listing} {rows left : List Row}
      {es : List Json} {row : Row} {events : List Event} {e : Error} :
      Work.Emits (Session.materialize l.entity l.collection row) session events
        (.error e) session' →
    Proceeds [] session (.listing q l rows es (row :: left)) session' [] []
  | listed {session : Session} {q : Read} {l : Listing} {rows : List Row} {es : List Json} :
    Proceeds [] session (.listing q l rows es []) session [] (q.returned rows (l.answer es))

/-- A session with the reads that are under way over it, and what the finished ones returned. -/
structure Reads where
  session : Session
  underway : List Underway
  returned : List Returned

namespace Reads

/-- No read has started yet. -/
def idle (session : Session) : Reads := ⟨session, [], []⟩

/-- A read starts, or one that is under way goes on. -/
inductive Step : Reads → Reads → Prop where
  | starts {session session' : Session} {us : List Underway} {rs : List Returned} {q : Read}
      {events : List Event} {reading : Reading ReadAnswer} :
      Work.Emits q.start session events (.ok reading) session' →
    Step ⟨session, us, rs⟩ ⟨session', us ++ [.started q reading], rs⟩
  | fails {session session' : Session} {us : List Underway} {rs : List Returned} {q : Read}
      {events : List Event} {e : Error} : Work.Emits q.start session events (.error e) session' →
        Step ⟨session, us, rs⟩ ⟨session', us, rs⟩
  | proceeds {rows : List Row} {session session' : Session} {before after us : List Underway}
      {u : Underway} {rs rs' : List Returned} : u.Proceeds rows session session' us rs' →
    Step ⟨session, before ++ u :: after, rs⟩ ⟨session', before ++ us ++ after, rs ++ rs'⟩

/-- Any number of reads, interleaved in any way. -/
abbrev Steps : Reads → Reads → Prop := Relation.ReflTransGen Step

/-- Row by row with nothing in between, a list is materialized as it is at once. -/
theorem steps_of_materializeAll {session session' : Session} {before after : List Underway}
    {rs : List Returned} {q : Read} {l : Listing} {rows left : List Row} {es es' : List Json}
    {events : List Event}
    (h : Work.Emits (Session.materializeAll l.entity l.collection left) session events
      (.ok es') session') :
    Steps ⟨session, before ++ .listing q l rows es left :: after, rs⟩
      ⟨session', before ++ .listing q l (rows ++ left) (es ++ es') [] :: after, rs⟩ := by
  induction left generalizing session rows es es' events with
  | nil =>
    obtain ⟨_, same, rfl⟩ := Work.emits_pure_iff.1 h
    cases same
    rw [List.append_nil, List.append_nil]
  | cons row left ih =>
    obtain ⟨e, middle, _, _, _, first, h⟩ := Work.emits_ok_bind_iff.1 h
    obtain ⟨es', last, _, _, _, rest, h⟩ := Work.emits_ok_bind_iff.1 h
    obtain ⟨_, same, rfl⟩ := Work.emits_pure_iff.1 h
    cases same
    have materialized := @Step.proceeds _ _ _ before after _ _ rs _
      (@Underway.Proceeds.materializes _ _ q l rows left es _ _ _ first)
    rw [List.append_cons rows, List.append_cons es]
    refine .head ?_ (ih rest)
    simpa using materialized

end Reads

/-- What the read will return the session shows by then. -/
def Underway.Fits (session : Session) : Underway → Prop
  | .started q reading => reading.Reveals q.returned session
  | .listing q l rows es _ => q.listing? = some l ∧ rows.length = es.length ∧
    ∀ r ∈ Returned.ofRows l.entity l.collection rows es, r.Shown session

theorem Underway.Fits.loads {session session' : Session} {u : Underway} (fits : u.Fits session)
    (loads : session.Loads session') : u.Fits session' := by
  cases u with
  | started q reading => exact Reading.Reveals.loads fits loads
  | listing q l rows es left => exact ⟨fits.1, fits.2.1, fun r mem => (fits.2.2 r mem).loads loads⟩

/-- A read that goes on only loads documents, and returns what the session then shows. -/
theorem Underway.Fits.proceeds {rows : List Row} {session session' : Session} {u : Underway}
    {us : List Underway} {rs : List Returned} (fits : u.Fits session)
    (h : u.Proceeds rows session session' us rs) :
    session.Loads session' ∧ (∀ u ∈ us, u.Fits session') ∧ ∀ r ∈ rs, r.Shown session' := by
  have none {session : Session} : ∀ u ∈ ([] : List Underway), u.Fits session :=
    fun _ mem => by cases mem
  have nothing {session : Session} : ∀ r ∈ ([] : List Returned), r.Shown session :=
    fun _ mem => by cases mem
  cases h with
  | stops => exact ⟨.refl _, none, nothing⟩
  | answers => exact ⟨.refl _, none, fits⟩
  | finishes run =>
    obtain ⟨loads, shown⟩ := fits _ (.refl _) _ _ _ _ run
    exact ⟨loads, none, shown _ rfl⟩
  | fails run => exact ⟨(fits _ (.refl _) _ _ _ _ run).1, none, nothing⟩
  | lists lists =>
    exact ⟨.refl _, List.forall_mem_singleton.2 ⟨lists, rfl, fun r mem => by cases mem⟩, nothing⟩
  | materializes run =>
    obtain ⟨lists, same, shown⟩ := fits
    obtain ⟨loads, last⟩ := Session.reveals_materialize _ _ _ _ _ _ run
    refine ⟨loads, List.forall_mem_singleton.2 ⟨lists, by simp [same], fun r mem => ?_⟩, nothing⟩
    rw [Returned.ofRows_append same] at mem
    rcases List.mem_append.1 mem with mem | mem
    · exact (shown r mem).loads loads
    · exact last _ rfl r mem
  | spoils run => exact ⟨(Session.reveals_materialize _ _ _ _ _ _ run).1, none, nothing⟩
  | listed =>
    obtain ⟨lists, _, shown⟩ := fits
    exact ⟨.refl _, none, fun r mem => shown r (Read.mem_of_mem_returned lists mem)⟩

namespace Reads

variable {session : Session} {x y : Reads}

/-- The session shows all that was returned, and will show all that is going to be. -/
structure Repeatable (x : Reads) : Prop where
  underway : ∀ u ∈ x.underway, u.Fits x.session
  returned : ∀ r ∈ x.returned, r.Shown x.session

theorem Repeatable.step (repeatable : x.Repeatable) (h : Step x y) :
    x.session.Loads y.session ∧ y.Repeatable := by
  obtain ⟨fits, shown⟩ := repeatable
  cases h with
  | @starts _ _ _ _ q _ _ run =>
    obtain ⟨loads, reveals⟩ := q.reveals _ _ _ _ run
    refine ⟨loads, List.forall_mem_append.2 ⟨fun u mem => (fits u mem).loads loads, ?_⟩,
      fun r mem => (shown r mem).loads loads⟩
    exact List.forall_mem_singleton.2 (reveals _ rfl)
  | @fails _ _ _ _ q _ _ run =>
    have loads := (q.reveals _ _ _ _ run).1
    exact ⟨loads, fun u mem => (fits u mem).loads loads, fun r mem => (shown r mem).loads loads⟩
  | proceeds proceeds =>
    obtain ⟨before, h⟩ := List.forall_mem_append.1 fits
    obtain ⟨this, after⟩ := List.forall_mem_cons.1 h
    obtain ⟨loads, still, returned⟩ := this.proceeds proceeds
    refine ⟨loads,
      List.forall_mem_append.2 ⟨List.forall_mem_append.2 ⟨fun u mem =>
        (before u mem).loads loads, still⟩,
      fun u mem => (after u mem).loads loads⟩,
      List.forall_mem_append.2 ⟨fun r mem => (shown r mem).loads loads, returned⟩⟩

theorem Repeatable.steps (repeatable : x.Repeatable) (h : Steps x y) :
    x.session.Loads y.session ∧ y.Repeatable := by
  induction h with
  | refl => exact ⟨.refl _, repeatable⟩
  | tail _ step ih =>
    obtain ⟨loads, repeatable⟩ := ih
    obtain ⟨loads', repeatable'⟩ := repeatable.step step
    exact ⟨loads.trans loads', repeatable'⟩

theorem repeatable_idle (session : Session) : (idle session).Repeatable :=
  ⟨fun _ mem => (by cases mem), fun _ mem => (by cases mem)⟩

/-- Over whatever session and in whatever order reads start and go on, whatever storage answers
them: all that return a document as an entity of one type return the same content, and reads leave a
session as it is but for documents that it did not track. -/
theorem repeatable (started : Steps (idle session) x) (h : Steps x y) :
    (∀ r ∈ y.returned, ∀ r' ∈ y.returned, r.entity = r'.entity →
        r.key = r'.key → r.content = r'.content) ∧
      x.session.Loads y.session := by
  obtain ⟨_, begun⟩ := (repeatable_idle session).steps started
  obtain ⟨loads, shown, returned⟩ := begun.steps h
  exact ⟨fun r mem r' mem' entity key => (returned r mem).content_eq (returned r' mem') entity key,
    loads⟩

end Reads

namespace Counting

def fetching : Read := .get entity "" 7

def fetched : Reading ReadAnswer :=
  Reading.map .one (.asking (opened.documentStatement ⟨"", 7⟩) (Session.found entity ⟨"", 7⟩))

/-- The session once the article is known as one of a day. -/
def knowing (day : Int64) : Session :=
  { opened with tracked := opened.tracked.insert ⟨"", 7⟩ ⟨(dated 7 day).text, dated 7 day, 1⟩ }

theorem emits_fetching : Work.Emits fetching.start opened [] (.ok fetched) opened := by
  have get : Work.Emits (Session.get entity "" 7) opened []
      (.ok (.asking (opened.documentStatement ⟨"", 7⟩)
      (Session.found entity ⟨"", 7⟩))) opened := by
    rw [Work.Emits, Session.run_get entity ⟨"", 7⟩ opened]
    exact .done _
  rw [fetching, Read.start, map_eq_pure_bind]
  exact Work.emits_bind_iff.2 (.inr ⟨_, opened, [], [], rfl, get, .done _⟩)

theorem emits_listing : ∃ s finish,
    Work.Emits (Read.documents articlesOfAnyDay).start opened [] (.ok (.asking s finish)) opened :=
  ⟨_, _, .done _⟩

/-- The article as the reads return it. -/
def seen : Returned := ⟨entity, ⟨"", 7⟩, dated 7 2⟩

/-- Two loads of an article and a list are under way. -/
def racing (s : Statement) (finish : List Row → Work ReadAnswer) : Reads :=
  ⟨opened, [.started fetching fetched, .started fetching fetched,
    .started (.documents articlesOfAnyDay) (.asking s finish)], []⟩

/-- Storage shows the second load the article of day 2, then the list that of day 3, and last the
first load that of day 1. -/
theorem repeatable_racing : ∃ s finish, ∃ x : Reads, Reads.Steps (.idle opened) (racing s finish) ∧
    Reads.Steps (racing s finish) x ∧ x.returned = [seen, seen, seen] ∧
    (∀ r ∈ x.returned, ∀ r' ∈ x.returned, r.entity = r'.entity →
      r.key = r'.key → r.content = r'.content) ∧
    opened.Loads x.session := by
  obtain ⟨s, finish, lists⟩ := emits_listing
  let article : Listing := ⟨entity, "", .many⟩
  have started : Reads.Steps (.idle opened) (racing s finish) :=
    ((Relation.ReflTransGen.single (.starts emits_fetching)).tail (.starts emits_fetching)).tail
      (.starts lists)
  have second : (Underway.started fetching fetched).Proceeds [stored 7 2] opened (knowing 2)
      [] [seen] :=
    @Underway.Proceeds.finishes _ _ _ _ _ [stored 7 2] [] (.one (some (dated 7 2))) (.done _)
  have shown : (Underway.started (.documents articlesOfAnyDay) (.asking s finish)).Proceeds
      [stored 7 3] (knowing 2) (knowing 2)
      [.listing (.documents articlesOfAnyDay) article [] [] [stored 7 3]] [] := .lists rfl
  have materialized :
      (Underway.listing (.documents articlesOfAnyDay) article [] [] [stored 7 3]).Proceeds []
        (knowing 2)
      (knowing 2) [.listing (.documents articlesOfAnyDay) article [stored 7 3] [dated 7 2] []] [] :=
    @Underway.Proceeds.materializes _ _ _ _ _ _ _ _ [] (dated 7 2) (.done _)
  have first : (Underway.started fetching fetched).Proceeds [stored 7 1] (knowing 2) (knowing 2)
      [] [seen] :=
    @Underway.Proceeds.finishes _ _ _ _ _ [stored 7 1] [] (.one (some (dated 7 2))) (.done _)
  have listed :
      (Underway.listing (.documents articlesOfAnyDay) article [stored 7 3] [dated 7 2] []).Proceeds
        [] (knowing 2)
      (knowing 2) [] [seen] := .listed
  have raced : Reads.Steps (racing s finish) ⟨knowing 2, [], [seen, seen, seen]⟩ :=
    ((((Relation.ReflTransGen.single (@Reads.Step.proceeds _ _ _ [_] [_] _ _ _ _ second)).tail
      (@Reads.Step.proceeds _ _ _ [_] [] _ _ _ _ shown)).tail
      (@Reads.Step.proceeds _ _ _ [_] [] _ _ _ _ materialized)).tail
      (@Reads.Step.proceeds _ _ _ [] [_] _ _ _ _ first)).tail
      (@Reads.Step.proceeds _ _ _ [] [] _ _ _ _ listed)
  exact ⟨s, finish, _, started, raced, rfl, Reads.repeatable started raced⟩

end Counting

end DocStore

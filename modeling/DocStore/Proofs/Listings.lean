import DocStore.Proofs.FlushWrites
import DocStore.Proofs.Transparency

/-!
# Lists of documents and loads

A list answers the documents of the rows that storage returns, a load one document
that is asked for by its id. Both show a document that waits to be saved as it is
to be saved, and one that is tracked as it is tracked. Only a load takes notice of
a delete that waits: a list goes on to answer the document.
-/

set_option autoImplicit false

namespace DocStore

def Pending.isDelete : Pending → Bool
  | .save .. => false
  | .delete .. => true

namespace Session

variable {σ τ : Type} {answer : Answerer σ} {s s' : σ} {session session' : Session}
  {entity : EntityType} {collection : String} {key : DocKey} {doc : Document} {row : Row}
  {rows : List Row} {json e : Json} {es : List Json}

/-- A delete of the document waits. -/
def deletes (session : Session) (key : DocKey) : Bool :=
  (session.pendingChange key).any Pending.isDelete

/-- The content that a session has of a document: as it waits to be saved, or
else as it is tracked. -/
def shown (session : Session) (key : DocKey) : Option Json :=
  match session.pendingChange key with
  | some (.save _ _ json _) => some json
  | _ => (session.tracked.get? key).map Tracked.json

/-- A look-up of the document finds it as it was listed, and it is of the type asked for. -/
def Locates (session : Session) (answer : Answerer σ) (s : σ) (entity : EntityType)
    (collection : String) (doc : Document) : Prop :=
  doc.typeName = entity.name ∧ ∃ row rest s',
    answer (.query session.connection (session.documentStatement ⟨collection, doc.id⟩)) s =
        (.ok (row :: rest), s') ∧
      Document.ofRow row = .ok doc

/-- Each entity listed is the one that a load of the document answers, unless a delete of the
document waits: a load then answers that there is none. -/
def Lists (session : Session) (answer : Answerer σ) (s : σ) (entity : EntityType)
    (collection : String) (rows : List Row) (es : List Json) : Prop :=
  rows.Forall₂ (fun row e => ∃ doc, Document.ofRow row = .ok doc ∧
    session.load answer s entity ⟨collection, doc.id⟩ =
      .ok (if session.deletes ⟨collection, doc.id⟩ then none else some e)) es

/-! ## Loads -/

/-- Where no delete waits, a document that the session has no content of is unknown to it. -/
theorem unknown_of_shown (undeleted : session.deletes key = false)
    (unknown : session.shown key = none) :
    session.pendingChange key = none ∧ session.tracked.get? key = none := by
  unfold deletes at undeleted
  unfold shown at unknown
  cases waits : session.pendingChange key with
  | none =>
    rw [waits] at unknown
    exact ⟨rfl, Option.map_eq_none_iff.1 unknown⟩
  | some change =>
    rw [waits] at undeleted unknown
    cases change with
    | save => cases unknown
    | delete => cases undeleted

/-- A document whose delete waits is not there. -/
theorem load_of_deletes (deleted : session.deletes key = true) :
    session.load answer s entity key = .ok none := by
  unfold deletes at deleted
  cases waits : session.pendingChange key with
  | none =>
    rw [waits] at deleted
    cases deleted
  | some change =>
    rw [waits] at deleted
    cases change with
    | save => cases deleted
    | delete =>
      have begun : (get entity key.collection key.id).run.run session =
          (pure (.answered none) : Work (Reading (Option Json))).run.run session := by
        rw [run_get, waits]
      rw [load, Reading.alone, Work.run_bind, begun]
      rfl

/-- What a session has of a document it reads without asking. -/
theorem load_of_shown (undeleted : session.deletes key = false)
    (has : session.shown key = some json) :
    session.load answer s entity key = some <$> entity.read json := by
  unfold deletes at undeleted
  unfold shown at has
  cases waits : session.pendingChange key with
  | none =>
    rw [waits] at has
    obtain ⟨known, tracked, rfl⟩ := Option.map_eq_some_iff.1 has
    exact load_of_tracked waits tracked
  | some change =>
    rw [waits] at undeleted has
    cases change with
    | delete => cases undeleted
    | save key' typeName json' content =>
      cases has
      have begun : (get entity key.collection key.id).run.run session =
          (do let e ← Work.ofExcept (entity.read json)
              pure (.answered (some e)) : Work (Reading (Option Json))).run.run session := by
        rw [run_get, waits]
      rw [load, Reading.alone, Work.run_bind, begun]
      cases entity.read json <;> rfl

/-- A document that the session does not know is read as storage shows it. -/
theorem Locates.load (finds : session.Locates answer s entity collection doc)
    (undeleted : session.deletes ⟨collection, doc.id⟩ = false)
    (unknown : session.shown ⟨collection, doc.id⟩ = none) :
    session.load answer s entity ⟨collection, doc.id⟩ =
      some <$> (session.settings.serializer.deserialize doc.content >>= entity.read) := by
  obtain ⟨same, row, rest, s', found, shows⟩ := finds
  obtain ⟨unchanged, untracked⟩ := unknown_of_shown undeleted unknown
  rw [load_of_stored unchanged untracked found shows, if_pos same]

/-! ## Lists -/

theorem Loads.pendingChange_eq (loads : session.Loads session') (key : DocKey) :
    session'.pendingChange key = session.pendingChange key := by
  obtain ⟨_, rfl, _⟩ := loads
  rfl

/-- Loading documents changes nothing that is shown. -/
theorem Loads.shown (loads : session.Loads session') (has : session.shown key = some json) :
    session'.shown key = some json := by
  unfold Session.shown at has ⊢
  rw [loads.pendingChange_eq]
  split at has
  · exact has
  · obtain ⟨known, tracked, rfl⟩ := Option.map_eq_some_iff.1 has
    rw [loads.get? tracked]
    rfl

/-- Content that a session came to have of a document from one of some rows. -/
def Gained (session : Session) (collection : String) (rows : List Row) (key : DocKey)
    (json : Json) : Prop :=
  session.shown key = none ∧ ∃ row ∈ rows, ∃ doc, Document.ofRow row = .ok doc ∧
  key = ⟨collection, doc.id⟩ ∧ session.settings.serializer.deserialize doc.content = .ok json

/-- No save of the document waits. -/
def Unsaved (session : Session) (key : DocKey) : Prop :=
  ∀ key' typeName json content, session.pendingChange key ≠ some (.save key' typeName json content)

theorem Unsaved.shown_eq (unsaved : session.Unsaved key) :
    session.shown key = (session.tracked.get? key).map Tracked.json := by
  unfold shown
  split
  · next waits => exact absurd waits (unsaved _ _ _ _)
  · rfl

/-- A document is shown as it is tracked anew, if no save of it waits. -/
theorem Unsaved.shown_insert (unsaved : session.Unsaved key) (t : Tracked) (key' : DocKey) :
    { session with tracked := session.tracked.insert key t }.shown key' =
      if key = key' then some t.json else session.shown key' := by
  by_cases same : key = key'
  · subst same
    have unsaved' : { session with tracked := session.tracked.insert key t }.Unsaved key := unsaved
    rw [unsaved'.shown_eq, Assoc.get?_insert, if_pos rfl, if_pos rfl]
    rfl
  · rw [if_neg same, shown, shown, Assoc.get?_insert, if_neg same]
    rfl

/-- A document is shown as it was tracked before or is tracked now, if no save of it waits. -/
theorem shows_of_track (unsaved : session.Unsaved ⟨collection, doc.id⟩)
    (hdoc : Document.ofRow row = .ok doc)
    (h : Work.Yields answer (track collection doc) session s json session' s') :
    session.Loads session' ∧ session'.shown ⟨collection, doc.id⟩ = some json ∧
      ∀ key json, session'.shown key = some json → session.shown key = some json ∨
        session.Gained collection [row] key json := by
  unfold Work.Yields at h
  rw [run_track, Program.run_pure] at h
  split at h
  · next known tracked =>
    cases h
    exact ⟨.refl _, by rw [unsaved.shown_eq, tracked]; rfl, fun _ _ => .inl⟩
  · next untracked =>
    split at h
    · cases h
    · next json deserialized =>
      cases h
      refine ⟨⟨_, rfl, fun key t known => ?_⟩, by rw [unsaved.shown_insert, if_pos rfl],
        fun key json' has => ?_⟩
      · have apart : ⟨collection, doc.id⟩ ≠ key := by
          rintro rfl
          rw [untracked] at known
          cases known
        rw [Assoc.get?_insert, if_neg apart, known]
      · rw [unsaved.shown_insert] at has
        split at has
        · next same =>
          cases has
          subst same
          exact .inr ⟨by rw [unsaved.shown_eq, untracked]; rfl, row, List.mem_singleton.2 rfl, doc,
            hdoc, rfl, deserialized⟩
        · exact .inl has

/-- A row is materialized as the session has its document from then on; only of that document
has it more than before. -/
theorem shows_of_materialize
  (h : Work.Yields answer (materialize entity collection row) session s e session' s') :
    session.Loads session' ∧
    (∃ doc json, Document.ofRow row = .ok doc ∧ session'.shown ⟨collection, doc.id⟩ = some json ∧
      entity.read json = .ok e) ∧
      ∀ key json, session'.shown key = some json → session.shown key = some json ∨
        session.Gained collection [row] key json := by
  obtain ⟨doc, hdoc, h⟩ := Work.yields_ofExcept_bind_iff.1 h
  have h := Work.yields_get_bind_iff.1 h
  split at h
  · next waits =>
    obtain ⟨reads, rfl, rfl⟩ := Work.yields_ofExcept_iff.1 h
    exact ⟨.refl _, ⟨doc, _, hdoc, by rw [shown, waits], reads⟩, fun _ _ => .inl⟩
  · next unsaved =>
    obtain ⟨json, session₁, s₁, tracked, h⟩ := Work.yields_bind_iff.1 h
    obtain ⟨reads, rfl, rfl⟩ := Work.yields_ofExcept_iff.1 h
    obtain ⟨loads, has, gained⟩ := shows_of_track unsaved hdoc tracked
    exact ⟨loads, ⟨doc, json, hdoc, has, reads⟩, gained⟩

/-- Rows are materialized as the session has their documents in the end; only of these documents
has it more than before. -/
theorem shows_of_materializeAll
  (h : Work.Yields answer (materializeAll entity collection rows) session s es session' s') :
    session.Loads session' ∧ rows.Forall₂ (fun row e => ∃ doc json, Document.ofRow row = .ok doc ∧
      session'.shown ⟨collection, doc.id⟩ = some json ∧ entity.read json = .ok e) es ∧
      ∀ key json, session'.shown key = some json → session.shown key = some json ∨
        session.Gained collection rows key json := by
  induction rows generalizing session s es with
  | nil =>
    obtain ⟨rfl, rfl, rfl⟩ := Work.yields_pure_iff.1 h
    exact ⟨.refl _, .nil, fun _ _ => .inl⟩
  | cons row rows ih =>
    obtain ⟨e, middle, s₁, first, h⟩ := Work.yields_bind_iff.1 h
    obtain ⟨es', last, s₂, rest, h⟩ := Work.yields_bind_iff.1 h
    obtain ⟨rfl, rfl, rfl⟩ := Work.yields_pure_iff.1 h
    obtain ⟨loads, ⟨doc, json, hdoc, has, reads⟩, gained⟩ := shows_of_materialize first
    obtain ⟨loads', listed, gained'⟩ := ih rest
    refine ⟨loads.trans loads', .cons ⟨doc, json, hdoc, loads'.shown has, reads⟩ listed,
      fun key json' has' => ?_⟩
    rcases gained' key json' has' with has' | ⟨unknown, row', mem, doc', hdoc', rfl, deserialized⟩
    · rcases gained key json' has' with has' | ⟨unknown, row', mem, found⟩
      · exact .inl has'
      · rw [List.mem_singleton.1 mem] at found
        exact .inr ⟨unknown, row, List.mem_cons_self, found⟩
    · have unknown' : session.shown ⟨collection, doc'.id⟩ = none := by
        cases known : session.shown ⟨collection, doc'.id⟩ with
        | none => rfl
        | some known' => rw [loads.shown known] at unknown; cases unknown
      rw [loads.settings_eq] at deserialized
      exact .inr ⟨unknown', row', List.mem_cons_of_mem _ mem, doc', hdoc', rfl, deserialized⟩

/-- What a session shows is what it loads, or that nothing is there if a delete waits. -/
theorem load_of_read (has : session.shown key = some json) (reads : entity.read json = .ok e) :
    session.load answer s entity key = .ok (if session.deletes key then none else some e) := by
  cases deleted : session.deletes key with
  | true => exact load_of_deletes deleted
  | false => rw [load_of_shown deleted has, reads]; rfl

/-- A list begins with a query, and finishes by materializing its rows. -/
theorem asking_of_listDocuments {q : DocumentQuery} {reading : Reading (List Json)}
    (h : Work.Yields answer (listDocuments q) session s reading session' s') :
    session' = session ∧
    ∃ statement, reading = .asking statement (materializeAll q.entity q.collection) := by
  have h := Work.yields_get_bind_iff.1 h
  obtain ⟨statement, s₁, _, h⟩ := Work.yields_ofAction_bind_iff.1 h
  obtain ⟨rfl, rfl, _⟩ := Work.yields_pure_iff.1 h
  exact ⟨rfl, statement, rfl⟩

/-- A list that has begun, on whatever session, finishes with whatever rows are returned, and on
whatever session by then. Every entity that it answers is the one that a load of the document
answers afterwards, and, where storage finds a document that the session did not know as it was
listed, the one that a load would have answered before: unless a delete of the document waits, for
then a load answers that there is none. -/
theorem load_of_listed {q : DocumentQuery} {session₀ session₁ : Session} {s₀ s₁ : σ}
    {statement : Statement} {finish : List Row → Work (List Json)}
    (begins : Work.Yields answer (listDocuments q) session₀ s₀ (.asking statement finish)
      session₁ s₁)
    (lists : Work.Yields answer (finish rows) session s es session' s')
    (answer' : Answerer τ) (t : τ) : session'.Lists answer' t q.entity q.collection rows es ∧
      ((∀ row ∈ rows, ∀ doc, Document.ofRow row = .ok doc →
        session.deletes ⟨q.collection, doc.id⟩ = false →
          session.shown ⟨q.collection, doc.id⟩ = none →
            session.Locates answer' t q.entity q.collection doc) →
        session.Lists answer' t q.entity q.collection rows es) := by
  obtain ⟨_, _, same⟩ := asking_of_listDocuments begins
  cases same
  obtain ⟨loads, listed, gained⟩ := shows_of_materializeAll lists
  refine ⟨listed.imp fun row e ⟨doc, json, hdoc, has, reads⟩ => ⟨doc, hdoc, load_of_read has reads⟩,
    fun finds => ?_⟩
  refine listed.imp fun row e ⟨doc, json, hdoc, has, reads⟩ => ⟨doc, hdoc, ?_⟩
  rcases gained _ json has with known | ⟨unknown, row', mem, doc', hdoc', same, deserialized⟩
  · exact load_of_read known reads
  · cases deleted : session.deletes ⟨q.collection, doc.id⟩ with
    | true => exact load_of_deletes deleted
    | false =>
      rw [same] at deleted unknown ⊢
      rw [(finds row' mem doc' hdoc' deleted unknown).load deleted unknown, deserialized]
      change some <$> q.entity.read json = _
      rw [reads]
      rfl

end Session

namespace Counting

/-- A memory in which documents can be listed as well: whatever is asked for, it
answers all that are there. -/
def listing : Answerer Memory
  | .query _ (.query (.documents source _ _) _), m => (.ok (m.tables source.table), m)
  | r, m => store.answer r m

def stored (id day : Int64) : Row :=
  Row.document id ⟨"Article", ⟨(dated id day).text, dated id day, 1⟩⟩

/-- Two articles are stored. -/
def both : Memory :=
  { (∅ : Memory) with tables := fun t => if t = "Document" then [stored 7 1, stored 8 2] else [] }

/-- The first article was read, and its delete waits. -/
def striking : Session.Run settings :=
  .recorded listing [.read (.get entity "" 7), .delete entity "" (dated 7 1)] (by simp) both

def articlesOfAnyDay : DocumentQuery := .ofEntity entity ""

def begun : (Except Error (Reading (List Json)) × Session) × Memory :=
  Program.run listing ((Session.listDocuments articlesOfAnyDay).run.run striking.last) both

def ended : (Except Error (List Json) × Session) × Memory :=
  Program.run listing
    ((Session.materializeAll entity "" [stored 7 1, stored 8 2]).run.run striking.last) both

def listed : List Json := ended.1.1.toOption.getD []

/-- A list answers both articles before the flush that deletes the first, whereas a load already
answers that it is not there. -/
theorem load_of_listed_striking : listed.map Json.text = [(dated 7 1).text, (dated 8 2).text] ∧
    ended.1.2.Lists listing both entity "" [stored 7 1, stored 8 2] listed ∧
    striking.last.Lists listing both entity "" [stored 7 1, stored 8 2] listed ∧
    striking.last.load listing both entity ⟨"", 7⟩ = .ok none := by
  have begins : Work.Yields listing (Session.listDocuments articlesOfAnyDay) striking.last both _
      begun.1.2 begun.2 :=
    Work.yields_of_isSome begun.eq_def.symm (by decide +kernel) (.answered [])
  have lists : Work.Yields listing (Session.materializeAll entity "" [stored 7 1, stored 8 2])
      striking.last both listed
    ended.1.2 ended.2 := Work.yields_of_isSome ended.eq_def.symm (by decide +kernel) []
  have struck : striking.last.deletes ⟨"", 7⟩ = true := rfl
  have found :
      listing (.query striking.last.connection (striking.last.documentStatement ⟨"", 8⟩)) both =
      (.ok [stored 8 2], both) := by rfl
  obtain ⟨_, statement, asking⟩ := Session.asking_of_listDocuments begins
  rw [asking] at begins
  obtain ⟨after, before⟩ := Session.load_of_listed begins lists listing both
  refine ⟨by decide +kernel, after, before fun row mem doc hdoc undeleted _ => ?_,
    Session.load_of_deletes struck⟩
  simp only [List.mem_cons, List.not_mem_nil, or_false] at mem
  rcases mem with rfl | rfl
  · cases (Document.ofRow_document 7 _).symm.trans hdoc
    rw [show articlesOfAnyDay.collection = "" from rfl, struck] at undeleted
    cases undeleted
  · cases (Document.ofRow_document 8 _).symm.trans hdoc
    exact ⟨rfl, stored 8 2, [], both, found, Document.ofRow_document 8 _⟩

end Counting

end DocStore

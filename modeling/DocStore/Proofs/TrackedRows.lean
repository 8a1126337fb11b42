import DocStore.Proofs.Knowledge

/-!
# What is tracked of rows

A read that finishes makes its session track documents of the rows that it is
answered with, each as it is parsed from its content, and nothing else; and only
reads of documents do. So what holds of the rows that storage returns holds of all
that a session comes to track.
-/

set_option autoImplicit false

namespace DocStore

variable {α β : Type} {settings : Settings} {P : DocKey → Tracked → Prop} {E : Event → Prop}
  {collection : String} {source : Option String} {row : Row} {rows : List Row}

/-- The document of the row, if it is one, and its content is parsed, is tracked
as something of a kind. -/
def Row.Tracks (settings : Settings) (P : DocKey → Tracked → Prop) (collection : String)
    (row : Row) : Prop :=
  ∀ doc json, Document.ofRow row = .ok doc →
    settings.serializer.deserialize doc.content = .ok json →
    P ⟨collection, doc.id⟩ ⟨doc.content, json, doc.version⟩

/-- The collection of whose documents a read returns some. -/
def Read.collection? : Read → Option String
  | .get _ collection _ => some collection
  | .documents q | .firstDocument q => some q.collection
  | _ => none

namespace Session

/-- All that a session of a store tracks is of a kind. -/
structure Tracks (settings : Settings) (P : DocKey → Tracked → Prop)
    (session : Session) : Prop where
  same : session.settings = settings
  all : ∀ key t, session.tracked.get? key = some t → P key t

theorem Tracks.congr {session session' : Session} (same : session'.knowledge = session.knowledge)
    (tracks : session.Tracks settings P) : session'.Tracks settings P := by
  obtain ⟨settings', tracked'⟩ := Prod.mk.inj same
  exact ⟨settings'.trans tracks.same, fun key t known => tracks.all key t (tracked' ▸ known)⟩

theorem keeps_track {doc : Document} (read : Document.ofRow row = .ok doc)
    (tracks : row.Tracks settings P collection) :
    (track collection doc).Keeps E (Tracks settings P) fun _ => True := by
  intro session here
  rw [run_track]
  cases session.tracked.get? ⟨collection, doc.id⟩ with
  | some t => exact ⟨here, fun _ _ => trivial⟩
  | none =>
    cases parsed : session.settings.serializer.deserialize doc.content with
    | error e => exact ⟨here, fun _ _ => trivial⟩
    | ok json =>
      refine ⟨⟨here.same, fun key t known => ?_⟩, fun _ _ => trivial⟩
      rw [Assoc.get?_insert] at known
      split at known
      · next same =>
        cases same
        cases known
        exact tracks doc json read (here.same ▸ parsed)
      · exact here.all key t known

theorem keeps_materialize (entity : EntityType) (tracks : row.Tracks settings P collection) :
    (materialize entity collection row).Keeps E (Tracks settings P) fun _ => True := by
  refine Work.keeps_ofExcept_bind fun doc read => Work.keeps_get_bind fun session _ => ?_
  split
  · exact Work.keeps_ofExcept fun _ _ => trivial
  · exact (keeps_track read tracks).bind fun _ _ => Work.keeps_ofExcept fun _ _ => trivial

theorem keeps_materializeAll (entity : EntityType)
    (tracks : ∀ row ∈ rows, row.Tracks settings P collection) :
    (materializeAll entity collection rows).Keeps E (Tracks settings P) fun _ => True := by
  induction rows with
  | nil => exact Work.keeps_pure trivial
  | cons row rows ih =>
    obtain ⟨first, rest⟩ := List.forall_mem_cons.1 tracks
    exact (keeps_materialize entity first).bind fun _ _ =>
      (ih rest).bind fun _ _ => Work.keeps_pure trivial

end Session

/-- A started read makes a session track nothing but documents of a collection that rows hold. -/
def Reading.Tracks (E : Event → Prop) (settings : Settings) (P : DocKey → Tracked → Prop)
    (source : Option String) : Reading α → Prop
  | .answered _ => True
  | .asking _ finish =>
    ∀ rows, (∀ collection ∈ source, ∀ row ∈ rows, row.Tracks settings P collection) →
    (finish rows).Keeps E (Session.Tracks settings P) fun _ => True

/-- A read that leaves what is tracked makes a session track nothing. -/
theorem Reading.Inquires.tracks {p : Request → Prop} {reading : Reading α}
    (h : reading.Inquires p Session.knowledge) : reading.Tracks E settings P source := by
  cases reading with
  | answered => trivial
  | asking s finish =>
    exact fun rows _ => (h.2 rows).keeps fun _ _ same => Session.Tracks.congr same

theorem Reading.Tracks.map {reading : Reading α} (h : reading.Tracks E settings P source)
    (f : α → β) : (reading.map f).Tracks E settings P source := by
  cases reading with
  | answered => trivial
  | asking s finish =>
    exact fun rows tracks => (h rows tracks).bind fun _ _ => Work.keeps_pure trivial

theorem Work.Keeps.map_tracks {start : Work (Reading α)}
    (h : start.Keeps E (Session.Tracks settings P) (Reading.Tracks E settings P source))
    (f : α → β) :
    (Reading.map f <$> start).Keeps E (Session.Tracks settings P)
      (Reading.Tracks E settings P source) := by
  rw [map_eq_pure_bind]
  exact h.bind fun _ tracks => keeps_pure (tracks.map f)

namespace Session

theorem keeps_get (entity : EntityType) (collection : String) (id : Int64) :
    (get entity collection id).Keeps E
    (Tracks settings P) (Reading.Tracks E settings P (some collection)) := by
  refine Work.keeps_get_bind fun session _ => ?_
  dsimp only
  split
  · exact Work.keeps_ofExcept_bind fun _ _ => Work.keeps_pure trivial
  · exact Work.keeps_pure trivial
  · split
    · exact Work.keeps_ofExcept_bind fun _ _ => Work.keeps_pure trivial
    · refine Work.keeps_pure fun rows tracks => ?_
      dsimp only
      split
      · exact Work.keeps_pure trivial
      · refine Work.keeps_ofExcept_bind fun doc read => ?_
        split
        · exact Work.keeps_pure trivial
        · refine (keeps_track read (tracks collection rfl _ List.mem_cons_self)).bind fun _ _ => ?_
          exact Work.keeps_ofExcept_bind fun _ _ => Work.keeps_pure trivial

theorem keeps_listDocuments (q : DocumentQuery) : (listDocuments q).Keeps E
    (Tracks settings P) (Reading.Tracks E settings P (some q.collection)) :=
  Work.keeps_get_bind fun _ _ => (Work.keeps_request _).bind fun _ _ =>
    Work.keeps_pure fun _ tracks =>
      keeps_materializeAll q.entity (tracks q.collection rfl)

theorem keeps_firstDocument (q : DocumentQuery) : (firstDocument q).Keeps E
    (Tracks settings P) (Reading.Tracks E settings P (some q.collection)) :=
  (keeps_listDocuments (q.take 1)).bind fun _ tracks => Work.keeps_pure (tracks.map _)

end Session

/-- Starting a read makes a session track nothing, and finishing it only what the rows hold. -/
theorem Read.keeps_start (q : Read) :
    q.start.Keeps E (Session.Tracks settings P) (Reading.Tracks E settings P q.collection?) := by
  have lookups := Request.hasLookups_any
  have inquires {α : Type} {start : Work (Reading α)}
      (h : start.Inquires (fun _ => True) Session.knowledge) :
      start.Keeps E (Session.Tracks settings P) (Reading.Tracks E settings P none) :=
    Work.Ensures.keeps (h.mono fun _ inquires => inquires.tracks) fun _ _ same =>
      Session.Tracks.congr same
  cases q with
  | get entity collection id => exact (Session.keeps_get entity collection id).map_tracks _
  | documents q => exact (Session.keeps_listDocuments q).map_tracks _
  | firstDocument q => exact (Session.keeps_firstDocument q).map_tracks _
  | documentCount q => exact (inquires (Session.inquires_countDocuments lookups q)).map_tracks _
  | rows q => exact (inquires (Session.inquires_listRows q)).map_tracks _
  | firstRow q => exact (inquires (Session.inquires_firstRow q)).map_tracks _
  | rowCount q => exact (inquires (Session.inquires_countRows q)).map_tracks _
  | compiled q collection args =>
    exact (inquires (Session.inquires_runCompiled lookups q collection args)).map_tracks _

end DocStore

import DocStore.Query
import DocStore.Setup

/-!
# Sessions

A session is a unit of work on one connection. It remembers every document it
has loaded as it was then, and collects saves and deletes until a flush writes
them. Its operations are `Work`: they may change the session, send requests, and
fail; what they changed before they failed stays changed.
-/

set_option autoImplicit false

namespace DocStore

/-- What tells documents apart. -/
structure DocKey where
  collection : String
  id : Int64
deriving DecidableEq

/-- The persisted state of a document as a session last saw it. -/
structure Tracked where
  content : String
  json : Json
  version : Int64

/-- A change that waits for the next flush. -/
inductive Pending where
  | save (key : DocKey) (typeName : String) (json : Json) (content : String)
  | delete (key : DocKey) (typeName : String)

def Pending.key : Pending → DocKey
  | .save key .. | .delete key _ => key

structure Session where
  settings : Settings
  connection : Connection
  tracked : Assoc DocKey Tracked
  /-- The changes to flush, in order; no two are about the same document. -/
  pending : List Pending
  /-- The documents to which this session gave an id and that it has not flushed yet. -/
  created : List DocKey
  inTransaction : Bool
  /-- A cancelled session flushes nothing more and never commits. -/
  cancelled : Bool

/-- An operation of a session. -/
abbrev Work (α : Type) := ExceptT Error (StateT Session Program) α

namespace Work

def ofAction {α : Type} (a : Action α) : Work α := ExceptT.mk (StateT.lift a)

def ofExcept {α : Type} (e : Except Error α) : Work α := ofAction (Action.ofExcept e)

/-- Sends a query on the session's own connection. -/
def query (s : Statement) : Work (List Row) := do
  let session ← get
  ofAction (Action.query session.connection s)

end Work

namespace Session

/-- Opens a unit of work on a connection of its own. -/
def connect (settings : Settings) : Action Session := do
  let conn ← Action.connect
  pure ⟨settings, conn, ∅, [], [], false, false⟩

def hasChanges (session : Session) : Bool := !session.pending.isEmpty

def names (session : Session) (collection : String) : TableNames :=
  session.settings.names collection

/-- The change that waits for a document. -/
def pendingChange (session : Session) (key : DocKey) : Option Pending :=
  session.pending.find? fun p => p.key = key

/-- Lets a change take the place of what waited for its document. -/
def withPending (session : Session) (change : Pending) : Session :=
  { session with pending := (session.pending.filter fun p => p.key ≠ change.key) ++ [change] }

/-- Forgets the change that waits for a document. -/
def withoutPending (session : Session) (key : DocKey) : Session :=
  { session with pending := session.pending.filter fun p => p.key ≠ key }

/-! ## Saving and deleting -/

/-- Gives an entity its identity: a new one for an entity without, and otherwise
its own, which is then never handed out. -/
def identify (entity : EntityType) (collection : String) (content : Json) : Work Json := do
  let session ← get
  let id := entity.id content
  if id = 0 then do
    let id ← Work.ofAction (Action.newId session.settings session.connection collection)
    modify fun s => { s with created := ⟨collection, id⟩ :: s.created }
    pure (entity.setId id content)
  else do
    Work.ofAction (Action.reserveId session.settings session.connection collection id)
    pure content

/-- Schedules an entity to be written by the next flush, and answers it with its identity. -/
def save (entity : EntityType) (collection : String) (content : Json) : Work Json := do
  let content ← identify entity collection content
  let session ← get
  let text ← Work.ofExcept (session.settings.serializer.serialize content)
  modify fun s => s.withPending (.save ⟨collection, entity.id content⟩ entity.name content text)
  pure content

/-- Schedules a delete; a document that was never flushed is simply forgotten. -/
def delete (entity : EntityType) (collection : String) (content : Json) : Work Unit := do
  let key : DocKey := ⟨collection, entity.id content⟩
  modify fun s => s.withoutPending key
  let session ← get
  if session.created.contains key then
    modify fun s => { s with created := s.created.filter fun k => k ≠ key }
  else modify fun s => s.withPending (.delete key entity.name)

/-! ## Documents loaded from storage -/

/-- The query for one document. -/
def documentStatement (session : Session) (key : DocKey) : Statement :=
  .query (.documentById (session.names key.collection).document)
    ⟨[(session.settings.dialect.parameter 0, .int key.id)]⟩

/-- Remembers a loaded document unless the session already knows it, and answers
its content as the session knows it. -/
def track (collection : String) (doc : Document) : Work Json := do
  let session ← get
  let key : DocKey := ⟨collection, doc.id⟩
  match session.tracked.get? key with
  | some known => pure known.json
  | none => do
    let json ← Work.ofExcept (session.settings.serializer.deserialize doc.content)
    modify fun s => { s with tracked := s.tracked.insert key ⟨doc.content, json, doc.version⟩ }
    pure json

/-- The persisted state of a document, loaded if the session does not know it. -/
def lastStored (key : DocKey) : Work (Option Tracked) := do
  let session ← get
  match session.tracked.get? key with
  | some known => pure (some known)
  | none => do
    match ← Work.query (session.documentStatement key) with
    | [] => pure none
    | row :: _ => do
      let doc ← Work.ofExcept (Document.ofRow row)
      let _ ← track key.collection doc
      let session ← get
      pure (session.tracked.get? key)

end Session

end DocStore

import DocStore.Proofs.DocumentTables
import DocStore.Session.Read

/-!
# The reference of a session

What a session is to be taken for: a map of documents, and for each of them at
most one save or delete that is still to be flushed. Nothing is said of a
connection, of what is loaded or of ids that the session gave itself.
-/

set_option autoImplicit false

namespace DocStore

/-- What a session calls on: the operations on single documents, and the two that write. -/
inductive Operation where
  | save (entity : EntityType) (collection : String) (content : Json)
  | delete (entity : EntityType) (collection : String) (content : Json)
  | get (entity : EntityType) (collection : String) (id : Int64)
  | flush
  | saveChanges

namespace Operation

/-- Runs an operation; a save answers the entity with its identity, and a read what it read. -/
def run : Operation → Work (Option Json)
  | .save entity collection content => do
    let json ← Session.save entity collection content
    pure (some json)
  | .delete entity collection content => do
    Session.delete entity collection content
    pure none
  | .get entity collection id => Reading.alone (Session.get entity collection id)
  | .flush => do
    Session.flush
    pure none
  | .saveChanges => do
    Session.saveChanges
    pure none

/-- Runs operations one after the other. -/
def runAll : List Operation → Work (List (Option Json))
  | [] => pure []
  | op :: ops => do
    let answer ← op.run
    let answers ← runAll ops
    pure (answer :: answers)

end Operation

/-- The last save or delete of a document that was not flushed yet. -/
inductive Intent where
  | save (typeName : String) (json : Json) (content : String)
  | delete

/-- What a flush makes of a document. A new document has version one, and the
version goes up whenever the content changes. -/
def Intent.apply : Intent → Option StoredDocument → Option StoredDocument
  | .save typeName json content, none => some ⟨typeName, ⟨content, json, 1⟩⟩
  | .save _ json content, some doc =>
    if doc.state.content = content then some doc
    else some { doc with state := ⟨content, json, doc.state.version + 1⟩ }
  | .delete, _ => none

structure Reference where
  docs : Documents
  intents : DocKey → Option Intent

namespace Reference

/-- A later save or delete of a document takes the place of an earlier one. -/
def want (r : Reference) (key : DocKey) (intent : Intent) : Reference :=
  { r with intents := Function.update r.intents key (some intent) }

def flushed (r : Reference) : Reference where
  docs key := (r.intents key).elim (r.docs key) fun intent => intent.apply (r.docs key)
  intents _ := none

/-- The entity of a document, with what is still to be flushed. -/
def json? (r : Reference) (key : DocKey) : Option Json :=
  match r.intents key with
  | some (.save _ json _) => some json
  | some .delete => none
  | none => (r.docs key).map fun doc => doc.state.json

/-- One operation and its answer. An entity without an identity gets that of no document. -/
inductive Step (serializer : ContentSerializer) :
    Reference → Operation → Option Json → Reference → Prop where
  | create {r entity collection content id text} :
      entity.id content = 0 → r.docs ⟨collection, id⟩ = none →
    serializer.serialize (entity.setId id content) = .ok text →
      Step serializer r (.save entity collection content) (some (entity.setId id content))
        (r.want ⟨collection, id⟩ (.save entity.name (entity.setId id content) text))
  | save {r entity collection content text} : entity.id content ≠ 0 →
      serializer.serialize content = .ok text →
    Step serializer r (.save entity collection content) (some content)
      (r.want ⟨collection, entity.id content⟩ (.save entity.name content text))
  | delete {r entity collection content} :
    Step serializer r (.delete entity collection content) none
      (r.want ⟨collection, entity.id content⟩ .delete)
  | missing {r entity collection id} : r.json? ⟨collection, id⟩ = none →
    Step serializer r (.get entity collection id) none r
  | get {r entity collection id json answer} : r.json? ⟨collection, id⟩ = some json →
      entity.read json = .ok answer → Step serializer r (.get entity collection id) (some answer) r
  | flush {r} : Step serializer r .flush none r.flushed
  | saveChanges {r} : Step serializer r .saveChanges none r.flushed

/-- Operations one after the other, with their answers. -/
inductive Steps (serializer : ContentSerializer) :
    Reference → List Operation → List (Option Json) → Reference → Prop where
  | nil {r} : Steps serializer r [] [] r
  | cons {r r' r'' op ops answer answers} : Step serializer r op answer r' →
      Steps serializer r' ops answers r'' → Steps serializer r (op :: ops) (answer :: answers) r''

end Reference

end DocStore

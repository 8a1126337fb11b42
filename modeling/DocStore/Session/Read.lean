import DocStore.Session

/-!
# Reads of a session

A read has two phases, because several reads of one session may be under way
together: it starts, which either answers it or tells the query whose rows it
needs, and it finishes with those rows. What the session has pending wins over
what it has tracked, and that over what storage returns.
-/

set_option autoImplicit false

namespace DocStore

/-- A read that has started. -/
inductive Reading (α : Type) where
  | answered (a : α)
  | asking (s : Statement) (finish : List Row → Work α)

namespace Reading

variable {α β : Type}

/-- Reads on with the rows of a statement, if there is one. -/
def ofStatement (s : Except Error Statement) (finish : List Row → Work α) : Work (Reading α) := do
  let s ← Work.ofExcept s
  pure (.asking s finish)

/-- A further step on the answer. -/
def map (f : α → β) : Reading α → Reading β
  | .answered a => .answered (f a)
  | .asking s finish => .asking s fun rows => do
    let a ← finish rows
    pure (f a)

/-- Runs a read on its own. -/
def alone (start : Work (Reading α)) : Work α := do
  match ← start with
  | .answered a => pure a
  | .asking s finish => do
    let rows ← Work.query s
    finish rows

end Reading

namespace Session

/-- Loads an entity. A document of another type is not there for the reader. -/
def get (entity : EntityType) (collection : String) (id : Int64) :
    Work (Reading (Option Json)) := do
  let session ← MonadState.get
  let key : DocKey := ⟨collection, id⟩
  match session.pendingChange key with
  | some (.save _ _ json _) => do
    let e ← Work.ofExcept (entity.read json)
    pure (.answered (some e))
  | some (.delete _ _) => pure (.answered none)
  | none =>
    match session.tracked.get? key with
    | some known => do
      let e ← Work.ofExcept (entity.read known.json)
      pure (.answered (some e))
    | none =>
      pure (.asking (session.documentStatement key) fun rows =>
        match rows with
        | [] => pure none
        | row :: _ => do
          let doc ← Work.ofExcept (Document.ofRow row)
          if doc.typeName ≠ entity.name then pure none
          else do
            let json ← track collection doc
            let e ← Work.ofExcept (entity.read json)
            pure (some e))

/-- The entity of a document found by a query. -/
def materialize (entity : EntityType) (collection : String) (row : Row) : Work Json := do
  let doc ← Work.ofExcept (Document.ofRow row)
  let session ← MonadState.get
  match session.pendingChange ⟨collection, doc.id⟩ with
  | some (.save _ _ json _) => Work.ofExcept (entity.read json)
  | _ => do
    let json ← track collection doc
    Work.ofExcept (entity.read json)

/-- The entities of documents in order. -/
def materializeAll (entity : EntityType) (collection : String) : List Row → Work (List Json)
  | [] => pure []
  | row :: rest => do
    let e ← materialize entity collection row
    let es ← materializeAll entity collection rest
    pure (e :: es)

def listDocuments (q : DocumentQuery) : Work (Reading (List Json)) := do
  let session ← MonadState.get
  let s ← Work.ofAction (q.statement session.settings)
  pure (.asking s (materializeAll q.entity q.collection))

def firstDocument (q : DocumentQuery) : Work (Reading (Option Json)) := do
  let reading ← listDocuments (q.take 1)
  pure (reading.map List.head?)

def countDocuments (q : DocumentQuery) : Work (Reading Nat) := do
  let session ← MonadState.get
  let s ← Work.ofAction (q.countStatement session.settings)
  pure (.asking s fun rows => Work.ofExcept (countOf rows))

def listRows (q : IndexQuery) : Work (Reading (List Json)) := do
  let session ← MonadState.get
  Reading.ofStatement (q.statement session.settings) fun rows =>
    Work.ofExcept (rows.mapM q.index.decode)

def firstRow (q : IndexQuery) : Work (Reading (Option Json)) := do
  let reading ← listRows (q.take 1)
  pure (reading.map List.head?)

def countRows (q : IndexQuery) : Work (Reading Nat) := do
  let session ← MonadState.get
  Reading.ofStatement (q.countStatement session.settings) fun rows => Work.ofExcept (countOf rows)

/-- The rows of a compiled query for some arguments. -/
def runCompiled (q : CompiledQuery) (collection : String) (args : Arguments) :
    Work (Reading (List Json)) := do
  let sql ← Work.ofAction (ExceptT.mk (.request (.compiledSql q collection args)))
  Reading.ofStatement ((sql.bind args).map fun ps => .query sql.query ps) fun rows =>
    Work.ofExcept (rows.mapM q.index.decode)

end Session

end DocStore

import DocStore.Maintenance
import DocStore.Session

/-!
# Flushing a session

A flush first works out everything it will write: the documents that differ from
their persisted state and, from those, the index work. Only then does it begin a
transaction, if it has anything to write and none is open, and run the commands.
A flush that fails cancels the session; the transaction is ended by saving
changes, which commits unless the session is cancelled, or by closing.
-/

set_option autoImplicit false

namespace DocStore

/-- What a flush has worked out so far: its writes, and what the session will
know of each document once they are done. -/
structure FlushPlan where
  arena : Arena
  applied : List (DocKey × Option Tracked)

namespace FlushPlan

instance : EmptyCollection FlushPlan := ⟨⟨∅, []⟩⟩

def add (plan : FlushPlan) (arena : Arena) (key : DocKey) (known : Option Tracked) : FlushPlan :=
  ⟨arena, plan.applied ++ [(key, known)]⟩

/-- Plans a delete of a document that is there. -/
def delete (plan : FlushPlan) (names : TableNames) (ds : List Descriptor) (key : DocKey)
    (old : Tracked) : Except Error FlushPlan := do
  let arena := plan.arena.push (.deleteDocument names key.id)
  let arena ← arena.forEach (fun arena d => arena.deleted names d key.id old.json) ds
  pure (plan.add arena key none)

/-- Plans a new document. -/
def create (plan : FlushPlan) (names : TableNames) (ds : List Descriptor) (key : DocKey)
    (typeName : String) (json : Json) (content : String) : Except Error FlushPlan := do
  let arena := plan.arena.push (.createDocument names key.id typeName content)
  let arena ← arena.forEach (fun arena d => arena.created names d key.id json) ds
  pure (plan.add arena key (some ⟨content, json, 1⟩))

/-- Plans the next version of a document; `check` guards it with the version known. -/
def update (plan : FlushPlan) (check : Bool) (names : TableNames) (ds : List Descriptor)
    (key : DocKey) (typeName : String) (json : Json) (content : String) (old : Tracked) :
    Except Error FlushPlan := do
  let version := old.version + 1
  let expected := if check then some old.version else none
  let arena := plan.arena.push (.updateDocument names key.id typeName content version expected)
  let arena ← arena.forEach (fun arena d => arena.updated names d key.id old.json json) ds
  pure (plan.add arena key (some ⟨content, json, version⟩))

end FlushPlan

namespace Session

/-- Plans one change. Deletes of documents that are not there and saves that
change nothing are left out. -/
def planChange (plan : FlushPlan) (change : Pending) : Work FlushPlan := do
  let session ← get
  match change with
  | .delete key typeName =>
    match ← lastStored key with
    | none => pure plan
    | some old => do
      let ds ← Work.ofAction (Action.descriptors typeName key.collection)
      Work.ofExcept (plan.delete (session.names key.collection) ds key old)
  | .save key typeName json content => do
    let names := session.names key.collection
    let ds ← Work.ofAction (Action.descriptors typeName key.collection)
    let old ← if session.created.contains key then pure none else lastStored key
    match old with
    | none => Work.ofExcept (plan.create names ds key typeName json content)
    | some old =>
      if old.content = content then pure plan
      else
        let check := session.settings.config.checkConcurrency
        Work.ofExcept (plan.update check names ds key typeName json content old)

/-- Plans changes in order. -/
def planChanges (plan : FlushPlan) : List Pending → Work FlushPlan
  | [] => pure plan
  | change :: rest => do
    let plan ← planChange plan change
    planChanges plan rest

/-- Begins a transaction unless one is open. -/
def begin : Work Unit := do
  let session ← get
  if session.inTransaction then pure ()
  else do
    Work.ofAction (Action.begin session.connection)
    modify fun s => { s with inTransaction := true }

/-- What the session knows after the planned writes. -/
def remember (applied : List (DocKey × Option Tracked)) (session : Session) : Session :=
  let tracked := applied.foldl
    (fun tracked (key, known) =>
      match known with
      | some t => tracked.insert key t
      | none => tracked.erase key)
    session.tracked
  { session with tracked, pending := [], created := [] }

/-- Writes the pending changes inside the transaction of the session. -/
def flushPending : Work Unit := do
  let session ← get
  let plan ← planChanges ∅ session.pending
  if plan.arena.isEmpty then pure () else begin
  let dialect := session.settings.dialect
  let commands ← Work.ofAction (plan.arena.finish session.connection dialect)
  Work.ofAction (Command.runAll session.connection commands)
  modify (remember plan.applied)

/-- Writes the pending changes without committing; a failure cancels the session. -/
def flush : Work Unit := do
  let session ← get
  if session.cancelled || session.pending.isEmpty then pure ()
  else
    tryCatch flushPending fun e => do
      modify fun s => { s with cancelled := true }
      throw e

/-- Gives up everything that was not committed. -/
def rollback : Work Unit := do
  let session ← get
  if session.inTransaction then do
    modify fun s => { s with inTransaction := false }
    Work.ofAction (Action.rollback session.connection)

/-- Flushes and commits; a cancelled session rolls back instead. -/
def saveChanges : Work Unit := do
  flush
  let session ← get
  if session.cancelled then rollback
  else if session.inTransaction then do
    modify fun s => { s with inTransaction := false }
    Work.ofAction (Action.commit session.connection)

/-- Flushes nothing more, and rolls back what was written when the session ends. -/
def cancel : Work Unit := modify fun s => { s with cancelled := true }

/-- Ends the unit of work. -/
def close : Work Unit := rollback

end Session

end DocStore

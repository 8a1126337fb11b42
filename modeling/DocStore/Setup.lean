import DocStore.Program

/-!
# Preparing storage

Creating the tables of a collection, and finding out from the documents that are
already there which ids are taken.
-/

set_option autoImplicit false

namespace DocStore

namespace Action

def connect : Action Connection := ExceptT.mk (.request .connect)

/-- Runs a schema plan on a connection of its own. -/
def applySchema (plan : SchemaPlan) : Action Unit := do
  let conn ← connect
  executeAll conn (plan.commands.map .schema)

/-- Seeds the ids of a collection with the highest one in its document table. -/
def seedFromStorage (settings : Settings) (conn : Connection) (collection : String) :
    Action Unit := do
  let table := (settings.names collection).document
  let highest ← scalar conn (.query (.maxId table) ∅)
  ofProgram (.request (.seedIds collection ((highest.bind Value.int64?).getD 0)))

/-- Seeds the ids of a collection of which nothing is known yet. -/
def ensureSeeded (settings : Settings) (conn : Connection) (collection : String) : Action Unit := do
  let seeded ← ofProgram (.request (.idsSeeded collection))
  if seeded then pure () else seedFromStorage settings conn collection

/-- Seeds the ids of a collection on a connection of its own. -/
def initializeCollection (settings : Settings) (collection : String) : Action Unit := do
  let conn ← connect
  seedFromStorage settings conn collection

/-- An id for a new document. -/
def newId (settings : Settings) (conn : Connection) (collection : String) : Action Int64 := do
  ensureSeeded settings conn collection
  ofProgram (.request (.nextId collection))

/-- Keeps an id that is in use from being handed out. -/
def reserveId (settings : Settings) (conn : Connection) (collection : String) (id : Int64) :
    Action Unit := do
  ensureSeeded settings conn collection
  ofProgram (.request (.seedIds collection id))

end Action

end DocStore

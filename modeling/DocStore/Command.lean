import DocStore.Ids
import DocStore.Program

/-!
# Changes of a flush

A flush turns into commands on documents, on the rows of map indexes, and on the
aggregate rows of reduce indexes. Commands run in the order of their priority:
documents exist before anything refers to them, bridge rows go before the
aggregate row they refer to, and documents are deleted last.
-/

set_option autoImplicit false

namespace DocStore

inductive Command where
  | createDocument (names : TableNames) (id : Int64) (typeName content : String)
  /-- Without an expected version the update is not guarded. -/
  | updateDocument (names : TableNames) (id : Int64) (typeName content : String) (version : Int64)
      (expected : Option Int64)
  | deleteDocument (names : TableNames) (id : Int64)
  | createMapRow (names : TableNames) (index : String) (document : Int64) (cells : Cells)
  /-- Deletes the rows of a map index that belong to a document. -/
  | deleteMapRows (names : TableNames) (index : String) (document : Int64)
  | createReduceRow (names : TableNames) (index : String) (cells : Cells) (link : List Int64)
  | updateReduceRow (names : TableNames) (index : String) (id : Int64) (cells : Cells)
      (link unlink : List Int64)
  | deleteReduceRow (names : TableNames) (index : String) (id : Int64)
deriving DecidableEq

namespace Command

def priority : Command → Nat
  | .createDocument .. | .updateDocument .. => 0
  | .deleteMapRows .. => 1
  | .createMapRow .. => 2
  | .createReduceRow .. => 3
  | .updateReduceRow .. => 4
  | .deleteReduceRow .. => 5
  | .deleteDocument .. => 6

/-- The commands by priority; those of one priority keep their order. -/
def inOrder (commands : List Command) : List Command :=
  (List.range 7).flatMap fun p => commands.filter fun c => c.priority = p

/-! ## Statements -/

def idCell (id : Int64) : String × Value := (Column.idName, .int id)

def documentCell (id : Int64) : String × Value := (Column.documentIdName, .int id)

/-- The cell of a bridge row that refers to the aggregate row. -/
def bridgeCell (index : String) (id : Int64) : String × Value :=
  (TableNames.bridgeColumn index, .int id)

/-- Links an aggregate row to a document. -/
def linkStatement (names : TableNames) (index : String) (id document : Int64) : Statement :=
  .insert (names.bridge index) [bridgeCell index id, documentCell document]

def unlinkStatement (names : TableNames) (index : String) (id document : Int64) : Statement :=
  .delete (names.bridge index) [bridgeCell index id, documentCell document]

/-- The first statement of a command. -/
def statement : Command → Statement
  | .createDocument names id typeName content =>
    .insert names.document
      [idCell id, (Column.typeName, .text typeName), (Column.contentName, .text content),
        (Column.versionName, .int 1)]
  | .updateDocument names id _ content version expected =>
    .update names.document [(Column.contentName, .text content), (Column.versionName, .int version)]
      (idCell id :: (expected.map fun v => (Column.versionName, Value.int v)).toList)
  | .deleteDocument names id => .delete names.document [idCell id]
  | .createMapRow names index document cells =>
    .insert (names.index index) (documentCell document :: cells)
  | .deleteMapRows names index document => .delete (names.index index) [documentCell document]
  | .createReduceRow names index cells _ => .insertReturning (names.index index) cells
  | .updateReduceRow names index id cells _ _ => .update (names.index index) cells [idCell id]
  | .deleteReduceRow names index id => .delete (names.bridge index) [bridgeCell index id]

/-! ## Running -/

/-- Sends the statements of a command. A guarded update that meets no row is a
conflict, and the insertion of an aggregate row must answer its id. -/
def run (conn : Connection) (command : Command) : Action Unit :=
  match command with
  | .updateDocument _ id typeName _ _ expected => do
    let affected ← Action.execute conn command.statement
    if affected = 0 ∧ expected.isSome then throw (.conflict id typeName)
  | .createReduceRow names index _ link => do
    let answer ← Action.scalar conn command.statement
    match answer.bind Value.int64? with
    | some id => Action.executeAll conn (link.map (linkStatement names index id))
    | none => throw (.internal (.noInsertedId index))
  | .updateReduceRow names index id _ link unlink => do
    Action.executeAll conn (command.statement :: unlink.map (unlinkStatement names index id))
    Action.executeAll conn (link.map (linkStatement names index id))
  | .deleteReduceRow names index id =>
    Action.executeAll conn [command.statement, .delete (names.index index) [idCell id]]
  | _ => Action.executeAll conn [command.statement]

/-- Runs commands in order until one fails. -/
def runAll (conn : Connection) : List Command → Action Unit
  | [] => pure ()
  | c :: rest => do
    c.run conn
    runAll conn rest

end Command

end DocStore

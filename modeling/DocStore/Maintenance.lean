import DocStore.Command

/-!
# Index maintenance

What a flush does to the indexes of the documents it writes. Rows of map indexes
become commands at once: those of a changed document are deleted and created
anew. Rows of reduce indexes are collected in an `Arena`; `finish` then takes
each group of rows that was touched, merges it with the aggregate row that is
stored for it, and emits at most one command per group.
-/

set_option autoImplicit false

namespace DocStore

/-- Whether a mapped row joins its group or leaves it. -/
inductive Change where
  | added
  | removed
deriving DecidableEq

/-- A mapped row that waits for the reduction. -/
structure MappedRow where
  row : Json
  key : Value
  document : Int64
  change : Change

/-- The mapped rows of one reduce index in one collection. -/
structure Buffer where
  names : TableNames
  descriptor : Descriptor
  entries : List MappedRow

/-- What a flush has collected so far. -/
structure Arena where
  buffers : List Buffer
  commands : List Command

namespace Arena

instance : EmptyCollection Arena := ⟨⟨[], []⟩⟩

def isEmpty (arena : Arena) : Bool := arena.commands.isEmpty && arena.buffers.isEmpty

def push (arena : Arena) (command : Command) : Arena :=
  { arena with commands := arena.commands ++ [command] }

/-- Appends rows to the buffer of their index, which is opened if there is none. -/
def appendTo (names : TableNames) (d : Descriptor) (entries : List MappedRow) :
    List Buffer → List Buffer
  | [] => [⟨names, d, entries⟩]
  | b :: rest =>
    if b.names = names ∧ b.descriptor.index.name = d.index.name then
      { b with entries := b.entries ++ entries } :: rest
    else b :: appendTo names d entries rest

/-- Collects mapped rows under their group keys. -/
def collect (arena : Arena) (names : TableNames) (d : Descriptor) (document : Int64)
    (change : Change) (rows : List Json) : Except Error Arena := do
  let entries ← rows.mapM fun row => (d.groupKey row).map fun key => ⟨row, key, document, change⟩
  pure { arena with buffers := appendTo names d entries arena.buffers }

/-- Commands that create the rows of a map index. -/
def createMapRows (arena : Arena) (names : TableNames) (d : Descriptor) (document : Int64)
    (rows : List Json) : Except Error Arena := do
  let commands ← rows.mapM fun row =>
    (d.index.cells row).map fun cells => Command.createMapRow names d.index.name document cells
  pure { arena with commands := arena.commands ++ commands }

/-- The index work of a new document. -/
def created (arena : Arena) (names : TableNames) (d : Descriptor) (document : Int64)
    (content : Json) : Except Error Arena := do
  let rows ← d.mapContent content
  match d.kind with
  | .map => arena.createMapRows names d document rows
  | .reduce => arena.collect names d document .added rows

/-- The index work of a deleted document. -/
def deleted (arena : Arena) (names : TableNames) (d : Descriptor) (document : Int64)
    (content : Json) : Except Error Arena :=
  match d.kind with
  | .map => .ok (arena.push (.deleteMapRows names d.index.name document))
  | .reduce => do
    let rows ← d.mapContent content
    arena.collect names d document .removed rows

/-- The index work of a changed document: its old rows leave and its new rows
join, whether or not their group changed. -/
def updated (arena : Arena) (names : TableNames) (d : Descriptor) (document : Int64)
    (old new : Json) : Except Error Arena :=
  match d.kind with
  | .map => do
    let rows ← d.mapContent new
    (arena.push (.deleteMapRows names d.index.name document)).createMapRows names d document rows
  | .reduce => do
    let oldRows ← d.mapContent old
    let newRows ← d.mapContent new
    let arena ← arena.collect names d document .removed oldRows
    arena.collect names d document .added newRows

/-- Does the index work of one document for each of its descriptors. -/
def forEach (work : Arena → Descriptor → Except Error Arena) (arena : Arena)
    (ds : List Descriptor) : Except Error Arena :=
  ds.foldlM work arena

end Arena

namespace Buffer

/-- The rows of a group with one change. -/
def group (b : Buffer) (key : Value) (change : Change) : List MappedRow :=
  b.entries.filter fun e => e.change = change && e.key.agrees key

/-- The keys of the groups touched, in the order in which they first occur. -/
def keys (b : Buffer) : List Value := Value.distinct (b.entries.map MappedRow.key)

/-- Reduces rows of a group to one row of the same group. -/
def collapse (d : Descriptor) (rows : List Json) (key : Value) : Except Error Json := do
  match ← d.reduceRows rows with
  | none => .error (.invariant (.reducedToNothing d.index.name key))
  | some row =>
    let produced ← d.groupKey row
    if produced.agrees key then pure row
    else .error (.invariant (.reducedToOtherGroup d.index.name key produced))

/-- The look-up of the aggregate row of a group. -/
def lookup (b : Buffer) (dialect : Dialect) (key : Value) : Except Error Statement :=
  match b.descriptor.groupColumn with
  | none => .error (.invariant (.noGroupKey b.descriptor.index.name))
  | some column => do
    let index := b.descriptor.index
    let filter ← compileCondition ⟨dialect, b.names, none⟩ index.name
      ((index.field column).eq (.const key))
    pure (.query (.indexRows index.name (b.names.index index.name) filter.condition [] none)
      filter.parameters)

/-- The aggregate row found for a group, with its id. -/
def persisted (b : Buffer) (key : Value) : List Row → Except Error (Option (Int64 × Json))
  | [] => .ok none
  | [row] => do
    let id ← row.getInt64 Column.idName
    let json ← b.descriptor.index.decode row
    pure (some (id, json))
  | rows => .error (.invariant (.severalRows b.descriptor.index.name rows.length key))

/-- The aggregate row of a group after a flush, from the row stored for it and
the reduction of the rows that joined it. -/
def merge (b : Buffer) (key : Value) (stored candidate : Option Json) :
    Except Error (Option Json) := do
  let current ← match stored, candidate with
    | some p, some c => (collapse b.descriptor [p, c] key).map some
    | some p, none => pure (some p)
    | none, c => pure c
  match current, b.group key .removed with
  | some row, e :: es => b.descriptor.deleteRows row ((e :: es).map MappedRow.row)
  | current, _ => pure current

/-- The documents to link and those to unlink; a document that leaves a group
and joins it again is neither. -/
def links (b : Buffer) (key : Value) : List Int64 × List Int64 :=
  let joined := sortedIds ((b.group key .added).map MappedRow.document)
  let left := sortedIds ((b.group key .removed).map MappedRow.document)
  (joined.filter fun id => id ∉ left, left.filter fun id => id ∉ joined)

/-- The command that takes a group from its stored row to its new one. -/
def command (b : Buffer) (key : Value) (stored : Option (Int64 × Json)) (row : Option Json) :
    Except Error (Option Command) :=
  let index := b.descriptor.index
  let (link, unlink) := b.links key
  match stored, row with
  | none, none => .ok none
  | none, some row => do
    let cells ← index.cells row
    pure (some (.createReduceRow b.names index.name cells link))
  | some (id, _), none => .ok (some (.deleteReduceRow b.names index.name id))
  | some (id, _), some row => do
    let cells ← index.cells row
    pure (some (.updateReduceRow b.names index.name id cells link unlink))

/-- Reduces one group: its new rows first, so that a reduction that breaks the
rules sends no look-up. -/
def reduceGroup (b : Buffer) (conn : Connection) (dialect : Dialect) (key : Value) :
    Action (List Command) := do
  let candidate ← match b.group key .added with
    | [] => pure none
    | es => Action.ofExcept ((collapse b.descriptor (es.map MappedRow.row) key).map some)
  let lookup ← Action.ofExcept (b.lookup dialect key)
  let rows ← Action.query conn lookup
  let stored ← Action.ofExcept (b.persisted key rows)
  let row ← Action.ofExcept (b.merge key (stored.map Prod.snd) candidate)
  let command ← Action.ofExcept (b.command key stored row)
  pure command.toList

/-- Reduces groups in order. -/
def reduceGroups (b : Buffer) (conn : Connection) (dialect : Dialect) :
    List Value → Action (List Command)
  | [] => pure []
  | key :: keys => do
    let commands ← b.reduceGroup conn dialect key
    let rest ← b.reduceGroups conn dialect keys
    pure (commands ++ rest)

/-- Reduces the groups of several buffers in order. -/
def reduceAll (conn : Connection) (dialect : Dialect) : List Buffer → Action (List Command)
  | [] => pure []
  | b :: bs => do
    let commands ← b.reduceGroups conn dialect b.keys
    let rest ← reduceAll conn dialect bs
    pure (commands ++ rest)

end Buffer

/-- Runs the reductions and answers all commands of the flush in the order in which they run. -/
def Arena.finish (arena : Arena) (conn : Connection) (dialect : Dialect) :
    Action (List Command) := do
  let emitted ← Buffer.reduceAll conn dialect arena.buffers
  pure (Command.inOrder (arena.commands ++ emitted))

end DocStore

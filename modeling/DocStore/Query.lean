import DocStore.Program

/-!
# Queries over indexes and over documents

An `IndexQuery` selects rows of one index. A `DocumentQuery` selects documents
by the rows of the indexes they feed: it joins each index under the index's own
name, and its conditions and order terms refer to those names. Which way an
index is joined depends on whether it is a map or a reduce index, so a document
query asks for the descriptors of its entity type before it is compiled.
-/

set_option autoImplicit false

namespace DocStore

/-- The query that a compiling step makes, with the parameters it bound. -/
def Compile.toStatement (step : Compile Query) : Except Error Statement :=
  match step.run .start with
  | (.ok query, c) => .ok (.query query c.parameters)
  | (.error e, _) => .error e

/-- Rows of one index. -/
structure IndexQuery where
  index : IndexType
  collection : String
  filter : Option Expr
  order : List OrderTerm
  paging : Paging

namespace IndexQuery

def ofIndex (index : IndexType) (collection : String) : IndexQuery :=
  ⟨index, collection, none, [], ⟨none, none⟩⟩

/-- Asks for one condition more. -/
def restrict (q : IndexQuery) (e : Expr) : IndexQuery :=
  { q with filter := some (q.filter.elim e fun f => f.and e) }

def orderBy (q : IndexQuery) (e : Expr) (descending : Bool) : IndexQuery :=
  { q with order := q.order ++ [⟨e, descending⟩] }

def skip (q : IndexQuery) (n : Nat) : IndexQuery :=
  { q with paging := { q.paging with skip := some n } }

def take (q : IndexQuery) (n : Nat) : IndexQuery :=
  { q with paging := { q.paging with take := some n } }

def target (q : IndexQuery) (settings : Settings) : Target :=
  ⟨settings.dialect, settings.names q.collection, none⟩

/-- The condition on the rows; without one every row is selected. -/
def condition (q : IndexQuery) (t : Target) : Compile Sql := do
  Compile.bindIndex q.index.name q.index.name
  match q.filter with
  | some e => Compile.condition t e
  | none => pure (.truth true)

/-- The statement that selects the rows. -/
def statement (q : IndexQuery) (settings : Settings) : Except Error Statement :=
  let t := q.target settings
  Compile.toStatement do
    let filter ← q.condition t
    let order ← Compile.order t q.order
    pure (.indexRows q.index.name (t.names.index q.index.name) filter order (some q.paging))

/-- The statement that counts the rows; order and paging play no part in it. -/
def countStatement (q : IndexQuery) (settings : Settings) : Except Error Statement :=
  let t := q.target settings
  Compile.toStatement do
    let filter ← q.condition t
    pure (.indexCount q.index.name (t.names.index q.index.name) filter)

end IndexQuery

/-- Documents of one entity type. -/
structure DocumentQuery where
  entity : EntityType
  collection : String
  /-- The indexes joined, each with the condition on its rows. -/
  joins : List (String × Expr)
  order : List OrderTerm
  paging : Paging

namespace DocumentQuery

def ofEntity (entity : EntityType) (collection : String) : DocumentQuery :=
  ⟨entity, collection, [], [], ⟨none, none⟩⟩

/-- Joins an index, or asks for one condition more on an index already joined. -/
def joinEntry (index : String) (e : Expr) : List (String × Expr) → List (String × Expr)
  | [] => [(index, e)]
  | j :: rest => if j.1 = index then (index, j.2.and e) :: rest else j :: joinEntry index e rest

def join (q : DocumentQuery) (index : IndexType) (e : Expr) : DocumentQuery :=
  { q with joins := joinEntry index.name e q.joins }

def orderBy (q : DocumentQuery) (e : Expr) (descending : Bool) : DocumentQuery :=
  { q with order := q.order ++ [⟨e, descending⟩] }

def skip (q : DocumentQuery) (n : Nat) : DocumentQuery :=
  { q with paging := { q.paging with skip := some n } }

def take (q : DocumentQuery) (n : Nat) : DocumentQuery :=
  { q with paging := { q.paging with take := some n } }

def target (q : DocumentQuery) (settings : Settings) : Target :=
  ⟨settings.dialect, settings.names q.collection, none⟩

/-- How an index of a kind is joined. -/
def joinOf (names : TableNames) (index : String) : IndexKind → Join
  | .map => ⟨index, names.index index, none⟩
  | .reduce => ⟨index, names.index index, some (names.bridge index)⟩

/-- Looks up how the indexes are joined; each must be described for the entity type. -/
def lookupJoins (entity collection : String) (names : TableNames) : List String → Action (List Join)
  | [] => pure []
  | index :: rest => do
    let ds ← Action.descriptors entity collection
    match ds.find? fun d => d.index.name = index with
    | none => throw (.invalid (.undescribed index entity collection))
    | some d => do
      let joins ← lookupJoins entity collection names rest
      pure (joinOf names index d.kind :: joins)

/-- Gives every joined index its own name as alias. -/
def bindJoins : List Join → Compile Unit
  | [] => pure ()
  | j :: rest => do
    Compile.bindIndex j.index j.index
    bindJoins rest

/-- Renders the conditions of the joined indexes in order. -/
def joinConditions (t : Target) : List (String × Expr) → Compile (List Sql)
  | [] => pure []
  | j :: rest => do
    let condition ← Compile.condition t j.2
    let conditions ← joinConditions t rest
    pure (condition :: conditions)

/-- The documents and the conditions on them, of which the entity type is the first. -/
def source (q : DocumentQuery) (t : Target) (joins : List Join) : Compile DocumentSource := do
  bindJoins joins
  let entity ← Compile.bind t (.text q.entity.name)
  let conditions ← joinConditions t q.joins
  pure ⟨t.names.document, joins,
    .binary .eq (.column Join.documentAlias Column.typeName) entity :: conditions⟩

/-- The statement that selects the documents, once it is known how to join their indexes. -/
def compile (q : DocumentQuery) (settings : Settings) (joins : List Join) :
    Except Error Statement :=
  let t := q.target settings
  Compile.toStatement do
    let source ← q.source t joins
    let order ← Compile.order t q.order
    pure (.documents source order q.paging)

/-- The statement that counts the documents. -/
def compileCount (q : DocumentQuery) (settings : Settings) (joins : List Join) :
    Except Error Statement :=
  Compile.toStatement do
    let source ← q.source (q.target settings) joins
    pure (.documentCount source)

def requestJoins (q : DocumentQuery) (settings : Settings) : Action (List Join) :=
  lookupJoins q.entity.name q.collection (settings.names q.collection) (q.joins.map Prod.fst)

/-- The statement that selects the documents. -/
def statement (q : DocumentQuery) (settings : Settings) : Action Statement := do
  let joins ← q.requestJoins settings
  Action.ofExcept (q.compile settings joins)

/-- The statement that counts the documents; order and paging play no part in it. -/
def countStatement (q : DocumentQuery) (settings : Settings) : Action Statement := do
  let joins ← q.requestJoins settings
  Action.ofExcept (q.compileCount settings joins)

end DocumentQuery

/-- The answer to a counting query; a negative count is none. -/
def countOf : List Row → Except Error Nat
  | [] => .ok 0
  | row :: _ => (row.getInt64 Column.countName).map fun n => n.toInt.toNat

end DocStore

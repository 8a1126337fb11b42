import DocStore.Index

/-!
# Describing indexes

A descriptor says how entities of one type produce rows of one index. Without a
reduction every mapped row is a row of the index, owned by its document; with
one, the mapped rows that share the value of the group column are reduced to a
single row. Providers describe the indexes of a collection; what they add is
checked, so that a reduction always has a group column that the index declares.
-/

set_option autoImplicit false

namespace DocStore

structure Descriptor where
  entity : EntityType
  index : IndexType
  map : Json → List Json
  groupColumn : Option String
  reduce : Option (List Json → Option Json)
  /-- Takes rows out of an aggregate; nothing is left when the row is to go. -/
  delete : Option (Json → List Json → Option Json)

namespace Descriptor

/-- A map index. -/
def ofMap (entity : EntityType) (index : IndexType) (map : Json → List Json) : Descriptor :=
  ⟨entity, index, map, none, none, none⟩

def groupBy (d : Descriptor) (column : String) : Descriptor := { d with groupColumn := some column }

def withReduce (d : Descriptor) (reduce : List Json → Option Json) : Descriptor :=
  { d with reduce := some reduce }

def withDelete (d : Descriptor) (delete : Json → List Json → Option Json) : Descriptor :=
  { d with delete := some delete }

def kind (d : Descriptor) : IndexKind := if d.reduce.isSome then .reduce else .map

/-- Checks that a reduction has a group column and that the index declares it. -/
def validate (d : Descriptor) : Except Error Unit :=
  if d.reduce.isSome ∧ d.groupColumn = none then
    .error (.invariant (.reduceWithoutGroup d.index.name d.entity.name))
  else
    match d.groupColumn with
    | none => .ok ()
    | some column =>
      if (d.index.column? column).isSome then .ok ()
      else .error (.invariant (.noGroupColumn d.index.name column))

/-- The rows that a document's content maps to. -/
def mapContent (d : Descriptor) (content : Json) : Except Error (List Json) :=
  (d.entity.read content).map d.map

/-- The value of the group column of a row. -/
def groupKey (d : Descriptor) (row : Json) : Except Error Value :=
  match d.groupColumn with
  | none => .error (.invariant (.noGroupKey d.index.name))
  | some column => do
    let cells ← d.index.cells row
    match cells.find? fun c => c.1 = column with
    | some (_, v) => pure v
    | none => .error (.invariant (.noGroupColumn d.index.name column))

def reduceRows (d : Descriptor) (rows : List Json) : Except Error (Option Json) :=
  match d.reduce with
  | some reduce => .ok (reduce rows)
  | none => .error (.invariant (.noReduce d.index.name))

def deleteRows (d : Descriptor) (current : Json) (removed : List Json) :
    Except Error (Option Json) :=
  match d.delete with
  | some delete => .ok (delete current removed)
  | none => .error (.invariant (.noDelete d.index.name))

end Descriptor

/-- The descriptors collected for one entity type in one collection. -/
structure Describing where
  entityType : String
  collection : String
  descriptors : List Descriptor

namespace Describing

def start (entityType collection : String) : Describing := ⟨entityType, collection, []⟩

/-- Adds a descriptor. One for another entity type is passed over, so that a
provider can describe several types at once. -/
def add (ctx : Describing) (d : Descriptor) : Except Error Describing :=
  if d.entity.name ≠ ctx.entityType then .ok ctx
  else do
    d.validate
    if ctx.descriptors.any fun e => e.index.name = d.index.name then
      .error (.invariant (.describedTwice d.index.name d.entity.name))
    else pure { ctx with descriptors := ctx.descriptors ++ [d] }

end Describing

/-- What describes the indexes of one collection. -/
structure Provider where
  name : String
  collection : String
  describe : Describing → Except Error Describing

namespace Provider

/-- Asks providers in order until one fails; also answers which were asked. -/
def describeAll (ctx : Describing) : List Provider → Except Error Describing × List Provider
  | [] => (.ok ctx, [])
  | p :: ps =>
    match p.describe ctx with
    | .error e => (.error e, [p])
    | .ok ctx =>
      let (result, asked) := describeAll ctx ps
      (result, p :: asked)

end Provider

end DocStore

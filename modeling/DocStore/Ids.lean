import DocStore.Assoc

/-!
# Document identities

The default source of ids counts upwards in each collection. A collection is
seeded once anything is known of it, be it that an id was handed out.
-/

set_option autoImplicit false

namespace DocStore

/-- The last id of each collection. -/
structure IdTable where
  last : Assoc String Int64

namespace IdTable

instance : EmptyCollection IdTable := ⟨⟨∅⟩⟩

def isSeeded (ids : IdTable) (collection : String) : Bool := ids.last.contains collection

def lastId (ids : IdTable) (collection : String) : Int64 := (ids.last.get? collection).getD 0

/-- Keeps the ids still to be handed out above `atLeast`. -/
def seed (ids : IdTable) (collection : String) (atLeast : Int64) : IdTable :=
  let last := ids.lastId collection
  ⟨ids.last.insert collection (if last < atLeast then atLeast else last)⟩

/-- The next id of a collection. After the greatest id comes the least. -/
def next (ids : IdTable) (collection : String) : Int64 × IdTable :=
  let id := ids.lastId collection + 1
  (id, ⟨ids.last.insert collection id⟩)

end IdTable

/-- Ids in ascending order, each once. -/
def insertId (id : Int64) : List Int64 → List Int64
  | [] => [id]
  | i :: rest => if id < i then id :: i :: rest else if id = i then i :: rest
      else i :: insertId id rest

/-- The distinct ids of a list, in ascending order. -/
def sortedIds (ids : List Int64) : List Int64 := ids.foldr insertId []

end DocStore

/-!
# Columns of index tables
-/

set_option autoImplicit false

namespace DocStore

inductive ColumnKind where
  | integer
  | real
  | text
  | boolean
deriving DecidableEq

/-- The name of a kind in messages. -/
def ColumnKind.name : ColumnKind → String
  | .integer => "Integer"
  | .real => "Real"
  | .text => "Text"
  | .boolean => "Boolean"

/-- A column that an index type declares. -/
structure Column where
  name : String
  kind : ColumnKind
  nullable : Bool
deriving DecidableEq

namespace Column

def idName : String := "Id"

def documentIdName : String := "DocumentId"

def typeName : String := "Type"

def contentName : String := "Content"

def versionName : String := "Version"

/-- The name a count is returned under. -/
def countName : String := "Count"

end Column

end DocStore

import DocStore.Error

/-!
# Result rows and bound parameters
-/

set_option autoImplicit false

namespace DocStore

/-- One result row. A look-up takes the first column of the name, in any ASCII case. -/
structure Row where
  columns : List (String × Value)
deriving DecidableEq

namespace Row

/-- Whether two column names are the same up to the case of ASCII letters. -/
def sameName (a b : String) : Bool := a.toList.map Char.toLower = b.toList.map Char.toLower

def get? (row : Row) (name : String) : Option Value :=
  (row.columns.find? fun c => sameName c.1 name).map Prod.snd

def getInt64 (row : Row) (name : String) : Except Error Int64 :=
  match (row.get? name).bind Value.int64? with
  | some i => .ok i
  | none => .error (.internal (.notAnInteger name))

def getText (row : Row) (name : String) : Except Error String :=
  match (row.get? name).bind Value.text? with
  | some s => .ok s
  | none => .error (.internal (.notText name))

end Row

/-- Parameters in the order in which they were bound. -/
structure Parameters where
  entries : List (String × Value)
deriving DecidableEq

namespace Parameters

instance : EmptyCollection Parameters := ⟨⟨[]⟩⟩

def size (ps : Parameters) : Nat := ps.entries.length

def push (ps : Parameters) (name : String) (value : Value) : Parameters :=
  ⟨ps.entries ++ [(name, value)]⟩

def append (ps qs : Parameters) : Parameters := ⟨ps.entries ++ qs.entries⟩

def get? (ps : Parameters) (name : String) : Option Value :=
  (ps.entries.find? fun e => e.1 = name).map Prod.snd

/-- Gives the first parameter of a name another value. -/
def setEntry (name : String) (value : Value) : List (String × Value) → List (String × Value)
  | [] => []
  | e :: rest => if e.1 = name then (name, value) :: rest else e :: setEntry name value rest

def set (ps : Parameters) (name : String) (value : Value) : Parameters :=
  ⟨setEntry name value ps.entries⟩

/-- Parameters that agree name by name and value by value. -/
def agrees (ps qs : Parameters) : Bool :=
  ps.entries.length = qs.entries.length &&
    (ps.entries.zip qs.entries).all fun (p, q) => p.1 = q.1 && p.2.agrees q.2

end Parameters

/-- A statement as it is sent: its text and its parameters. -/
structure BoundSql where
  sql : String
  parameters : Parameters
deriving DecidableEq

/-- Whether two queries count as identical while both are in flight. -/
def BoundSql.agrees (a b : BoundSql) : Bool := a.sql = b.sql && a.parameters.agrees b.parameters

end DocStore

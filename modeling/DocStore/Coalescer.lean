import DocStore.Row

/-!
# Sharing identical queries

Callers that ask an identical query while it is in flight share one execution.
A `Cell` is one such execution: its callers stand in a queue, and the first of
them runs its own query for all. If that fails or the caller goes away, the next
one takes its turn. New callers join a cell only while it is listed, that is
until the caller that founded it is done or the coalescer is cleared.
-/

set_option autoImplicit false

namespace DocStore

/-- Callers of a coalescer are told apart by numbers. -/
abbrev Caller := Nat

/-- One shared execution of a query. -/
structure Cell where
  key : BoundSql
  founder : Caller
  /-- The callers that have no answer yet; it is the first one's turn. -/
  queue : List Caller
  rows : Option (List Row)
  /-- New callers with an identical query join. -/
  listed : Bool

structure Coalescer where
  cells : List Cell

namespace Coalescer

instance : EmptyCollection Coalescer := ⟨⟨[]⟩⟩

/-- Changes the first cell that satisfies a test. -/
def updateFirst (test : Cell → Bool) (f : Cell → Cell) : List Cell → List Cell
  | [] => []
  | cell :: rest => if test cell then f cell :: rest else cell :: updateFirst test f rest

def joins (key : BoundSql) (cell : Cell) : Bool := cell.listed && cell.key.agrees key

/-- Opens a cell for the query of a caller. -/
def found (co : Coalescer) (caller : Caller) (key : BoundSql) (listed : Bool) : Coalescer :=
  ⟨co.cells ++ [⟨key, caller, [caller], none, listed⟩]⟩

/-- A caller asks a query: it joins the listed cell of an identical one or founds a cell. -/
def enter (co : Coalescer) (caller : Caller) (key : BoundSql) : Coalescer :=
  if co.cells.any (joins key) then
    ⟨updateFirst (joins key) (fun cell => { cell with queue := cell.queue ++ [caller] }) co.cells⟩
  else co.found caller key true

/-- A caller asks a query that it shares with nobody. -/
def enterAlone (co : Coalescer) (caller : Caller) (key : BoundSql) : Coalescer :=
  co.found caller key false

/-- The cell in which a caller waits or runs. -/
def cell? (co : Coalescer) (caller : Caller) : Option Cell :=
  co.cells.find? fun cell => cell.queue.contains caller

/-- The rows that a caller shares, once there are any. -/
def rows? (co : Coalescer) (caller : Caller) : Option (List Row) := (co.cell? caller).bind Cell.rows

/-- Whether it is a caller's turn to run its own query. -/
def hasTurn (co : Coalescer) (caller : Caller) : Bool :=
  co.cells.any fun cell => cell.queue.head? = some caller && cell.rows.isNone

/-- A caller is done, with an answer or without. Its cell is no longer listed if
the caller founded it, and is forgotten once nobody is left in it. -/
def leave (co : Coalescer) (caller : Caller) : Coalescer :=
  ⟨(co.cells.map fun cell =>
    { cell with
      queue := cell.queue.filter fun c => c ≠ caller
      listed := cell.listed && cell.founder ≠ caller }).filter fun cell => !cell.queue.isEmpty⟩

/-- The caller whose turn it is has rows, which its whole cell shares. -/
def succeed (co : Coalescer) (caller : Caller) (rows : List Row) : Coalescer :=
  leave ⟨updateFirst (fun cell => cell.queue.contains caller)
    (fun cell => { cell with rows := some rows }) co.cells⟩ caller

/-- Forgets every entry; callers already in a cell stay there. -/
def clear (co : Coalescer) : Coalescer := ⟨co.cells.map fun cell => { cell with listed := false }⟩

/-- The number of queries that new callers can join. -/
def inFlight (co : Coalescer) : Nat := co.cells.countP Cell.listed

end Coalescer

end DocStore

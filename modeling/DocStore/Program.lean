import DocStore.Store

/-!
# Programs over storage and the shared store

A unit of work asks its surroundings for everything it shares with others: its
connection, the ids of a collection, the descriptors and the SQL that the store
keeps. A `Program` is such a sequence of requests, each of which may depend on
the answers so far. It says nothing about the answers, so one program can be run
against a script, against a database, or interleaved with other programs.
-/

set_option autoImplicit false

namespace DocStore

/-- Connections are told apart by their number. -/
abbrev Connection := Nat

inductive Request where
  | connect
  | begin (c : Connection)
  | commit (c : Connection)
  | rollback (c : Connection)
  /-- Runs a statement and answers how many rows it affected. -/
  | execute (c : Connection) (s : Statement)
  /-- Runs a statement and answers the first column of its first row. -/
  | scalar (c : Connection) (s : Statement)
  | query (c : Connection) (s : Statement)
  /-- Whether ids of the collection can be handed out. -/
  | idsSeeded (collection : String)
  /-- Keeps the ids of a collection above one in use. -/
  | seedIds (collection : String) (atLeast : Int64)
  | nextId (collection : String)
  | descriptors (entityType collection : String)
  | compiledSql (q : CompiledQuery) (collection : String) (args : Arguments)

/-- The answer to a request; requests to storage can fail. -/
abbrev Request.Outcome : Request → Type
  | .connect => Except Error Connection
  | .begin _ | .commit _ | .rollback _ => Except Error Unit
  | .execute _ _ => Except Error Nat
  | .scalar _ _ => Except Error (Option Value)
  | .query _ _ => Except Error (List Row)
  | .idsSeeded _ => Bool
  | .seedIds _ _ => Unit
  | .nextId _ => Int64
  | .descriptors _ _ => Except Error (List Descriptor)
  | .compiledSql _ _ _ => Except Error CompiledSql

inductive Program (α : Type) where
  | done (a : α)
  | ask (r : Request) (next : r.Outcome → Program α)

namespace Program

variable {α β : Type}

def bind (p : Program α) (f : α → Program β) : Program β :=
  match p with
  | .done a => f a
  | .ask r next => .ask r fun o => bind (next o) f

instance : Monad Program where
  pure := .done
  bind := bind

theorem bind_done (p : Program α) : p.bind .done = p := by
  induction p with
  | done a => rfl
  | ask r next ih => simp only [bind, ih]

theorem bind_assoc {γ : Type} (p : Program α) (f : α → Program β) (g : β → Program γ) :
    (p.bind f).bind g = p.bind fun a => (f a).bind g := by
  induction p with
  | done a => rfl
  | ask r next ih => simp only [bind, ih]

instance : LawfulMonad Program :=
  LawfulMonad.mk' Program bind_done (fun _ _ => rfl) bind_assoc

/-- Asks one request. -/
def request (r : Request) : Program r.Outcome := .ask r .done

/-- Runs a program against surroundings that answer from a state. -/
def run {σ : Type} (answer : (r : Request) → σ → r.Outcome × σ) : Program α → σ → α × σ
  | .done a, s => (a, s)
  | .ask r next, s =>
    let (o, s) := answer r s
    run answer (next o) s

end Program

/-- A program that can fail. -/
abbrev Action (α : Type) := ExceptT Error Program α

namespace Action

def ofProgram {α : Type} (p : Program α) : Action α := ExceptT.lift p

def ofExcept {α : Type} (e : Except Error α) : Action α := ExceptT.mk (.done e)

def begin (c : Connection) : Action Unit := ExceptT.mk (.request (.begin c))

def commit (c : Connection) : Action Unit := ExceptT.mk (.request (.commit c))

def rollback (c : Connection) : Action Unit := ExceptT.mk (.request (.rollback c))

def execute (c : Connection) (s : Statement) : Action Nat := ExceptT.mk (.request (.execute c s))

/-- Executes statements in order, whatever they affect. -/
def executeAll (c : Connection) : List Statement → Action Unit
  | [] => pure ()
  | s :: rest => do
    let _ ← execute c s
    executeAll c rest

def scalar (c : Connection) (s : Statement) : Action (Option Value) :=
  ExceptT.mk (.request (.scalar c s))

def query (c : Connection) (s : Statement) : Action (List Row) := ExceptT.mk (.request (.query c s))

def descriptors (entityType collection : String) : Action (List Descriptor) :=
  ExceptT.mk (.request (.descriptors entityType collection))

end Action

end DocStore

import DocStore.Coalescer.Schedule
import DocStore.Session.Read

/-!
# Reads that are under way together

The reads of a join start together and are looked at in turn, again and again,
until all have an answer. Identical queries among them run once. A query is sent
when it is its read's turn, and its rows are there when the read is looked at
the next time; so every round in which nothing starts finishes at least one
read, and there are at most as many rounds as reads besides the first.
-/

set_option autoImplicit false

namespace DocStore

/-- A read of a join. -/
inductive JoinedRead (α : Type) where
  | start (begin : Work (Reading α))
  | asking (caller : ScheduledCaller) (s : Statement) (finish : List Row → Work α)
  | finished (result : Except Error α)

namespace JoinedRead

variable {α : Type}

def result? : JoinedRead α → Option (Except Error α)
  | .finished r => some r
  | _ => none

/-- Runs work whose failure is an answer. -/
def settle (work : Work α) : Work (JoinedRead α) := do
  let r ← (ExceptT.lift work.run : Work (Except Error α))
  pure (.finished r)

/-- Looks at a read whose query is known: it may share rows, send its query, or finish. -/
def look (co : Coalescer) (number : Caller) (caller : ScheduledCaller) (s : Statement)
    (finish : List Row → Work α) : Work (Coalescer × JoinedRead α) := do
  let (co, seen) := Schedule.look co number caller
  match seen.state with
  | .finished (.ok rows) => do
    let read ← settle (finish rows)
    pure (co, read)
  | .finished (.error e) => pure (co, .finished (.error e))
  | _ =>
    if seen.invoked && !caller.invoked then do
      let outcome ← (ExceptT.lift (Work.query s).run : Work (Except Error (List Row)))
      pure (co, .asking { seen with outcome := some outcome } s finish)
    else pure (co, .asking seen s finish)

/-- Looks at a read for its turn in a round. -/
def turn (co : Coalescer) (number : Caller) : JoinedRead α → Work (Coalescer × JoinedRead α)
  | .start begin => do
    match ← (ExceptT.lift begin.run : Work (Except Error (Reading α))) with
    | .error e => pure (co, .finished (.error e))
    | .ok (.answered a) => pure (co, .finished (.ok a))
    | .ok (.asking s finish) => do
      let session ← get
      let key := s.bound session.settings.dialect
      let co := if session.settings.config.coalesceQueries then co.enter number key
        else co.enterAlone number key
      look co number ⟨toString number, none, false, .waiting⟩ s finish
  | .asking caller s finish => look co number caller s finish
  | .finished r => pure (co, .finished r)

/-- Looks at every read in turn. -/
def round (co : Coalescer)
    (number : Caller) : List (JoinedRead α) → Work (Coalescer × List (JoinedRead α))
  | [] => pure (co, [])
  | read :: rest => do
    let (co, read) ← turn co number read
    let (co, rest) ← round co (number + 1) rest
    pure (co, read :: rest)

/-- Rounds until every read is finished. -/
def rounds (co : Coalescer) (reads : List (JoinedRead α)) : Nat → Work (List (JoinedRead α))
  | 0 => pure reads
  | n + 1 =>
    if reads.all fun read => read.result?.isSome then pure reads
    else do
      let (co, reads) ← round co 0 reads
      rounds co reads n

end JoinedRead

/-- Runs reads together and answers each with its result, in order. -/
def Session.joinAll {α : Type} (reads : List (Work (Reading α))) :
    Work (List (Except Error α)) := do
  let reads ← JoinedRead.rounds ∅ (reads.map .start) (reads.length + 1)
  pure (reads.filterMap JoinedRead.result?)

end DocStore

import DocStore.Coalescer

/-!
# Schedules of callers

A schedule is a coalescer together with its callers, each with a query of its
own that ends when it is told how. Callers start, their queries finish or fail,
callers are dropped, and the coalescer may be cleared; after each step every
unfinished caller is looked at once, in the order in which they started. One
look is enough, since a caller only ever waits for callers that started before
it.
-/

set_option autoImplicit false

namespace DocStore

/-- Where a caller stands. -/
inductive CallerState where
  | waiting
  | running
  | finished (result : Except Error (List Row))
  | dropped

structure ScheduledCaller where
  name : String
  /-- How the caller's own query ends, once that is known. -/
  outcome : Option (Except Error (List Row))
  /-- The caller's own query was run. -/
  invoked : Bool
  state : CallerState

/-- A step of a schedule; callers are told apart by their names. -/
inductive ScheduleStep where
  | start (name : String) (key : BoundSql)
  /-- Tells how the query of a caller ends, also if it is not yet running. -/
  | finish (name : String) (outcome : Except Error (List Row))
  | drop (name : String)
  | clear

structure Schedule where
  coalescer : Coalescer
  callers : List ScheduledCaller

namespace ScheduledCaller

def isOpen (c : ScheduledCaller) : Bool :=
  match c.state with
  | .waiting | .running => true
  | _ => false

end ScheduledCaller

namespace Schedule

def start : Schedule := ⟨∅, []⟩

/-- Looks at one caller: it takes the rows of its cell, or runs its own query if
it is its turn, and is done when that query has ended. -/
def look (co : Coalescer) (number : Caller) (c : ScheduledCaller) : Coalescer × ScheduledCaller :=
  if !c.isOpen then (co, c)
  else
    match co.rows? number with
    | some rows => (co.leave number, { c with state := .finished (.ok rows) })
    | none =>
      if co.hasTurn number then
        match c.outcome with
        | none => (co, { c with invoked := true, state := .running })
        | some (.ok rows) =>
          (co.succeed number rows, { c with invoked := true, state := .finished (.ok rows) })
        | some (.error e) =>
          (co.leave number, { c with invoked := true, state := .finished (.error e) })
      else (co, c)

/-- Looks at every caller in the order in which they started. -/
def lookAll (co : Coalescer)
    (number : Caller) : List ScheduledCaller → Coalescer × List ScheduledCaller
  | [] => (co, [])
  | c :: rest =>
    let (co, c) := look co number c
    let (co, rest) := lookAll co (number + 1) rest
    (co, c :: rest)

def settle (s : Schedule) : Schedule :=
  let (co, callers) := lookAll s.coalescer 0 s.callers
  ⟨co, callers⟩

/-- Changes the unfinished caller of a name. -/
def updateCaller (name : String) (f : ScheduledCaller → ScheduledCaller)
    (callers : List ScheduledCaller) : List ScheduledCaller :=
  callers.map fun c => if c.name = name ∧ c.isOpen then f c else c

/-- Takes one step, before anybody is looked at. -/
def apply (s : Schedule) : ScheduleStep → Schedule
  | .start name key =>
    ⟨s.coalescer.enter s.callers.length key, s.callers ++ [⟨name, none, false, .waiting⟩]⟩
  | .finish name outcome =>
    { s with callers := updateCaller name (fun c => { c with outcome := some outcome }) s.callers }
  | .drop name =>
    match s.callers.findIdx? fun c => c.name = name && c.isOpen with
    | some number =>
      ⟨s.coalescer.leave number,
        updateCaller name (fun c => { c with state := .dropped }) s.callers⟩
    | none => s
  | .clear => { s with coalescer := s.coalescer.clear }

/-- Takes one step and looks at every caller. -/
def step (s : Schedule) (what : ScheduleStep) : Schedule := (s.apply what).settle

end Schedule

end DocStore

import DocStore.Proofs.CommandEffects
import DocStore.Proofs.Groups
import DocStore.Proofs.Planning
import Mathlib.Data.List.Forall2
import Mathlib.Data.List.ReduceOption

/-!
# What reductions emit

The end of a flush looks every touched group up and decides on at most one
command for it. `Buffer.Emits` ties the decision to the rows of a database, and
surroundings that look groups up as they are stored emit exactly what is decided
on there.
-/

set_option autoImplicit false

namespace DocStore

namespace Buffer

/-- A row of the index table belongs to a group. -/
def inGroup (b : Buffer) (key : Value) (row : Row) : Bool :=
  match b.descriptor.groupColumn with
  | none => false
  | some column => (row.value? column).any fun v => v.agrees key

theorem reduceGroup_eq (b : Buffer) (conn : Connection) (dialect : Dialect) (key : Value) :
    b.reduceGroup conn dialect key = (do
      let candidate ← Action.ofExcept (b.candidate key)
      let lookup ← Action.ofExcept (b.lookup dialect key)
      let rows ← Action.query conn lookup
      let stored ← Action.ofExcept (b.persisted key rows)
      let row ← Action.ofExcept (b.merge key (stored.map Prod.snd) candidate)
      let command ← Action.ofExcept (b.command key stored row)
      pure command.toList) := by
  unfold reduceGroup candidate
  cases b.group key .added <;> rfl

variable {σ : Type} {answer : Answerer σ} {b : Buffer} {conn : Connection} {dialect : Dialect}
  {key : Value}

theorem yields_reduceGroup_iff {st st' : σ} {commands : List Command} :
    Action.Yields answer (b.reduceGroup conn dialect key) st commands st' ↔
      ∃ q found c, b.lookup dialect key = .ok q ∧ answer (.query conn q) st = (.ok found, st') ∧
        b.outcome key found = .ok c ∧ commands = c.toList := by
  unfold outcome
  simp only [reduceGroup_eq, Action.yields_bind_iff, Action.yields_ofExcept_iff,
    Action.yields_query_iff, Action.yields_pure_iff, bind_eq_ok_iff]
  constructor
  · rintro ⟨candidate, _, ⟨hc, rfl⟩, q, _, ⟨hq, rfl⟩, found, _, hfound, stored, _, ⟨hs, rfl⟩, row,
      _, ⟨hr, rfl⟩, c, _,
      ⟨hc', rfl⟩, rfl, rfl⟩
    exact ⟨q, found, c, hq, hfound, ⟨candidate, hc, stored, hs, row, hr, hc'⟩, rfl⟩
  · rintro ⟨q, found, c, hq, hfound, ⟨candidate, hc, stored, hs, row, hr, hc'⟩, rfl⟩
    exact ⟨candidate, st, ⟨hc, rfl⟩, q, st, ⟨hq, rfl⟩, found, st', hfound, stored, st',
      ⟨hs, rfl⟩, row, st', ⟨hr, rfl⟩, c, st', ⟨hc', rfl⟩, rfl, rfl⟩

end Buffer

/-- Groups are looked up as they are stored: the rows of the index table whose
group column has the key, in any order. -/
def Storage.LooksUp {σ : Type} (S : Storage σ) (dialect : Dialect) : Prop :=
  ∀ {b : Buffer} {conn : Connection} {key : Value} {q : Statement} {st st' : σ} {found : List Row},
    b.lookup dialect key = .ok q → S.answer (.query conn q) st = (.ok found, st') →
      found.Perm ((S.tables st (b.names.index b.descriptor.index.name)).filter (b.inGroup key))

/-- No look-up of a group is turned down. -/
def Storage.Answers {σ : Type} (S : Storage σ) (dialect : Dialect) : Prop :=
  ∀ {b : Buffer} {conn : Connection} {key : Value} {q : Statement} {st : σ},
    b.lookup dialect key = .ok q → ∃ found st', S.answer (.query conn q) st = (.ok found, st')

/-- What is decided for a group of a database. -/
def Buffer.Emits (b : Buffer) (db : Database) (key : Value) (c : Option Command) : Prop :=
  ∃ found, found.Perm ((db (b.names.index b.descriptor.index.name)).filter (b.inGroup key)) ∧
    b.outcome key found = .ok c

/-- The groups touched, each with its buffer. -/
def Arena.touched (buffers : List Buffer) : List (Buffer × Value) :=
  buffers.flatMap fun b => b.keys.map fun key => (b, key)

/-- A decision for each of some groups, from rows that were found for it, and
the commands decided on. -/
def DecidedFrom (found : Buffer → Value → List Row → Prop) (groups : List (Buffer × Value))
    (commands : List Command) : Prop :=
  ∃ cs, List.Forall₂ (fun g c => ∃ rows, found g.1 g.2 rows ∧ g.1.outcome g.2 rows = .ok c) groups
    cs ∧ commands = cs.reduceOption

theorem DecidedFrom.append {found : Buffer → Value → List Row → Prop}
    {groups groups' : List (Buffer × Value)} {commands commands' : List Command}
    (h : DecidedFrom found groups commands) (h' : DecidedFrom found groups' commands') :
    DecidedFrom found (groups ++ groups') (commands ++ commands') := by
  obtain ⟨cs, each, rfl⟩ := h
  obtain ⟨cs', each', rfl⟩ := h'
  exact ⟨cs ++ cs', List.rel_append each each', (List.reduceOption_append cs cs').symm⟩

/-- A decision for each of some groups, and the commands decided on. -/
def Decided (db : Database) (groups : List (Buffer × Value)) (commands : List Command) : Prop :=
  ∃ cs, List.Forall₂ (fun g c => Buffer.Emits g.1 db g.2 c) groups cs ∧ commands = cs.reduceOption

/-- Every command decided on was decided on for one of the groups. -/
theorem Decided.of_mem {db : Database} {groups : List (Buffer × Value)} {commands : List Command}
    (h : Decided db groups commands) {c : Command} (hc : c ∈ commands) :
    ∃ g ∈ groups, g.1.Emits db g.2 (some c) := by
  obtain ⟨cs, each, rfl⟩ := h
  rw [List.reduceOption_mem_iff] at hc
  obtain ⟨i, hi, hget⟩ := List.getElem_of_mem hc
  have len := each.length_eq
  refine ⟨groups[i], List.getElem_mem _, ?_⟩
  have here := (List.forall₂_iff_get.1 each).2 i (by omega) hi
  simp only [List.get_eq_getElem] at here
  rwa [hget] at here

/-- Every group has its decision, and what was decided on is among the commands. -/
theorem Decided.of_mem_groups {db : Database} {groups : List (Buffer × Value)}
    {commands : List Command} (h : Decided db groups commands) {g : Buffer × Value}
    (hg : g ∈ groups) : ∃ c, g.1.Emits db g.2 c ∧ ∀ c' ∈ c, c' ∈ commands := by
  obtain ⟨cs, each, rfl⟩ := h
  obtain ⟨i, hi, rfl⟩ := List.getElem_of_mem hg
  have len := each.length_eq
  have here := (List.forall₂_iff_get.1 each).2 i hi (by omega)
  refine ⟨cs[i], here, fun c' hc' => ?_⟩
  rw [List.reduceOption_mem_iff]
  exact (Option.mem_def.1 hc') ▸ List.getElem_mem _

section Emitting

variable {σ : Type} {S : Storage σ} (faithful : S.Faithful fun _ => True) {dialect : Dialect}
  {conn : Connection}
include faithful

section Looking

variable {F : Database → Buffer → Value → List Row → Prop}
  (looks : ∀ {b : Buffer} {conn : Connection} {key : Value} {q : Statement} {st st' : σ}
    {rows : List Row},
    b.lookup dialect key = .ok q → S.answer (.query conn q) st = (.ok rows, st') →
      F (S.tables st) b key rows)
include looks

theorem decidedFrom_of_reduceGroups {b : Buffer} {keys : List Value} {st st' : σ}
    {commands : List Command}
    (h : Action.Yields S.answer (b.reduceGroups conn dialect keys) st commands st') :
    S.tables st' = S.tables st ∧
    DecidedFrom (F (S.tables st)) (keys.map fun key => (b, key)) commands := by
  induction keys generalizing st commands with
  | nil =>
    obtain ⟨rfl, rfl⟩ := Action.yields_pure_iff.1 h
    exact ⟨rfl, [], List.Forall₂.nil, rfl⟩
  | cons key keys ih =>
    simp only [Buffer.reduceGroups, Action.yields_bind_iff, Action.yields_pure_iff] at h
    obtain ⟨here, st₁, hhere, rest, _, hrest, rfl, rfl⟩ := h
    obtain ⟨q, rows, c, hq, hrows, hc, rfl⟩ := Buffer.yields_reduceGroup_iff.1 hhere
    have same := S.tables_of_quiet faithful (r := .query conn q) st trivial
    rw [hrows] at same
    obtain ⟨same', decided⟩ := ih hrest
    rw [same] at same' decided
    have here : DecidedFrom (F (S.tables st)) [(b, key)] c.toList :=
      ⟨[c], List.Forall₂.cons ⟨rows, looks hq hrows, hc⟩ List.Forall₂.nil,
        (List.reduceOption_singleton c).symm⟩
    exact ⟨same', here.append decided⟩

theorem decidedFrom_of_reduceAll {buffers : List Buffer} {st st' : σ} {commands : List Command}
    (h : Action.Yields S.answer (Buffer.reduceAll conn dialect buffers) st commands st') :
    S.tables st' = S.tables st ∧
    DecidedFrom (F (S.tables st)) (Arena.touched buffers) commands := by
  induction buffers generalizing st commands with
  | nil =>
    obtain ⟨rfl, rfl⟩ := Action.yields_pure_iff.1 h
    exact ⟨rfl, [], List.Forall₂.nil, rfl⟩
  | cons b bs ih =>
    simp only [Buffer.reduceAll, Action.yields_bind_iff, Action.yields_pure_iff] at h
    obtain ⟨here, st₁, hhere, rest, _, hrest, rfl, rfl⟩ := h
    obtain ⟨same, decided⟩ := decidedFrom_of_reduceGroups faithful looks hhere
    obtain ⟨same', decided'⟩ := ih hrest
    rw [same] at same' decided'
    exact ⟨same', decided.append decided'⟩

/-- The end of a flush reads only, and answers what was pushed and what was decided on, in order. -/
theorem decidedFrom_of_finish {arena : Arena} {st st' : σ} {commands : List Command}
    (h : Action.Yields S.answer (arena.finish conn dialect) st commands st') :
    S.tables st' = S.tables st ∧
    ∃ emitted, DecidedFrom (F (S.tables st)) (Arena.touched arena.buffers) emitted ∧
      commands = Command.inOrder (arena.commands ++ emitted) := by
  simp only [Arena.finish, Action.yields_bind_iff, Action.yields_pure_iff] at h
  obtain ⟨emitted, _, hemitted, rfl, rfl⟩ := h
  obtain ⟨same, decided⟩ := decidedFrom_of_reduceAll faithful looks hemitted
  exact ⟨same, emitted, decided, rfl⟩

end Looking

/-- Where groups are looked up as they are stored, each is decided on as the database has it. -/
theorem decided_of_finish (looks : S.LooksUp dialect) {arena : Arena} {st st' : σ}
    {commands : List Command}
    (h : Action.Yields S.answer (arena.finish conn dialect) st commands st') :
    S.tables st' = S.tables st ∧
    ∃ emitted, Decided (S.tables st) (Arena.touched arena.buffers) emitted ∧
      commands = Command.inOrder (arena.commands ++ emitted) :=
  decidedFrom_of_finish faithful (F := fun db b key rows =>
    rows.Perm ((db (b.names.index b.descriptor.index.name)).filter (b.inGroup key))) looks h

end Emitting

end DocStore

import DocStore.Proofs.Agreement
import Mathlib.Control.Monad.Basic
import Mathlib.Data.List.Infix
import Mathlib.Data.List.Nodup

/-!
# Who gets which rows

A chronicle of callers: who entered which entry of the coalescer, whose query
was invoked and how it ended, and what each caller was told. An entry is named
by the caller that founded it. Whatever callers do and in whatever order they
are looked at, every happening is justified by those before it, and so the rows
that a caller gets are those of the one successful query of its entry. That
query is identical to the caller's own, unless the founder bound a double to
which two different integers of the two round.
-/

set_option autoImplicit false

namespace DocStore

/-! ## Queries that one query is identical to -/

/-- At one place a query binds a double, and two others different integers that round to it. -/
def BoundSql.Conflates (founder a b : BoundSql) : Prop :=
  ∃ (i : Nat) (name : String) (x : Double) (m n : Int64),
    founder.parameters.entries[i]? = some (name, .float x) ∧
      a.parameters.entries[i]? = some (name, .int m) ∧
      b.parameters.entries[i]? = some (name, .int n) ∧
        m ≠ n ∧ Double.ofInt m.toInt = x ∧ Double.ofInt n.toInt = x

/-- Queries that are identical to one query are identical, unless it conflates them. -/
theorem BoundSql.agrees_or_conflates {founder a b : BoundSql} (ha : founder.agrees a = true)
    (hb : founder.agrees b = true) : a.agrees b = true ∨ founder.Conflates a b := by
  rw [agrees_iff] at ha hb ⊢
  obtain ⟨sql, ha⟩ := ha
  obtain ⟨sql', hb⟩ := hb
  unfold Conflates
  generalize founder.parameters.entries = ks at *
  generalize a.parameters.entries = vs at *
  generalize b.parameters.entries = ws at *
  suffices List.Forall₂ (fun p q => p.1 = q.1 ∧ p.2.agrees q.2 = true) vs ws ∨ _ from
    this.imp_left fun all => ⟨sql.symm.trans sql', all⟩
  clear sql sql'
  induction ha generalizing ws with
  | nil =>
    cases hb
    exact .inl .nil
  | @cons k v ks vs first _ ih =>
    cases hb with
    | @cons _ w _ ws second rest =>
      obtain ⟨name, k⟩ := k
      obtain ⟨name', v⟩ := v
      obtain ⟨name'', w⟩ := w
      obtain ⟨rfl, hv⟩ := first
      obtain ⟨rfl, hw⟩ := second
      rcases Value.agrees_or_conflates hv hw with here | ⟨m, n, rfl, rfl, other, rfl, same⟩
      · rcases ih ws rest with later | ⟨i, conflated⟩
        · exact .inl (.cons ⟨rfl, here⟩ later)
        · exact .inr ⟨i + 1, conflated⟩
      · exact .inr ⟨0, name, _, m, n, rfl, rfl, rfl, other, rfl, same.symm⟩

/-! ## Chronicles -/

/-- What happens to a caller in its entry, which is named by the caller that founded it. -/
inductive Happening where
  | enters (n entry : Caller) (key : BoundSql)
  /-- Its own query is invoked. -/
  | invokes (n entry : Caller)
  /-- Its own query ends. -/
  | ends (n entry : Caller) (outcome : Except Error (List Row))
  /-- It is told a result. -/
  | completes (n entry : Caller) (result : Except Error (List Row))
  | drops (n entry : Caller)
deriving DecidableEq

namespace Happening

def caller : Happening → Caller
  | .enters n _ _ | .invokes n _ | .ends n _ _ | .completes n _ _ | .drops n _ => n

def entry : Happening → Caller
  | .enters _ e _ | .invokes _ e | .ends _ e _ | .completes _ e _ | .drops _ e => e

end Happening

namespace Schedule

/-- What a step makes happen before anybody is looked at. -/
def noted (s : Schedule) : ScheduleStep → List Happening
  | .start _ key =>
    let n := s.callers.length
    [.enters n ((s.coalescer.enter n key).founderOf n) key]
  | .drop name =>
    match s.callers.findIdx? fun c => c.name = name && c.isOpen with
    | some n => [.drops n (s.coalescer.founderOf n)]
    | none => []
  | .finish _ _ | .clear => []

/-- What happens when a caller is looked at: it is told the rows of its entry, or it is its turn
to run its own query. -/
def seen (co : Coalescer) (n : Caller) (c : ScheduledCaller) : List Happening :=
  let e := co.founderOf n
  if !c.isOpen then []
  else
    match co.rows? n with
    | some rows => [.completes n e (.ok rows)]
    | none =>
      if co.hasTurn n then
        (if c.invoked then [] else [.invokes n e]) ++
          match c.outcome with
          | none => []
          | some outcome => [.ends n e outcome, .completes n e outcome]
      else []

end Schedule

/-- A step of a schedule, or a look at one caller. -/
inductive Act where
  | takes (what : ScheduleStep)
  | looks (n : Caller)

/-- A schedule with everything that has happened in it. -/
structure Chronicle where
  schedule : Schedule
  log : List Happening

namespace Chronicle

def act (ch : Chronicle) : Act → Chronicle
  | .takes what => ⟨ch.schedule.apply what, ch.log ++ ch.schedule.noted what⟩
  | .looks n =>
    match ch.schedule.callers[n]? with
    | none => ch
    | some c =>
      let (co, c') := Schedule.look ch.schedule.coalescer n c
      ⟨⟨co, ch.schedule.callers.set n c'⟩, ch.log ++ Schedule.seen ch.schedule.coalescer n c⟩

/-- The chronicle of steps and looks in any order. -/
def run (acts : List Act) : Chronicle := acts.foldl act ⟨.start, []⟩

end Chronicle

/-! ## Happenings that are justified -/

/-- A caller whose query was invoked has been dropped, or its query failed. -/
def GivenUp (log : List Happening) (n entry : Caller) : Prop :=
  .drops n entry ∈ log ∨ ∃ err, .ends n entry (.error err) ∈ log

/-- What must have happened, and must not have happened, before something happens. -/
def Justified (before : List Happening) : Happening → Prop
  | .enters n e key =>
    (∀ e' key', .enters n e' key' ∉ before) ∧
      (e = n ∨ ∃ founding, .enters e e founding ∈ before ∧ founding.agrees key = true)
  | .invokes n e =>
    (∃ key, .enters n e key ∈ before) ∧ (∀ e', .invokes n e' ∉ before) ∧
      (∀ m, .invokes m e ∈ before → GivenUp before m e) ∧ ∀ m rows, .ends m e (.ok rows) ∉ before
  | .ends n e _ => .invokes n e ∈ before ∧ ∀ m rows, .ends m e (.ok rows) ∉ before
  | .completes n e (.ok rows) => (∃ key, .enters n e key ∈ before) ∧
      ∃ m, .ends m e (.ok rows) ∈ before
  | .completes n e (.error err) => .ends n e (.error err) ∈ before
  | .drops n e => ∃ key, .enters n e key ∈ before

/-- A log in which everything is justified by what stands before it. -/
inductive Chronicled : List Happening → Prop where
  | nil : Chronicled []
  | snoc {log : List Happening} {ev : Happening} (h : Chronicled log)
      (justified : Justified log ev) : Chronicled (log ++ [ev])

namespace Chronicled

variable {log : List Happening}

theorem justified (h : Chronicled log) {before : List Happening} {ev : Happening}
    (here : before ++ [ev] <+: log) : Justified before ev := by
  induction h with
  | nil => simp at here
  | snoc _ last ih =>
    rcases List.prefix_concat_iff.1 here with whole | earlier
    · obtain ⟨rfl, same⟩ := List.append_inj' whole rfl
      exact List.singleton_inj.1 same ▸ last
    · exact ih earlier

/-- Everything happens to a caller in the entry that it entered. -/
theorem entered (h : Chronicled log) {ev : Happening} (here : ev ∈ log) :
    ∃ key, .enters ev.caller ev.entry key ∈ log := by
  induction h generalizing ev with
  | nil => cases here
  | @snoc log last _ justified ih =>
    rcases List.mem_append.1 here with here | here
    · obtain ⟨key, entered⟩ := ih here
      exact ⟨key, List.mem_append_left _ entered⟩
    obtain rfl := List.mem_singleton.1 here
    have lift : ∀ {n e}, (∃ key, .enters n e key ∈ log) → ∃ key, .enters n e key ∈ log ++ [ev] :=
      fun ⟨key, entered⟩ => ⟨key, List.mem_append_left _ entered⟩
    cases ev with
    | enters n e key => exact ⟨key, List.mem_append_right _ (List.mem_singleton_self _)⟩
    | invokes n e => exact lift justified.1
    | ends n e outcome =>
      have asked := ih justified.1
      exact lift asked
    | completes n e result =>
      cases result with
      | ok rows => exact lift justified.1
      | error err =>
        have asked := ih (show Happening.ends n e (.error err) ∈ log from justified)
        exact lift asked
    | drops n e => exact lift justified

/-- A caller enters once. -/
theorem enters_unique (h : Chronicled log) {n e e' : Caller} {key key' : BoundSql}
    (here : .enters n e key ∈ log) (there : .enters n e' key' ∈ log) : e = e' ∧ key = key' := by
  induction h with
  | nil => cases here
  | snoc _ justified ih =>
    rcases List.mem_append.1 here with early | last <;>
      rcases List.mem_append.1 there with early' | last'
    · exact ih early early'
    · obtain rfl := List.mem_singleton.1 last'
      exact absurd early (justified.1 e key)
    · obtain rfl := List.mem_singleton.1 last
      exact absurd early' (justified.1 e' key')
    · cases (List.mem_singleton.1 last).trans (List.mem_singleton.1 last').symm
      exact ⟨rfl, rfl⟩

/-- Whoever enters an entry asks a query that is identical to the founder's. -/
theorem founded (h : Chronicled log) {n e : Caller} {key : BoundSql}
    (here : .enters n e key ∈ log) :
    ∃ founding, .enters e e founding ∈ log ∧ founding.agrees key = true := by
  induction h with
  | nil => cases here
  | snoc _ justified ih =>
    rcases List.mem_append.1 here with here | last
    · obtain ⟨founding, founded, agrees⟩ := ih here
      exact ⟨founding, List.mem_append_left _ founded, agrees⟩
    obtain rfl := List.mem_singleton.1 last
    rcases justified.2 with rfl | ⟨founding, founded, agrees⟩
    · exact ⟨key, here, BoundSql.agrees_self key⟩
    · exact ⟨founding, List.mem_append_left _ founded, agrees⟩

/-- One query of an entry is successful at most. -/
theorem success_unique (h : Chronicled log) {m m' e : Caller} {rows rows' : List Row}
    (here : .ends m e (.ok rows) ∈ log) (there : .ends m' e (.ok rows') ∈ log) :
    m = m' ∧ rows = rows' := by
  induction h with
  | nil => cases here
  | snoc _ justified ih =>
    rcases List.mem_append.1 here with early | last <;>
      rcases List.mem_append.1 there with early' | last'
    · exact ih early early'
    · obtain rfl := List.mem_singleton.1 last'
      exact absurd early (justified.2 m rows)
    · obtain rfl := List.mem_singleton.1 last
      exact absurd early' (justified.2 m' rows')
    · cases (List.mem_singleton.1 last).trans (List.mem_singleton.1 last').symm
      exact ⟨rfl, rfl⟩

end Chronicled

/-! ## What a schedule keeps of its log -/

/-- What a log tells about a cell: who is in it, and how the queries of its entry stand. -/
structure Cell.Recorded (log : List Happening) (cell : Cell) : Prop where
  founded : .enters cell.founder cell.founder cell.key ∈ log
  members : ∀ n ∈ cell.queue, ∃ key, .enters n cell.founder key ∈ log
  /-- Without rows, no query was successful, and those that were invoked have been given
  up or have their turn. -/
  pending : cell.rows = none → (∀ m rows, .ends m cell.founder (.ok rows) ∉ log) ∧
    ∀ m, .invokes m cell.founder ∈ log → GivenUp log m cell.founder ∨ cell.queue.head? = some m
  shared : ∀ rows, cell.rows = some rows → ∃ m, .ends m cell.founder (.ok rows) ∈ log

theorem GivenUp.append {log : List Happening} {n e : Caller} (h : GivenUp log n e)
    (new : List Happening) : GivenUp (log ++ new) n e :=
  h.imp (List.mem_append_left _) fun ⟨err, failed⟩ => ⟨err, List.mem_append_left _ failed⟩

namespace Cell.Recorded

variable {log : List Happening} {cell : Cell}

theorem members_append (h : cell.Recorded log) (new : List Happening) :
    ∀ n ∈ cell.queue, ∃ key, .enters n cell.founder key ∈ log ++ new := by
  intro n hn
  obtain ⟨key, entered⟩ := h.members n hn
  exact ⟨key, List.mem_append_left _ entered⟩

/-- Nothing changes for a cell while no query of its entry is invoked or successful. -/
theorem append (h : cell.Recorded log) {new : List Happening}
    (invokes : ∀ m, .invokes m cell.founder ∉ new)
    (succeeds : ∀ m rows, .ends m cell.founder (.ok rows) ∉ new) : cell.Recorded (log ++ new) where
  founded := List.mem_append_left _ h.founded
  members := h.members_append new
  pending rows := by
    obtain ⟨none, turns⟩ := h.pending rows
    refine ⟨fun m rows ends => ?_, fun m invoked => ?_⟩
    · exact (List.mem_append.1 ends).elim (none m rows) (succeeds m rows)
    · rcases List.mem_append.1 invoked with invoked | invoked
      · exact (turns m invoked).imp_left fun givenUp => givenUp.append new
      · exact absurd invoked (invokes m)
  shared rows found := by
    obtain ⟨m, ends⟩ := h.shared rows found
    exact ⟨m, List.mem_append_left _ ends⟩

/-- A caller leaves a cell that has rows, or it has been given up. -/
theorem leave (h : cell.Recorded log) {n : Caller}
    (left : n ∈ cell.queue → cell.rows = none → GivenUp log n cell.founder) (listed : Bool) :
    Cell.Recorded log { cell with queue := cell.queue.filter fun c => c ≠ n, listed } where
  founded := h.founded
  members m hm := h.members m (List.mem_filter.1 hm).1
  pending rows := by
    obtain ⟨none, turns⟩ := h.pending rows
    refine ⟨none, fun m invoked => ?_⟩
    rcases turns m invoked with givenUp | head
    · exact .inl givenUp
    by_cases same : m = n
    · subst same
      exact .inl (left (List.mem_of_mem_head? head) rows)
    · exact .inr (Coalescer.head?_filter_ne head same)
  shared := h.shared

/-- Whoever has its turn in a cell without rows may invoke its query. -/
theorem invoke (h : cell.Recorded log) {n : Caller} (head : cell.queue.head? = some n)
    (rows : cell.rows = none) : cell.Recorded (log ++ [.invokes n cell.founder]) where
  founded := List.mem_append_left _ h.founded
  members := h.members_append _
  pending none := by
    obtain ⟨unsuccessful, turns⟩ := h.pending none
    refine ⟨fun m rows' ends => unsuccessful m rows' (by simpa using ends), fun m before => ?_⟩
    rcases List.mem_append.1 before with before | last
    · exact (turns m before).imp_left fun givenUp => givenUp.append _
    · obtain ⟨rfl, _⟩ := Happening.invokes.inj (List.mem_singleton.1 last)
      exact .inr head
  shared _ found := by
    rw [rows] at found
    cases found

/-- A cell gets the rows of a query that was successful. -/
theorem succeed (h : cell.Recorded log) {n : Caller} {rows : List Row} {new : List Happening}
    (ends : .ends n cell.founder (.ok rows) ∈ new) :
    Cell.Recorded (log ++ new) { cell with rows := some rows } where
  founded := List.mem_append_left _ h.founded
  members := h.members_append _
  pending none := by cases none
  shared rows' shared := by
    obtain rfl := Option.some.inj shared
    exact ⟨n, List.mem_append_right _ ends⟩

end Cell.Recorded

/-- If a caller is in cells of one founder only, that is the founder of its cell. -/
theorem Coalescer.founderOf_of_only {co : Coalescer} {cell : Cell} {n : Caller}
    (hcell : cell ∈ co.cells) (hn : n ∈ cell.queue)
    (only : ∀ other ∈ co.cells, n ∈ other.queue → other.founder = cell.founder) :
    co.founderOf n = cell.founder := by
  obtain ⟨other, found⟩ : ∃ other, co.cell? n = some other :=
    Option.isSome_iff_exists.1 (List.find?_isSome.2 ⟨cell, hcell, by simpa using hn⟩)
  rw [founderOf, found]
  exact only other (List.mem_of_find?_eq_some found) (by simpa using List.find?_some found)

/-- What the log of a schedule tells about its cells and callers. -/
structure Recorded (log : List Happening) (co : Coalescer)
    (callers : List ScheduledCaller) : Prop where
  chronicled : Chronicled log
  started : ∀ n e key, .enters n e key ∈ log → n < callers.length
  cells : ∀ cell ∈ co.cells, cell.Recorded log
  founders : (co.cells.map Cell.founder).Nodup
  queued : ∀ n c, callers[n]? = some c → c.isOpen = true → ∃ cell ∈ co.cells, n ∈ cell.queue
  invoked : ∀ n c, callers[n]? = some c → (c.invoked = true ↔ ∃ e, .invokes n e ∈ log)
  told : ∀ n c, callers[n]? = some c → ∀ r, c.state = .finished r ↔ ∃ e, .completes n e r ∈ log
  answered : ∀ n e outcome, .ends n e outcome ∈ log → .completes n e outcome ∈ log

namespace Recorded

variable {log : List Happening} {co : Coalescer} {callers : List ScheduledCaller} {n : Caller}
  {c : ScheduledCaller}
variable {cell : Cell}

/-- A caller is in cells of its entry only. -/
theorem founderOf_eq (h : Recorded log co callers) (hcell : cell ∈ co.cells) (hn : n ∈ cell.queue) :
    co.founderOf n = cell.founder := by
  obtain ⟨key, entered⟩ := (h.cells cell hcell).members n hn
  refine Coalescer.founderOf_of_only hcell hn fun other hother hn' => ?_
  obtain ⟨key', entered'⟩ := (h.cells other hother).members n hn'
  exact (h.chronicled.enters_unique entered' entered).1

theorem eq_of_founder_eq (h : Recorded log co callers) {other : Cell} (hcell : cell ∈ co.cells)
    (hother : other ∈ co.cells) (same : cell.founder = other.founder) : cell = other :=
  List.inj_on_of_nodup_map h.founders hcell hother same

theorem eq_of_mem_queue (h : Recorded log co callers) {other : Cell} (hcell : cell ∈ co.cells)
    (hother : other ∈ co.cells) (hn : n ∈ cell.queue) (hn' : n ∈ other.queue) : cell = other :=
  h.eq_of_founder_eq hcell hother ((h.founderOf_eq hcell hn).symm.trans (h.founderOf_eq hother hn'))

/-- A caller that leaves is not missed in a cell that has rows, or where it was given up. -/
theorem leave (h : Recorded log co callers) (isOpen : ∀ c, callers[n]? = some c → c.isOpen = false)
    (left : ∀ cell ∈ co.cells, n ∈ cell.queue → cell.rows = none → GivenUp log n cell.founder) :
    Recorded log (co.leave n) callers where
  chronicled := h.chronicled
  started := h.started
  cells cell' hcell' := by
    obtain ⟨cell, hcell, rfl⟩ := Coalescer.mem_leave hcell'
    exact (h.cells cell hcell).leave (left cell hcell) _
  founders := by
    refine List.Nodup.sublist (List.Sublist.map _ List.filter_sublist) ?_
    rw [List.map_map]
    exact h.founders
  queued m c found open' := by
    have other : m ≠ n := by
      rintro rfl
      rw [isOpen c found] at open'
      cases open'
    obtain ⟨cell, hcell, hm⟩ := h.queued m c found open'
    have stays : m ∈ cell.queue.filter fun c => c ≠ n :=
      List.mem_filter.2 ⟨hm, by simpa using other⟩
    refine ⟨_, List.mem_filter.2 ⟨List.mem_map_of_mem hcell, ?_⟩, stays⟩
    simpa using List.ne_nil_of_mem stays
  invoked := h.invoked
  told := h.told
  answered := h.answered

/-- Callers may change as long as nobody opens again, is invoked or is told anything. -/
theorem of_callers (h : Recorded log co callers) {callers' : List ScheduledCaller}
    (length : callers'.length = callers.length)
    (same : ∀ (m : Nat) (d' : ScheduledCaller), callers'[m]? = some d' →
      ∃ d : ScheduledCaller, callers[m]? = some d ∧
      (d'.isOpen = true → d.isOpen = true) ∧ d'.invoked = d.invoked ∧
        ∀ r, d'.state = .finished r ↔ d.state = .finished r) :
    Recorded log co callers' where
  chronicled := h.chronicled
  started m e key entered := length ▸ h.started m e key entered
  cells := h.cells
  founders := h.founders
  queued m d' found open' := by
    obtain ⟨d, found, opens, _⟩ := same m d' found
    exact h.queued m d found (opens open')
  invoked m d' found := by
    obtain ⟨d, found, _, invoked, _⟩ := same m d' found
    rw [invoked]
    exact h.invoked m d found
  told m d' found r := by
    obtain ⟨d, found, _, _, told⟩ := same m d' found
    rw [told r]
    exact h.told m d found r
  answered := h.answered

/-- Something happens to one caller, and maybe its cell gets rows. -/
theorem happens (h : Recorded log co callers) (found : callers[n]? = some c) {co' : Coalescer}
    {c' : ScheduledCaller} {new : List Happening} (chronicled : Chronicled (log ++ new))
    (cells : ∀ cell ∈ co'.cells, cell.Recorded (log ++ new))
    (founders : co'.cells.map Cell.founder = co.cells.map Cell.founder)
    (queues : co'.cells.map Cell.queue = co.cells.map Cell.queue) (own : ∀ ev ∈ new, ev.caller = n)
    (entered : ∀ e key, .enters n e key ∉ new) (opens : c'.isOpen = true → c.isOpen = true)
    (invoked : c'.invoked = true ↔ ∃ e, .invokes n e ∈ log ++ new)
    (told : ∀ r, c'.state = .finished r ↔ ∃ e, .completes n e r ∈ log ++ new)
    (answered : ∀ e outcome, .ends n e outcome ∈ new → .completes n e outcome ∈ new) :
    Recorded (log ++ new) co' (callers.set n c') := by
  have at? : ∀ {m d}, (callers.set n c')[m]? = some d →
      m = n ∧ d = c' ∨ m ≠ n ∧ callers[m]? = some d := by
    intro m d here
    by_cases same : m = n
    · subst same
      rw [List.getElem?_set_self (List.getElem?_eq_some_iff.1 found).1] at here
      exact .inl ⟨rfl, (Option.some.inj here).symm⟩
    · rw [List.getElem?_set_ne (Ne.symm same)] at here
      exact .inr ⟨same, here⟩
  have other : ∀ {ev : Happening}, ev.caller ≠ n → (ev ∈ log ++ new ↔ ev ∈ log) :=
    fun {ev} differs =>
      ⟨fun here => (List.mem_append.1 here).resolve_right fun last => differs (own ev last),
        List.mem_append_left _⟩
  refine ⟨chronicled, fun m e key here => ?_, cells, founders ▸ h.founders,
    fun m d here isOpen => ?_, fun m d here => ?_, fun m d here r => ?_, fun m e outcome here => ?_⟩
  · rw [List.length_set]
    rcases List.mem_append.1 here with early | last
    · exact h.started m e key early
    · obtain rfl : m = n := own _ last
      exact absurd last (entered e key)
  · obtain ⟨cell, hcell, hm⟩ : ∃ cell ∈ co.cells, m ∈ cell.queue := by
      rcases at? here with ⟨rfl, rfl⟩ | ⟨_, here⟩
      · exact h.queued m c found (opens isOpen)
      · exact h.queued m d here isOpen
    have hqueue : cell.queue ∈ co'.cells.map Cell.queue := queues ▸ List.mem_map_of_mem hcell
    obtain ⟨cell', hcell', same⟩ := List.mem_map.1 hqueue
    exact ⟨cell', hcell', same ▸ hm⟩
  · rcases at? here with ⟨rfl, rfl⟩ | ⟨differs, here⟩
    · exact invoked
    · rw [h.invoked m d here]
      exact exists_congr fun e =>
        (other (show (Happening.invokes m e).caller ≠ n from differs)).symm
  · rcases at? here with ⟨rfl, rfl⟩ | ⟨differs, here⟩
    · exact told r
    · rw [h.told m d here r]
      exact exists_congr fun e =>
        (other (show (Happening.completes m e r).caller ≠ n from differs)).symm
  · rcases List.mem_append.1 here with early | last
    · exact List.mem_append_left _ (h.answered m e outcome early)
    · obtain rfl : m = n := own _ last
      exact List.mem_append_right _ (answered e outcome last)

/-! ### Looks -/

theorem closed_set (found : callers[n]? = some c) {c' : ScheduledCaller}
    (closed : c'.isOpen = false) : ∀ d, (callers.set n c')[n]? = some d → d.isOpen = false := by
  intro d here
  rw [List.getElem?_set_self (List.getElem?_eq_some_iff.1 found).1] at here
  exact Option.some.inj here ▸ closed

/-- Nothing that is told was told to an open caller before. -/
theorem not_told (h : Recorded log co callers) (found : callers[n]? = some c)
    (isOpen : c.isOpen = true) (e : Caller) (r : Except Error (List Row)) :
    .completes n e r ∉ log := by
  intro told
  have finished := (h.told n c found r).2 ⟨e, told⟩
  rw [ScheduledCaller.isOpen, finished] at isOpen
  cases isOpen

/-- The caller whose turn it is invokes its query. -/
theorem invoke (h : Recorded log co callers) (found : callers[n]? = some c)
    (isOpen : c.isOpen = true) (turn : co.hasTurn n = true) :
    Recorded (log ++ if c.invoked then [] else [.invokes n (co.founderOf n)]) co
      (callers.set n { c with invoked := true, state := .running }) := by
  obtain ⟨cell, hcell, head, rows⟩ := Coalescer.hasTurn_iff.1 turn
  have hn : n ∈ cell.queue := List.mem_of_mem_head? head
  obtain ⟨key, entered⟩ := (h.cells cell hcell).members n hn
  obtain ⟨unsuccessful, turns⟩ := (h.cells cell hcell).pending rows
  have told : ∀ new, (∀ e r, .completes n e r ∉ new) → ∀ r : Except Error (List Row),
      CallerState.running = .finished r ↔ ∃ e, .completes n e r ∈ log ++ new := by
    intro new none r
    refine iff_of_false (fun finished => nomatch finished) fun ⟨e, here⟩ => ?_
    exact (List.mem_append.1 here).elim (h.not_told found isOpen e r) (none e r)
  have opens : ({ c with invoked := true, state := .running } : ScheduledCaller).isOpen = true →
      c.isOpen = true :=
    fun _ => isOpen
  rw [h.founderOf_eq hcell hn]
  cases invoked : c.invoked with
  | true =>
    have already : ∃ e, .invokes n e ∈ log := (h.invoked n c found).1 invoked
    simp only [if_true]
    refine h.happens found ?_ ?_ rfl rfl (fun _ h => nomatch h) (fun _ _ h => nomatch h) opens ?_
      (told [] fun _ _ h => nomatch h) fun _ _ h => nomatch h
    · rw [List.append_nil]
      exact h.chronicled
    · rw [List.append_nil]
      exact h.cells
    · rw [List.append_nil]
      exact iff_of_true rfl already
  | false =>
    have fresh : ∀ e, .invokes n e ∉ log := by
      intro e before
      rw [(h.invoked n c found).2 ⟨e, before⟩] at invoked
      cases invoked
    simp only [Bool.false_eq_true, if_false]
    refine h.happens found
      (.snoc h.chronicled ⟨⟨key, entered⟩, fresh, fun m before => ?_, unsuccessful⟩) ?_ rfl rfl
      ?_ ?_ opens ?_ (told _ (by simp)) (by simp)
    · rcases turns m before with givenUp | head'
      · exact givenUp
      · rw [head, Option.some.injEq] at head'
        exact absurd (head' ▸ before) (fresh _)
    · intro other hother
      by_cases same : other.founder = cell.founder
      · obtain rfl := h.eq_of_founder_eq hother hcell same
        exact (h.cells other hother).invoke head rows
      · refine (h.cells other hother).append (fun m last => same ?_) (by simp)
        exact (Happening.invokes.inj (List.mem_singleton.1 last)).2
    · intro ev last
      obtain rfl := List.mem_singleton.1 last
      rfl
    · simp
    · exact iff_of_true rfl ⟨cell.founder, by simp⟩

/-- A caller is told the rows of its cell. -/
theorem share (h : Recorded log co callers) (found : callers[n]? = some c)
    (isOpen : c.isOpen = true) {rows : List Row} (shared : co.rows? n = some rows) :
    Recorded (log ++ [.completes n (co.founderOf n) (.ok rows)]) (co.leave n)
      (callers.set n { c with state := .finished (.ok rows) }) := by
  obtain ⟨cell, found', hrows⟩ := Option.bind_eq_some_iff.1 shared
  have hcell := List.mem_of_find?_eq_some found'
  have hn : n ∈ cell.queue := by simpa using List.find?_some found'
  obtain ⟨m, ends⟩ := (h.cells cell hcell).shared rows hrows
  rw [h.founderOf_eq hcell hn]
  have told : ∀ r : Except Error (List Row),
      CallerState.finished (.ok rows) = .finished r ↔
        ∃ e, .completes n e r ∈ log ++ [.completes n cell.founder (.ok rows)] := by
    intro r
    refine ⟨fun same => ⟨cell.founder, by simp [CallerState.finished.inj same]⟩,
      fun ⟨e, here⟩ => ?_⟩
    rcases List.mem_append.1 here with before | last
    · exact absurd before (h.not_told found isOpen e r)
    · rw [(Happening.completes.inj (List.mem_singleton.1 last)).2.2]
  have justified : Justified log (.completes n cell.founder (.ok rows)) :=
    ⟨(h.cells cell hcell).members n hn, m, ends⟩
  have telling : Recorded (log ++ [.completes n cell.founder (.ok rows)]) co
      (callers.set n { c with state := .finished (.ok rows) }) :=
    h.happens found (.snoc h.chronicled justified) (fun other hother =>
        (h.cells other hother).append (by simp) (by simp))
      rfl rfl (by simp [Happening.caller]) (by simp) (fun _ => isOpen)
      (by simp [h.invoked n c found]) told (by simp)
  refine telling.leave (closed_set found rfl) fun other hother inside none => ?_
  rw [h.eq_of_mem_queue hother hcell inside hn, hrows] at none
  cases none

/-- The query of a caller ends, and it is told so. -/
theorem ended (h : Recorded log co callers) (found : callers[n]? = some c)
    (isOpen : c.isOpen = true) (invoked : c.invoked = true) {outcome : Except Error (List Row)}
    {co' : Coalescer} (hcell : cell ∈ co.cells) (head : cell.queue.head? = some n)
    (rows : cell.rows = none) (cells : ∀ other ∈ co'.cells,
      other.Recorded (log ++ [.ends n cell.founder outcome, .completes n cell.founder outcome]))
    (founders : co'.cells.map Cell.founder = co.cells.map Cell.founder)
    (queues : co'.cells.map Cell.queue = co.cells.map Cell.queue) :
    Recorded (log ++ [.ends n cell.founder outcome, .completes n cell.founder outcome]) co'
      (callers.set n { c with state := .finished outcome }) := by
  have hn : n ∈ cell.queue := List.mem_of_mem_head? head
  obtain ⟨key, entered⟩ := (h.cells cell hcell).members n hn
  obtain ⟨unsuccessful, _⟩ := (h.cells cell hcell).pending rows
  have invokes : .invokes n cell.founder ∈ log := by
    obtain ⟨e, before⟩ := (h.invoked n c found).1 invoked
    obtain ⟨key', entered'⟩ := h.chronicled.entered before
    obtain ⟨rfl, _⟩ := h.chronicled.enters_unique entered' entered
    exact before
  have completes : Justified (log ++ [.ends n cell.founder outcome])
      (.completes n cell.founder outcome) := by
    cases outcome with
    | ok rows => exact ⟨⟨key, List.mem_append_left _ entered⟩, n, by simp⟩
    | error err => exact List.mem_append_right _ (List.mem_singleton_self _)
  have ends : Justified log (.ends n cell.founder outcome) := ⟨invokes, unsuccessful⟩
  have chronicled := Chronicled.snoc (.snoc h.chronicled ends) completes
  rw [List.append_assoc] at chronicled
  have told : ∀ r, CallerState.finished outcome = .finished r ↔
      ∃ e, .completes n e r ∈ log ++ [.ends n cell.founder outcome,
        .completes n cell.founder outcome] := by
    intro r
    refine ⟨fun same => ⟨cell.founder, by simp [CallerState.finished.inj same]⟩,
      fun ⟨e, here⟩ => ?_⟩
    rcases List.mem_append.1 here with before | last
    · exact absurd before (h.not_told found isOpen e r)
    · simp only [List.mem_cons, reduceCtorEq, Happening.completes.injEq, true_and,
        List.not_mem_nil, or_false, false_or] at last
      rw [last.2]
  refine h.happens found chronicled cells founders queues ?_ (by simp) (fun _ => isOpen) ?_
    told (by simp)
  · intro ev last
    simp only [List.mem_cons, List.not_mem_nil, or_false] at last
    rcases last with rfl | rfl <;> rfl
  · exact iff_of_true invoked ⟨cell.founder, List.mem_append_left _ invokes⟩

/-- The query of a caller fails, and the caller leaves its cell to the others. -/
theorem fail (h : Recorded log co callers) (found : callers[n]? = some c) (isOpen : c.isOpen = true)
    (invoked : c.invoked = true) (turn : co.hasTurn n = true) (err : Error) :
    Recorded (log ++ [.ends n (co.founderOf n) (.error err),
        .completes n (co.founderOf n) (.error err)]) (co.leave n)
      (callers.set n { c with state := .finished (.error err) }) := by
  obtain ⟨cell, hcell, head, rows⟩ := Coalescer.hasTurn_iff.1 turn
  have hn : n ∈ cell.queue := List.mem_of_mem_head? head
  rw [h.founderOf_eq hcell hn]
  have telling :
      Recorded (log ++ [.ends n cell.founder (.error err), .completes n cell.founder (.error err)])
        co (callers.set n { c with state := .finished (.error err) }) :=
    h.ended found isOpen invoked hcell head rows
      (fun other hother => (h.cells other hother).append (by simp) (by simp)) rfl rfl
  refine telling.leave (closed_set found rfl) fun other hother inside _ => ?_
  rw [h.eq_of_mem_queue hother hcell inside hn]
  exact .inr ⟨err, by simp⟩

/-- The query of a caller is successful, and its cell has the rows. -/
theorem succeed (h : Recorded log co callers) (found : callers[n]? = some c)
    (isOpen : c.isOpen = true) (invoked : c.invoked = true) (turn : co.hasTurn n = true)
    (rows : List Row) :
    Recorded (log ++ [.ends n (co.founderOf n) (.ok rows),
        .completes n (co.founderOf n) (.ok rows)]) (co.succeed n rows)
      (callers.set n { c with state := .finished (.ok rows) }) := by
  obtain ⟨cell, hcell, head, none⟩ := Coalescer.hasTurn_iff.1 turn
  have hn : n ∈ cell.queue := List.mem_of_mem_head? head
  rw [h.founderOf_eq hcell hn]
  rcases Coalescer.updateFirst_cases (fun cell => cell.queue.contains n)
      (fun cell => { cell with rows := some rows }) co.cells
    with nowhere | ⟨before, first, after, split, holds, changed⟩
  · have fails := nowhere cell hcell
    simp [hn] at fails
  have hfirst : first ∈ co.cells := split ▸ by simp
  obtain rfl : first = cell := h.eq_of_mem_queue hfirst hcell (by simpa using holds) hn
  have founders := h.founders
  rw [split, List.map_append, List.map_cons, List.nodup_middle, List.nodup_cons] at founders
  have apart : ∀ other ∈ before ++ after, other.founder ≠ first.founder := fun other hother same =>
    founders.1 (List.map_append ▸ same ▸ List.mem_map_of_mem hother)
  have telling :
      Recorded (log ++ [.ends n first.founder (.ok rows), .completes n first.founder (.ok rows)])
      ⟨Coalescer.updateFirst (fun cell => cell.queue.contains n)
        (fun cell => { cell with rows := some rows }) co.cells⟩
      (callers.set n { c with state := .finished (.ok rows) }) := by
    have kept : ∀ {α : Type} (g : Cell → α),
        (∀ cell : Cell, g { cell with rows := some rows } = g cell) →
        (Coalescer.updateFirst (fun cell => cell.queue.contains n)
          (fun cell => { cell with rows := some rows })
          co.cells).map g = co.cells.map g :=
      fun g same => Coalescer.map_updateFirst g same co.cells
    refine h.ended found isOpen invoked hcell head none (fun other hother => ?_)
      (kept Cell.founder fun _ => rfl) (kept Cell.queue fun _ => rfl)
    have cases : other = { first with rows := some rows } ∨ other ∈ before ++ after := by
      rw [changed] at hother
      simp only [List.mem_append, List.mem_cons] at hother ⊢
      tauto
    rcases cases with rfl | beside
    · exact (h.cells first hfirst).succeed (List.mem_cons_self ..)
    · have hother' : other ∈ co.cells := by
        rw [split]
        simp only [List.mem_append, List.mem_cons] at beside ⊢
        tauto
      refine (h.cells other hother').append (by simp) fun m rows' last => apart other beside ?_
      simp only [List.mem_cons, Happening.ends.injEq, reduceCtorEq, List.not_mem_nil,
        or_false] at last
      exact last.2.1
  have hshared : { first with rows := some rows } ∈
      Coalescer.updateFirst (fun cell => cell.queue.contains n)
        (fun cell => { cell with rows := some rows }) co.cells := by
    rw [changed]
    simp
  refine telling.leave (closed_set found rfl) fun other hother inside none => ?_
  obtain rfl := telling.eq_of_mem_queue hother hshared inside hn
  cases none

/-- A look at a caller. -/
theorem look (h : Recorded log co callers) (found : callers[n]? = some c) :
    Recorded (log ++ Schedule.seen co n c) (Schedule.look co n c).1
      (callers.set n (Schedule.look co n c).2) := by
  have same : callers.set n c = callers := by
    rw [← (List.getElem?_eq_some_iff.1 found).2, List.set_getElem_self]
  unfold Schedule.seen Schedule.look
  by_cases isOpen : c.isOpen = true
  · simp only [isOpen, Bool.not_true, Bool.false_eq_true, if_false]
    cases shared : co.rows? n with
    | some rows => exact h.share found isOpen shared
    | none =>
      dsimp only
      by_cases turn : co.hasTurn n = true
      · simp only [if_pos turn]
        have invoked := h.invoke found isOpen turn
        have running : (callers.set n { c with invoked := true, state := .running })[n]? =
            some { c with invoked := true, state := .running } :=
          List.getElem?_set_self (List.getElem?_eq_some_iff.1 found).1
        cases outcome : c.outcome with
        | none =>
          rw [outcome] at invoked
          rw [List.append_nil]
          exact invoked
        | some result =>
          cases result with
          | ok rows =>
            have ended := invoked.succeed running rfl rfl turn rows
            rwa [List.set_set, List.append_assoc, outcome] at ended
          | error err =>
            have ended := invoked.fail running rfl rfl turn err
            rwa [List.set_set, List.append_assoc, outcome] at ended
      · simp only [if_neg turn]
        rwa [List.append_nil, same]
  · simp only [isOpen, Bool.not_false, if_true]
    rwa [List.append_nil, same]

/-! ### Steps -/

/-- Nobody has the number of a caller that has not started. -/
theorem fresh (h : Recorded log co callers) {ev : Happening} (here : ev ∈ log) :
    ev.caller ≠ callers.length := by
  obtain ⟨key, entered⟩ := h.chronicled.entered here
  exact Nat.ne_of_lt (h.started _ _ _ entered)

/-- A caller arrives in cells that have a place for it. -/
theorem arrive (h : Recorded log co callers) {co' : Coalescer} {e : Caller} {key : BoundSql}
    (founding : e = callers.length ∨ ∃ founding, .enters e e founding ∈ log ∧
      founding.agrees key = true)
    (cells : ∀ cell ∈ co'.cells, cell.Recorded (log ++ [.enters callers.length e key]))
    (founders : (co'.cells.map Cell.founder).Nodup)
    (queued : ∀ m, m = callers.length ∨ (∃ cell ∈ co.cells, m ∈ cell.queue) →
      ∃ cell ∈ co'.cells, m ∈ cell.queue)
    (name : String) :
    Recorded (log ++ [.enters callers.length e key]) co'
      (callers ++ [⟨name, none, false, .waiting⟩]) := by
  have justified : Justified log (.enters callers.length e key) :=
    ⟨fun e' key' before => h.fresh before rfl, founding⟩
  have at? : ∀ {m d}, (callers ++ [⟨name, none, false, .waiting⟩])[m]? = some d →
      callers[m]? = some d ∨ m = callers.length ∧ d = ⟨name, none, false, .waiting⟩ := by
    intro m d here
    rcases Nat.lt_or_ge m callers.length with old | new
    · rw [List.getElem?_append_left old] at here
      exact .inl here
    · rw [List.getElem?_append_right new] at here
      obtain ⟨last, rfl⟩ : m - callers.length = 0 ∧ _ = d := by
        simpa [List.getElem?_singleton] using here
      exact .inr ⟨by omega, rfl⟩
  refine ⟨.snoc h.chronicled justified, fun m e' key' here => ?_, cells, founders,
    fun m d here isOpen => ?_,
    fun m d here => ?_, fun m d here r => ?_, fun m e' outcome here => ?_⟩
  · rw [List.length_append]
    rcases List.mem_append.1 here with before | last
    · exact Nat.lt_add_right 1 (h.started m e' key' before)
    · obtain ⟨rfl, _⟩ := Happening.enters.inj (List.mem_singleton.1 last)
      exact Nat.lt_succ_self _
  · rcases at? here with old | ⟨new, _⟩
    · exact queued m (.inr (h.queued m d old isOpen))
    · exact queued m (.inl new)
  · rcases at? here with old | ⟨rfl, rfl⟩
    · simpa using h.invoked m d old
    · refine iff_of_false Bool.false_ne_true fun ⟨e', here⟩ => ?_
      exact h.fresh (show Happening.invokes callers.length e' ∈ log by simpa using here) rfl
  · rcases at? here with old | ⟨rfl, rfl⟩
    · simpa using h.told m d old r
    · refine iff_of_false (fun waiting => nomatch waiting) fun ⟨e', here⟩ => ?_
      exact h.fresh (show Happening.completes callers.length e' r ∈ log by simpa using here) rfl
  · exact List.mem_append_left _ (h.answered m e' outcome (by simpa using here))

theorem quiet (h : Recorded log co callers) (n e : Caller) (key : BoundSql)
    (hcell : cell ∈ co.cells) :
    cell.Recorded (log ++ [.enters n e key]) := (h.cells cell hcell).append (by simp) (by simp)

/-- A caller joins the cell of an identical query. -/
theorem join (h : Recorded log co callers) {before after : List Cell}
    (split : co.cells = before ++ cell :: after) {key : BoundSql}
    (agrees : cell.key.agrees key = true) (name : String) :
    let cell' := { cell with queue := cell.queue ++ [callers.length] }
    Recorded (log ++ [.enters callers.length cell.founder key]) ⟨before ++ cell' :: after⟩
      (callers ++ [⟨name, none, false, .waiting⟩]) := by
  intro cell'
  have hcell : cell ∈ co.cells := split ▸ by simp
  refine h.arrive (.inr ⟨cell.key, (h.cells cell hcell).founded, agrees⟩)
    (fun other hother => ?_) ?_ ?_ name
  · simp only [List.mem_append, List.mem_cons] at hother
    rcases hother with left | rfl | right
    · exact h.quiet _ _ key (split ▸ by simp [left])
    · have recorded := h.quiet callers.length cell.founder key hcell
      refine ⟨recorded.founded, fun m hm => ?_, fun rows => ?_, recorded.shared⟩
      · rcases List.mem_append.1 hm with old | new
        · exact recorded.members m old
        · obtain rfl := List.mem_singleton.1 new
          exact ⟨key, by simp [cell']⟩
      · obtain ⟨unsuccessful, turns⟩ := recorded.pending rows
        refine ⟨unsuccessful, fun m invoked => (turns m invoked).imp_right fun head => ?_⟩
        rw [List.head?_append, head]
        rfl
    · exact h.quiet _ _ key (split ▸ by simp [right])
  · have founders := h.founders
    rw [split] at founders
    simpa [cell'] using founders
  · rintro m (rfl | ⟨other, hother, hm⟩)
    · exact ⟨cell', by simp, by simp [cell']⟩
    · rw [split] at hother
      simp only [List.mem_append, List.mem_cons] at hother
      rcases hother with left | rfl | right
      · exact ⟨other, by simp [left], hm⟩
      · exact ⟨cell', by simp, List.mem_append_left _ hm⟩
      · exact ⟨other, by simp [right], hm⟩

/-- Nothing has happened in the entry that the next caller can found. -/
theorem fresh_entry (h : Recorded log co callers) {ev : Happening} (here : ev ∈ log) :
    ev.entry ≠ callers.length := by
  obtain ⟨key, entered⟩ := h.chronicled.entered here
  obtain ⟨founding, founded, _⟩ := h.chronicled.founded entered
  exact h.fresh founded

/-- A caller founds a cell. -/
theorem found (h : Recorded log co callers) (key : BoundSql) (listed : Bool) (name : String) :
    Recorded (log ++ [.enters callers.length callers.length key])
      (co.found callers.length key listed) (callers ++ [⟨name, none, false, .waiting⟩]) := by
  refine h.arrive (.inl rfl) (fun cell hcell => ?_) ?_ ?_ name
  · rcases List.mem_append.1 hcell with old | new
    · exact h.quiet _ _ key old
    · obtain rfl := List.mem_singleton.1 new
      refine ⟨by simp, fun m hm => ⟨key, by simp_all⟩, fun _ =>
          ⟨fun m rows ends => ?_, fun m invoked => ?_⟩,
        fun _ shared => nomatch shared⟩
      · exact h.fresh_entry
          (show Happening.ends m callers.length (.ok rows) ∈ log by simpa using ends) rfl
      · exact absurd rfl
          (h.fresh_entry (show Happening.invokes m callers.length ∈ log by simpa using invoked))
  · rw [Coalescer.found, List.map_append, List.nodup_append]
    refine ⟨h.founders, List.nodup_singleton _, fun founder old other new same => ?_⟩
    obtain ⟨cell, hcell, rfl⟩ := List.mem_map.1 old
    exact h.fresh (h.cells cell hcell).founded (same.trans (List.mem_singleton.1 new))
  · rintro m (rfl | ⟨cell, hcell, hm⟩)
    · exact ⟨_, List.mem_append_right _ (List.mem_singleton_self _), List.mem_singleton_self _⟩
    · exact ⟨cell, List.mem_append_left _ hcell, hm⟩

/-- A caller starts, in the cell of an identical query or in one of its own. -/
theorem start (h : Recorded log co callers) (name : String) (key : BoundSql) :
    Recorded
      (log ++ [.enters callers.length ((co.enter callers.length key).founderOf callers.length) key])
      (co.enter callers.length key) (callers ++ [⟨name, none, false, .waiting⟩]) := by
  unfold Coalescer.enter
  split
  · next joined =>
    rcases Coalescer.updateFirst_cases (Coalescer.joins key)
      (fun cell => { cell with queue := cell.queue ++ [callers.length] }) co.cells with
      nowhere | ⟨before, cell, after, split, joins, changed⟩
    · obtain ⟨cell, hcell, joins⟩ := List.any_eq_true.1 joined
      rw [nowhere cell hcell] at joins
      cases joins
    have arrived := h.join split (Bool.and_eq_true_iff.1 joins).2 name
    rw [changed]
    have hn : callers.length ∈ cell.queue ++ [callers.length] := by simp
    rw [arrived.founderOf_eq (List.mem_append_right _ List.mem_cons_self) hn]
    exact arrived
  · have arrived := h.found key true name
    have hcell : (⟨key, callers.length, [callers.length], none, true⟩ : Cell) ∈
        (co.found callers.length key true).cells :=
      List.mem_append_right _ (List.mem_singleton_self _)
    rw [arrived.founderOf_eq hcell (List.mem_singleton_self _)]
    exact arrived

/-- Callers of a name change in ways that tell them nothing. -/
theorem updateCaller (h : Recorded log co callers) (name : String)
    {f : ScheduledCaller → ScheduledCaller}
    (changes : ∀ c : ScheduledCaller, c.isOpen = true →
      (f c).invoked = c.invoked ∧ ∀ r, (f c).state ≠ .finished r) :
    Recorded log co (Schedule.updateCaller name f callers) := by
  refine h.of_callers (List.length_map ..) fun m d' here => ?_
  rw [Schedule.updateCaller, List.getElem?_map] at here
  obtain ⟨d, there, rfl⟩ := Option.map_eq_some_iff.1 here
  refine ⟨d, there, ?_⟩
  split
  · next applies =>
    obtain ⟨invoked, unfinished⟩ := changes d applies.2
    refine ⟨fun _ => applies.2, invoked, fun r => iff_of_false (unfinished r) fun finished => ?_⟩
    have isOpen := applies.2
    rw [ScheduledCaller.isOpen, finished] at isOpen
    cases isOpen
  · exact ⟨id, rfl, fun _ => Iff.rfl⟩

theorem note_drop (h : Recorded log co callers) {e : Caller}
    (entered : ∃ key, .enters n e key ∈ log) : Recorded (log ++ [.drops n e]) co callers where
  chronicled := .snoc h.chronicled entered
  started m e key here := h.started m e key (by simpa using here)
  cells cell hcell := (h.cells cell hcell).append (by simp) (by simp)
  founders := h.founders
  queued := h.queued
  invoked m d here := by simpa using h.invoked m d here
  told m d here r := by simpa using h.told m d here r
  answered m e outcome here := List.mem_append_left _ (h.answered m e outcome (by simpa using here))

/-- The caller of a name is dropped, and leaves its cell to the others. -/
theorem drop (h : Recorded log co callers) (name : String) :
    Recorded (log ++ Schedule.noted ⟨co, callers⟩ (.drop name))
      (Schedule.apply ⟨co, callers⟩ (.drop name)).coalescer
      (Schedule.apply ⟨co, callers⟩ (.drop name)).callers := by
  unfold Schedule.noted Schedule.apply
  dsimp only
  cases found : callers.findIdx? fun c => c.name = name && c.isOpen with
  | none =>
    rw [List.append_nil]
    exact h
  | some n =>
    obtain ⟨lt, named, _⟩ := List.findIdx?_eq_some_iff_getElem.1 found
    have here : callers[n]? = some callers[n] := List.getElem?_eq_getElem lt
    obtain ⟨cell, hcell, hn⟩ := h.queued n _ here (Bool.and_eq_true_iff.1 named).2
    have dropped :
        Recorded log co (Schedule.updateCaller name
          (fun c => { c with state := .dropped }) callers) :=
      h.updateCaller name fun c _ => ⟨rfl, fun _ => CallerState.noConfusion⟩
    have noted := dropped.note_drop ((h.cells cell hcell).members n hn)
    rw [← h.founderOf_eq hcell hn] at noted
    refine noted.leave (fun d here' => ?_) fun other hother inside _ => ?_
    · rw [Schedule.updateCaller, List.getElem?_map, here, Option.map_some,
        if_pos (by simpa using named)] at here'
      exact Option.some.inj here' ▸ rfl
    · rw [h.founderOf_eq hother inside]
      exact .inl (by simp)

theorem clear (h : Recorded log co callers) : Recorded log co.clear callers where
  chronicled := h.chronicled
  started := h.started
  cells cell' hcell' := by
    obtain ⟨cell, hcell, rfl⟩ := List.mem_map.1 hcell'
    have recorded := h.cells cell hcell
    exact ⟨recorded.founded, recorded.members, recorded.pending, recorded.shared⟩
  founders := by
    rw [Coalescer.clear, List.map_map]
    exact h.founders
  queued n c here isOpen := by
    obtain ⟨cell, hcell, hn⟩ := h.queued n c here isOpen
    exact ⟨_, List.mem_map_of_mem hcell, hn⟩
  invoked := h.invoked
  told := h.told
  answered := h.answered

end Recorded

namespace Chronicle

theorem act_looks {ch : Chronicle} {n : Caller} {c : ScheduledCaller}
    (found : ch.schedule.callers[n]? = some c) :
    ch.act (.looks n) = ⟨⟨(Schedule.look ch.schedule.coalescer n c).1,
      ch.schedule.callers.set n (Schedule.look ch.schedule.coalescer n c).2⟩,
      ch.log ++ Schedule.seen ch.schedule.coalescer n c⟩ := by
  simp only [act, found]

theorem act_none {ch : Chronicle} {n : Caller} (missing : ch.schedule.callers[n]? = none) :
    ch.act (.looks n) = ch := by
  simp only [act, missing]

/-- The log of a chronicle tells about its schedule. -/
def Tells (ch : Chronicle) : Prop := Recorded ch.log ch.schedule.coalescer ch.schedule.callers

theorem Tells.step {ch : Chronicle} (h : ch.Tells) (a : Act) : (ch.act a).Tells := by
  cases a with
  | takes what =>
    cases what with
    | start name key => exact Recorded.start h name key
    | finish name outcome =>
      have kept : Recorded (ch.log ++ []) ch.schedule.coalescer ch.schedule.callers :=
        (List.append_nil ch.log).symm ▸ h
      refine kept.updateCaller name fun c isOpen => ⟨rfl, fun r finished => ?_⟩
      have finished : c.state = .finished r := finished
      rw [ScheduledCaller.isOpen, finished] at isOpen
      cases isOpen
    | drop name => exact Recorded.drop h name
    | clear =>
      have kept : Recorded (ch.log ++ []) ch.schedule.coalescer ch.schedule.callers :=
        (List.append_nil ch.log).symm ▸ h
      exact kept.clear
  | looks n =>
    cases here : ch.schedule.callers[n]? with
    | none => rwa [act_none here]
    | some c =>
      rw [act_looks here]
      exact Recorded.look h here

theorem tells_run (acts : List Act) : (run acts).Tells := by
  induction acts using List.reverseRecOn with
  | nil =>
    have empty : Recorded [] ∅ [] := ⟨.nil, fun _ _ _ h => (by cases h), fun _ h => (by cases h),
      List.nodup_nil,
      fun _ _ h => (by cases h), fun _ _ h => (by cases h), fun _ _ h => (by cases h),
      fun _ _ _ h => (by cases h)⟩
    exact empty
  | append_singleton acts a ih =>
    rw [run, List.foldl_append]
    exact ih.step a

/-- Looking at callers one after another is looking at all of them. -/
theorem exists_looks (ch : Chronicle) (before callers : List ScheduledCaller)
    (here : ch.schedule.callers = before ++ callers) :
    ∃ acts : List Act, (∀ a ∈ acts, ∃ n, a = .looks n) ∧ (acts.foldl act ch).schedule =
      ⟨(Schedule.lookAll ch.schedule.coalescer before.length callers).1,
        before ++ (Schedule.lookAll ch.schedule.coalescer before.length callers).2⟩ := by
  induction callers generalizing ch before with
  | nil =>
    refine ⟨[], fun _ h => (by cases h), ?_⟩
    obtain ⟨⟨co, callers⟩, log⟩ := ch
    obtain rfl : callers = before ++ [] := here
    rfl
  | cons c rest ih =>
    have found : ch.schedule.callers[before.length]? = some c := by simp [here]
    have looked : (ch.act (.looks before.length)).schedule =
        ⟨(Schedule.look ch.schedule.coalescer before.length c).1,
          before ++ [(Schedule.look ch.schedule.coalescer before.length c).2] ++ rest⟩ := by
      rw [act_looks found]
      simp [here]
    obtain ⟨acts, onlyLooks, rest⟩ := ih (ch.act (.looks before.length))
      (before ++ [(Schedule.look ch.schedule.coalescer before.length c).2]) (by rw [looked])
    refine ⟨.looks before.length :: acts, List.forall_mem_cons.2 ⟨⟨_, rfl⟩, onlyLooks⟩, ?_⟩
    rw [List.foldl_cons, rest, looked]
    simp [Schedule.lookAll]

end Chronicle

/-- The step that is taken, if one is. -/
def Act.step? : Act → Option ScheduleStep
  | .takes what => some what
  | .looks _ => none

namespace Chronicle

/-- Steps that are each followed by a look at every caller have a chronicle. -/
theorem exists_run (steps : List ScheduleStep) :
    ∃ acts, acts.filterMap Act.step? = steps ∧
      (run acts).schedule = steps.foldl Schedule.step .start := by
  induction steps using List.reverseRecOn with
  | nil => exact ⟨[], rfl, rfl⟩
  | append_singleton steps what ih =>
    obtain ⟨acts, taken, schedule⟩ := ih
    have applied : ((run acts).act (.takes what)).schedule =
        (steps.foldl Schedule.step .start).apply what := by
      rw [← schedule]
      rfl
    obtain ⟨looks, onlyLooks, settled⟩ := exists_looks ((run acts).act (.takes what)) [] _ rfl
    refine ⟨acts ++ .takes what :: looks, ?_, ?_⟩
    · have none : looks.filterMap Act.step? = [] := by
        rw [List.filterMap_eq_nil_iff]
        intro a ha
        obtain ⟨n, rfl⟩ := onlyLooks a ha
        rfl
      simp [taken, none, Act.step?]
    · rw [run, List.foldl_append, List.foldl_cons, List.foldl_append, List.foldl_cons,
        List.foldl_nil, ← run, settled, applied]
      rfl

end Chronicle

/-! ## The rows that callers get -/

/-- Callers get the rows of the one successful query of their entry, and errors of
their own queries only. -/
structure RightResults (log : List Happening) : Prop where
  entered : ∀ ev ∈ log, ∃ key, .enters ev.caller ev.entry key ∈ log
  entry : ∀ n e e' key key', .enters n e key ∈ log → .enters n e' key' ∈ log → e = e' ∧ key = key'
  once : ∀ before n e, before ++ [.invokes n e] <+: log → ∀ e', .invokes n e' ∉ before
  /-- When a query is invoked, those of its entry that were invoked before have been given up,
  and none was successful. -/
  alone : ∀ before n e, before ++ [.invokes n e] <+: log →
    (∀ m, .invokes m e ∈ before → GivenUp before m e) ∧ ∀ m rows, .ends m e (.ok rows) ∉ before
  served : ∀ before n e rows, before ++ [.completes n e (.ok rows)] <+: log → ∃ m,
    .ends m e (.ok rows) ∈ before ∧
      (∀ m' rows', .ends m' e (.ok rows') ∈ log → m' = m ∧ rows' = rows) ∧
      ∃ own asked founding, .enters n e own ∈ log ∧
        .enters m e asked ∈ log ∧ .enters e e founding ∈ log ∧
        (asked.agrees own = true ∨ founding.Conflates asked own)
  own : ∀ before n e outcome, before ++ [.ends n e outcome] <+: log → .invokes n e ∈ before
  failed : ∀ n e err, .completes n e (.error err) ∈ log ↔ .ends n e (.error err) ∈ log

theorem Recorded.rightResults {log : List Happening} {co : Coalescer}
    {callers : List ScheduledCaller} (h : Recorded log co callers) : RightResults log where
  entered ev here := h.chronicled.entered here
  entry n e e' key key' here there := h.chronicled.enters_unique here there
  once before n e here := (h.chronicled.justified here).2.1
  alone before n e here := (h.chronicled.justified here).2.2
  served before n e rows here := by
    obtain ⟨⟨own, entered⟩, m, ends⟩ := h.chronicled.justified here
    have keep : ∀ {ev : Happening}, ev ∈ before → ev ∈ log :=
      fun inside => here.subset (List.mem_append_left _ inside)
    obtain ⟨asked, asks⟩ := h.chronicled.entered (keep ends)
    obtain ⟨founding, founded, agrees⟩ := h.chronicled.founded asks
    obtain ⟨founding', founded', agrees'⟩ := h.chronicled.founded (keep entered)
    obtain ⟨_, rfl⟩ := h.chronicled.enters_unique founded founded'
    refine ⟨m, ends, fun m' rows' other => h.chronicled.success_unique other (keep ends), own,
      asked, founding, keep entered, asks, founded, BoundSql.agrees_or_conflates agrees agrees'⟩
  own before n e outcome here := (h.chronicled.justified here).1
  failed n e err := by
    refine ⟨fun told => ?_, h.answered n e (.error err)⟩
    obtain ⟨before, after, rfl⟩ := List.append_of_mem told
    have here : before ++ [.completes n e (.error err)] <+:
        before ++ .completes n e (.error err) :: after := ⟨after, by simp⟩
    exact List.mem_append_left _ (h.chronicled.justified here)

/-- In every run of callers, with clearing or without, rows and errors are told to the right
callers; and the log of the run is what the callers have been told. -/
theorem right_results (acts : List Act) :
    RightResults (Chronicle.run acts).log ∧
    ∀ n c, (Chronicle.run acts).schedule.callers[n]? = some c →
      (c.invoked = true ↔ ∃ e, .invokes n e ∈ (Chronicle.run acts).log) ∧
        ∀ r, c.state = .finished r ↔ ∃ e, .completes n e r ∈ (Chronicle.run acts).log := by
  have recorded := Chronicle.tells_run acts
  exact ⟨recorded.rightResults, fun n c here => ⟨recorded.invoked n c here, recorded.told n c here⟩⟩

/-- A query with one parameter. -/
def askWith (v : Value) : BoundSql := ⟨"SELECT 1", (∅ : Parameters).push "@p0" v⟩

/-- A double is asked for, and two integers that round to it; the caller with
the double is dropped. -/
def rounding : List Act :=
  [.takes (.start "double" (askWith (.float ⟨0x4340000000000000⟩))),
    .takes (.start "odd" (askWith (.int 9007199254740993))),
    .takes (.start "even" (askWith (.int 9007199254740992))), .takes (.drop "double"), .looks 1,
    .takes (.finish "odd" (.ok [⟨[("n", .int 1)]⟩])), .looks 1, .looks 2]

/-- The caller with the even integer gets the rows of the odd one, whose query is not identical. -/
theorem right_results_rounding :
    let log := (Chronicle.run rounding).log
    let rows : List Row := [⟨[("n", .int 1)]⟩]
    .completes 2 0 (.ok rows) ∈ log ∧
    (∀ m rows', .ends m 0 (.ok rows') ∈ log → m = 1 ∧ rows' = rows) ∧
      .enters 1 0 (askWith (.int 9007199254740993)) ∈ log ∧
        .enters 2 0 (askWith (.int 9007199254740992)) ∈ log ∧
      (askWith (.int 9007199254740993)).agrees (askWith (.int 9007199254740992)) = false := by
  intro log rows
  have happened : .completes 2 0 (.ok rows) ∈ log ∧ .ends 1 0 (.ok rows) ∈ log ∧
      .enters 1 0 (askWith (.int 9007199254740993)) ∈ log ∧
        .enters 2 0 (askWith (.int 9007199254740992)) ∈ log ∧
      (askWith (.int 9007199254740993)).agrees (askWith (.int 9007199254740992)) = false := by
    decide +kernel
  obtain ⟨told, ends, odd, even, differ⟩ := happened
  refine ⟨told, fun m rows' other => ?_, odd, even, differ⟩
  obtain ⟨before, after, split⟩ := List.append_of_mem told
  have here : before ++ [.completes 2 0 (.ok rows)] <+: log :=
    ⟨after, by rw [List.append_assoc]; exact split.symm⟩
  obtain ⟨source, _, unique, _⟩ := (right_results rounding).1.served before 2 0 rows here
  obtain ⟨rfl, _⟩ := unique 1 rows ends
  exact unique m rows' other

end DocStore

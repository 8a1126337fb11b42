import DocStore.Proofs.SharedResults

/-!
# The table of queries in flight

New callers find the queries in flight in a table. A caller that finds no
identical query there inserts an entry for its own. When it is done, it looks
its query up once more and takes the entry out if it is the one it inserted:
the table may have been cleared since, and the entry be that of a later caller.
So every entry belongs to a caller that is not done, and to no other one, and
nothing is in flight once everybody is done.
-/

set_option autoImplicit false

namespace DocStore

/-- An entry of the table, with the caller that inserted it. -/
structure FlightEntry where
  key : BoundSql
  owner : Caller

/-- Entries in the order in which they were inserted. -/
abbrev FlightTable := List FlightEntry

namespace FlightTable

variable {table : FlightTable} {n : Caller} {key : BoundSql}

def finds (key : BoundSql) (e : FlightEntry) : Bool := e.key.agrees key

def at? (table : FlightTable) (key : BoundSql) : Option FlightEntry := table.find? (finds key)

/-- A caller inserts an entry unless there is one under its query. -/
def enter (table : FlightTable) (n : Caller) (key : BoundSql) : FlightTable :=
  if (table.at? key).isSome then table else table ++ [⟨key, n⟩]

/-- A caller takes out what it finds under its query, if that is its own entry. -/
def release (table : FlightTable) (n : Caller) (key : BoundSql) : FlightTable :=
  match table.at? key with
  | some e => if e.owner = n then table.eraseP (finds key) else table
  | none => table

/-- Each query has one entry at most. -/
def Single (table : FlightTable) : Prop := table.Pairwise fun a b => a.key.agrees b.key = false

theorem mem_enter {e : FlightEntry} (h : e ∈ table.enter n key) : e ∈ table ∨ e = ⟨key, n⟩ := by
  rw [enter] at h
  split at h
  · exact .inl h
  · exact (List.mem_append.1 h).imp_right List.mem_singleton.1

theorem single_enter (h : table.Single) : (table.enter n key).Single := by
  rw [enter]
  split
  · exact h
  · next missing =>
    refine List.pairwise_append.2 ⟨h, List.pairwise_singleton .., fun e he _ hnew => ?_⟩
    obtain rfl := List.mem_singleton.1 hnew
    exact Bool.eq_false_iff.2 (List.find?_eq_none.1 (Option.not_isSome_iff_eq_none.1 missing) e he)

/-- What a caller takes out is its entry, and nothing if that is gone. -/
theorem release_eq (single : table.Single) (own : ∀ e ∈ table, e.owner = n → e.key = key) :
    table.release n key = table.filter fun e => e.owner ≠ n := by
  induction table with
  | nil => rfl
  | cons e rest ih =>
    obtain ⟨apart, single⟩ := List.pairwise_cons.1 single
    obtain ⟨first, own⟩ := List.forall_mem_cons.1 own
    cases agrees : finds key e with
    | true =>
      -- It finds the first entry, so that none of the others can be its own.
      have kept : rest.filter (fun e => e.owner ≠ n) = rest := by
        refine List.filter_eq_self.2 fun b hb => decide_eq_true fun owner => ?_
        have differs := apart b hb
        rw [own b hb owner, ← finds, agrees] at differs
        cases differs
      rw [release, at?, List.find?_cons_of_pos agrees]
      by_cases mine : e.owner = n
      · rw [List.filter_cons_of_neg (by simpa using mine), kept]
        simp only [mine, if_true, List.eraseP_cons_of_pos agrees]
      · rw [List.filter_cons_of_pos (by simpa using mine), kept]
        simp only [mine, if_false]
    | false =>
      have other : e.owner ≠ n := by
        rintro mine
        rw [finds, first mine, BoundSql.agrees_self] at agrees
        cases agrees
      rw [List.filter_cons_of_pos (by simpa using other), ← ih single own, release,
        release, at?, at?, List.find?_cons_of_neg (by simpa using agrees),
        List.eraseP_cons_of_neg (by simpa using agrees)]
      cases rest.find? (finds key) with
      | none => rfl
      | some b => exact (apply_ite (e :: ·) ..).symm

end FlightTable

/-! ## The table of a coalescer -/

def Cell.listing? (cell : Cell) : Option FlightEntry :=
  if cell.listed then some ⟨cell.key, cell.founder⟩ else none

/-- Whoever founded a cell stays in it as long as new callers can join. -/
def Cell.Kept (cell : Cell) : Prop := cell.listed = true → cell.founder ∈ cell.queue

namespace Coalescer

variable {co : Coalescer} {n : Caller}

def table (co : Coalescer) : FlightTable := co.cells.filterMap Cell.listing?

theorem inFlight_eq (co : Coalescer) : co.inFlight = co.table.length := by
  rw [table, List.length_filterMap_eq_countP, inFlight]
  refine List.countP_congr fun cell _ => ?_
  cases listed : cell.listed <;> simp [Cell.listing?, listed]

theorem table_updateFirst {test : Cell → Bool} {f : Cell → Cell}
    (same : ∀ cell, (f cell).listing? = cell.listing?) (cells : List Cell) :
    table ⟨updateFirst test f cells⟩ = table ⟨cells⟩ := by
  have entries : (updateFirst test f cells).map Cell.listing? = cells.map Cell.listing? :=
    map_updateFirst _ same cells
  simpa [table, List.filterMap_map] using congrArg (List.filterMap id) entries

theorem any_joins (co : Coalescer) (key : BoundSql) :
    co.cells.any (joins key) = (co.table.at? key).isSome := by
  rw [table, FlightTable.at?, List.isSome_find?, List.any_filterMap]
  refine List.any_congr rfl fun cell => ?_
  cases listed : cell.listed <;> simp [joins, Cell.listing?, listed, FlightTable.finds]

theorem table_enter (co : Coalescer) (n : Caller) (key : BoundSql) :
    (co.enter n key).table = co.table.enter n key := by
  rw [enter, FlightTable.enter, any_joins]
  split
  · exact table_updateFirst (f := fun cell => { cell with queue := cell.queue ++ [n] })
      (fun _ => rfl) co.cells
  · rw [found, table, List.filterMap_append]
    rfl

theorem table_clear (co : Coalescer) : co.clear.table = [] := by
  rw [table, clear, List.filterMap_map]
  exact List.filterMap_eq_nil_iff.2 fun _ _ => rfl

/-- A caller that leaves takes its entry along. -/
theorem table_leave (kept : ∀ cell ∈ co.cells, cell.Kept) :
    (co.leave n).table = co.table.filter fun e => e.owner ≠ n := by
  rw [table, table, leave, List.filterMap_filter, List.filterMap_map, List.filter_filterMap]
  refine List.filterMap_congr fun cell hcell => ?_
  rw [Function.comp_apply]
  cases listed : cell.listed with
  | false => simp [Cell.listing?, listed]
  | true =>
    by_cases own : cell.founder = n
    · simp [Cell.listing?, listed, own, Option.filter]
    · have stays : cell.founder ∈ cell.queue.filter fun c => c ≠ n :=
        List.mem_filter.2 ⟨kept cell hcell listed, decide_eq_true own⟩
      rw [if_pos (by simpa using List.ne_nil_of_mem stays)]
      simp [Cell.listing?, listed, own, Option.filter]

theorem kept_leave (kept : ∀ cell ∈ co.cells, cell.Kept) :
    ∀ cell ∈ (co.leave n).cells, cell.Kept := by
  intro cell' hcell' listed
  obtain ⟨cell, hcell, rfl⟩ := mem_leave hcell'
  obtain ⟨listed, other⟩ := Bool.and_eq_true_iff.1 listed
  exact List.mem_filter.2 ⟨kept cell hcell listed, other⟩

theorem kept_updateFirst {test : Cell → Bool} {f : Cell → Cell}
    (same : ∀ cell : Cell, cell.Kept → (f cell).Kept) (kept : ∀ cell ∈ co.cells, cell.Kept) :
    ∀ cell ∈ updateFirst test f co.cells, cell.Kept := by
  intro cell' hcell'
  rcases mem_updateFirst hcell' with hcell | ⟨cell, hcell, -, rfl⟩
  · exact kept cell' hcell
  · exact same cell (kept cell hcell)

theorem kept_enter (kept : ∀ cell ∈ co.cells, cell.Kept) (key : BoundSql) :
    ∀ cell ∈ (co.enter n key).cells, cell.Kept := by
  rw [enter]
  split
  · exact kept_updateFirst (fun cell stays listed => List.mem_append_left _ (stays listed)) kept
  · exact List.forall_mem_append.2 ⟨kept, List.forall_mem_singleton.2 fun _ =>
      List.mem_singleton_self _⟩

/-- Rows for others do not change what a caller takes along. -/
theorem table_succeed (kept : ∀ cell ∈ co.cells, cell.Kept) (rows : List Row) :
    (co.succeed n rows).table = co.table.filter fun e => e.owner ≠ n := by
  have stay : ∀ cell ∈ updateFirst (fun cell => cell.queue.contains n)
        (fun cell => { cell with rows := some rows }) co.cells,
      cell.Kept := kept_updateFirst (fun _ stays => stays) kept
  have same :
      table ⟨updateFirst (fun cell => cell.queue.contains n)
        (fun cell => { cell with rows := some rows }) co.cells⟩ =
      co.table := table_updateFirst (f := fun cell => { cell with rows := some rows })
      (fun _ => rfl) co.cells
  rw [succeed, table_leave stay, same]

theorem kept_succeed (kept : ∀ cell ∈ co.cells, cell.Kept) (rows : List Row) :
    ∀ cell ∈ (co.succeed n rows).cells, cell.Kept := by
  rw [succeed]
  exact kept_leave (kept_updateFirst (fun _ stays => stays) kept)

end Coalescer

/-! ## Steps of callers -/

/-- A step of a schedule in which callers are told apart by their numbers. -/
inductive CallerStep where
  | start (name : String) (key : BoundSql)
  /-- Tells how the query of a caller ends. -/
  | tell (n : Caller) (outcome : Except Error (List Row))
  | drop (n : Caller)
  | clear
  | look (n : Caller)

namespace CallerStep

def asked? : CallerStep → Option BoundSql
  | .start _ key => some key
  | .tell _ _ | .drop _ | .clear | .look _ => none

/-- The caller that a step is about. -/
def caller? : CallerStep → Option Caller
  | .tell n _ | .drop n | .look n => some n
  | .start _ _ | .clear => none

theorem start_or_clear_or_about (step : CallerStep) :
    (∃ name key, step = .start name key) ∨ step = .clear ∨ ∃ n, step.caller? = some n := by
  cases step with
  | start name key => exact .inl ⟨name, key, rfl⟩
  | clear => exact .inr (.inl rfl)
  | tell n _ | drop n | look n => exact .inr (.inr ⟨n, rfl⟩)

theorem asked?_of_caller? {step : CallerStep} {n : Caller} (about : step.caller? = some n) :
    step.asked? = none := by
  cases step with
  | start => cases about
  | clear | tell | drop | look => rfl

end CallerStep

namespace Schedule

/-- A caller has started and is not done. -/
def Open (s : Schedule) (n : Caller) : Prop := s.callers[n]?.any ScheduledCaller.isOpen = true

/-- Something is done to a caller, and to the coalescer along with it. -/
def changeAt (s : Schedule) (n : Caller)
    (change : ScheduledCaller → Coalescer × ScheduledCaller) : Schedule :=
  match s.callers[n]? with
  | some c => ⟨(change c).1, s.callers.set n (change c).2⟩
  | none => s

def take (s : Schedule) : CallerStep → Schedule
  | .start name key => s.apply (.start name key)
  | .tell n outcome => s.changeAt n fun c => (s.coalescer, { c with outcome := some outcome })
  | .drop n => s.changeAt n fun c =>
      if c.isOpen then (s.coalescer.leave n, { c with state := .dropped }) else (s.coalescer, c)
  | .clear => s.apply .clear
  | .look n => s.changeAt n (look s.coalescer n)

/-- The schedule that steps lead to. -/
def taken (steps : List CallerStep) : Schedule := steps.foldl take .start

variable {s s' : Schedule} {co : Coalescer} {c : ScheduledCaller} {n m : Caller}
  {keys : List BoundSql}

/-- Nobody enters the coalescer or leaves it. -/
structure Quiet (s s' : Schedule) : Prop where
  coalescer : s'.coalescer = s.coalescer
  counted : s'.callers.length = s.callers.length
  isOpen : ∀ m, s'.Open m ↔ s.Open m

/-- One caller is done, and nobody else. -/
structure Ends (n : Caller) (s s' : Schedule) : Prop where
  wasOpen : s.Open n
  coalescer : s'.coalescer = s.coalescer.leave n ∨ ∃ rows, s'.coalescer = s.coalescer.succeed n rows
  counted : s'.callers.length = s.callers.length
  isOpen : ∀ m, s'.Open m ↔ s.Open m ∧ m ≠ n

/-- What is done to a caller leaves it as open as it was and does nothing to the coalescer, or ends
it and makes it leave. -/
def Settles (co : Coalescer) (n : Caller) (c : ScheduledCaller)
    (changed : Coalescer × ScheduledCaller) : Prop :=
  (changed.1 = co ∧ changed.2.isOpen = c.isOpen) ∨
    (c.isOpen = true ∧ changed.2.isOpen = false ∧
      (changed.1 = co.leave n ∨ ∃ rows, changed.1 = co.succeed n rows))

theorem settles_look (co : Coalescer) (n : Caller) (c : ScheduledCaller) :
    Settles co n c (look co n c) := by
  unfold look
  split
  · exact .inl ⟨rfl, rfl⟩
  · next isOpen =>
    replace isOpen : c.isOpen = true := by simpa using isOpen
    split
    · exact .inr ⟨isOpen, rfl, .inl rfl⟩
    · split
      · split
        · exact .inl ⟨rfl, isOpen.symm⟩
        · exact .inr ⟨isOpen, rfl, .inr ⟨_, rfl⟩⟩
        · exact .inr ⟨isOpen, rfl, .inl rfl⟩
      · exact .inl ⟨rfl, rfl⟩

theorem changeAt_cases {change : ScheduledCaller → Coalescer × ScheduledCaller}
    (settles : ∀ c, Settles s.coalescer n c (change c)) :
    Quiet s (s.changeAt n change) ∨ Ends n s (s.changeAt n change) := by
  rw [changeAt]
  cases found : s.callers[n]? with
  | none => exact .inl ⟨rfl, rfl, fun _ => Iff.rfl⟩
  | some c =>
    have self (c' : ScheduledCaller) : (s.callers.set n c')[n]? = some c' :=
      List.getElem?_set_self (List.getElem?_eq_some_iff.1 found).1
    have others {m : Caller} (other : m ≠ n) : Open ⟨(change c).1, s.callers.set n (change c).2⟩ m ↔
        s.Open m := by
      simp only [Open, List.getElem?_set_ne (Ne.symm other)]
    have own : Open ⟨(change c).1, s.callers.set n (change c).2⟩ n ↔
        (change c).2.isOpen = true := by
      simp only [Open, self, Option.any_some]
    have was : s.Open n ↔ c.isOpen = true := by rw [Open, found, Option.any_some]
    rcases settles c with ⟨kept, same⟩ | ⟨isOpen, ended, left⟩
    · refine .inl ⟨kept, List.length_set .., fun m => ?_⟩
      by_cases here : m = n
      · subst here
        rw [own, was, same]
      · exact others here
    · refine .inr ⟨was.2 isOpen, left, List.length_set .., fun m => ?_⟩
      by_cases here : m = n
      · subst here
        exact iff_of_false (by simp [own, ended]) fun both => both.2 rfl
      · rw [others here]
        exact (and_iff_left here).symm

theorem table_start (s : Schedule) (name : String) (key : BoundSql) :
    (s.take (.start name key)).coalescer.table = s.coalescer.table.enter s.callers.length key :=
  Coalescer.table_enter ..

theorem table_clear (s : Schedule) : (s.take .clear).coalescer.table = [] := Coalescer.table_clear _

/-- A step that is about a caller leaves everything as it was or ends that caller. -/
theorem take_cases {step : CallerStep} (s : Schedule) (about : step.caller? = some n) :
    Quiet s (s.take step) ∨ Ends n s (s.take step) := by
  cases step with
  | start | clear => cases about
  | tell m outcome =>
    cases about
    exact changeAt_cases fun c => .inl ⟨rfl, rfl⟩
  | drop m =>
    cases about
    refine changeAt_cases fun c => ?_
    split
    · next isOpen => exact .inr ⟨isOpen, rfl, .inl rfl⟩
    · exact .inl ⟨rfl, rfl⟩
  | look m =>
    cases about
    exact changeAt_cases (settles_look s.coalescer n)

/-! ## The invariant -/

/-- The callers of a schedule attend to its table: each entry belongs to one of
them that is not done. -/
structure Tended (keys : List BoundSql) (s : Schedule) : Prop where
  counted : keys.length = s.callers.length
  kept : ∀ cell ∈ s.coalescer.cells, cell.Kept
  owned : ∀ e ∈ s.coalescer.table, keys[e.owner]? = some e.key ∧ s.Open e.owner
  single : s.coalescer.table.Single
  owners : (s.coalescer.table.map FlightEntry.owner).Nodup

theorem Ends.kept (h : Ends n s s') (kept : ∀ cell ∈ s.coalescer.cells, cell.Kept) :
    ∀ cell ∈ s'.coalescer.cells, cell.Kept := by
  rcases h.coalescer with left | ⟨rows, left⟩
  · exact left ▸ Coalescer.kept_leave kept
  · exact left ▸ Coalescer.kept_succeed kept rows

/-- A caller that is done takes its entry along and no other one. -/
theorem Ends.table (h : Ends n s s') (kept : ∀ cell ∈ s.coalescer.cells, cell.Kept) :
    s'.coalescer.table = s.coalescer.table.filter fun e => e.owner ≠ n := by
  rcases h.coalescer with left | ⟨rows, left⟩
  · rw [left, Coalescer.table_leave kept]
  · rw [left, Coalescer.table_succeed kept rows]

namespace Tended

theorem ends (h : Tended keys s) (ended : Ends n s s') : Tended keys s' := by
  have table := ended.table h.kept
  refine ⟨h.counted.trans ended.counted.symm, ended.kept h.kept, fun e he => ?_, ?_, ?_⟩
  · rw [table] at he
    obtain ⟨he, other⟩ := List.mem_filter.1 he
    obtain ⟨asked, isOpen⟩ := h.owned e he
    exact ⟨asked, (ended.isOpen e.owner).2 ⟨isOpen, of_decide_eq_true other⟩⟩
  · rw [table]
    exact h.single.filter _
  · rw [table]
    exact h.owners.sublist (List.filter_sublist.map _)

theorem quiet (h : Tended keys s) (quiet : Quiet s s') : Tended keys s' := by
  refine ⟨h.counted.trans quiet.counted.symm, ?_, fun e he => ?_, ?_, ?_⟩
  · exact quiet.coalescer ▸ h.kept
  · rw [quiet.coalescer] at he
    obtain ⟨asked, isOpen⟩ := h.owned e he
    exact ⟨asked, (quiet.isOpen e.owner).2 isOpen⟩
  · exact quiet.coalescer ▸ h.single
  · exact quiet.coalescer ▸ h.owners

theorem start (h : Tended keys s) (name : String) (key : BoundSql) :
    Tended (keys ++ [key]) (s.take (.start name key)) := by
  have older {e : FlightEntry} (he : e ∈ s.coalescer.table) : e.owner < s.callers.length :=
    h.counted ▸ (List.getElem?_eq_some_iff.1 (h.owned e he).1).1
  refine ⟨?_, Coalescer.kept_enter h.kept key, fun e he => ?_, ?_, ?_⟩
  · simp [take, apply, h.counted]
  · rw [table_start] at he
    rcases FlightTable.mem_enter he with he | rfl
    · obtain ⟨asked, isOpen⟩ := h.owned e he
      refine ⟨?_, ?_⟩
      · rw [List.getElem?_append_left (h.counted ▸ older he), asked]
      · rwa [Open, take, apply, List.getElem?_append_left (older he)]
    · refine ⟨?_, ?_⟩
      · rw [← h.counted, List.getElem?_concat_length]
      · rw [Open, take, apply, List.getElem?_concat_length]
        rfl
  · rw [table_start]
    exact FlightTable.single_enter h.single
  · rw [table_start, FlightTable.enter]
    split
    · exact h.owners
    · rw [List.map_append]
      refine h.owners.append (List.nodup_singleton _) fun m old new => ?_
      obtain ⟨e, he, rfl⟩ := List.mem_map.1 old
      exact Nat.ne_of_lt (older he) (List.mem_singleton.1 new)

theorem clear (h : Tended keys s) : Tended keys (s.take .clear) := by
  refine ⟨h.counted, fun cell' hcell' listed => ?_, fun e he => ?_, ?_, ?_⟩
  · obtain ⟨cell, -, rfl⟩ := List.mem_map.1 hcell'
    cases listed
  · rw [table_clear] at he
    cases he
  · rw [table_clear]
    exact List.Pairwise.nil
  · rw [table_clear]
    exact List.nodup_nil

theorem take (h : Tended keys s) (step : CallerStep) :
    Tended (keys ++ step.asked?.toList) (s.take step) := by
  rcases step.start_or_clear_or_about with ⟨name, key, rfl⟩ | rfl | ⟨n, about⟩
  · exact h.start name key
  · exact (List.append_nil keys).symm ▸ h.clear
  · rw [CallerStep.asked?_of_caller? about, Option.toList_none, List.append_nil]
    exact (s.take_cases about).elim h.quiet h.ends

/-- An entry that is there after a step was there before, or the caller that
starts has inserted it. -/
theorem mem_table_take (h : Tended keys s) {step : CallerStep} {e : FlightEntry}
    (he : e ∈ (s.take step).coalescer.table) :
    e ∈ s.coalescer.table ∨ e.owner = s.callers.length := by
  rcases step.start_or_clear_or_about with ⟨name, key, rfl⟩ | rfl | ⟨n, about⟩
  · rw [table_start] at he
    exact (FlightTable.mem_enter he).imp_right fun new => (by rw [new])
  · rw [table_clear] at he
    cases he
  · rcases s.take_cases about with quiet | ended
    · exact .inl (quiet.coalescer ▸ he)
    · rw [ended.table h.kept] at he
      exact .inl (List.mem_filter.1 he).1

/-- A caller that is done looks its query up and takes out what it finds, if
that is its own entry. -/
theorem release (h : Tended keys s) (ended : Ends n s s') :
    ∃ key, keys[n]? = some key ∧ s'.coalescer.table = s.coalescer.table.release n key := by
  obtain ⟨c, started, -⟩ := (Option.any_eq_true ..).1 ended.wasOpen
  have lt : n < keys.length := h.counted ▸ (List.getElem?_eq_some_iff.1 started).1
  refine ⟨keys[n], List.getElem?_eq_getElem lt, ?_⟩
  rw [ended.table h.kept, FlightTable.release_eq h.single fun e he owner => ?_]
  have asked := (h.owned e he).1
  rw [owner, List.getElem?_eq_getElem lt] at asked
  exact (Option.some.inj asked).symm

end Tended

theorem taken_concat (steps : List CallerStep) (step : CallerStep) :
    taken (steps ++ [step]) = (taken steps).take step := by
  rw [taken, List.foldl_append]
  rfl

theorem tended_taken (steps : List CallerStep) :
    Tended (steps.filterMap CallerStep.asked?) (taken steps) := by
  induction steps using List.reverseRecOn with
  | nil =>
    exact ⟨rfl, fun _ h => (by cases h), fun _ h => (by cases h), List.Pairwise.nil, List.nodup_nil⟩
  | append_singleton steps step ih =>
    have next := ih.take step
    rw [taken_concat, List.filterMap_append]
    cases asked : step.asked? <;> simpa [asked] using next

theorem length_take (s : Schedule) (step : CallerStep) :
    s.callers.length ≤ (s.take step).callers.length := by
  rcases step.start_or_clear_or_about with ⟨name, key, rfl⟩ | rfl | ⟨n, about⟩
  · simp [take, apply]
  · exact Nat.le_refl _
  · rcases s.take_cases about with quiet | ended
    · exact Nat.le_of_eq quiet.counted.symm
    · exact Nat.le_of_eq ended.counted.symm

/-- Entries that are there at some time after clearing are those of callers
that have started since. -/
theorem le_owner_of_cleared (before later : List CallerStep) :
    ∀ e ∈ (taken (before ++ .clear :: later)).coalescer.table,
      (taken before).callers.length ≤ e.owner := by
  suffices (taken before).callers.length ≤ (taken (before ++ .clear :: later)).callers.length ∧
    _ from this.2
  induction later using List.reverseRecOn with
  | nil =>
    rw [taken_concat]
    refine ⟨Nat.le_refl _, fun e he => ?_⟩
    rw [table_clear] at he
    cases he
  | append_singleton later step ih =>
    obtain ⟨counted, owners⟩ := ih
    rw [← List.cons_append, ← List.append_assoc, taken_concat]
    refine ⟨Nat.le_trans counted (length_take _ step), fun e he => ?_⟩
    rcases (tended_taken _).mem_table_take he with old | new
    · exact owners e old
    · exact new ▸ counted

end Schedule

/-! ## Schedules by name -/

def ScheduleStep.name? : ScheduleStep → Option String
  | .start name _ => some name
  | .finish _ _ | .drop _ | .clear => none

namespace Schedule

variable {callers : List ScheduledCaller} {n : Caller}

def names (s : Schedule) : List String := s.callers.map ScheduledCaller.name

/-- Where no two callers have the same name, a change by name is a change of the one
open caller of that name. -/
theorem updateCaller_eq_set {name : String} (f : ScheduledCaller → ScheduledCaller)
    (unique : (callers.map ScheduledCaller.name).Nodup) {c : ScheduledCaller}
    (here : callers[n]? = some c) (named : c.name = name) (isOpen : c.isOpen = true) :
    updateCaller name f callers = callers.set n (f c) := by
  refine List.ext_getElem? fun m => ?_
  rw [updateCaller, List.getElem?_map]
  by_cases same : m = n
  · subst same
    rw [List.getElem?_set_self (List.getElem?_eq_some_iff.1 here).1, here, Option.map_some,
      if_pos ⟨named, isOpen⟩]
  · rw [List.getElem?_set_ne (Ne.symm same)]
    cases there : callers[m]? with
    | none => rfl
    | some d =>
      rw [Option.map_some, if_neg]
      rintro ⟨named', -⟩
      have lt : m < (callers.map ScheduledCaller.name).length := by
        rw [List.length_map]
        exact (List.getElem?_eq_some_iff.1 there).1
      refine same ((List.getElem?_inj lt unique).1 ?_)
      rw [List.getElem?_map, List.getElem?_map, there, here, Option.map_some, Option.map_some,
        named, named']

theorem updateCaller_eq_self {name : String} (f : ScheduledCaller → ScheduledCaller)
    (nobody : callers.findIdx? (fun c => c.name = name && c.isOpen) = none) :
    updateCaller name f callers = callers := by
  refine (List.map_congr_left fun c hc => ?_).trans (List.map_id callers)
  rw [if_neg, id]
  simpa using List.findIdx?_eq_none_iff.1 nobody c hc

/-- A step by name is a step by number, or none if there is no open caller of the name. -/
theorem exists_take (s : Schedule) (unique : s.names.Nodup) (what : ScheduleStep) :
    ∃ steps : List CallerStep, steps.filterMap CallerStep.asked? = what.asked ∧
      steps.foldl take s = s.apply what := by
  cases what with
  | start name key => exact ⟨[.start name key], rfl, rfl⟩
  | clear => exact ⟨[.clear], rfl, rfl⟩
  | finish name outcome =>
    cases found : s.callers.findIdx? fun c => c.name = name && c.isOpen with
    | none =>
      refine ⟨[], rfl, ?_⟩
      rw [apply, updateCaller_eq_self _ found]
      rfl
    | some n =>
      obtain ⟨lt, named, -⟩ := List.findIdx?_eq_some_iff_getElem.1 found
      obtain ⟨named, isOpen⟩ := Bool.and_eq_true_iff.1 named
      have here := List.getElem?_eq_getElem lt
      refine ⟨[.tell n outcome], rfl, ?_⟩
      rw [apply, updateCaller_eq_set _ unique here (of_decide_eq_true named) isOpen]
      simp only [List.foldl_cons, List.foldl_nil, take, changeAt, here]
  | drop name =>
    cases found : s.callers.findIdx? fun c => c.name = name && c.isOpen with
    | none =>
      refine ⟨[], rfl, ?_⟩
      rw [apply, found]
      rfl
    | some n =>
      obtain ⟨lt, named, -⟩ := List.findIdx?_eq_some_iff_getElem.1 found
      obtain ⟨named, isOpen⟩ := Bool.and_eq_true_iff.1 named
      have here := List.getElem?_eq_getElem lt
      refine ⟨[.drop n], rfl, ?_⟩
      rw [apply, found]
      dsimp only
      rw [updateCaller_eq_set _ unique here (of_decide_eq_true named) isOpen]
      simp only [List.foldl_cons, List.foldl_nil, take, changeAt, here, isOpen, if_true]

theorem names_look (co : Coalescer) (n : Caller) (c : ScheduledCaller) :
    (look co n c).2.name = c.name := by
  unfold look
  split
  · rfl
  · split
    · rfl
    · split
      · split <;> rfl
      · rfl

theorem names_apply (s : Schedule) (what : ScheduleStep) :
    (s.apply what).names = s.names ++ what.name?.toList := by
  have updated (name : String) (f : ScheduledCaller → ScheduledCaller)
      (same : ∀ c, (f c).name = c.name) :
      (updateCaller name f s.callers).map ScheduledCaller.name = s.names := by
    rw [updateCaller, List.map_map]
    refine List.map_congr_left fun c _ => ?_
    rw [Function.comp_apply]
    split
    · exact same c
    · rfl
  cases what with
  | start name key => exact List.map_append ..
  | finish name outcome =>
    exact (updated name (fun c => { c with outcome := some outcome }) fun _ => rfl).trans
      (List.append_nil _).symm
  | drop name =>
    rw [apply]
    split
    · exact (updated name (fun c => { c with state := .dropped }) fun _ => rfl).trans
        (List.append_nil _).symm
    · exact (List.append_nil _).symm
  | clear => exact (List.append_nil _).symm

end Schedule

namespace Chronicle

theorem names_act (ch : Chronicle) (a : Act) :
    (ch.act a).schedule.names = ch.schedule.names ++ (a.step?.bind ScheduleStep.name?).toList := by
  cases a with
  | takes what => exact Schedule.names_apply ch.schedule what
  | looks n =>
    rw [Act.step?, Option.bind_none, Option.toList_none, List.append_nil]
    cases here : ch.schedule.callers[n]? with
    | none => rw [act_none here]
    | some c =>
      obtain ⟨lt, rfl⟩ := List.getElem?_eq_some_iff.1 here
      rw [act_looks here, Schedule.names, Schedule.names, List.map_set, Schedule.names_look,
        ← List.map_set, List.set_getElem_self]

theorem run_concat (acts : List Act) (a : Act) : run (acts ++ [a]) = (run acts).act a := by
  rw [run, List.foldl_append]
  rfl

theorem names_run (acts : List Act) :
    (run acts).schedule.names = (acts.filterMap Act.step?).filterMap ScheduleStep.name? := by
  induction acts using List.reverseRecOn with
  | nil => rfl
  | append_singleton acts a ih =>
    rw [run_concat, names_act, ih, List.filterMap_append, List.filterMap_append]
    cases a with
    | takes what => cases named : what.name? <;> simp [Act.step?, named]
    | looks n => rfl

/-- If no two callers have the same name, a chronicle is one of steps by number. -/
theorem exists_taken (acts : List Act)
    (unique : ((acts.filterMap Act.step?).filterMap ScheduleStep.name?).Nodup) :
    ∃ steps, steps.filterMap CallerStep.asked? =
        (acts.filterMap Act.step?).flatMap ScheduleStep.asked ∧
      Schedule.taken steps = (run acts).schedule := by
  induction acts using List.reverseRecOn with
  | nil => exact ⟨[], rfl, rfl⟩
  | append_singleton acts a ih =>
    rw [List.filterMap_append, List.filterMap_append] at unique
    have before := unique.of_append_left
    obtain ⟨steps, asked, taken⟩ := ih before
    cases a with
    | takes what =>
      obtain ⟨next, asked', applied⟩ :=
        (run acts).schedule.exists_take (names_run acts ▸ before) what
      refine ⟨steps ++ next, ?_, ?_⟩
      · rw [List.filterMap_append, asked, asked', List.filterMap_append, List.flatMap_append]
        exact congrArg _ (List.append_nil _).symm
      · rw [Schedule.taken, List.foldl_append, ← Schedule.taken, taken, applied, run_concat]
        rfl
    | looks n =>
      refine ⟨steps ++ [.look n], ?_, ?_⟩
      · rw [List.filterMap_append, asked, List.filterMap_append, List.flatMap_append]
        rfl
      · rw [Schedule.taken_concat, taken, run_concat]
        cases here : (run acts).schedule.callers[n]? with
        | none => simp only [Schedule.take, Schedule.changeAt, here, act_none here]
        | some c => simp only [Schedule.take, Schedule.changeAt, here, act_looks here]

end Chronicle

namespace Schedule

/-- Whatever callers do, the entries of the table are those of callers that are not done, each query
has one at most, and each caller too; so nothing is in flight once everybody is done. A caller that
starts inserts an entry if there is none under its query, and when it is done it looks its query up
and takes out what it finds if that is its own entry, which comes to taking out what it inserted,
and nothing else. After clearing there are only entries of callers that have started since. All this
holds of schedules by name too, as long as no two callers have the same name. -/
theorem neither_leaks_nor_steals (steps : List CallerStep) :
    let s := taken steps
    let keys := steps.filterMap CallerStep.asked?
    (∀ e ∈ s.coalescer.table, keys[e.owner]? = some e.key ∧ s.Open e.owner) ∧
    (s.coalescer.table.Single ∧ (s.coalescer.table.map FlightEntry.owner).Nodup) ∧
    (s.coalescer.inFlight = s.coalescer.table.length ∧
      ((∀ n, ¬s.Open n) → s.coalescer.inFlight = 0)) ∧
    (∀ name key, (s.take (.start name key)).coalescer.table =
      s.coalescer.table.enter s.callers.length key) ∧
    (s.take .clear).coalescer.table = [] ∧
    (∀ step n, step.caller? = some n →
      (s.Open n → ¬(s.take step).Open n → ∃ key, keys[n]? = some key ∧
        (s.take step).coalescer.table = s.coalescer.table.release n key ∧
        s.coalescer.table.release n key = s.coalescer.table.filter fun e => e.owner ≠ n) ∧
      ((s.Open n → (s.take step).Open n) → (s.take step).coalescer.table = s.coalescer.table)) ∧
    (∀ before later, steps = before ++ .clear :: later →
      ∀ e ∈ s.coalescer.table, (taken before).callers.length ≤ e.owner) ∧
    ∀ named : List ScheduleStep, (named.filterMap ScheduleStep.name?).Nodup →
      ∃ numbered : List CallerStep,
      numbered.filterMap CallerStep.asked? = named.flatMap ScheduleStep.asked ∧
        taken numbered = named.foldl step .start := by
  intro s keys
  have tended := tended_taken steps
  refine ⟨tended.owned, ⟨tended.single, tended.owners⟩, ⟨s.coalescer.inFlight_eq, fun done => ?_⟩,
    s.table_start,
    s.table_clear, fun step n about => ⟨fun isOpen ended => ?_, fun stays => ?_⟩, ?_,
    fun named unique => ?_⟩
  · rw [Coalescer.inFlight_eq, List.length_eq_zero_iff]
    exact List.eq_nil_iff_forall_not_mem.2 fun e he => done e.owner (tended.owned e he).2
  · rcases s.take_cases about with quiet | ends
    · exact absurd ((quiet.isOpen n).2 isOpen) ended
    · obtain ⟨key, asked, released⟩ := tended.release ends
      exact ⟨key, asked, released, released.symm.trans (ends.table tended.kept)⟩
  · rcases s.take_cases about with quiet | ends
    · rw [quiet.coalescer]
    · exact absurd rfl ((ends.isOpen n).1 (stays ends.wasOpen)).2
  · rintro before later split e he
    exact le_owner_of_cleared before later e (by rwa [← split])
  · obtain ⟨acts, acted, schedule⟩ := Chronicle.exists_run named
    obtain ⟨numbered, asked, taken⟩ := Chronicle.exists_taken acts (acted ▸ unique)
    exact ⟨numbered, acted ▸ asked, taken.trans schedule⟩

/-- A caller that ends after clearing leaves the entry of a later one alone. -/
example :
    let ask (name : String) : CallerStep := .start name ⟨"SELECT 1", ∅⟩
    (taken [ask "first", .clear, ask "second", .tell 0 (.ok []), .look 0]).coalescer.table.map
      FlightEntry.owner = [1] := by
  decide +kernel

end Schedule

end DocStore

import DocStore.Coalescer.Schedule
import DocStore.Proofs.Groups
import Mathlib.Data.List.Pairwise
import Mathlib.Data.List.Zip

/-!
# How many identical queries are in flight

Among identical queries one is run for all, as long as none of them fails and
no caller goes away. A caller that gives up leaves its cell to those who wait in
it, but takes its entry along: the next one in the queue runs its query unseen,
and an identical query that starts in the meantime runs beside it. So of the
identical queries in flight, all but one replace queries that were given up.
-/

set_option autoImplicit false

namespace DocStore

theorem Parameters.agrees_comm (ps qs : Parameters) : ps.agrees qs = qs.agrees ps := by
  rw [agrees, agrees, ← List.zip_swap, List.all_map]
  refine congrArg₂ and (decide_eq_decide.2 eq_comm) (List.all_congr rfl fun pq => ?_)
  exact congrArg₂ and (decide_eq_decide.2 eq_comm) (Value.agrees_comm ..)

theorem BoundSql.agrees_self (a : BoundSql) : a.agrees a = true := by
  refine Bool.and_eq_true_iff.2 ⟨decide_eq_true rfl,
    Bool.and_eq_true_iff.2 ⟨decide_eq_true rfl, ?_⟩⟩
  rw [List.zip, List.zipWith_self, List.all_map]
  exact List.all_eq_true.2 fun p _ => Bool.and_eq_true_iff.2 ⟨decide_eq_true rfl, p.2.agrees_self⟩

theorem BoundSql.agrees_comm (a b : BoundSql) : a.agrees b = b.agrees a :=
  congrArg₂ and (decide_eq_decide.2 eq_comm) (Parameters.agrees_comm ..)

namespace ScheduledCaller

/-- Its own query was run and has not ended. -/
def inFlight (c : ScheduledCaller) : Bool := c.invoked && c.isOpen

/-- It was dropped, or its own query failed. -/
def gaveUp (c : ScheduledCaller) : Bool :=
  match c.state with
  | .dropped | .finished (.error _) => true
  | _ => false

theorem gaveUp_of_isOpen {c : ScheduledCaller} (h : c.isOpen = true) : c.gaveUp = false := by
  obtain ⟨_, _, _, state⟩ := c
  cases state with
  | waiting | running => rfl
  | finished | dropped => cases h

end ScheduledCaller

/-- The caller that founded the cell in which a caller waits or runs. -/
def Coalescer.founderOf (co : Coalescer) (n : Caller) : Caller :=
  ((co.cell? n).map Cell.founder).getD n

namespace Schedule

def InFlight (callers : List ScheduledCaller) (n : Caller) : Prop :=
  callers[n]?.any ScheduledCaller.inFlight = true

def GaveUp (callers : List ScheduledCaller) (n : Caller) : Prop :=
  callers[n]?.any ScheduledCaller.gaveUp = true

instance (callers : List ScheduledCaller) (n : Caller) : Decidable (InFlight callers n) :=
  inferInstanceAs (Decidable (_ = true))

/-- Two callers ask an identical query. -/
def Identical (keys : List BoundSql) (n m : Caller) : Prop :=
  ∃ key key', keys[n]? = some key ∧ keys[m]? = some key' ∧ key.agrees key' = true

/-- The schedules that come about without clearing, each with the queries of its callers in the
order in which they started. Anybody may be looked at at any time. -/
inductive Reaches : List BoundSql → Schedule → Prop
  | start : Reaches [] .start
  | starts {keys : List BoundSql} {s : Schedule} (h : Reaches keys s) (name : String)
      (key : BoundSql) : Reaches (keys ++ [key]) (s.apply (.start name key))
  | finishes {keys : List BoundSql} {s : Schedule} (h : Reaches keys s) (name : String)
      (outcome : Except Error (List Row)) : Reaches keys (s.apply (.finish name outcome))
  | drops {keys : List BoundSql} {s : Schedule} (h : Reaches keys s) (name : String) :
      Reaches keys (s.apply (.drop name))
  | looks {keys : List BoundSql} {s : Schedule} (h : Reaches keys s) {n : Caller}
      {c : ScheduledCaller} (found : s.callers[n]? = some c) :
      Reaches keys ⟨(look s.coalescer n c).1, s.callers.set n (look s.coalescer n c).2⟩

/-- A caller runs its query in place of an earlier one, which gave up. -/
structure Replaces (keys : List BoundSql) (s : Schedule) (n earlier : Caller) : Prop where
  later : earlier < n
  gaveUp : GaveUp s.callers earlier
  identical : Identical keys earlier n

end Schedule

/-! ## Cells that belong together -/

/-- What holds of a cell at any time. -/
structure Cell.Sound (keys : List BoundSql) (callers : List ScheduledCaller)
    (cell : Cell) : Prop where
  founded : keys[cell.founder]? = some cell.key
  members : ∀ n ∈ cell.queue, cell.founder ≤ n ∧
    ∃ key, keys[n]? = some key ∧ cell.key.agrees key = true
  /-- As long as new callers can join, it is the turn of the founder. -/
  listed : cell.listed = true → cell.queue.head? = some cell.founder
  abandoned : cell.listed = false → cell.rows = none → Schedule.GaveUp callers cell.founder

/-- Two cells have no caller in common, and new callers can join one of them at most. -/
structure Cell.Apart (a b : Cell) : Prop where
  founder : a.founder < b.founder
  queue : ∀ n ∈ a.queue, n ∉ b.queue
  key : a.listed = true → b.listed = true → a.key.agrees b.key = false

theorem Cell.Sound.of_le {keys keys' : List BoundSql} {callers callers' : List ScheduledCaller}
    {cell : Cell} (h : cell.Sound keys callers)
    (keep : ∀ (n : Nat) key, keys[n]? = some key → keys'[n]? = some key)
    (gaveUp : ∀ n, Schedule.GaveUp callers n → Schedule.GaveUp callers' n) :
    cell.Sound keys' callers' where
  founded := keep _ _ h.founded
  members n hn := by
    obtain ⟨later, key, found, agrees⟩ := h.members n hn
    exact ⟨later, key, keep _ _ found, agrees⟩
  listed := h.listed
  abandoned out rows := gaveUp _ (h.abandoned out rows)

namespace Coalescer

variable {co : Coalescer} {cell : Cell} {n m : Caller}

theorem updateFirst_cases (test : Cell → Bool) (f : Cell → Cell) (cells : List Cell) :
    (∀ cell ∈ cells, test cell = false) ∨
      ∃ before cell after, cells = before ++ cell :: after ∧ test cell = true ∧
        updateFirst test f cells = before ++ f cell :: after := by
  induction cells with
  | nil => exact .inl fun _ h => (by cases h)
  | cons cell rest ih =>
    rw [updateFirst]
    split
    · next holds => exact .inr ⟨[], cell, rest, rfl, holds, rfl⟩
    · next fails =>
      rcases ih with none | ⟨before, cell', after, rfl, holds, changed⟩
      · exact .inl (List.forall_mem_cons.2 ⟨by simpa using fails, none⟩)
      · exact .inr ⟨cell :: before, cell', after, rfl, holds, congrArg (cell :: ·) changed⟩

theorem mem_updateFirst {test : Cell → Bool} {f : Cell → Cell} {cells : List Cell} {cell' : Cell}
    (h : cell' ∈ updateFirst test f cells) :
    cell' ∈ cells ∨ ∃ cell ∈ cells, test cell = true ∧ cell' = f cell := by
  induction cells with
  | nil => exact .inl h
  | cons cell rest ih =>
    rw [updateFirst] at h
    split at h
    · next holds =>
      rcases List.mem_cons.1 h with rfl | h
      · exact .inr ⟨cell, List.mem_cons_self, holds, rfl⟩
      · exact .inl (List.mem_cons_of_mem _ h)
    · rcases List.mem_cons.1 h with rfl | h
      · exact .inl List.mem_cons_self
      · rcases ih h with kept | ⟨c, hc, changed⟩
        · exact .inl (List.mem_cons_of_mem _ kept)
        · exact .inr ⟨c, List.mem_cons_of_mem _ hc, changed⟩

theorem map_updateFirst {α : Type} (g : Cell → α) {test : Cell → Bool} {f : Cell → Cell}
    (same : ∀ cell, g (f cell) = g cell) (cells : List Cell) :
    (updateFirst test f cells).map g = cells.map g := by
  induction cells with
  | nil => rfl
  | cons cell rest ih =>
    rw [updateFirst]
    split
    · rw [List.map_cons, List.map_cons, same]
    · rw [List.map_cons, List.map_cons, ih]

theorem mem_leave {cell' : Cell} (h : cell' ∈ (co.leave n).cells) :
    ∃ cell ∈ co.cells, cell' = { cell with
      queue := cell.queue.filter fun c => c ≠ n
      listed := cell.listed && cell.founder ≠ n } := by
  obtain ⟨cell, hcell, rfl⟩ := List.mem_map.1 (List.mem_filter.1 h).1
  exact ⟨cell, hcell, rfl⟩

theorem hasTurn_iff :
    co.hasTurn n = true ↔ ∃ cell ∈ co.cells, cell.queue.head? = some n ∧ cell.rows = none := by
  simp [hasTurn]

theorem head?_filter_ne {queue : List Caller} (h : queue.head? = some n) (other : n ≠ m) :
    (queue.filter fun c => c ≠ m).head? = some n := by
  obtain ⟨rest, rfl⟩ := List.head?_eq_some_iff.1 h
  rw [List.filter_cons_of_pos (by simpa using other)]
  rfl

/-- A caller is in one cell. -/
theorem eq_of_mem_queue {cells : List Cell} (apart : cells.Pairwise Cell.Apart) {a b : Cell}
    (ha : a ∈ cells) (hb : b ∈ cells) (hna : n ∈ a.queue) (hnb : n ∈ b.queue) : a = b := by
  by_contra other
  have disjoint : cells.Pairwise fun a b => ¬(n ∈ a.queue ∧ n ∈ b.queue) :=
    apart.imp fun h both => h.queue n both.1 both.2
  have : Std.Symm fun a b : Cell => ¬(n ∈ a.queue ∧ n ∈ b.queue) := ⟨fun _ _ h both => h both.symm⟩
  exact disjoint.forall ha hb other ⟨hna, hnb⟩

theorem founderOf_eq (apart : co.cells.Pairwise Cell.Apart) (h : cell ∈ co.cells)
    (hn : n ∈ cell.queue) : co.founderOf n = cell.founder := by
  obtain ⟨cell', found⟩ : ∃ cell', co.cell? n = some cell' :=
    Option.isSome_iff_exists.1 (List.find?_isSome.2 ⟨cell, h, by simpa using hn⟩)
  have inside : n ∈ cell'.queue := by simpa using List.find?_some found
  rw [founderOf, found, eq_of_mem_queue apart (List.mem_of_find?_eq_some found) h inside hn]
  rfl

end Coalescer

namespace Schedule

variable {keys : List BoundSql} {s : Schedule} {co : Coalescer}
  {callers callers' : List ScheduledCaller} {n : Caller} {c : ScheduledCaller}

/-! ## Callers -/

theorem gaveUp_iff (found : callers[n]? = some c) : GaveUp callers n ↔ c.gaveUp = true := by
  rw [GaveUp, found, Option.any_some]

theorem inFlight_iff (found : callers[n]? = some c) : InFlight callers n ↔ c.inFlight = true := by
  rw [InFlight, found, Option.any_some]

/-! ## The invariant -/

/-- The cells are sound and apart, and whoever is in flight has its turn in one of them. -/
structure Orderly (keys : List BoundSql) (co : Coalescer)
    (callers : List ScheduledCaller) : Prop where
  counted : keys.length = callers.length
  sound : ∀ cell ∈ co.cells, cell.Sound keys callers
  apart : co.cells.Pairwise Cell.Apart
  inFlight : ∀ n, InFlight callers n → co.hasTurn n = true

namespace Orderly

theorem lt_of_mem (h : Orderly keys co callers) {cell : Cell} (hcell : cell ∈ co.cells)
    (hn : n ∈ cell.queue) : n < callers.length := by
  obtain ⟨_, key, found, _⟩ := (h.sound cell hcell).members n hn
  obtain ⟨lt, _⟩ := List.getElem?_eq_some_iff.1 found
  rwa [h.counted] at lt

/-- Callers may change as they like, as long as nobody takes back that it gave up or is
in flight out of turn. -/
theorem of_callers (h : Orderly keys co callers) (length : callers'.length = callers.length)
    (gaveUp : ∀ n, GaveUp callers n → GaveUp callers' n)
    (inFlight : ∀ n, InFlight callers' n → co.hasTurn n = true) : Orderly keys co callers' where
  counted := h.counted.trans length.symm
  sound cell hcell := (h.sound cell hcell).of_le (fun _ _ same => same) gaveUp
  apart := h.apart
  inFlight := inFlight

/-- One cell may change in ways that the others do not notice. -/
theorem replace {before after : List Cell} {cell cell' : Cell}
    (h : Orderly keys ⟨before ++ cell :: after⟩ callers) (sound : cell'.Sound keys callers)
    (left : ∀ a ∈ before, a.Apart cell → a.Apart cell')
    (right : ∀ b ∈ after, cell.Apart b → cell'.Apart b)
    (turn : ∀ n, InFlight callers n → cell.queue.head? = some n →
      cell'.queue.head? = some n ∧ cell'.rows = cell.rows) :
    Orderly keys ⟨before ++ cell' :: after⟩ callers := by
  obtain ⟨apartBefore, apartAfter, between⟩ := List.pairwise_append.1 h.apart
  obtain ⟨beside, apartAfter⟩ := List.pairwise_cons.1 apartAfter
  refine ⟨h.counted, fun other hother => ?_, ?_, fun n hn => ?_⟩
  · rcases List.mem_append.1 hother with hother | hother
    · exact h.sound other (List.mem_append_left _ hother)
    · rcases List.mem_cons.1 hother with rfl | hother
      · exact sound
      · exact h.sound other (List.mem_append_right _ (List.mem_cons_of_mem _ hother))
  · refine List.pairwise_append.2 ⟨apartBefore,
      List.pairwise_cons.2 ⟨fun b hb => right b hb (beside b hb), apartAfter⟩, ?_⟩
    intro a ha b hb
    rcases List.mem_cons.1 hb with rfl | hb
    · exact left a ha (between a ha cell (by simp))
    · exact between a ha b (List.mem_cons_of_mem _ hb)
  · obtain ⟨own, hown, head, rows⟩ := Coalescer.hasTurn_iff.1 (h.inFlight n hn)
    refine Coalescer.hasTurn_iff.2 ?_
    rcases List.mem_append.1 hown with hown | hown
    · exact ⟨own, List.mem_append_left _ hown, head, rows⟩
    · rcases List.mem_cons.1 hown with rfl | hown
      · obtain ⟨head', rows'⟩ := turn n hn head
        exact ⟨cell', by simp, head', rows'.trans rows⟩
      · exact ⟨own, List.mem_append_right _ (List.mem_cons_of_mem _ hown), head, rows⟩

/-- A caller leaves that has rows or gave up. -/
theorem leave (h : Orderly keys co callers) (ended : ¬InFlight callers n)
    (left : ∀ cell ∈ co.cells, n ∈ cell.queue → cell.rows = none → GaveUp callers n) :
    Orderly keys (co.leave n) callers where
  counted := h.counted
  sound cell' hcell' := by
    obtain ⟨cell, hcell, rfl⟩ := Coalescer.mem_leave hcell'
    have sound := h.sound cell hcell
    refine ⟨sound.founded, fun m hm => sound.members m (List.mem_filter.1 hm).1, fun listed => ?_,
      fun out rows => ?_⟩
    · obtain ⟨listed, other⟩ := Bool.and_eq_true_iff.1 listed
      exact Coalescer.head?_filter_ne (sound.listed listed) (by simpa using other)
    · cases listed : cell.listed with
      | false => exact sound.abandoned listed rows
      | true =>
        obtain rfl : cell.founder = n := by simpa [listed] using out
        exact left cell hcell (List.mem_of_mem_head? (sound.listed listed)) rows
  apart := by
    refine List.Pairwise.filter _ (List.pairwise_map.2 (h.apart.imp fun {a b} apart => ?_))
    refine ⟨apart.founder, fun m ha hb =>
      apart.queue m (List.mem_filter.1 ha).1 (List.mem_filter.1 hb).1, fun ha hb => ?_⟩
    exact apart.key (Bool.and_eq_true_iff.1 ha).1 (Bool.and_eq_true_iff.1 hb).1
  inFlight m hm := by
    obtain ⟨cell, hcell, head, rows⟩ := Coalescer.hasTurn_iff.1 (h.inFlight m hm)
    have head' := Coalescer.head?_filter_ne (m := n) head fun same => ended (same ▸ hm)
    refine Coalescer.hasTurn_iff.2 ⟨_, List.mem_filter.2 ⟨List.mem_map_of_mem hcell, ?_⟩,
      head', rows⟩
    obtain ⟨rest, queue⟩ := List.head?_eq_some_iff.1 head'
    rw [queue]
    rfl

/-- The caller whose turn it is hands its rows to everybody in its cell, and leaves. -/
theorem succeed (h : Orderly keys co callers) (ended : ¬InFlight callers n)
    (turn : co.hasTurn n = true) (rows : List Row) : Orderly keys (co.succeed n rows) callers := by
  obtain ⟨own, hown, head, _⟩ := Coalescer.hasTurn_iff.1 turn
  have hn : n ∈ own.queue := List.mem_of_mem_head? head
  rcases Coalescer.updateFirst_cases (fun cell => cell.queue.contains n)
      (fun cell => { cell with rows := some rows }) co.cells
    with none | ⟨before, cell, after, split, holds, changed⟩
  · have fails := none own hown
    simp [hn] at fails
  have hcell : cell ∈ co.cells := split ▸ by simp
  obtain rfl : cell = own := Coalescer.eq_of_mem_queue h.apart hcell hown (by simpa using holds) hn
  have sound := h.sound cell hcell
  obtain ⟨cells⟩ := co
  obtain rfl : cells = _ := split
  have shared : Orderly keys ⟨before ++ { cell with rows := some rows } :: after⟩ callers :=
    h.replace
      ⟨sound.founded, sound.members, sound.listed, fun _ impossible => (by cases impossible)⟩
      (fun a _ apart => ⟨apart.founder, apart.queue, apart.key⟩)
      (fun b _ apart => ⟨apart.founder, apart.queue, apart.key⟩) fun m hm head' => by
        rw [head] at head'
        exact absurd (Option.some.inj head' ▸ hm) ended
  rw [Coalescer.succeed, changed]
  refine shared.leave ended fun other hother inside none => ?_
  obtain rfl := Coalescer.eq_of_mem_queue shared.apart hother (b := { cell with rows := some rows })
    (by simp) inside hn
  cases none

/-- Somebody starts who has not asked yet. -/
theorem arrive (h : Orderly keys co callers) (key : BoundSql) (idle : c.inFlight = false) :
    Orderly (keys ++ [key]) co (callers ++ [c]) := by
  have older (n : Nat) (hn : n < callers.length) : (callers ++ [c])[n]? = callers[n]? :=
    List.getElem?_append_left hn
  refine ⟨by simp [h.counted], fun cell hcell =>
      (h.sound cell hcell).of_le (fun n k found => ?_) fun n gaveUp => ?_,
    h.apart, fun n hn => h.inFlight n ?_⟩
  · rw [List.getElem?_append_left (List.getElem?_eq_some_iff.1 found).1, found]
  · obtain ⟨old, found, _⟩ := (Option.any_eq_true ..).1 gaveUp
    rwa [GaveUp, older n (List.getElem?_eq_some_iff.1 found).1]
  · obtain ⟨some, found, flies⟩ := (Option.any_eq_true ..).1 hn
    rcases Nat.lt_trichotomy n callers.length with lt | rfl | gt
    · rwa [InFlight, older n lt] at hn
    · rw [List.getElem?_concat_length] at found
      cases found
      rw [idle] at flies
      cases flies
    · rw [List.getElem?_eq_none (by simp; omega)] at found
      cases found

/-- A new caller waits at the end of a cell that is listed under its query. -/
theorem join {before after : List Cell} {cell : Cell} {key : BoundSql}
    (h : Orderly keys ⟨before ++ cell :: after⟩ callers) (asked : keys[n]? = some key)
    (fresh : ∀ other ∈ before ++ cell :: after, ∀ m ∈ other.queue, m < n)
    (joins : Coalescer.joins key cell = true) :
    Orderly keys ⟨before ++ { cell with queue := cell.queue ++ [n] } :: after⟩ callers := by
  have hcell : cell ∈ before ++ cell :: after := by simp
  have sound := h.sound cell hcell
  obtain ⟨listed, agrees⟩ := Bool.and_eq_true_iff.1 joins
  have head := sound.listed listed
  have waits : ∀ m, cell.queue.head? = some m → (cell.queue ++ [n]).head? = some m := by
    intro m hm
    obtain ⟨rest, queue⟩ := List.head?_eq_some_iff.1 hm
    rw [queue]
    rfl
  refine h.replace ⟨sound.founded, fun m hm => ?_, fun _ => waits _ head, sound.abandoned⟩
    (fun a ha apart => ?_) (fun b hb apart => ?_) fun m _ head' => ⟨waits m head', rfl⟩
  · rcases List.mem_append.1 hm with hm | hm
    · exact sound.members m hm
    · obtain rfl := List.mem_singleton.1 hm
      exact ⟨Nat.le_of_lt (fresh cell hcell _ (List.mem_of_mem_head? head)), key, asked, agrees⟩
  · refine ⟨apart.founder, fun m ha' hm => ?_, apart.key⟩
    rcases List.mem_append.1 hm with hm | hm
    · exact apart.queue m ha' hm
    · exact Nat.ne_of_lt (fresh a (List.mem_append_left _ ha) m ha') (List.mem_singleton.1 hm)
  · refine ⟨apart.founder, fun m hm hb' => ?_, apart.key⟩
    rcases List.mem_append.1 hm with hm | hm
    · exact apart.queue m hm hb'
    · exact Nat.ne_of_lt (fresh b (by simp [hb]) m hb') (List.mem_singleton.1 hm)

/-- A new caller founds a cell where none is listed under its query. -/
theorem found {key : BoundSql} (h : Orderly keys co callers) (asked : keys[n]? = some key)
    (fresh : ∀ cell ∈ co.cells, cell.founder < n ∧ ∀ m ∈ cell.queue, m < n)
    (none : ∀ cell ∈ co.cells, Coalescer.joins key cell = false) :
    Orderly keys (co.found n key true) callers := by
  refine ⟨h.counted, List.forall_mem_append.2 ⟨h.sound, List.forall_mem_singleton.2 ?_⟩, ?_,
    fun m hm => ?_⟩
  · refine ⟨asked, fun m hm => ?_, fun _ => rfl, fun impossible => (by cases impossible)⟩
    obtain rfl := List.mem_singleton.1 hm
    exact ⟨Nat.le_refl _, key, asked, key.agrees_self⟩
  · refine List.pairwise_append.2 ⟨h.apart, List.pairwise_singleton .., fun cell hcell _ hnew => ?_⟩
    obtain rfl := List.mem_singleton.1 hnew
    obtain ⟨founder, queue⟩ := fresh cell hcell
    refine ⟨founder, fun m hm hm' => Nat.ne_of_lt (queue m hm) (List.mem_singleton.1 hm'),
      fun listed _ => ?_⟩
    have fails := none cell hcell
    rwa [Coalescer.joins, listed, Bool.true_and] at fails
  · obtain ⟨cell, hcell, turn⟩ := Coalescer.hasTurn_iff.1 (h.inFlight m hm)
    exact Coalescer.hasTurn_iff.2 ⟨cell, List.mem_append_left _ hcell, turn⟩

theorem enter (h : Orderly keys co callers) (key : BoundSql) (idle : c.inFlight = false) :
    Orderly (keys ++ [key]) (co.enter callers.length key) (callers ++ [c]) := by
  have grown := h.arrive key idle
  have asked : (keys ++ [key])[callers.length]? = some key := by
    rw [← h.counted, List.getElem?_concat_length]
  rw [Coalescer.enter]
  split
  · next some =>
    obtain ⟨cell, hcell, joins⟩ := List.any_eq_true.1 some
    rcases Coalescer.updateFirst_cases (Coalescer.joins key)
      (fun cell => { cell with queue := cell.queue ++ [callers.length] }) co.cells
      with none | ⟨before, cell, after, split, joins, changed⟩
    · rw [none cell hcell] at joins
      cases joins
    · rw [changed]
      have fresh : ∀ other ∈ co.cells, ∀ m ∈ other.queue, m < callers.length :=
        fun _ hother _ => h.lt_of_mem hother
      obtain ⟨cells⟩ := co
      obtain rfl : cells = _ := split
      exact grown.join asked fresh joins
  · next none =>
    refine grown.found asked (fun cell hcell => ⟨?_, fun m => h.lt_of_mem hcell⟩)
      fun cell hcell => ?_
    · rw [← h.counted]
      exact (List.getElem?_eq_some_iff.1 (h.sound cell hcell).founded).1
    · exact Bool.eq_false_iff.2 fun joins => none (List.any_eq_true.2 ⟨cell, hcell, joins⟩)

/-- Somebody who has not ended may change, if only to be in flight in its turn. -/
theorem set (h : Orderly keys co callers) (found : callers[n]? = some c) (isOpen : c.isOpen = true)
    {c' : ScheduledCaller} (turn : c'.inFlight = true → co.hasTurn n = true) :
    Orderly keys co (callers.set n c') := by
  have lt := (List.getElem?_eq_some_iff.1 found).1
  refine h.of_callers (List.length_set ..) (fun m gaveUp => ?_) fun m hm => ?_
  · have other : n ≠ m := by
      rintro rfl
      rw [gaveUp_iff found, ScheduledCaller.gaveUp_of_isOpen isOpen] at gaveUp
      cases gaveUp
    rwa [GaveUp, List.getElem?_set_ne other]
  · by_cases same : n = m
    · subst same
      exact turn ((inFlight_iff (List.getElem?_set_self lt)).1 hm)
    · rw [InFlight, List.getElem?_set_ne same] at hm
      exact h.inFlight m hm

theorem look (h : Orderly keys co callers) (found : callers[n]? = some c) :
    Orderly keys (Schedule.look co n c).1 (callers.set n (Schedule.look co n c).2) := by
  have self (c' : ScheduledCaller) : (callers.set n c')[n]? = some c' :=
    List.getElem?_set_self (List.getElem?_eq_some_iff.1 found).1
  have same : callers.set n c = callers := by
    rw [← (List.getElem?_eq_some_iff.1 found).2, List.set_getElem_self]
  have ends (c' : ScheduledCaller) (isOpen : c.isOpen = true) (ended : c'.isOpen = false) :
      Orderly keys co (callers.set n c') ∧ ¬InFlight (callers.set n c') n := by
    have out : c'.inFlight = false := by rw [ScheduledCaller.inFlight, ended, Bool.and_false]
    rw [inFlight_iff (self c'), out]
    exact ⟨h.set found isOpen fun flies => (by rw [out] at flies; cases flies), Bool.false_ne_true⟩
  rw [Schedule.look]
  split
  · rwa [same]
  · next isOpen =>
    replace isOpen : c.isOpen = true := by simpa using isOpen
    split
    · next rows shared =>
      obtain ⟨orderly, out⟩ := ends { c with state := .finished (.ok rows) } isOpen rfl
      refine orderly.leave out fun cell hcell inside none => ?_
      obtain ⟨cell', hcell', rows'⟩ := Option.bind_eq_some_iff.1 shared
      have inside' : n ∈ cell'.queue := by simpa using List.find?_some hcell'
      rw [Coalescer.eq_of_mem_queue h.apart hcell (List.mem_of_find?_eq_some hcell') inside inside',
        rows'] at none
      cases none
    · split
      · next turn =>
        split
        · exact h.set found isOpen fun _ => turn
        · next rows _ =>
          obtain ⟨orderly, out⟩ :=
            ends { c with invoked := true, state := .finished (.ok rows) } isOpen rfl
          exact orderly.succeed out turn rows
        · next e _ =>
          obtain ⟨orderly, out⟩ :=
            ends { c with invoked := true, state := .finished (.error e) } isOpen rfl
          exact orderly.leave out fun _ _ _ _ => (gaveUp_iff (self _)).2 rfl
      · rwa [same]

theorem updateCaller (h : Orderly keys co callers) {name : String}
    {f : ScheduledCaller → ScheduledCaller}
    (stays : ∀ c, (f c).inFlight = true → c.inFlight = true) :
    Orderly keys co (updateCaller name f callers) := by
  have at? (n : Nat) : (Schedule.updateCaller name f callers)[n]? =
      callers[n]?.map fun c => if c.name = name ∧ c.isOpen then f c else c := List.getElem?_map ..
  refine h.of_callers (List.length_map ..) (fun n gaveUp => ?_) fun n hn => ?_
  · obtain ⟨c, found, gaveUp⟩ := (Option.any_eq_true ..).1 gaveUp
    rw [GaveUp, at? n, found, Option.map_some, Option.any_some, if_neg]
    · exact gaveUp
    · rintro ⟨_, isOpen⟩
      rw [ScheduledCaller.gaveUp_of_isOpen isOpen] at gaveUp
      cases gaveUp
  · obtain ⟨c', found', flies⟩ := (Option.any_eq_true ..).1 hn
    rw [at? n] at found'
    obtain ⟨c, found, rfl⟩ := Option.map_eq_some_iff.1 found'
    refine h.inFlight n ((inFlight_iff found).2 ?_)
    split at flies
    · exact stays c flies
    · exact flies

theorem drop (h : Orderly keys s.coalescer s.callers) (name : String) :
    Orderly keys (s.apply (.drop name)).coalescer (s.apply (.drop name)).callers := by
  rw [apply]
  split
  · next n found =>
    obtain ⟨lt, named, _⟩ := List.findIdx?_eq_some_iff_getElem.1 found
    have dropped :
        (Schedule.updateCaller name (fun c => { c with state := .dropped }) s.callers)[n]? =
        some { s.callers[n] with state := .dropped } := by
      rw [Schedule.updateCaller, List.getElem?_map, List.getElem?_eq_getElem lt, Option.map_some,
        if_pos (by simpa using named)]
    have out (c : ScheduledCaller) :
        ¬({ c with state := .dropped } : ScheduledCaller).inFlight = true := by
      simp [ScheduledCaller.inFlight, ScheduledCaller.isOpen]
    refine (h.updateCaller fun c flies => absurd flies (out c)).leave ?_ fun _ _ _ _ =>
      (gaveUp_iff dropped).2 rfl
    rw [inFlight_iff dropped]
    exact out _
  · exact h

end Orderly

theorem Reaches.orderly (h : Reaches keys s) : Orderly keys s.coalescer s.callers := by
  induction h with
  | start => exact ⟨rfl, fun _ h => (by cases h), .nil, fun _ h => (by cases h)⟩
  | starts _ name key ih => exact ih.enter key rfl
  | finishes _ name outcome ih => exact ih.updateCaller fun _ flies => flies
  | drops _ name ih => exact ih.drop name
  | looks _ found ih => exact ih.look found

/-! ## Runs -/

end Schedule

/-- The queries of the callers that a step starts. -/
def ScheduleStep.asked : ScheduleStep → List BoundSql
  | .start _ key => [key]
  | _ => []

namespace Schedule

variable {keys : List BoundSql} {s : Schedule} {co : Coalescer} {callers : List ScheduledCaller}
  {n : Caller}

theorem Reaches.lookAll {before : List ScheduledCaller} (h : Reaches keys ⟨co, before ++ callers⟩) :
    Reaches keys ⟨(lookAll co before.length callers).1,
      before ++ (lookAll co before.length callers).2⟩ := by
  induction callers generalizing co before with
  | nil => exact h
  | cons c rest ih =>
    have looked := h.looks (n := before.length) (c := c) (by simp)
    rw [List.set_append_right _ _ (Nat.le_refl _), Nat.sub_self, List.set_cons_zero,
      List.append_cons before (look co before.length c).2] at looked
    simpa [Schedule.lookAll] using ih looked

theorem Reaches.step (h : Reaches keys s) {what : ScheduleStep} (kept : what ≠ .clear) :
    Reaches (keys ++ what.asked) (s.step what) := by
  have applied : Reaches (keys ++ what.asked) (s.apply what) := by
    cases what with
    | start name key => exact h.starts name key
    | finish name outcome => exact (List.append_nil keys).symm ▸ h.finishes name outcome
    | drop name => exact (List.append_nil keys).symm ▸ h.drops name
    | clear => exact absurd rfl kept
  exact Reaches.lookAll (show Reaches _ ⟨_, [] ++ _⟩ from applied)

/-- Every run of steps that does not clear. -/
theorem Reaches.run {steps : List ScheduleStep} (kept : ∀ what ∈ steps, what ≠ .clear) :
    Reaches (steps.flatMap ScheduleStep.asked) (steps.foldl Schedule.step .start) := by
  induction steps using List.reverseRecOn with
  | nil => exact .start
  | append_singleton steps what ih =>
    rw [List.flatMap_append, List.foldl_append, List.flatMap_singleton]
    exact (ih fun w hw => kept w (List.mem_append_left _ hw)).step (kept what (by simp))

/-- Whoever is in flight founded its cell, or stands in for the founder, which gave up. -/
theorem Orderly.founds_or_replaces (h : Orderly keys s.coalescer s.callers)
    (flies : InFlight s.callers n) :
    s.coalescer.founderOf n = n ∨ Replaces keys s n (s.coalescer.founderOf n) := by
  obtain ⟨cell, hcell, head, rows⟩ := Coalescer.hasTurn_iff.1 (h.inFlight n flies)
  have hn : n ∈ cell.queue := List.mem_of_mem_head? head
  have sound := h.sound cell hcell
  rw [Coalescer.founderOf_eq h.apart hcell hn]
  obtain ⟨later, key, asked, agrees⟩ := sound.members n hn
  cases listed : cell.listed with
  | true =>
    rw [sound.listed listed] at head
    exact .inl (Option.some.inj head)
  | false =>
    exact (Nat.eq_or_lt_of_le later).imp_right fun later =>
      ⟨later, sound.abandoned listed rows, _, _, sound.founded, asked, agrees⟩

/-- Callers in flight have founders of their own, and if both founded their cells, their
queries are not identical. -/
theorem Orderly.founders_differ (h : Orderly keys s.coalescer s.callers) {m : Caller}
    (hn : InFlight s.callers n) (hm : InFlight s.callers m) (other : n ≠ m) :
    s.coalescer.founderOf n ≠ s.coalescer.founderOf m ∧
      (Identical keys n m → s.coalescer.founderOf n ≠ n ∨ s.coalescer.founderOf m ≠ m) := by
  obtain ⟨a, ha, headA, rowsA⟩ := Coalescer.hasTurn_iff.1 (h.inFlight n hn)
  obtain ⟨b, hb, headB, rowsB⟩ := Coalescer.hasTurn_iff.1 (h.inFlight m hm)
  have apart : s.coalescer.cells.Pairwise fun a b =>
      a.founder ≠ b.founder ∧ (a.listed = true → b.listed = true → a.key.agrees b.key = false) :=
    h.apart.imp fun apart => ⟨Nat.ne_of_lt apart.founder, apart.key⟩
  have : Std.Symm fun a b : Cell =>
      a.founder ≠ b.founder ∧ (a.listed = true → b.listed = true → a.key.agrees b.key = false) :=
    ⟨fun a b apart => ⟨apart.1.symm, fun hb ha => BoundSql.agrees_comm a.key b.key ▸ apart.2 ha hb⟩⟩
  obtain ⟨founders, keysDiffer⟩ := apart.forall ha hb fun same =>
    other (Option.some.inj (headA.symm.trans (same ▸ headB)))
  rw [Coalescer.founderOf_eq h.apart ha (List.mem_of_mem_head? headA),
    Coalescer.founderOf_eq h.apart hb (List.mem_of_mem_head? headB)]
  refine ⟨founders, fun ⟨key, key', asked, asked', agrees⟩ => ?_⟩
  by_contra both
  obtain ⟨rfl, rfl⟩ : a.founder = n ∧ b.founder = m := by simpa [not_or] using both
  -- A founder in flight has not given up, so its cell is still listed.
  have listed {cell : Cell} (hcell : cell ∈ s.coalescer.cells) (rows : cell.rows = none)
      (flies : InFlight s.callers cell.founder) : cell.listed = true := by
    by_contra out
    obtain ⟨c, found, gaveUp⟩ :=
      (Option.any_eq_true ..).1 ((h.sound cell hcell).abandoned (by simpa using out) rows)
    have isOpen := (Bool.and_eq_true_iff.1 ((inFlight_iff found).1 flies)).2
    rw [ScheduledCaller.gaveUp_of_isOpen isOpen] at gaveUp
    cases gaveUp
  rw [(h.sound a ha).founded] at asked
  rw [(h.sound b hb).founded] at asked'
  cases asked
  cases asked'
  rw [keysDiffer (listed ha rowsA hn) (listed hb rowsB hm)] at agrees
  cases agrees

/-- Of any two identical queries in flight one runs in place of a query that was given up, and no
two in place of the same one: all but one of the identical queries in flight replace others. -/
theorem Reaches.all_but_one_replace (h : Reaches keys s) :
    (∀ n, InFlight s.callers n → s.coalescer.founderOf n = n ∨
        Replaces keys s n (s.coalescer.founderOf n)) ∧
      ∀ n m, InFlight s.callers n → InFlight s.callers m → n ≠ m →
        s.coalescer.founderOf n ≠ s.coalescer.founderOf m ∧
          (Identical keys n m → s.coalescer.founderOf n ≠ n ∨ s.coalescer.founderOf m ≠ m) :=
  ⟨fun _ => h.orderly.founds_or_replaces, fun _ _ => h.orderly.founders_differ⟩

/-- Three callers ask the same query; the first one is dropped before the third one starts. -/
def overtaken : List ScheduleStep :=
  [.start "first" ⟨"SELECT 1", ∅⟩, .start "second" ⟨"SELECT 1", ∅⟩, .drop "first",
    .start "third" ⟨"SELECT 1", ∅⟩]

/-- The second caller and the third one are in flight at once. -/
theorem all_but_one_replace_overtaken :
    let s := overtaken.foldl Schedule.step .start
    (InFlight s.callers 1 ∧ InFlight s.callers 2) ∧
    Replaces (overtaken.flatMap ScheduleStep.asked) s 1 0 ∧ s.coalescer.founderOf 2 = 2 := by
  intro s
  have flies : InFlight s.callers 1 ∧ InFlight s.callers 2 := ⟨by decide +kernel, by decide +kernel⟩
  have founders : s.coalescer.founderOf 1 = 0 ∧ s.coalescer.founderOf 2 = 2 := by decide +kernel
  have reached : Reaches (overtaken.flatMap ScheduleStep.asked) s :=
    Reaches.run (by simp [overtaken])
  refine ⟨flies, ?_, founders.2⟩
  rcases reached.all_but_one_replace.1 1 flies.1 with founds | replaces
  · rw [founders.1] at founds
    cases founds
  · rwa [founders.1] at replaces

end Schedule

end DocStore

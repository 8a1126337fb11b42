import DocStore.Proofs.Aggregates
import DocStore.Proofs.Memory
import DocStore.Proofs.StoredCells
import Mathlib

/-!
# Counting by day

The simplest lawful reduction: an index that counts, for every day, how often the
documents of a collection name it. A document may name no day or several, and
one day several times.
-/

set_option autoImplicit false

namespace DocStore

namespace Counting

def index : IndexType := ⟨"ByDay", [⟨"Day", .integer, false⟩, ⟨"Units", .integer, false⟩], some⟩

/-- A row that counts units of a day. -/
def counted (day : Int64) (units : Int) : Json :=
  .obj [("Day", .ofInt64 day), ("Units", .int units)]

def day (row : Json) : Int64 := ((row.field? "Day").bind Json.int64?).getD 0

def units (row : Json) : Int :=
  match row.field? "Units" with
  | some (.int i) => i
  | _ => 0

def reduce (rows : List Json) : Option Json :=
  rows.head?.map fun row => counted (day row) (rows.map units).sum

def delete (current : Json) (removed : List Json) : Option Json :=
  let left := units current - (removed.map units).sum
  if left ≤ 0 then none else some (counted (day current) left)

/-- Counts the days that a content names. -/
def descriptor (entity : EntityType) (days : Json → List Int64) : Descriptor :=
  ⟨entity, index, fun content => (days content).map fun day => counted day 1, some "Day",
    some reduce, some delete⟩

/-- The day of some row of a group, and how many rows there are. -/
noncomputable def total (A : Multiset Json) : Json :=
  counted (day (Classical.epsilon fun row => row ∈ A)) A.card

noncomputable def reduction (names : TableNames) : Reduction := ⟨names, index, "Day", total⟩

theorem day_counted (d : Int64) (n : Int) : day (counted d n) = d := by
  change (Json.ofInt64 d).int64?.getD 0 = d
  rw [Json.int64?_ofInt64]
  rfl

theorem units_counted (d : Int64) (n : Int) : units (counted d n) = n := rfl

/-- A count that leaves the range of its column cannot be stored. -/
theorem cells_counted (d : Int64) (n : Int) : index.cells (counted d n) =
    (IndexType.cellOfJson ⟨"Units", .integer, false⟩ (some (.int n))).map fun v =>
      [("Day", .int d), ("Units", v)] := by
  have cell : IndexType.cellOfJson ⟨"Day", .integer, false⟩ (some (.ofInt64 d)) = .ok (.int d) := by
    change (Json.ofInt64 d).int64?.elim _ _ = _
    rw [Json.int64?_ofInt64]
    rfl
  have cells : index.cells (counted d n) =
      [(⟨"Day", .integer, false⟩ : Column), ⟨"Units", .integer, false⟩].mapM fun c =>
        (IndexType.cellOfJson c ((counted d n).field? c.name)).map fun v => (c.name, v) := rfl
  have first : (counted d n).field? "Day" = some (.ofInt64 d) := rfl
  have second : (counted d n).field? "Units" = some (.int n) := rfl
  rw [cells, List.mapM_cons, List.mapM_cons, List.mapM_nil, first, second, cell]
  cases IndexType.cellOfJson ⟨"Units", .integer, false⟩ (some (.int n)) <;> rfl

theorem exists_of_cells_counted {d : Int64} {n : Int} {cells : Cells}
    (h : index.cells (counted d n) = .ok cells) :
    ∃ units : Int64, units.toInt = n ∧ cells = [("Day", .int d), ("Units", .int units)] := by
  rw [cells_counted, map_eq_ok_iff] at h
  obtain ⟨v, hv, rfl⟩ := h
  change (Json.int n).int64?.elim _ _ = _ at hv
  rw [Json.int64?] at hv
  split at hv
  · next range =>
    cases hv
    exact ⟨Int64.ofInt n, Int64.toInt_ofInt_of_le range.1 (Int.lt_of_le_of_lt range.2 (by decide)),
      rfl⟩
  · cases hv

theorem decode_counted (id day units : Int64) :
    index.decode ⟨[Command.idCell id, ("Day", .int day), ("Units", .int units)]⟩ =
    .ok (counted day units.toInt) := by
  have cells : Row.get? ⟨[Command.idCell id, ("Day", .int day), ("Units", .int units)]⟩ "Day" =
        some (.int day) ∧
      Row.get? ⟨[Command.idCell id, ("Day", .int day), ("Units", .int units)]⟩ "Units" =
        some (.int units) := by
    have apart : Row.sameName Column.idName "Day" = false ∧
        Row.sameName Column.idName "Units" = false ∧ Row.sameName "Day" "Units" = false := by decide
    have same : Row.sameName "Day" "Day" = true ∧ Row.sameName "Units" "Units" = true := by decide
    simp only [Row.get?, Command.idCell, List.find?_cons, apart, same, Option.map_some, and_self]
  have assembled : index.assemble ⟨[Command.idCell id, ("Day", .int day), ("Units", .int units)]⟩ =
      .ofFields [("Day", .ofInt64 day), ("Units", .ofInt64 units)] := by
    simp only [IndexType.assemble, index, List.map_cons, List.map_nil, cells]
    rfl
  have apart : ¬ "Units" < "Day" := by decide
  have differ : "Units" ≠ "Day" := by decide
  have fields : Json.ofFields [("Day", .ofInt64 day), ("Units", .ofInt64 units)] =
      counted day units.toInt := by
    simp only [Json.ofFields, List.foldl_cons, List.foldl_nil, Json.insertField, if_neg apart,
      if_neg differ]
    rfl
  rw [IndexType.decode, assembled, fields]
  rfl

theorem reduce_counted (day : Int64) (n : Int) (rows : List Json) :
    reduce (counted day n :: rows) = some (counted day (n + (rows.map units).sum)) := by
  rw [reduce, List.head?_cons, Option.map_some, day_counted, List.map_cons, List.sum_cons,
    units_counted]

theorem delete_counted (day : Int64) (n : Int) (rows : List Json) :
    delete (counted day n) rows = if n - (rows.map units).sum ≤ 0 then none
      else some (counted day (n - (rows.map units).sum)) := by
  rw [delete, day_counted, units_counted]

/-- Each row counts one unit. -/
theorem sum_units {day : Int64} {rows : List Json} (h : ∀ row ∈ rows, row = counted day 1) :
    (rows.map units).sum = rows.length := by
  rw [List.eq_replicate_of_mem h, List.map_replicate, units_counted, List.sum_replicate,
    List.length_replicate]
  simp

theorem eq_of_mem_keyed {entity : EntityType} {days : Json → List Int64} {content row : Json}
    {key : Value} (h : (row, key) ∈ (descriptor entity days).keyed content) :
    ∃ day, key = .int day ∧ row = counted day 1 := by
  have hkey := Descriptor.groupKey_of_mem_keyed h
  unfold Descriptor.keyed at h
  split at h
  · next rows hrows =>
    obtain ⟨row', mem, h⟩ := List.mem_filterMap.1 h
    obtain ⟨key', _, same⟩ := Option.map_eq_some_iff.1 h
    cases same
    obtain ⟨entity', _, rfl⟩ := map_eq_ok_iff.1 hrows
    obtain ⟨day, _, rfl⟩ := List.mem_map.1 mem
    obtain ⟨cells, hcells, value⟩ := (Descriptor.groupKey_eq_ok_iff rfl).1 hkey
    obtain ⟨units, _, rfl⟩ := exists_of_cells_counted hcells
    cases value
    exact ⟨day, rfl, rfl⟩
  · cases h

section Lawful

variable {names : TableNames} {catalog : Catalog}
  (counts : ∀ d, (reduction names).Feeds catalog d → ∃ entity days, d = descriptor entity days)
include counts

/-- Rows of one group count the same day once each. -/
theorem exists_day {key : Value} {A : Multiset Json}
    (shared : (reduction names).Shared catalog key A) :
    ∃ day, key = .int day ∧ (∀ row ∈ A, row = counted day 1) ∧ total A = counted day A.card := by
  have each : ∀ row ∈ A, ∃ day, key = .int day ∧ row = counted day 1 := by
    intro row hrow
    obtain ⟨d, content, feeds, mem⟩ := shared.2 row hrow
    obtain ⟨entity, days, rfl⟩ := counts d feeds
    exact eq_of_mem_keyed mem
  obtain ⟨row, hrow⟩ := Multiset.exists_mem_of_ne_zero shared.1
  obtain ⟨day, rfl, _⟩ := each row hrow
  have same : ∀ row ∈ A, row = counted day 1 := by
    intro row h
    obtain ⟨day', same, rfl⟩ := each row h
    cases same
    rfl
  refine ⟨day, rfl, same, ?_⟩
  rw [total, same _ (Classical.epsilon_spec (p := fun row => row ∈ A) ⟨row, hrow⟩), day_counted]

/-- Counting is lawful, wherever every descriptor of the index counts. -/
theorem lawful : (reduction names).Lawful catalog where
  index d feeds := by
    obtain ⟨entity, days, rfl⟩ := counts d feeds
    rfl
  column d feeds := by
    obtain ⟨entity, days, rfl⟩ := counts d feeds
    rfl
  keeps d feeds key A shared k hk := by
    obtain ⟨entity, days, rfl⟩ := counts d feeds
    obtain ⟨day, rfl, _, value⟩ := exists_day counts shared
    obtain ⟨cells, hcells, found⟩ := (Descriptor.groupKey_eq_ok_iff rfl).1 hk
    change index.cells (total A) = .ok cells at hcells
    rw [value] at hcells
    obtain ⟨units, _, rfl⟩ := exists_of_cells_counted hcells
    cases found
    rfl
  reduces d feeds key rows shared := by
    obtain ⟨entity, days, rfl⟩ := counts d feeds
    obtain ⟨day, rfl, each, value⟩ := exists_day counts shared
    change Except.ok (reduce rows) = Except.ok (some (total rows))
    rw [value]
    cases rows with
    | nil => exact absurd rfl shared.1
    | cons row rows =>
      obtain rfl := each row List.mem_cons_self
      rw [reduce_counted, sum_units fun row h => each row (List.mem_cons_of_mem _ h),
        Multiset.coe_card, List.length_cons, Int.natCast_succ, add_comm]
  combines d feeds key A B hA hB := by
    obtain ⟨entity, days, rfl⟩ := counts d feeds
    obtain ⟨day, rfl, _, left⟩ := exists_day counts hA
    obtain ⟨_, same, _, right⟩ := exists_day counts hB
    cases same
    obtain ⟨_, same, _, both⟩ := exists_day counts (hA.append hB)
    cases same
    change Except.ok (reduce [total A, total B]) = Except.ok (some (total (A + B)))
    rw [left, right, both, reduce_counted, Multiset.card_add, Int.natCast_add]
    simp [units_counted]
  takesOut d feeds key A rows hA hrows := by
    obtain ⟨entity, days, rfl⟩ := counts d feeds
    obtain ⟨day, rfl, _, left⟩ := exists_day counts hA
    obtain ⟨_, same, each, _⟩ := exists_day counts hrows
    cases same
    obtain ⟨_, same, _, both⟩ := exists_day counts (hA.append hrows)
    cases same
    change Except.ok (delete (total (A + rows)) rows) = Except.ok (some (total A))
    have card := Multiset.card_pos.2 hA.1
    rw [left, both, delete_counted, sum_units each, Multiset.card_add, Int.natCast_add,
      Multiset.coe_card, add_sub_cancel_right, if_neg (by omega)]
  empties d feeds key rows shared := by
    obtain ⟨entity, days, rfl⟩ := counts d feeds
    obtain ⟨day, rfl, each, value⟩ := exists_day counts shared
    change Except.ok (delete (total rows) rows) = Except.ok none
    rw [value, delete_counted, sum_units each, Multiset.coe_card, sub_self, if_pos le_rfl]

theorem restores : (reduction names).Restores catalog where
  decodes key A shared cells hcells id := by
    obtain ⟨day, _, _, value⟩ := exists_day counts shared
    change index.cells (total A) = .ok cells at hcells
    change index.decode _ = .ok (total A)
    rw [value] at hcells ⊢
    obtain ⟨units, same, rfl⟩ := exists_of_cells_counted hcells
    rw [← same]
    exact decode_counted id day units
  apart c h := by
    simp only [reduction, index, List.mem_cons, List.not_mem_nil, or_false] at h
    rcases h with rfl | rfl <;> decide

end Lawful

/-! ## Articles by day -/

def main : TableNames := ⟨"", ""⟩

def article (day : Int64) : Json := .obj [("Day", .ofInt64 day)]

/-- Counts the articles of a day. -/
def articles : Descriptor :=
  descriptor ⟨"Article", some, fun _ => 0, fun _ json => json⟩ fun content =>
    ((content.field? "Day").bind Json.int64?).toList

def catalog : Catalog where
  collections names := names = main
  descriptors names entity := if names = main ∧ entity = "Article" then [articles] else []

def settings : Settings := ⟨.default, .sqlite, .json⟩

/-- A memory of articles. -/
def store : Storage Memory := Memory.storage settings catalog

/-- Articles by their ids, with their days. -/
def live (docs : List (Int64 × Int64)) : List LiveDocument :=
  docs.map fun d => ⟨d.1, "Article", article d.2⟩

def contents (docs : List (Int64 × Int64)) (nodup : (docs.map Prod.fst).Nodup) : Contents where
  documents names := if names = main then (live docs : Multiset LiveDocument) else 0
  distinct names := by
    split
    · rw [Multiset.map_coe, live, List.map_map]
      exact Multiset.coe_nodup.2 nodup
    · exact Multiset.nodup_zero

/-- Two articles of one day. -/
def published : List Edit := [.create main 1 "Article" (article 1) "first",
  .create main 2 "Article" (article 1) "second"]

/-- One article moves to another day, one goes and one comes. -/
def revised : List Edit :=
  [.update main 1 "Article" (article 2) "moved" ⟨"first", article 1, 1⟩,
    .delete main 2 "Article" ⟨"second", article 1, 1⟩, .create main 3 "Article" (article 1) "third"]

theorem eq_articles {names : TableNames} {entity : String} {d : Descriptor}
    (h : d ∈ catalog.descriptors names entity) : d = articles := by
  simp only [catalog] at h
  split at h
  · exact List.mem_singleton.1 h
  · cases h

theorem catalog_counts (d : Descriptor) (feeds : (reduction main).Feeds catalog d) :
    ∃ entity days, d = descriptor entity days := by
  obtain ⟨⟨entity, mem⟩, _⟩ := feeds
  exact ⟨_, _, eq_articles mem⟩

theorem eq_of_describes {kind : IndexKind} {names : TableNames} {index : String}
    (h : catalog.Describes kind names index) : kind = .reduce ∧ index = "ByDay" := by
  obtain ⟨entity, d, mem, rfl, rfl⟩ := h
  obtain rfl := eq_articles mem
  exact ⟨rfl, rfl⟩

theorem catalog_distinct : catalog.Distinct := by
  have tables : ∀ t, catalog.Has t →
      t ∈ [Table.documents main, .rows .reduce main "ByDay", .links main "ByDay"] := by
    intro t has
    cases t with
    | documents names =>
      obtain rfl : names = main := has
      exact List.mem_cons_self
    | rows kind names index =>
      obtain ⟨rfl, described⟩ : names = main ∧ _ := has
      obtain ⟨rfl, rfl⟩ := eq_of_describes described
      simp
    | links names index =>
      obtain ⟨rfl, described⟩ : names = main ∧ _ := has
      obtain ⟨_, rfl⟩ := eq_of_describes described
      simp
  have apart : ∀ t ∈ [Table.documents main, .rows .reduce main "ByDay", .links main "ByDay"],
      ∀ t' ∈ [Table.documents main, .rows .reduce main "ByDay", .links main "ByDay"],
        t.name = t'.name → t = t' := by
    decide
  exact fun t t' h h' => apart t (tables t h) t' (tables t' h')

/-- Edits take the articles that they name to those that they leave. -/
theorem turns {edits : List Edit} {before after : List (Int64 × Int64)}
    (hb : (before.map Prod.fst).Nodup) (ha : (after.map Prod.fst).Nodup)
    (used : ∀ e ∈ edits, e.names = main) (once : (edits.map fun e => (e.names, e.id)).Nodup)
    (removed : (edits.filterMap fun e => e.document .removed) = live before)
    (added : (edits.filterMap fun e => e.document .added) = live after) :
    Edit.Turns catalog edits (contents before hb) (contents after ha) := by
  refine ⟨used, once, fun _ => 0, fun names => ?_⟩
  rw [zero_add, zero_add]
  unfold Edit.moved contents
  dsimp only
  split
  · next here =>
    subst here
    rw [List.filter_eq_self.2 (by simpa using used), removed, added]
    exact ⟨rfl, rfl⟩
  · next other =>
    rw [List.filter_eq_nil_iff.2 fun e he => by simpa [used e he] using fun same => other same.symm]
    exact ⟨rfl, rfl⟩

theorem turns_published :
    Edit.Turns catalog published (contents [] (by decide))
      (contents [(1, 1), (2, 1)] (by decide)) :=
  turns _ _ (by decide) (by decide) rfl rfl

theorem turns_revised :
    Edit.Turns catalog revised (contents [(1, 1), (2, 1)] (by decide))
      (contents [(1, 2), (3, 1)] (by decide)) :=
  turns _ _ (by decide) (by decide) rfl rfl

/-- The memory once the articles are published, and after their revision. -/
def afterPublished : Memory := (Memory.flush settings catalog ∅ published).toOption.getD ∅

def afterRevised : Memory := (Memory.flush settings catalog afterPublished revised).toOption.getD ∅

theorem flush_published : Memory.flush settings catalog ∅ published = .ok afterPublished := by rfl

theorem flush_revised :
    Memory.flush settings catalog afterPublished revised = .ok afterRevised := by rfl

theorem documents_afterPublished : afterPublished.tables "Document" =
    [⟨[Command.idCell 1, (Column.typeName, .text "Article"), (Column.contentName, .text "first"),
        (Column.versionName, .int 1)]⟩,
      ⟨[Command.idCell 2, (Column.typeName, .text "Article"), (Column.contentName, .text "second"),
        (Column.versionName, .int 1)]⟩] := by rfl

theorem rows_afterPublished :
    afterPublished.tables "ByDay" = [⟨[Command.idCell 1, ("Day", .int 1), ("Units", .int 2)]⟩] := by
  rfl

theorem links_afterPublished :
    afterPublished.tables "ByDay_Document" = [Row.link "ByDay" 1 1, Row.link "ByDay" 1 2] := by rfl

theorem rows_afterRevised : afterRevised.tables "ByDay" =
    [⟨[Command.idCell 1, ("Day", .int 1), ("Units", .int 1)]⟩,
      ⟨[Command.idCell 2, ("Day", .int 2), ("Units", .int 1)]⟩] := by
  rfl

end Counting

end DocStore

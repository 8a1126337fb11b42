import DocStore.Proofs.Running
import DocStore.Maintenance
import Mathlib.Data.List.Induction

/-!
# Groups of mapped rows

The keys of a buffer are the groups it touches, and the links of a group are
the documents that joined it without leaving it, and the other way round. The
decision on a group is `Buffer.outcome`; there is one lemma for each number of
rows that are stored for a group.
-/

set_option autoImplicit false

namespace DocStore

namespace Value

theorem agrees_self (v : Value) : v.agrees v = true := by cases v <;> simp [agrees]

theorem agrees_comm (v w : Value) : v.agrees w = w.agrees v := by
  cases v <;> cases w <;> simp [agrees, eq_comm]

theorem distinct_append_singleton (vs : List Value) (v : Value) :
    distinct (vs ++ [v]) = if (distinct vs).any fun k => k.agrees v then distinct vs
      else distinct vs ++ [v] := by
  rw [distinct, List.foldl_append]
  rfl

theorem mem_of_mem_distinct {vs : List Value} {k : Value} (h : k ∈ distinct vs) : k ∈ vs := by
  induction vs using List.reverseRecOn with
  | nil => exact h
  | append_singleton vs v ih =>
    rw [distinct_append_singleton] at h
    split at h
    · exact List.mem_append_left _ (ih h)
    · rcases List.mem_append.1 h with h | h
      · exact List.mem_append_left _ (ih h)
      · exact List.mem_append_right _ h

/-- Every value agrees with one that is kept. -/
theorem exists_mem_distinct {vs : List Value} {v : Value} (h : v ∈ vs) :
    ∃ k ∈ distinct vs, k.agrees v = true := by
  induction vs using List.reverseRecOn with
  | nil => cases h
  | append_singleton vs w ih =>
    rw [distinct_append_singleton]
    rcases List.mem_append.1 h with h | h
    · obtain ⟨k, hk, agrees⟩ := ih h
      refine ⟨k, ?_, agrees⟩
      split
      · exact hk
      · exact List.mem_append_left _ hk
    · obtain rfl := List.mem_singleton.1 h
      split
      · next any => simpa using any
      · exact ⟨v, by simp, agrees_self v⟩

/-- No two values that are kept agree. -/
theorem pairwise_distinct (vs : List Value) :
    (distinct vs).Pairwise fun k k' => k.agrees k' = false := by
  induction vs using List.reverseRecOn with
  | nil => exact List.Pairwise.nil
  | append_singleton vs v ih =>
    rw [distinct_append_singleton]
    split
    · exact ih
    · next none =>
      refine List.pairwise_append.2 ⟨ih, List.pairwise_singleton _ _, fun k hk v' hv' => ?_⟩
      obtain rfl := List.mem_singleton.1 hv'
      simpa using List.any_eq_false.1 (by simpa using none) k hk

end Value

/-! ## Identities in order -/

theorem mem_insertId_iff {id i : Int64} {ids : List Int64} :
    i ∈ insertId id ids ↔ i = id ∨ i ∈ ids := by
  induction ids with
  | nil => simp [insertId]
  | cons j ids ih =>
    unfold insertId
    split
    · exact List.mem_cons
    · split
      · next same =>
        subst same
        rw [List.mem_cons, ← or_assoc, or_self]
      · rw [List.mem_cons, ih, List.mem_cons, or_left_comm]

theorem mem_sortedIds_iff {id : Int64} {ids : List Int64} : id ∈ sortedIds ids ↔ id ∈ ids := by
  induction ids with
  | nil => exact Iff.rfl
  | cons i ids ih =>
    rw [sortedIds, List.foldr_cons, mem_insertId_iff, ← sortedIds, ih, List.mem_cons]

theorem pairwise_insertId {id : Int64} {ids : List Int64} (h : ids.Pairwise (· < ·)) :
    (insertId id ids).Pairwise (· < ·) := by
  induction ids with
  | nil => exact List.pairwise_singleton _ _
  | cons i ids ih =>
    obtain ⟨head, tail⟩ := List.pairwise_cons.1 h
    unfold insertId
    split
    · next lt =>
      refine List.pairwise_cons.2 ⟨List.forall_mem_cons.2 ⟨lt, fun j hj => ?_⟩, h⟩
      exact Int64.lt_trans lt (head j hj)
    · next ge =>
      split
      · exact h
      · next ne =>
        refine List.pairwise_cons.2 ⟨fun j hj => ?_, ih tail⟩
        rcases mem_insertId_iff.1 hj with rfl | hj
        · exact Int64.lt_of_le_of_ne (Int64.not_lt.1 ge) (Ne.symm ne)
        · exact head j hj

theorem nodup_sortedIds (ids : List Int64) : (sortedIds ids).Nodup := by
  have sorted : (sortedIds ids).Pairwise (· < ·) := by
    induction ids with
    | nil => exact List.Pairwise.nil
    | cons i ids ih => exact pairwise_insertId ih
  exact sorted.imp Int64.ne_of_lt

namespace Buffer

/-! ## The groups touched -/

variable {b : Buffer} {key : Value}

theorem mem_group_iff {e : MappedRow} {change : Change} :
    e ∈ b.group key change ↔ e ∈ b.entries ∧ e.change = change ∧ e.key.agrees key = true := by
  simp [group]

/-- Every row that is collected is in a group that is touched. -/
theorem exists_key {e : MappedRow} (h : e ∈ b.entries) :
    ∃ key ∈ b.keys, e.key.agrees key = true := by
  obtain ⟨key, hkey, agrees⟩ :=
    Value.exists_mem_distinct (List.mem_map_of_mem (f := MappedRow.key) h)
  exact ⟨key, hkey, Value.agrees_comm key e.key ▸ agrees⟩

/-- The documents that join a group and leave it. -/
def joins (b : Buffer) (key : Value) (change : Change) (id : Int64) : Prop :=
  ∃ e ∈ b.group key change, e.document = id

theorem mem_links_iff {id : Int64} :
    (id ∈ (b.links key).1 ↔ b.joins key .added id ∧ ¬b.joins key .removed id) ∧
      (id ∈ (b.links key).2 ↔ b.joins key .removed id ∧ ¬b.joins key .added id) := by
  simp only [links, joins, List.mem_filter, mem_sortedIds_iff, List.mem_map,
    decide_eq_true_eq, and_self]

/-! ## Decisions -/

/-- The reduction of the rows that joined a group. -/
def candidate (b : Buffer) (key : Value) : Except Error (Option Json) :=
  match b.group key .added with
  | [] => .ok none
  | es => (collapse b.descriptor (es.map MappedRow.row) key).map some

/-- The command for a group, from the rows found for it. -/
def outcome (b : Buffer) (key : Value) (found : List Row) : Except Error (Option Command) := do
  let candidate ← b.candidate key
  let stored ← b.persisted key found
  let row ← b.merge key (stored.map Prod.snd) candidate
  b.command key stored row

/-- No decision is taken where several rows are stored for one group. -/
theorem found_of_outcome {found : List Row} {c : Option Command} (h : b.outcome key found = .ok c) :
    found = [] ∨ ∃ row, found = [row] := by
  obtain ⟨_, _, h⟩ := bind_eq_ok_iff.1 h
  obtain ⟨_, hstored, _⟩ := bind_eq_ok_iff.1 h
  match found, hstored with
  | [], _ => exact .inl rfl
  | [row], _ => exact .inr ⟨row, rfl⟩

/-- A group without a row gets one if anything is in it. -/
theorem outcome_nil {c : Option Command} (h : b.outcome key [] = .ok c) :
    ∃ candidate row, b.candidate key = .ok candidate ∧ b.merge key none candidate = .ok row ∧
      (row = none ∧ c = none ∨ ∃ r cells, row = some r ∧ b.descriptor.index.cells r = .ok cells ∧
        c = some (.createReduceRow b.names b.descriptor.index.name cells (b.links key).1)) := by
  obtain ⟨candidate, hcandidate, h⟩ := bind_eq_ok_iff.1 h
  obtain ⟨stored, hstored, h⟩ := bind_eq_ok_iff.1 h
  obtain ⟨row, hrow, h⟩ := bind_eq_ok_iff.1 h
  cases hstored
  refine ⟨candidate, row, hcandidate, hrow, ?_⟩
  cases row with
  | none =>
    cases h
    exact .inl ⟨rfl, rfl⟩
  | some r =>
    obtain ⟨cells, hcells, h⟩ := bind_eq_ok_iff.1 h
    cases h
    exact .inr ⟨r, cells, rfl, hcells, rfl⟩

/-- A group with a row has it updated, or deleted if nothing is left of it. -/
theorem outcome_singleton {found : Row} {c : Option Command} (h : b.outcome key [found] = .ok c) :
    ∃ candidate id json row, b.candidate key = .ok candidate ∧
      found.getInt64 Column.idName = .ok id ∧
      b.descriptor.index.decode found = .ok json ∧ b.merge key (some json) candidate = .ok row ∧
      (row = none ∧ c = some (.deleteReduceRow b.names b.descriptor.index.name id) ∨
        ∃ r cells, row = some r ∧ b.descriptor.index.cells r = .ok cells ∧
          c = some (.updateReduceRow b.names b.descriptor.index.name id cells (b.links key).1
            (b.links key).2)) := by
  obtain ⟨candidate, hcandidate, h⟩ := bind_eq_ok_iff.1 h
  obtain ⟨stored, hstored, h⟩ := bind_eq_ok_iff.1 h
  obtain ⟨row, hrow, h⟩ := bind_eq_ok_iff.1 h
  obtain ⟨id, hid, hstored⟩ := bind_eq_ok_iff.1 hstored
  obtain ⟨json, hjson, hstored⟩ := bind_eq_ok_iff.1 hstored
  cases hstored
  refine ⟨candidate, id, json, row, hcandidate, hid, hjson, hrow, ?_⟩
  cases row with
  | none =>
    cases h
    exact .inl ⟨rfl, rfl⟩
  | some r =>
    obtain ⟨cells, hcells, h⟩ := bind_eq_ok_iff.1 h
    cases h
    exact .inr ⟨r, cells, rfl, hcells, rfl⟩

end Buffer

end DocStore

import DocStore.Proofs.Contributions

/-!
# Lawful reductions

A `Reduction` says what an index should hold: for every group a row computed
from all mapped rows of the group at once. The functions of a descriptor are
lawful for it if they compute the same from parts. Then the decision on a touched
group takes the aggregate of the rows before a flush to that of the rows after it.
-/

set_option autoImplicit false

namespace DocStore

/-- An index of a collection, the column it groups by, and what it computes from the
mapped rows of a group. -/
structure Reduction where
  names : TableNames
  index : IndexType
  column : String
  agg : Multiset Json → Json

namespace Reduction

/-- The descriptors that feed the index. -/
def Feeds (R : Reduction) (catalog : Catalog) (d : Descriptor) : Prop :=
  (∃ entity, d ∈ catalog.descriptors R.names entity) ∧
  d.kind = .reduce ∧ d.index.name = R.index.name

/-- Rows that contents are mapped to, all in the group of a key; there is at least one. -/
def Shared (R : Reduction) (catalog : Catalog) (key : Value) (rows : Multiset Json) : Prop :=
  rows ≠ 0 ∧ ∀ row ∈ rows, ∃ d content, R.Feeds catalog d ∧ (row, key) ∈ d.keyed content

/-- The functions of every descriptor of the index compute the reduction: at
once, from two parts, and by taking rows out. What they compute keeps the key. -/
structure Lawful (R : Reduction) (catalog : Catalog) : Prop where
  index : ∀ d, R.Feeds catalog d → d.index = R.index
  column : ∀ d, R.Feeds catalog d → d.groupColumn = some R.column
  keeps : ∀ d, R.Feeds catalog d → ∀ key A, R.Shared catalog key A →
    ∀ k, d.groupKey (R.agg A) = .ok k → k = key
  reduces : ∀ d, R.Feeds catalog d → ∀ key (rows : List Json), R.Shared catalog key rows →
    d.reduceRows rows = .ok (some (R.agg rows))
  combines : ∀ d, R.Feeds catalog d → ∀ key A B, R.Shared catalog key A → R.Shared catalog key B →
    d.reduceRows [R.agg A, R.agg B] = .ok (some (R.agg (A + B)))
  takesOut : ∀ d, R.Feeds catalog d → ∀ key A (rows : List Json),
    R.Shared catalog key A → R.Shared catalog key rows →
    d.deleteRows (R.agg (A + rows)) rows = .ok (some (R.agg A))
  empties : ∀ d, R.Feeds catalog d → ∀ key (rows : List Json), R.Shared catalog key rows →
    d.deleteRows (R.agg rows) rows = .ok none

/-- Aggregate rows are read back as they were written. -/
structure Restores (R : Reduction) (catalog : Catalog) : Prop where
  decodes : ∀ key A, R.Shared catalog key A → ∀ cells, R.index.cells (R.agg A) = .ok cells →
    ∀ id, R.index.decode ⟨Command.idCell id :: cells⟩ = .ok (R.agg A)
  /-- No column stands in for the identity that every table has. -/
  apart : ∀ c ∈ R.index.columns, c.name ≠ Column.idName

/-- The aggregate has a value in every column. A sum, say, may leave the range of its column. -/
def Storable (R : Reduction) (A : Multiset Json) : Prop :=
  ∃ cells, R.index.cells (R.agg A) = .ok cells

/-- The aggregate of a group, if anything is in it. -/
def value? (R : Reduction) (A : Multiset Json) : Option Json :=
  if A.card = 0 then none else some (R.agg A)

variable {R : Reduction} {catalog : Catalog} {A B : Multiset Json} {key : Value}

theorem value?_zero : R.value? 0 = none := rfl

theorem value?_of_ne (h : A ≠ 0) : R.value? A = some (R.agg A) :=
  if_neg fun none => h (Multiset.card_eq_zero.1 none)

theorem Shared.add (hA : A ≠ 0 → R.Shared catalog key A) (hB : B ≠ 0 → R.Shared catalog key B)
    (some : A + B ≠ 0) : R.Shared catalog key (A + B) := by
  refine ⟨some, fun row h => ?_⟩
  rcases Multiset.mem_add.1 h with h | h
  · exact (hA fun none => Multiset.notMem_zero row (none ▸ h)).2 row h
  · exact (hB fun none => Multiset.notMem_zero row (none ▸ h)).2 row h

theorem Shared.append (hA : R.Shared catalog key A) (hB : R.Shared catalog key B) :
    R.Shared catalog key (A + B) :=
  .add (fun _ => hA) (fun _ => hB) fun none =>
    hA.1 (Multiset.le_zero.1 (none ▸ Multiset.le_add_right A B))

/-- The cells of an aggregate have its key. -/
theorem Lawful.find_cells (lawful : R.Lawful catalog) (shared : R.Shared catalog key A)
    {cells : Cells} (hcells : R.index.cells (R.agg A) = .ok cells) :
    (cells.find? fun c => c.1 = R.column).map Prod.snd = some key := by
  obtain ⟨row, hrow⟩ := Multiset.exists_mem_of_ne_zero shared.1
  obtain ⟨d, content, feeds, mem⟩ := shared.2 row hrow
  have column := lawful.column d feeds
  have whole : d.index.cells (R.agg A) = .ok cells := by rw [lawful.index d feeds, hcells]
  obtain ⟨c, hc, _⟩ := Descriptor.ofKind_groupKey column (Descriptor.groupKey_of_mem_keyed mem)
  obtain ⟨k, hk⟩ := Descriptor.exists_groupKey column (Option.isSome_of_eq_some hc) whole
  obtain rfl := lawful.keeps d feeds key A shared k hk
  obtain ⟨_, same, value⟩ := (Descriptor.groupKey_eq_ok_iff column).1 hk
  cases whole.symm.trans same
  exact value

/-- An aggregate that can be stored keeps its key. -/
theorem Lawful.groupKey_iff (lawful : R.Lawful catalog) {d : Descriptor} (feeds : R.Feeds catalog d)
    (shared : R.Shared catalog key A) :
    (∃ k, d.groupKey (R.agg A) = .ok k ∧ k.agrees key = true) ↔ R.Storable A := by
  have column := lawful.column d feeds
  constructor
  · rintro ⟨k, hk, _⟩
    obtain ⟨cells, hcells, _⟩ := (Descriptor.groupKey_eq_ok_iff column).1 hk
    exact ⟨cells, by rw [← lawful.index d feeds, hcells]⟩
  · rintro ⟨cells, hcells⟩
    refine ⟨key, (Descriptor.groupKey_eq_ok_iff column).2 ⟨cells, ?_,
      lawful.find_cells shared hcells⟩, key.agrees_self⟩
    rw [lawful.index d feeds, hcells]

end Reduction

namespace Buffer

variable {R : Reduction} {catalog : Catalog} {b : Buffer} {key : Value}

/-- A reduction is accepted if it keeps the key. -/
theorem collapse_eq_ok_iff {d : Descriptor} {rows : List Json} {row r : Json}
    (reduced : d.reduceRows rows = .ok (some row)) :
    collapse d rows key = .ok r ↔ r = row ∧ ∃ k, d.groupKey row = .ok k ∧ k.agrees key = true := by
  unfold collapse
  rw [reduced]
  change (do
    let produced ← d.groupKey row
    if produced.agrees key then pure row
    else .error (.invariant (.reducedToOtherGroup d.index.name key produced)) : Except Error Json) =
    _ ↔ _
  rw [bind_eq_ok_iff, ← exists_and_left]
  refine exists_congr fun k => ?_
  rw [and_left_comm, and_congr_right_iff]
  intro _
  by_cases kept : k.agrees key = true
  · rw [if_pos kept]
    exact ⟨fun h => by cases h; exact ⟨rfl, kept⟩, fun ⟨h, _⟩ => by rw [h]; rfl⟩
  · rw [if_neg kept]
    exact ⟨(fun h => nomatch h), fun h => absurd h.2 kept⟩

/-- An aggregate row together with the reduction of the rows that joined. -/
def joined (b : Buffer) (key : Value) : Option Json → Option Json → Except Error (Option Json)
  | some p, some c => (collapse b.descriptor [p, c] key).map some
  | some p, none => .ok (some p)
  | none, c => .ok c

/-- An aggregate row without the rows that left. -/
def without (b : Buffer) (key : Value) (current : Option Json) : Except Error (Option Json) :=
  match current, b.group key .removed with
  | some row, e :: es => b.descriptor.deleteRows row ((e :: es).map MappedRow.row)
  | current, _ => .ok current

theorem merge_eq (b : Buffer) (key : Value) (stored candidate : Option Json) :
    b.merge key stored candidate = b.joined key stored candidate >>= b.without key := by
  cases stored <;> cases candidate <;> rfl

section Lawful

variable (lawful : R.Lawful catalog) (feeds : R.Feeds catalog b.descriptor)
include lawful feeds

/-- What joined is reduced to its aggregate, which has to be storable. -/
theorem candidate_eq_ok_iff {B : Multiset Json}
    (rows : ((b.group key .added).map MappedRow.row : Multiset Json) = B)
    (shared : B ≠ 0 → R.Shared catalog key B) {row : Option Json} :
    b.candidate key = .ok row ↔ row = R.value? B ∧ (B ≠ 0 → R.Storable B) := by
  unfold candidate
  subst rows
  split
  · next none =>
    rw [none]
    exact ⟨fun h => by cases h; exact ⟨rfl, fun h => absurd rfl h⟩, fun h => by rw [h.1]; rfl⟩
  · next some =>
    have nonempty : ((b.group key .added).map MappedRow.row : Multiset Json) ≠ 0 := by
      rw [ne_eq, Multiset.coe_eq_zero, List.map_eq_nil_iff]
      exact some
    have all := shared nonempty
    simp only [map_eq_ok_iff, collapse_eq_ok_iff (lawful.reduces _ feeds key _ all),
      lawful.groupKey_iff feeds all, Reduction.value?_of_ne nonempty, nonempty, ne_eq,
      not_false_eq_true, true_imp_iff]
    exact ⟨fun ⟨_, ⟨h, storable⟩, h'⟩ => ⟨by rw [← h', h], storable⟩,
      fun ⟨h, storable⟩ => ⟨_, ⟨rfl, storable⟩, h.symm⟩⟩

/-- What is stored and what joined; two aggregates are combined to one that has to be storable. -/
theorem joined_eq_ok_iff {A B : Multiset Json} (hA : A ≠ 0 → R.Shared catalog key A)
    (hB : B ≠ 0 → R.Shared catalog key B) {row : Option Json} :
    b.joined key (R.value? A) (R.value? B) = .ok row ↔
      row = R.value? (A + B) ∧ (A ≠ 0 → B ≠ 0 → R.Storable (A + B)) := by
  by_cases stored : A = 0
  · subst stored
    rw [zero_add]
    exact ⟨fun h => by cases h; exact ⟨rfl, fun h => absurd rfl h⟩, fun h => by rw [h.1]; rfl⟩
  · rw [Reduction.value?_of_ne stored]
    by_cases none : B = 0
    · subst none
      rw [add_zero, Reduction.value?_of_ne stored]
      exact ⟨fun h => by cases h; exact ⟨rfl, fun _ h => absurd rfl h⟩, fun h => by rw [h.1]; rfl⟩
    · have some : A + B ≠ 0 :=
        fun none => stored (Multiset.le_zero.1 (none ▸ Multiset.le_add_right A B))
      have all := Reduction.Shared.add hA hB some
      rw [Reduction.value?_of_ne none, Reduction.value?_of_ne some, joined]
      simp only [map_eq_ok_iff,
        collapse_eq_ok_iff (lawful.combines _ feeds key _ _ (hA stored) (hB none)),
        lawful.groupKey_iff feeds all, stored, none, ne_eq, not_false_eq_true, true_imp_iff]
      exact ⟨fun ⟨_, ⟨h, storable⟩, h'⟩ => ⟨by rw [← h', h], storable⟩,
        fun ⟨h, storable⟩ => ⟨_, ⟨rfl, storable⟩, h.symm⟩⟩

/-- Without what left. -/
theorem without_eq {A C : Multiset Json}
    (removed : ((b.group key .removed).map MappedRow.row : Multiset Json) = C)
    (hA : A ≠ 0 → R.Shared catalog key A) (hC : C ≠ 0 → R.Shared catalog key C) :
    b.without key (R.value? (A + C)) = .ok (R.value? A) := by
  unfold without
  cases left : b.group key .removed with
  | nil =>
    obtain rfl : C = 0 := by rw [← removed, left]; rfl
    rw [add_zero]
    cases R.value? A <;> rfl
  | cons e es =>
    rw [left] at removed
    have nonempty : C ≠ 0 := by
      rw [← removed, ne_eq, Multiset.coe_eq_zero]
      exact List.cons_ne_nil _ _
    have some : A + C ≠ 0 :=
      fun none => nonempty (Multiset.le_zero.1 (none ▸ Multiset.le_add_left C A))
    rw [Reduction.value?_of_ne some]
    dsimp only
    by_cases rest : A = 0
    · rw [rest, zero_add, Reduction.value?_zero, ← removed]
      exact lawful.empties _ feeds key _ (removed ▸ hC nonempty)
    · rw [Reduction.value?_of_ne rest, ← removed]
      exact lawful.takesOut _ feeds key _ _ (hA rest) (removed ▸ hC nonempty)

end Lawful

end Buffer

/-! ## Groups as they are stored -/

/-- The id of the row of a group, the mapped rows that it was computed from, and the
documents it is linked to. -/
structure StoredGroup where
  id : Int64
  rows : Multiset Json
  documents : Multiset Int64

/-- What a look-up of the group finds: its id and its aggregate. -/
def Reduction.found (R : Reduction) (g : StoredGroup) : Int64 × Json := (g.id, R.agg g.rows)

/-- A group is stored for some mapped rows and documents exactly if there are any. -/
def StoredGroup.Holds (g : Option StoredGroup) (A : Multiset Json) (D : Multiset Int64) : Prop :=
  match g with
  | none => A = 0
  | some g => A ≠ 0 ∧ g.rows = A ∧ g.documents = D

theorem StoredGroup.holds_some {id : Int64} {A : Multiset Json} {D : Multiset Int64}
    (some : A ≠ 0) : Holds (.some ⟨id, A, D⟩) A D := ⟨some, rfl, rfl⟩

namespace Reduction

/-- The rows that the index table has for a group. -/
def Shows (R : Reduction) (g : Option StoredGroup) (found : List Row) : Prop :=
  match g with
  | none => found = []
  | some g => ∃ cells, R.index.cells (R.agg g.rows) = .ok cells ∧
      found = [⟨Command.idCell g.id :: cells⟩]

/-- A command takes a group to mapped rows and documents. -/
inductive Takes (R : Reduction) : Option StoredGroup →
    Multiset Json → Multiset Int64 → Command → Prop where
  | create {A : Multiset Json} {cells : Cells} {link : List Int64} :
      A ≠ 0 → R.index.cells (R.agg A) = .ok cells →
    Takes R none A link (.createReduceRow R.names R.index.name cells link)
  | update {g : StoredGroup} {A : Multiset Json} {cells : Cells}
      {link unlink : List Int64} : A ≠ 0 →
    R.index.cells (R.agg A) = .ok cells →
    Takes R (some g) A ((g.documents.filter fun d => d ∉ unlink) + link)
      (.updateReduceRow R.names R.index.name g.id cells link unlink)
  | delete {g : StoredGroup} {D : Multiset Int64} :
    Takes R (some g) 0 D (.deleteReduceRow R.names R.index.name g.id)

/-- What is decided for a group that is to have mapped rows and documents. -/
def Decides (R : Reduction) (g : Option StoredGroup) (A : Multiset Json) (D : Multiset Int64) :
    Option Command → Prop
  | none => g = none ∧ A = 0
  | some c => R.Takes g A D c

variable {R : Reduction} {catalog : Catalog} {b : Buffer} {key : Value}

section Decision

variable (lawful : R.Lawful catalog) (feeds : R.Feeds catalog b.descriptor)
include lawful feeds

theorem persisted_eq (restores : R.Restores catalog) {g : Option StoredGroup} {A : Multiset Json}
    {D : Multiset Int64} {found : List Row} (shows : R.Shows g found)
    (holds : StoredGroup.Holds g A D) (shared : A ≠ 0 → R.Shared catalog key A) :
    b.persisted key found = .ok (g.map R.found) ∧ (g.map R.found).map Prod.snd = R.value? A := by
  cases g with
  | none =>
    cases shows
    refine ⟨rfl, ?_⟩
    rw [show A = 0 from holds]
    rfl
  | some g =>
    obtain ⟨cells, hcells, rfl⟩ := shows
    obtain ⟨nonempty, rfl, _⟩ := holds
    have decoded := restores.decodes key g.rows (shared nonempty) cells hcells g.id
    rw [← lawful.index _ feeds] at decoded
    refine ⟨?_, (value?_of_ne nonempty).symm⟩
    simp only [Buffer.persisted, Row.getInt64_idCell, decoded]
    rfl

/-- The command for a group goes by whether it was there and whether anything is left in it. -/
theorem decides_of_command (names : b.names = R.names) {g : Option StoredGroup}
    {A A' : Multiset Json} {D D' : Multiset Int64} (holds : StoredGroup.Holds g A D)
    (none : A = 0 → D = 0)
    (linked : D' = (D.filter fun d => d ∉ (b.links key).2) + ((b.links key).1 : Multiset Int64))
    {c : Option Command} (h : b.command key (g.map R.found) (R.value? A') = .ok c) :
    R.Decides g A' D' c := by
  have index := lawful.index _ feeds
  by_cases rest : A' = 0
  · subst rest
    cases g with
    | none =>
      cases h
      exact ⟨rfl, rfl⟩
    | some g =>
      cases h
      rw [Decides, names, index]
      exact .delete
  · rw [value?_of_ne rest] at h
    cases g with
    | none =>
      obtain ⟨cells, hcells, h⟩ := bind_eq_ok_iff.1 h
      cases h
      rw [index] at hcells
      rw [Decides, names, index, linked, none holds, Multiset.filter_zero, zero_add]
      exact .create rest hcells
    | some g =>
      obtain ⟨cells, hcells, h⟩ := bind_eq_ok_iff.1 h
      cases h
      rw [index] at hcells
      obtain ⟨_, _, rfl⟩ := holds
      rw [Decides, names, index, linked]
      exact .update rest hcells

theorem exists_command {g : Option StoredGroup} {A : Multiset Json}
    (storable : A ≠ 0 → R.Storable A) :
    ∃ c, b.command key (g.map R.found) (R.value? A) = .ok c := by
  by_cases rest : A = 0
  · subst rest
    cases g <;> exact ⟨_, rfl⟩
  · obtain ⟨cells, hcells⟩ := storable rest
    rw [← lawful.index _ feeds] at hcells
    rw [value?_of_ne rest]
    cases g with
    | none => exact ⟨_, bind_eq_ok_iff.2 ⟨cells, hcells, rfl⟩⟩
    | some g => exact ⟨_, bind_eq_ok_iff.2 ⟨cells, hcells, rfl⟩⟩

/-- A decision on a touched group takes the group to what it is to have: `K` is
what stays in it, `C` what leaves and `B` what joins. It can be taken if every
aggregate on the way can be stored. -/
theorem decides_of_outcome (restores : R.Restores catalog) (names : b.names = R.names)
    {g : Option StoredGroup} {found : List Row} {K C B : Multiset Json} {D D' : Multiset Int64}
    (shows : R.Shows g found) (holds : StoredGroup.Holds g (K + C) D)
    (removed : ((b.group key .removed).map MappedRow.row : Multiset Json) = C)
    (added : ((b.group key .added).map MappedRow.row : Multiset Json) = B)
    (hK : K ≠ 0 → R.Shared catalog key K) (hC : C ≠ 0 → R.Shared catalog key C)
    (hB : B ≠ 0 → R.Shared catalog key B) (none : K + C = 0 → D = 0)
    (linked : D' = (D.filter fun d => d ∉ (b.links key).2) + ((b.links key).1 : Multiset Int64)) :
    (∀ c, b.outcome key found = .ok c → R.Decides g (K + B) D' c) ∧
      ((∀ A, A ≤ K + C + (K + B) → A ≠ 0 → R.Storable A) → ∃ c, b.outcome key found = .ok c) := by
  obtain ⟨persisted, stored⟩ := persisted_eq lawful feeds restores shows holds (Shared.add hK hC)
  have candidates : ∀ {row}, b.candidate key = .ok row ↔
      row = R.value? B ∧ (B ≠ 0 → R.Storable B) :=
    Buffer.candidate_eq_ok_iff lawful feeds added hB
  have joins : ∀ {row}, b.joined key (R.value? (K + C)) (R.value? B) = .ok row ↔
      row = R.value? (K + C + B) ∧ (K + C ≠ 0 → B ≠ 0 → R.Storable (K + C + B)) :=
    Buffer.joined_eq_ok_iff lawful feeds (Shared.add hK hC) hB
  have leaves : b.without key (R.value? (K + C + B)) = .ok (R.value? (K + B)) := by
    rw [add_assoc, add_comm C B, ← add_assoc]
    exact Buffer.without_eq lawful feeds removed (Shared.add hK hB) hC
  have outcome : ∀ c, b.outcome key found = .ok c ↔ ((B ≠ 0 → R.Storable B) ∧
      (K + C ≠ 0 → B ≠ 0 → R.Storable (K + C + B))) ∧
      b.command key (g.map R.found) (R.value? (K + B)) = .ok c := by
    intro c
    unfold Buffer.outcome
    simp only [bind_eq_ok_iff, candidates, persisted, Except.ok.injEq, Buffer.merge_eq]
    constructor
    · rintro ⟨_, ⟨rfl, first⟩, _, rfl, row, ⟨_, joined, left⟩, h⟩
      rw [stored, joins] at joined
      obtain ⟨rfl, second⟩ := joined
      rw [leaves] at left
      cases left
      exact ⟨⟨first, second⟩, h⟩
    · rintro ⟨⟨first, second⟩, h⟩
      exact ⟨_, ⟨rfl, first⟩, _, rfl, _, ⟨_, by rw [stored]; exact joins.2 ⟨rfl, second⟩, leaves⟩,
        h⟩
  constructor
  · intro c h
    exact decides_of_command lawful feeds names holds none linked ((outcome c).1 h).2
  · intro storable
    have below : B ≤ K + C + (K + B) := (Multiset.le_add_left B K).trans (Multiset.le_add_left _ _)
    have between : K + C + B ≤ K + C + (K + B) :=
      Multiset.add_le_add_left (Multiset.le_add_left B K)
    obtain ⟨c, hc⟩ : ∃ c, b.command key (g.map R.found) (R.value? (K + B)) = .ok c :=
      exists_command lawful feeds (storable _ (Multiset.le_add_left _ _))
    refine ⟨c,
      (outcome c).2 ⟨⟨storable _ below, fun some _ => storable _ between fun none => some ?_⟩, hc⟩⟩
    exact Multiset.le_zero.1 (none ▸ Multiset.le_add_right (K + C) B)

end Decision

end Reduction

end DocStore

import DocStore.Proofs.CommandOrder
import DocStore.Proofs.Conjunctions
import DocStore.Proofs.GroupKeys
import DocStore.Proofs.Rounding

/-!
# Keys in memory and keys in storage

Rows are grouped by keys whose values agree, and doubles agree by their bits. The
row stored for a group is looked up by the equality of the storage, for which two
numbers are equal if their values are. The two make the same of the keys of a
column but for the zeros: there are two of them in memory, and one in storage.
-/

set_option autoImplicit false

namespace DocStore

/-! ## Equal numbers -/

namespace Double

theorem fraction_lt (x : Double) : x.fraction < 2 ^ 52 := Nat.mod_lt _ (by decide)

/-- Normal numbers of a greater exponent are greater. -/
theorem magnitude_lt_of_exponentField_lt {x y : Double} (h : x.exponentField < y.exponentField) :
    x.magnitude < y.magnitude := by
  have hx := x.fraction_lt
  have big : 2 ^ 52 * 2 ^ (y.exponentField - 1) ≤ y.magnitude := by
    rw [magnitude_eq, if_neg (by omega)]
    exact Nat.mul_le_mul_right _ (Nat.le_add_right _ _)
  refine Nat.lt_of_lt_of_le ?_ big
  rw [magnitude_eq]
  split
  · exact Nat.lt_of_lt_of_le hx (Nat.le_mul_of_pos_right _ (Nat.two_pow_pos _))
  · next normal =>
    have below : (2 ^ 52 + x.fraction) * 2 ^ (x.exponentField - 1) <
        2 ^ 53 * 2 ^ (x.exponentField - 1) :=
      Nat.mul_lt_mul_of_pos_right (by omega) (Nat.two_pow_pos _)
    have scale : 2 ^ 53 * 2 ^ (x.exponentField - 1) = 2 ^ 52 * 2 ^ x.exponentField := by
      rw [← Nat.pow_add, ← Nat.pow_add]
      congr 1
      omega
    have more : 2 ^ 52 * 2 ^ x.exponentField ≤ 2 ^ 52 * 2 ^ (y.exponentField - 1) :=
      Nat.mul_le_mul_left _ (Nat.pow_le_pow_right (by decide) (by omega))
    omega

theorem fields_eq_of_magnitude_eq {x y : Double} (h : x.magnitude = y.magnitude) :
    x.exponentField = y.exponentField ∧ x.fraction = y.fraction := by
  have exponent : x.exponentField = y.exponentField := by
    rcases Nat.lt_trichotomy x.exponentField y.exponentField with less | same | more
    · exact absurd h (Nat.ne_of_lt (magnitude_lt_of_exponentField_lt less))
    · exact same
    · exact absurd h.symm (Nat.ne_of_lt (magnitude_lt_of_exponentField_lt more))
  refine ⟨exponent, ?_⟩
  rw [magnitude_eq, magnitude_eq, exponent] at h
  split at h
  · exact h
  · exact Nat.add_left_cancel (Nat.eq_of_mul_eq_mul_right (Nat.two_pow_pos _) h)

/-- The sign, the exponent and the fraction are all of a double. -/
theorem eq_of_fields_eq {x y : Double} (sign : x.isNegative = y.isNegative)
    (exponent : x.exponentField = y.exponentField)
    (fraction : x.fraction = y.fraction) : x = y := by
  obtain ⟨a⟩ := x
  obtain ⟨b⟩ := y
  have ha := a.toNat_lt
  have hb := b.toNat_lt
  simp only [isNegative, exponentField, Double.fraction, Nat.shiftRight_eq_div_pow,
    Nat.shiftLeft_eq, Nat.one_mul, decide_eq_decide] at sign exponent fraction
  rw [mk.injEq, ← UInt64.toNat_inj]
  omega

/-- Doubles of one value are one, or both are zeros. -/
theorem eq_or_zeros_of_scaled_eq {x y : Double} (h : x.scaled = y.scaled) :
    x = y ∨ x.magnitude = 0 ∧ y.magnitude = 0 := by
  have magnitudes : x.magnitude = y.magnitude := by
    unfold scaled at h
    split at h <;> split at h <;> omega
  by_cases zero : x.magnitude = 0
  · exact .inr ⟨zero, magnitudes ▸ zero⟩
  · left
    have sign : x.isNegative = y.isNegative := by
      unfold scaled at h
      cases hx : x.isNegative <;> cases hy : y.isNegative <;> simp only [hx, hy] at h <;>
        first | rfl | (simp at h; omega)
    obtain ⟨exponent, fraction⟩ := fields_eq_of_magnitude_eq magnitudes
    exact eq_of_fields_eq sign exponent fraction

theorem scaled_eq_zero_iff {x : Double} : x.scaled = 0 ↔ x.magnitude = 0 := by
  unfold scaled
  split <;> omega

end Double

namespace Double

theorem isNaN_of_zero {x : Double} (zero : x.magnitude = 0) : x.isNaN = false := by
  rw [magnitude_eq] at zero
  split at zero
  · next subnormal => simp [isNaN, subnormal]
  · have positive : 0 < (2 ^ 52 + x.fraction) * 2 ^ (x.exponentField - 1) :=
      Nat.mul_pos (by omega) (Nat.two_pow_pos _)
    omega

end Double

namespace Value

/-- The number that a value is to a comparison, in the units of doubles: a flag is 1 or
0, and a NaN is none. -/
def scaled? : Value → Option Int
  | .bool flag => some (if flag then Double.unitsPerOne else 0)
  | .int i => some (i.toInt * Double.unitsPerOne)
  | .float x => if x.isNaN then none else some x.scaled
  | .null | .text _ => none

/-- Equality of numbers by their values, and of texts. -/
def equals : Value → Value → Bool
  | .text s, .text s' => s = s'
  | v, w => v.scaled?.isSome && v.scaled? = w.scaled?

/-- Both are zeros among the doubles, of whichever sign. -/
def AreZeros : Value → Value → Prop
  | .float x, .float y => x.magnitude = 0 ∧ y.magnitude = 0
  | _, _ => False

variable {kind : ColumnKind} {u v w : Value}

theorem equals_cases (h : u.equals v = true) :
    (∃ s, u = .text s ∧ v = .text s) ∨ ∃ n, u.scaled? = some n ∧ v.scaled? = some n := by
  have numbers (same : (u.scaled?.isSome && u.scaled? = v.scaled?) = true) :
      ∃ n, u.scaled? = some n ∧ v.scaled? = some n := by
    rw [Bool.and_eq_true, decide_eq_true_eq] at same
    obtain ⟨n, hn⟩ := Option.isSome_iff_exists.1 same.1
    exact ⟨n, hn, same.2 ▸ hn⟩
  unfold equals at h
  split at h
  · next s s' => exact .inl ⟨s, rfl, by rw [of_decide_eq_true h]⟩
  · exact .inr (numbers h)

theorem unitsPerOne_pos : 0 < Double.unitsPerOne := by decide +kernel

/-- Numbers of one kind and value are one, or both are zeros. -/
theorem eq_or_zeros_of_scaled?_eq (hv : v.OfKind kind) (hw : w.OfKind kind) {n : Int}
    (h : v.scaled? = some n) (h' : w.scaled? = some n) : v = w ∨ AreZeros v w := by
  have units : (0 : Int) < Double.unitsPerOne := Int.natCast_pos.2 unitsPerOne_pos
  have same := h.trans h'.symm
  cases v with
  | null | text _ => cases h
  | bool flag =>
    cases (hv : kind = .boolean)
    cases w with
    | bool flag' =>
      left
      cases flag <;> cases flag' <;> first | rfl | (simp [scaled?] at same; omega)
    | null | text _ => cases h'
    | int _ | float _ => cases hw
  | int i =>
    cases (hv : kind = .integer)
    cases w with
    | int j =>
      left
      rw [scaled?, scaled?, Option.some.injEq] at same
      rw [int.injEq, ← Int64.toInt_inj]
      exact Int.eq_of_mul_eq_mul_right (Int.ne_of_gt units) same
    | null | text _ => cases h'
    | bool _ | float _ => cases hw
  | float x =>
    cases (hv : kind = .real)
    cases w with
    | float y =>
      simp only [scaled?] at h h'
      split at h <;> split at h' <;> simp only [Option.some.injEq, reduceCtorEq] at h h'
      exact (Double.eq_or_zeros_of_scaled_eq (h.trans h'.symm)).imp (congrArg Value.float) id
    | null | text _ => cases h'
    | bool _ | int _ => cases hw

/-- Equal values of one kind are one, or both are zeros. -/
theorem eq_or_zeros_of_equals (hv : v.OfKind kind) (hw : w.OfKind kind) (h : v.equals w = true) :
    v = w ∨ AreZeros v w := by
  rcases equals_cases h with ⟨s, rfl, rfl⟩ | ⟨n, hn, hn'⟩
  · exact .inl rfl
  · exact eq_or_zeros_of_scaled?_eq hv hw hn hn'

/-- Values equal to one are equal. -/
theorem equals_of_equals (h : u.equals v = true) (h' : u.equals w = true) : v.equals w = true := by
  rcases equals_cases h with ⟨s, rfl, rfl⟩ | ⟨n, hu, hn⟩
  · exact h'
  · rcases equals_cases h' with ⟨s, rfl, rfl⟩ | ⟨n', hu', hn'⟩
    · cases hu
    · cases hu.symm.trans hu'
      unfold equals
      split
      · cases hn
      · simp [hn, hn']

theorem not_null_equals (w : Value) : ¬Value.null.equals w = true := by
  cases w <;> simp [equals, scaled?]

theorem equals_of_zeros (zeros : AreZeros v w) : v.equals w = true := by
  cases v <;> cases w <;> try exact zeros.elim
  next x y =>
    obtain ⟨hx, hy⟩ : x.magnitude = 0 ∧ y.magnitude = 0 := zeros
    simp [equals, scaled?, Double.isNaN_of_zero hx, Double.isNaN_of_zero hy,
      Double.scaled_eq_zero_iff.2 hx, Double.scaled_eq_zero_iff.2 hy]

theorem AreZeros.left_self (zeros : AreZeros v w) : AreZeros v v := by
  cases v <;> cases w <;> first | exact zeros.elim | exact ⟨zeros.1, zeros.1⟩

theorem AreZeros.not_isNull (zeros : AreZeros v w) : v.isNull = false ∧ w.isNull = false := by
  cases v <;> cases w <;> first | exact zeros.elim | exact ⟨rfl, rfl⟩

end Value

/-! ## What look-ups find -/

/-- A backend compares numbers by their values, and texts exactly. -/
def Backend.Equates (b : Backend) : Prop :=
  ∀ v w, b.compared .eq v w = some true ↔ v.equals w = true

/-- An equation of a column with a constant is a test for null, or compares them. -/
theorem Expr.truth?_image_equation (t : Target) (bs : List Binding) (m : Member) (key : Value)
    (b : Backend) (s : Scope) :
    (((Expr.member m).eq (.const key)).image t bs .condition).truth? b (Slot.value t.arguments) s =
      if key.isNull then
        some (((memberImage bs .value m).value b (Slot.value t.arguments) s).isNull)
      else b.compared .eq ((memberImage bs .value m).value b (Slot.value t.arguments) s) key := by
  have image : ((Expr.member m).eq (.const key)).image t bs .condition =
      if key.isNull then .isNull (memberImage bs .value m) false
      else .binary .eq (memberImage bs .value m) (.placeholder ⟨.const key, .exact⟩) := by
    simp [Expr.eq, Expr.image, isRowDependent, BinaryOp.isLogical, operationImage, fixedImage,
      isNullUnder, evaluate]
  rw [image]
  split
  · rw [SqlTree.truth?_isNull, Bool.bne_false]
  · rw [SqlTree.truth?_comparison b rfl]
    congr 1
    simp [SqlTree.value, Slot.value, evaluate, Affix.apply_exact]

/-- A row has the values of cells. -/
def Row.Carries (row : Row) (cells : Cells) : Prop :=
  ∀ name ∈ cells.map Prod.fst, row.value? name = value? ⟨cells⟩ name

theorem Row.Carries.cell_eq {row : Row} {cells : Cells} (h : row.Carries cells)
    {name : String} {v : Value} (value : value? ⟨cells⟩ name = some v) : row.cell name = v := by
  obtain ⟨x, hx, _⟩ := Option.map_eq_some_iff.1 value
  have same : x.1 = name := by simpa using List.find?_some hx
  have member := List.mem_map_of_mem (f := Prod.fst) (List.mem_of_find?_eq_some hx)
  rw [cell, h name (same ▸ member), value]
  rfl

namespace Buffer

variable {b : Buffer} {dialect : Dialect} {backend : Backend} {key key' : Value} {row : Row}

/-- The keys of the entries are those of the group column. -/
def Keyed (b : Buffer) : Prop := ∀ e ∈ b.entries, b.descriptor.groupKey e.row = .ok e.key

/-- Two mapped rows are in one of the groups that are reduced. -/
def Together (b : Buffer) (e e' : MappedRow) : Prop :=
  ∃ key ∈ b.keys, e.key.agrees key = true ∧ e'.key.agrees key = true

/-- Two buffers, it may be of different flushes, are for one index and group
its rows by one column. -/
def Alike (b' b : Buffer) : Prop :=
  b'.descriptor.index = b.descriptor.index ∧ b'.descriptor.groupColumn = b.descriptor.groupColumn

/-- A backend finds a row by the look-up of a group. -/
def Finds (b : Buffer) (dialect : Dialect) (backend : Backend) (key : Value) (row : Row) : Prop :=
  ∃ filter ps, b.lookup dialect key = .ok (.query (.indexRows b.descriptor.index.name
      (b.names.index b.descriptor.index.name) filter [] none) ps) ∧
    CompiledCondition.truth? ⟨filter, ps⟩ dialect backend (fun _ => row) = some true

theorem finds_iff (known : dialect = .standard ∨ dialect = .sqlite) (exact : backend.Equates)
    {column : String} (grouped : b.descriptor.groupColumn = some column)
    (declared : (b.descriptor.index.column? column).isSome = true) :
    b.Finds dialect backend key row ↔
      if key.isNull then (row.cell column).isNull = true
        else (row.cell column).equals key = true := by
  obtain ⟨q, lookup⟩ := exists_lookup dialect key grouped declared
  have sent := lookup
  rw [Buffer.lookup, grouped] at sent
  obtain ⟨r, compiled, sent⟩ := bind_eq_ok_iff.1 sent
  cases sent
  have truth := (Compile.compilesTo_of_compileCondition compiled).truth?_eq known
    backend fun _ => row
  rw [IndexType.field, Expr.truth?_image_equation] at truth
  simp only [Expr.memberImage, IndexType.member, List.find?_cons_of_pos, decide_true,
    Option.map_some, Option.getD_some, SqlTree.value] at truth
  have finds : b.Finds dialect backend key row ↔
      r.truth? dialect backend (fun _ => row) = some true := by
    constructor
    · rintro ⟨filter, ps, lookup', holds⟩
      cases lookup.symm.trans lookup'
      exact holds
    · exact fun holds => ⟨_, _, lookup, holds⟩
  rw [finds, truth]
  split
  · exact Option.some_inj
  · exact exact _ _

/-! ## Keys of one column -/

theorem Keyed.exists_row (keyed : b.Keyed) (h : key ∈ b.keys) :
    ∃ json, b.descriptor.groupKey json = .ok key := by
  obtain ⟨e, he, rfl⟩ := List.mem_map.1 (Value.mem_of_mem_distinct h)
  exact ⟨e.row, keyed e he⟩

/-- Keys are of the kind of the column that they are taken from. -/
theorem exists_kind {json json' : Json} (h : b.descriptor.groupKey json = .ok key)
    (h' : b.descriptor.groupKey json' = .ok key') :
    ∃ column c, b.descriptor.groupColumn = some column ∧
      b.descriptor.index.column? column = some c ∧ key.OfKind c.kind ∧ key'.OfKind c.kind := by
  cases grouped : b.descriptor.groupColumn with
  | none =>
    rw [Descriptor.groupKey, grouped] at h
    cases h
  | some column =>
    obtain ⟨c, hc, kind⟩ := Descriptor.ofKind_groupKey grouped h
    obtain ⟨c', hc', kind'⟩ := Descriptor.ofKind_groupKey grouped h'
    cases hc.symm.trans hc'
    exact ⟨column, c, rfl, hc, kind, kind'⟩

/-- Mapped rows are together just if their keys are one. -/
theorem Keyed.together_iff (keyed : b.Keyed) {e e' : MappedRow} (he : e ∈ b.entries)
    (he' : e' ∈ b.entries) : b.Together e e' ↔ e.key = e'.key := by
  constructor
  · rintro ⟨key, hkey, agrees, agrees'⟩
    obtain ⟨json, hjson⟩ := keyed.exists_row hkey
    obtain ⟨_, c, grouped, hc, kind, kind'⟩ := exists_kind (keyed e he) hjson
    obtain ⟨_, c', grouped', hc', kind'', _⟩ := exists_kind (keyed e' he') hjson
    cases grouped.symm.trans grouped'
    cases hc.symm.trans hc'
    exact ((Value.agrees_iff_eq kind kind').1 agrees).trans
      ((Value.agrees_iff_eq kind'' kind').1 agrees').symm
  · intro same
    obtain ⟨key, hkey, agrees⟩ := exists_key he
    exact ⟨key, hkey, agrees, same ▸ agrees⟩

section Found

variable (known : dialect = .standard ∨ dialect = .sqlite) (exact : backend.Equates)
include known exact

/-- A row with one key is found for another just if the two are the zeros. -/
theorem finds_other_iff {column : String} {kind : ColumnKind}
    (grouped : b.descriptor.groupColumn = some column)
    (declared : (b.descriptor.index.column? column).isSome = true) (hkey : key.OfKind kind)
    (hkey' : key'.OfKind kind) (cell : row.cell column = key) (apart : key ≠ key') :
    b.Finds dialect backend key' row ↔ Value.AreZeros key key' := by
  rw [finds_iff known exact grouped declared, cell]
  constructor
  · intro holds
    split at holds
    · next null =>
      obtain rfl : key = .null := by simpa [Value.isNull] using holds
      obtain rfl : key' = .null := by simpa [Value.isNull] using null
      exact absurd rfl apart
    · exact (Value.eq_or_zeros_of_equals hkey hkey' holds).resolve_left apart
  · intro zeros
    rw [if_neg (by simp [zeros.not_isNull.2])]
    exact Value.equals_of_zeros zeros

/-- Two keys of the group column have a row in common just if they are the zeros. -/
theorem exists_both_iff {json json' : Json} (h : b.descriptor.groupKey json = .ok key)
    (h' : b.descriptor.groupKey json' = .ok key') (apart : key ≠ key') :
    (∃ row, b.Finds dialect backend key row ∧ b.Finds dialect backend key' row) ↔
    Value.AreZeros key key' := by
  obtain ⟨column, c, grouped, hc, kind, kind'⟩ := exists_kind h h'
  have declared : (b.descriptor.index.column? column).isSome = true := by rw [hc]; rfl
  simp only [finds_iff known exact grouped declared]
  constructor
  · rintro ⟨row, found, found'⟩
    have null {v : Value} (h : v.isNull = true) : v = .null := by simpa [Value.isNull] using h
    split at found <;> split at found'
    · next isNull isNull' => exact absurd ((null isNull).trans (null isNull').symm) apart
    · exact absurd (null found ▸ found') (Value.not_null_equals key')
    · exact absurd (null found' ▸ found) (Value.not_null_equals key)
    · exact (Value.eq_or_zeros_of_equals kind kind'
        (Value.equals_of_equals found found')).resolve_left apart
  · intro zeros
    refine ⟨⟨[(column, key)]⟩, ?_⟩
    have cell : Row.cell ⟨[(column, key)]⟩ column = key := by simp [Row.cell, Row.value?]
    have itself : Value.AreZeros key key := zeros.left_self
    simp only [zeros.not_isNull, cell, Bool.false_eq_true, if_false]
    exact ⟨Value.equals_of_zeros itself, Value.equals_of_zeros zeros⟩

/-- A row that has what was written for a group is found for another key just if the two are the
zeros, unless the group strays. -/
theorem Keyed.finds_written_iff (keyed : b.Keyed) (touched : key ∈ b.keys) {found : List Row}
    {c : Command} {cells : Cells} (h : b.outcome key found = .ok (some c))
    (written : c.groupCells? = some cells) :
    ∃ left, b.descriptor.index.cells left = .ok cells ∧
      (¬b.Strays key found left → ∀ row : Row, row.Carries cells →
      ∀ later : Buffer, later.Alike b → ∀ json key', later.descriptor.groupKey json = .ok key' →
        key ≠ key' → (later.Finds dialect backend key' row ↔ Value.AreZeros key key')) := by
  obtain ⟨json, hjson⟩ := keyed.exists_row touched
  obtain ⟨column, c, grouped, hc, kind, _⟩ := exists_kind hjson hjson
  have declared : (b.descriptor.index.column? column).isSome = true := by rw [hc]; rfl
  obtain ⟨left, hcells, carry⟩ := carry_iff_of_outcome grouped declared touched h written
  refine ⟨left, hcells, fun stays row carries later alike json' key' hjson' apart => ?_⟩
  -- The cells carry the key, so the row has it.
  obtain ⟨v, value, agrees⟩ := (Option.any_eq_true _ _).1 (carry.2 stays)
  have hleft : b.descriptor.groupKey left = .ok v :=
    (Descriptor.groupKey_eq_ok_iff grouped).2 ⟨cells, hcells, value⟩
  obtain ⟨_, c', grouped', hc', kindv, _⟩ := exists_kind hleft hleft
  cases grouped.symm.trans grouped'
  cases hc.symm.trans hc'
  obtain rfl := (Value.agrees_iff_eq kindv kind).1 agrees
  have grouped' : later.descriptor.groupColumn = some column := alike.2.trans grouped
  have declared' : (later.descriptor.index.column? column).isSome = true := by rwa [alike.1]
  obtain ⟨_, c'', grouped'', hc'', kind', _⟩ := exists_kind hjson' hjson'
  cases grouped'.symm.trans grouped''
  rw [alike.1, hc] at hc''
  cases hc''
  exact finds_other_iff known exact grouped' declared' kind kind' (carries.cell_eq value) apart

end Found

end Buffer

/-! ## The commands of a flush -/

/-- The row of an index table that a command changes or deletes, by its table and its id. -/
def Command.row? : Command → Option (String × Int64)
  | .updateReduceRow names index id _ _ _ | .deleteReduceRow names index id =>
    some (names.index index, id)
  | _ => none

/-- No two rows of a table have one id. -/
def Database.Identified (db : Database) (table : String) : Prop :=
  ∀ row ∈ db table, ∀ row' ∈ db table, ∀ id, row.getInt64 Column.idName = .ok id →
    row'.getInt64 Column.idName = .ok id → row = row'

/-- The surroundings answer a query of an index without order and pages by the rows that a backend
finds its condition true of. -/
def Storage.SelectsBy {σ : Type} (S : Storage σ) (dialect : Dialect) (b : Backend) : Prop :=
  ∀ {conn : Connection} {index table : String} {filter : Sql} {ps : Parameters} {st st' : σ}
    {rows : List Row},
    S.answer (.query conn (.query (.indexRows index table filter [] none) ps)) st =
        (.ok rows, st') →
      rows.Perm ((S.tables st table).filter fun row =>
        CompiledCondition.truth? ⟨filter, ps⟩ dialect { b with tables := S.tables st }
          (fun _ => row) = some true)

namespace Buffer

variable {b : Buffer} {dialect : Dialect} {backend : Backend} {key : Value}

/-- Rows of the index table that a backend finds for a group. -/
def FoundBy (dialect : Dialect) (backend : Backend) (db : Database) (b : Buffer) (key : Value)
    (rows : List Row) : Prop :=
  ∀ row ∈ rows, row ∈ db (b.names.index b.descriptor.index.name) ∧
    b.Finds dialect { backend with tables := db } key row

theorem foundBy_of_lookup {σ : Type} {S : Storage σ} (selects : S.SelectsBy dialect backend)
    {conn : Connection} {q : Statement} {st st' : σ} {rows : List Row}
    (lookup : b.lookup dialect key = .ok q)
    (answered : S.answer (.query conn q) st = (.ok rows, st')) :
    FoundBy dialect backend (S.tables st) b key rows := by
  obtain ⟨column, _, rfl⟩ := lookup_eq_ok lookup
  intro row hrow
  obtain ⟨mem, holds⟩ := List.mem_filter.1 ((selects answered).mem_iff.1 hrow)
  exact ⟨mem, _, _, lookup, of_decide_eq_true holds⟩

/-- What is decided on changes or deletes a row that was found. -/
theorem row_of_outcome {rows : List Row} {c : Command} {t : String × Int64}
    (h : b.outcome key rows = .ok (some c)) (touches : c.row? = some t) :
    ∃ row ∈ rows, row.getInt64 Column.idName = .ok t.2 ∧
      t.1 = b.names.index b.descriptor.index.name := by
  rcases found_of_outcome h with rfl | ⟨row, rfl⟩
  · obtain ⟨_, _, _, _, ⟨_, none⟩ | ⟨_, cells, _, _, hc⟩⟩ := outcome_nil h
    · cases none
    · cases hc
      cases touches
  · obtain ⟨_, id, _, _, _, hid, _, _, ⟨_, hc⟩ | ⟨_, cells, _, _, hc⟩⟩ := outcome_singleton h <;>
      (cases hc; cases touches; exact ⟨row, List.mem_singleton_self row, hid, rfl⟩)

end Buffer

/-- What holds between the elements of one list holds between those of another that go with them. -/
theorem pairwise_of_forall₂ {α β : Type} {R : α → β → Prop} {P : α → α → Prop} {Q : β → β → Prop}
    {as : List α} {bs : List β} (each : List.Forall₂ R as bs) (h : as.Pairwise P)
    (imp : ∀ a a' b b', R a b → R a' b' → P a a' → Q b b') : bs.Pairwise Q := by
  have length := each.length_eq
  rw [List.pairwise_iff_getElem] at h ⊢
  intro i j hi hj less
  exact imp _ _ _ _ (each.get (by omega) hi) (each.get (by omega) hj)
    (h i j (by omega) (by omega) less)

/-- Two groups of a flush have no row in common, or the one has the one zero for its key
and the other the other. -/
theorem Arena.touched_apart {dialect : Dialect} (known : dialect = .standard ∨ dialect = .sqlite)
    {b : Backend} (exact : b.Equates) {catalog : Catalog} (distinct : catalog.Distinct)
    {arena : Arena} (tidy : arena.Tidy catalog) (keyed : ∀ buffer ∈ arena.buffers, buffer.Keyed)
    {db : Database}
    (identified : ∀ buffer ∈ arena.buffers,
      db.Identified (buffer.names.index buffer.descriptor.index.name))
    (oneZero : ∀ buffer ∈ arena.buffers, ∀ key ∈ buffer.keys,
      ∀ key' ∈ buffer.keys, key ≠ key' → ¬Value.AreZeros key key') :
    (touched arena.buffers).Pairwise fun g g' => ∀ row row',
      (row ∈ db (g.1.names.index g.1.descriptor.index.name) ∧
        g.1.Finds dialect { b with tables := db } g.2 row) →
      (row' ∈ db (g'.1.names.index g'.1.descriptor.index.name) ∧
        g'.1.Finds dialect { b with tables := db } g'.2 row') →
      g.1.names.index g.1.descriptor.index.name = g'.1.names.index g'.1.descriptor.index.name →
      ∀ id, row.getInt64 Column.idName = .ok id → row'.getInt64 Column.idName ≠ .ok id := by
  rw [touched, List.pairwise_flatMap]
  constructor
  · intro buffer hbuffer
    rw [List.pairwise_map]
    refine (Value.pairwise_distinct _).imp_of_mem
      fun {key key'} hkey hkey' disagree row row' found found' _ id hid hid' => ?_
    obtain ⟨json, hjson⟩ := (keyed buffer hbuffer).exists_row hkey
    obtain ⟨json', hjson'⟩ := (keyed buffer hbuffer).exists_row hkey'
    have differ : key ≠ key' := by
      rintro rfl
      rw [Value.agrees_self] at disagree
      cases disagree
    obtain rfl := identified buffer hbuffer row found.1 row' found'.1 id hid hid'
    have exact' : Backend.Equates { b with tables := db } := exact
    exact oneZero buffer hbuffer key hkey key' hkey' differ
      ((Buffer.exists_both_iff known exact' hjson hjson' differ).1 ⟨row, found.2, found'.2⟩)
  · refine tidy.distinct.imp_of_mem fun {buffer buffer'} hbuffer hbuffer' other => ?_
    rintro _ hg _ hg' row row' found found' table
    obtain ⟨key, _, rfl⟩ := List.mem_map.1 hg
    obtain ⟨key', _, rfl⟩ := List.mem_map.1 hg'
    obtain ⟨used, kind, entity, hd⟩ := tidy.described buffer hbuffer
    obtain ⟨used', kind', entity', hd'⟩ := tidy.described buffer' hbuffer'
    have same := distinct (.rows .reduce buffer.names buffer.descriptor.index.name)
      (.rows .reduce buffer'.names buffer'.descriptor.index.name) ⟨used, entity, _, hd, kind, rfl⟩
      ⟨used', entity', _, hd', kind', rfl⟩ table
    injection same with _ names index
    exact absurd ⟨names, index⟩ other

/-- No two commands of a flush change or delete one row, unless a group has the one zero for its key
and another the other. -/
theorem FlushPlan.nodup_rows {dialect : Dialect} (known : dialect = .standard ∨ dialect = .sqlite)
    {b : Backend} (exact : b.Equates) {σ : Type} {S : Storage σ}
    (faithful : S.Faithful fun _ => True) (selects : S.SelectsBy dialect b) {catalog : Catalog}
    (distinct : catalog.Distinct) {check : Bool} {edits : List Edit} {p : FlushPlan}
    (inUse : ∀ e ∈ edits, catalog.collections e.names)
    (planned : Edit.planAll check catalog edits = .ok p)
    (keyed : ∀ buffer ∈ p.arena.buffers, buffer.Keyed) {conn : Connection} {st st' : σ}
    {commands : List Command}
    (identified : ∀ buffer ∈ p.arena.buffers,
      (S.tables st).Identified (buffer.names.index buffer.descriptor.index.name))
    (finished : Action.Yields S.answer (p.arena.finish conn dialect) st commands st')
    (oneZero : ∀ buffer ∈ p.arena.buffers, ∀ key ∈ buffer.keys,
      ∀ key' ∈ buffer.keys, key ≠ key' → ¬Value.AreZeros key key') :
    (commands.filterMap Command.row?).Nodup := by
  obtain ⟨_, emitted, ⟨cs, each, rfl⟩, rfl⟩ := decidedFrom_of_finish faithful
    (F := Buffer.FoundBy dialect b) (Buffer.foundBy_of_lookup selects) finished
  have tidy := Edit.tidy_of_planAll inUse planned
  have pushed : p.arena.commands.filterMap Command.row? = [] := by
    refine List.filterMap_eq_nil_iff.2 fun c hc => ?_
    obtain ⟨e, _, h⟩ := (Edit.mem_pushed_iff planned).1 hc
    rcases Edit.mem_commands_iff.1 h with rfl | ⟨d, _, h⟩
    · cases e <;> rfl
    · obtain ⟨_, rfl | ⟨_, cells, rfl⟩⟩ := Edit.cases_of_mem_mapCommands h <;> rfl
  rw [((Command.inOrder_perm _).filterMap _).nodup_iff, List.filterMap_append, pushed,
    List.nil_append, List.reduceOption, List.filterMap_filterMap, List.Nodup,
    List.pairwise_filterMap]
  have apart := Arena.touched_apart known exact distinct tidy keyed identified oneZero
  refine pairwise_of_forall₂ each apart fun g g' c c' h h' apart t ht t' ht' => ?_
  obtain ⟨rows, found, outcome⟩ := h
  obtain ⟨rows', found', outcome'⟩ := h'
  obtain ⟨c, rfl, touches⟩ := Option.bind_eq_some_iff.1 ht
  obtain ⟨c', rfl, touches'⟩ := Option.bind_eq_some_iff.1 ht'
  obtain ⟨row, hrow, id, table⟩ := Buffer.row_of_outcome outcome touches
  obtain ⟨row', hrow', id', table'⟩ := Buffer.row_of_outcome outcome' touches'
  rintro rfl
  exact apart row row' (found row hrow) (found' row' hrow') (table.symm.trans table') t.2 id id'

/-- Mapped rows in different groups have look-ups without a row in common, but for those of the two
zeros. So no two commands of a flush change or delete one row of an index, and a row that is written
for a group that does not stray is found for no other key, but for those zeros. -/
theorem grouped_as_looked_up {dialect : Dialect} (known : dialect = .standard ∨ dialect = .sqlite)
    {b : Backend} (exact : b.Equates) :
    (∀ {buffer : Buffer}, buffer.Keyed → ∀ e ∈ buffer.entries,
      ∀ e' ∈ buffer.entries, ¬buffer.Together e e' →
      (∃ q q', buffer.lookup dialect e.key = .ok q ∧ buffer.lookup dialect e'.key = .ok q') ∧
      ((∀ row, ¬(buffer.Finds dialect b e.key row ∧ buffer.Finds dialect b e'.key row)) ↔
        ¬Value.AreZeros e.key e'.key)) ∧
    (∀ {σ : Type} {S : Storage σ} {catalog : Catalog} {check : Bool} {edits : List Edit}
      {p : FlushPlan} {conn : Connection}
      {st st' : σ} {commands : List Command}, S.Faithful (fun _ => True) →
        S.SelectsBy dialect b → catalog.Distinct →
      (∀ e ∈ edits, catalog.collections e.names) → Edit.planAll check catalog edits = .ok p →
      (∀ buffer ∈ p.arena.buffers, buffer.Keyed) →
      (∀ buffer ∈ p.arena.buffers,
        (S.tables st).Identified (buffer.names.index buffer.descriptor.index.name)) →
      Action.Yields S.answer (p.arena.finish conn dialect) st commands st' →
      (∀ buffer ∈ p.arena.buffers, ∀ key ∈ buffer.keys, ∀ key' ∈ buffer.keys,
          key ≠ key' → ¬Value.AreZeros key key') →
        (commands.filterMap Command.row?).Nodup) ∧
    (∀ {buffer : Buffer} {key : Value} {found : List Row} {c : Command} {cells : Cells},
      buffer.Keyed → key ∈ buffer.keys →
      buffer.outcome key found = .ok (some c) → c.groupCells? = some cells →
        ∃ left, buffer.descriptor.index.cells left = .ok cells ∧
          (¬buffer.Strays key found left → ∀ row : Row, row.Carries cells →
          ∀ later : Buffer, later.Alike buffer → ∀ json key',
            later.descriptor.groupKey json = .ok key' → key ≠ key' →
            (later.Finds dialect b key' row ↔ Value.AreZeros key key'))) := by
  refine ⟨?_, ?_, ?_⟩
  · intro buffer keyed e he e' he' other
    rw [keyed.together_iff he he'] at other
    obtain ⟨column, c, grouped, hc, _⟩ := Buffer.exists_kind (keyed e he) (keyed e' he')
    have declared : (buffer.descriptor.index.column? column).isSome = true := by rw [hc]; rfl
    obtain ⟨q, lookup⟩ := Buffer.exists_lookup dialect e.key grouped declared
    obtain ⟨q', lookup'⟩ := Buffer.exists_lookup dialect e'.key grouped declared
    refine ⟨⟨q, q', lookup, lookup'⟩, ?_⟩
    rw [← not_exists, Buffer.exists_both_iff known exact (keyed e he) (keyed e' he') other]
  · intro σ S catalog check edits p conn st st' commands faithful selects distinct inUse planned
      keyed identified finished oneZero
    exact FlushPlan.nodup_rows known exact faithful selects distinct inUse planned keyed identified
      finished oneZero
  · intro buffer key found c cells keyed touched outcome written
    exact keyed.finds_written_iff known exact touched outcome written

/-- A backend that compares numbers by their values. -/
def Backend.numeric (tables : Database) : Backend where
  __ := plain tables
  compare
    | .eq, v, w => v.equals w
    | .ne, v, w => !v.equals w
    | op, v, w => (plain tables).compare op v w
  int_eq i j := by
    simp [Value.equals, Value.scaled?, Nat.ne_of_gt Value.unitsPerOne_pos, Int64.toInt_inj]
  bool_eq flag v := by cases flag <;> simp [Value.equals, Value.scaled?]
  ne_eq v w := rfl

theorem Backend.equates_numeric (tables : Database) : (numeric tables).Equates := by
  intro v w
  unfold compared
  split
  · next null =>
    refine ⟨fun h => (by cases h), fun same => ?_⟩
    rcases Bool.or_eq_true_iff.1 null with null | null
    · obtain rfl : v = .null := by simpa [Value.isNull] using null
      exact absurd same (Value.not_null_equals w)
    · obtain rfl : w = .null := by simpa [Value.isNull] using null
      cases v <;> simp [Value.equals, Value.scaled?] at same
  · exact Option.some_inj

namespace Memory

/-- A memory that answers look-ups as a backend finds them. -/
def selecting (settings : Settings) (catalog : Catalog) (b : Backend) : Storage Memory where
  answer
    | .query _ (.query (.indexRows _ table filter [] none) ps), m =>
      (.ok ((m.tables table).filter fun row =>
        CompiledCondition.truth? ⟨filter, ps⟩ settings.dialect { b with tables := m.tables }
          (fun _ => row) = some true), m)
    | r, m => answer settings catalog r m
  tables := tables

variable {settings : Settings} {catalog : Catalog} {b : Backend}

theorem selectsBy : (selecting settings catalog b).SelectsBy settings.dialect b := by
  intro conn index table filter ps m m' rows h
  cases h
  exact List.Perm.refl _

theorem faithful_selecting {kept : String → Prop} :
    (selecting settings catalog b).Faithful kept := by
  have plain : (storage settings catalog).Faithful kept := faithful
  refine ⟨plain.executed, plain.refused, plain.inserted, plain.notInserted,
    fun {r m} quiet t ht => ?_⟩
  have same : ((selecting settings catalog b).answer r m).2 = (answer settings catalog r m).2 := by
    unfold selecting
    dsimp only
    split <;> rfl
  rw [same]
  exact plain.quiet quiet t ht

end Memory

namespace Counting

def scores : IndexType := ⟨"Scores", [⟨"Score", .real, false⟩, ⟨"Units", .integer, false⟩], some⟩

/-- A row that counts units of a score. -/
def scored (score : Double) (units : Int) : Json :=
  .obj [("Score", .real score), ("Units", .int units)]

/-- Counts the articles of a score. -/
def scoring : Descriptor :=
  ⟨⟨"Article", some, fun _ => 0, fun _ json => json⟩, scores, fun content => [content],
    some "Score", some List.head?,
    some fun current removed => (current.field? "Score").map fun score =>
      .obj [("Score", score), ("Units", .int (units current - (removed.map units).sum))]⟩

def one : Double := ⟨0x3ff0000000000000⟩

/-- An article of a zero goes. -/
def withdrawal (negative : Bool) (document : Int64) : MappedRow :=
  ⟨scored (.zero negative) 1, .float (.zero negative), document, .removed⟩

/-- Articles of both zeros go, and one of another score comes. -/
def rescored : Buffer :=
  ⟨main, scoring, [withdrawal false 1, withdrawal true 2, ⟨scored one 1, .float one, 3, .added⟩]⟩

theorem keyed_rescored : rescored.Keyed := by
  simp only [Buffer.Keyed, rescored, List.forall_mem_cons, List.not_mem_nil, false_imp_iff,
    implies_true, and_true]
  exact ⟨rfl, rfl, rfl⟩

/-- The article that was moved goes back to its day. -/
def restored : List Edit :=
  [.update main 1 "Article" (article 1) "restored" ⟨"moved", article 2, 2⟩]

/-- What the restoration has for the index. -/
def restoring : Buffer :=
  ⟨main, articles, [⟨counted 2 1, .int 2, 1, .removed⟩, ⟨counted 1 1, .int 1, 1, .added⟩]⟩

theorem keyed_restoring : restoring.Keyed := by
  simp only [Buffer.Keyed, restoring, List.forall_mem_cons, List.not_mem_nil, false_imp_iff,
    implies_true, and_true]
  exact ⟨rfl, rfl⟩

/-- A memory that compares numbers by their values. -/
def numbered : Storage Memory := Memory.selecting settings catalog (.numeric fun _ => [])

theorem faithful_numbered : numbered.Faithful fun _ => True := Memory.faithful_selecting

theorem selectsBy_numbered : numbered.SelectsBy .sqlite (.numeric fun _ => []) :=
  @Memory.selectsBy settings _ _

/-- The commands at the end of a flush. -/
def finished (arena : Arena) (m : Memory) : Option (List Command) :=
  (Program.run numbered.answer (arena.finish 0 .sqlite).run m).1.toOption

theorem yields_of_finished {arena : Arena} {m : Memory} {commands : List Command}
    (h : finished arena m = some commands) :
    Action.Yields numbered.answer (arena.finish 0 .sqlite) m commands
      (Program.run numbered.answer (arena.finish 0 .sqlite).run m).2 :=
  Prod.ext (toOption_eq_some_iff.1 h) rfl

theorem finished_restoring :
    finished ⟨[restoring], [.updateDocument main 1 "Article" "restored" 3 (some 2)]⟩ afterRevised =
    some [.updateDocument main 1 "Article" "restored" 3 (some 2),
      .updateReduceRow main "ByDay" 1 [("Day", .int 1), ("Units", .int 2)] [1] [],
      .deleteReduceRow main "ByDay" 2] := by decide +kernel

theorem planned_restored : (Edit.planAll true catalog restored).map (fun p => p.arena) =
    .ok ⟨[restoring], [.updateDocument main 1 "Article" "restored" 3 (some 2)]⟩ := by rfl

theorem identified_afterRevised :
    (numbered.tables afterRevised).Identified
      (restoring.names.index restoring.descriptor.index.name) := by
  change Database.Identified afterRevised.tables "ByDay"
  intro row hrow row' hrow' id hid hid'
  rw [rows_afterRevised] at hrow hrow'
  simp only [List.mem_cons, List.not_mem_nil, or_false] at hrow hrow'
  rcases hrow with rfl | rfl <;> rcases hrow' with rfl | rfl
  · rfl
  · rw [Row.getInt64_idCell] at hid hid'
    cases hid.trans hid'.symm
  · rw [Row.getInt64_idCell] at hid hid'
    cases hid.trans hid'.symm
  · rfl

theorem grouped_as_looked_up_restored :
    (∃ row, rescored.Finds .sqlite (.numeric fun _ => []) (.float (.zero false)) row ∧
      rescored.Finds .sqlite (.numeric fun _ => []) (.float (.zero true)) row) ∧
    (∀ row, ¬(rescored.Finds .sqlite (.numeric fun _ => []) (.float (.zero false)) row ∧
      rescored.Finds .sqlite (.numeric fun _ => []) (.float one) row)) ∧
    (∃ p commands m, Edit.planAll true catalog restored = .ok p ∧
      Action.Yields numbered.answer (p.arena.finish 0 .sqlite) afterRevised commands m ∧
      commands.filterMap Command.row? = [("ByDay", 1), ("ByDay", 2)] ∧
        (commands.filterMap Command.row?).Nodup) ∧
    ∀ id, ¬rescored.Finds .sqlite (.numeric fun _ => []) (.float (.zero true))
      ⟨[Command.idCell id, ("Score", .float one), ("Units", .int 1)]⟩ := by
  obtain ⟨lookups, flushes, rows⟩ :=
    grouped_as_looked_up (.inr rfl) (Backend.equates_numeric fun _ => [])
  have entries : withdrawal false 1 ∈ rescored.entries ∧ withdrawal true 2 ∈ rescored.entries ∧
    ⟨scored one 1, .float one, 3, .added⟩ ∈ rescored.entries := by simp [rescored]
  have apart {e e' : MappedRow} (he : e ∈ rescored.entries) (he' : e' ∈ rescored.entries)
      (differ : e.key ≠ e'.key) :
    ¬rescored.Together e e' :=
    fun together => differ ((keyed_rescored.together_iff he he').1 together)
  refine ⟨?_, ?_, ?_, ?_⟩
  · by_contra none
    have disjoint := not_exists.1 none
    exact (lookups keyed_rescored _ entries.1 _ entries.2.1
        (apart entries.1 entries.2.1 (by decide +kernel))).2.1 disjoint
      ⟨by decide +kernel, by decide +kernel⟩
  · refine (lookups keyed_rescored _ entries.1 _ entries.2.2
      (apart entries.1 entries.2.2 (by decide +kernel))).2.2 fun zeros => ?_
    exact absurd zeros.2 (by decide +kernel)
  · obtain ⟨p, planned, arena⟩ := map_eq_ok_iff.1 planned_restored
    have ran : Action.Yields numbered.answer (p.arena.finish 0 .sqlite) afterRevised
        [.updateDocument main 1 "Article" "restored" 3 (some 2),
          .updateReduceRow main "ByDay" 1 [("Day", .int 1), ("Units", .int 2)] [1] [],
          .deleteReduceRow main "ByDay" 2] _ :=
      yields_of_finished (arena ▸ finished_restoring)
    have buffers {b : Buffer} (hb : b ∈ p.arena.buffers) : b = restoring := by
      rw [arena] at hb
      exact List.mem_singleton.1 hb
    refine ⟨p, _, _, planned, ran, by decide +kernel, ?_⟩
    refine flushes faithful_numbered selectsBy_numbered catalog_distinct (fun e he => ?_) planned
      (fun b hb => ?_) (fun b hb => ?_) ran fun b hb key hkey key' hkey' differ zeros => ?_
    · rw [List.mem_singleton.1 he]
      rfl
    · rw [buffers hb]
      exact keyed_restoring
    · rw [buffers hb]
      exact identified_afterRevised
    · rw [buffers hb] at hkey
      have keys : restoring.keys = [.int 2, .int 1] := by rfl
      rw [keys] at hkey
      simp only [List.mem_cons, List.not_mem_nil, or_false] at hkey
      rcases hkey with rfl | rfl <;> exact zeros
  · intro id finds
    have created : rescored.outcome (.float one) [] =
        .ok (some (.createReduceRow main "Scores" [("Score", .float one),
          ("Units", .int 1)] [3])) :=
      toOption_eq_some_iff.1 (by decide +kernel)
    obtain ⟨left, _, found⟩ := rows keyed_rescored (by decide +kernel) created rfl
    have joined : rescored.group (.float one) .removed = [] :=
      List.filter_eq_nil_iff.2 (by decide +kernel)
    have carries : Row.Carries ⟨[Command.idCell id, ("Score", .float one), ("Units", .int 1)]⟩
        [("Score", .float one), ("Units", .int 1)] := by
      intro name mem
      simp only [List.map_cons, List.map_nil, List.mem_cons, List.not_mem_nil, or_false] at mem
      rcases mem with rfl | rfl <;> rfl
    have same := found (fun strays => strays.elim fun _ h => h.2.1 joined) _ carries rescored
      ⟨rfl, rfl⟩ (withdrawal true 2).row
      (.float (.zero true)) (keyed_rescored _ entries.2.1) (by decide +kernel)
    exact absurd (same.1 finds).1 (by decide +kernel)

/-- The one row of both zeros. -/
def ofZeros : Memory :=
  ⟨fun t =>
    if t = "Scores" then [⟨[Command.idCell 5, ("Score", .float (.zero false)), ("Units", .int 3)]⟩]
      else [], 5, ∅⟩

/-- Both groups of zeros are taken out of the one row, and the second forgets the first. -/
example : finished ⟨[rescored], []⟩ ofZeros =
    some [.createReduceRow main "Scores" [("Score", .float one), ("Units", .int 1)] [3],
      .updateReduceRow main "Scores" 5 [("Score", .float (.zero false)), ("Units", .int 2)] [] [1],
      .updateReduceRow main "Scores" 5 [("Score", .float (.zero false)), ("Units", .int 2)]
        [] [2]] := by
  decide +kernel

end Counting

end DocStore

import DocStore.CompiledQuery
import DocStore.Proofs.Running

/-!
# What a discriminator tells

SQL is kept under a word of two halves: the number of the query, and a bit for
every nullable capture of its condition. A query that was built has no more of
these than bits, so that the word tells both halves apart and nothing else: two
of them are equal just if the numbers are and the same captures are null.
-/

set_option autoImplicit false

namespace DocStore

/-- The nullable capture at a position among all nullable ones is null. -/
def NullAt (args : Arguments) (cs : List Capture) (k : Nat) : Prop :=
  ∃ c, (cs.filter Capture.nullable)[k]? = some c ∧ c.read args = some .null

section NullAt

variable {args : Arguments} {c : Capture} {cs : List Capture} {k : Nat}

theorem nullAt_zero_iff (nullable : c.nullable = true) :
    NullAt args (c :: cs) 0 ↔ c.read args = some .null := by
  unfold NullAt
  rw [List.filter_cons_of_pos nullable]
  simp

theorem nullAt_succ_iff (nullable : c.nullable = true) :
    NullAt args (c :: cs) (k + 1) ↔ NullAt args cs k := by
  unfold NullAt
  rw [List.filter_cons_of_pos nullable, List.getElem?_cons_succ]

/-- A capture that is not nullable has no position. -/
theorem nullAt_cons_iff (required : ¬c.nullable = true) :
    NullAt args (c :: cs) k ↔ NullAt args cs k := by
  unfold NullAt
  rw [List.filter_cons_of_neg required]

theorem NullAt.lt (h : NullAt args cs k) : k < cs.countP Capture.nullable := by
  obtain ⟨c, found, -⟩ := h
  rw [List.countP_eq_length_filter]
  exact (List.getElem?_eq_some_iff.1 found).1

theorem exists_nullAt_iff (member : c ∈ cs) (nullable : c.nullable = true) :
    ∃ k, ∀ args, NullAt args cs k ↔ c.read args = some .null := by
  obtain ⟨k, found⟩ := List.getElem?_of_mem (List.mem_filter.2 ⟨member, nullable⟩)
  refine ⟨k, fun args => ⟨?_, fun null => ⟨c, found, null⟩⟩⟩
  rintro ⟨c', found', null⟩
  obtain rfl := Option.some.inj (found.symm.trans found')
  exact null

end NullAt

/-- What noting a null capture does to the bits. -/
theorem testBit_noted (bits : UInt64) (null : Bool) {k : Nat} (h : k < 64) (i : Nat) :
    (if null then bits ||| ((1 : UInt64) <<< UInt64.ofNat k) else bits).toNat.testBit i =
      (bits.toNat.testBit i || (null && decide (i = k))) := by
  cases null with
  | false => simp
  | true =>
    have one : ((1 : UInt64) <<< UInt64.ofNat k).toNat = 2 ^ k := by
      have small : k < 2 ^ 64 := Nat.lt_trans h (by decide)
      rw [UInt64.toNat_shiftLeft, UInt64.toNat_ofNat', Nat.mod_eq_of_lt small, Nat.mod_eq_of_lt h,
        UInt64.toNat_one, Nat.one_shiftLeft, Nat.mod_eq_of_lt (Nat.pow_lt_pow_right (by decide) h)]
    rw [if_pos rfl, UInt64.toNat_or, Nat.testBit_or, one, Nat.testBit_two_pow, Bool.true_and]
    congr 1
    exact decide_eq_decide.2 eq_comm

namespace CompiledQuery

variable {a b args : Arguments} {q q' : CompiledQuery} {d d' : UInt64}

/-- Reading one capture: a nullable one takes a bit, and one that is not must not be null. -/
theorem nullBits_cons {c : Capture} {cs : List Capture} {bit : Nat} {bits r : UInt64}
    (h : nullBits args (c :: cs) bit bits = .ok r) :
    ∃ v, c.read args = some v ∧
      if c.nullable then
        nullBits args cs (bit + 1) (if v.isNull then bits ||| ((1 : UInt64) <<< UInt64.ofNat bit)
          else bits) = .ok r
      else v.isNull = false ∧ nullBits args cs bit bits = .ok r := by
  unfold nullBits at h
  split at h
  · cases h
  · next v hv =>
    refine ⟨v, hv, ?_⟩
    split at h
    · next nullable => rwa [if_pos nullable]
    · next required =>
      rw [if_neg required]
      split at h
      · cases h
      · next present => exact ⟨by simpa using present, h⟩

/-- Reading captures sets the bits of those that are null, from the next bit on, and no others. -/
theorem testBit_nullBits_iff {cs : List Capture} {bit : Nat} {bits r : UInt64}
    (h : nullBits args cs bit bits = .ok r)
    (room : bit + cs.countP Capture.nullable ≤ 64) (i : Nat) :
    r.toNat.testBit i = true ↔ bits.toNat.testBit i = true ∨
    (bit ≤ i ∧ NullAt args cs (i - bit)) := by
  induction cs generalizing bit bits with
  | nil =>
    obtain rfl := Except.ok.inj h
    simp [NullAt]
  | cons c cs ih =>
    rw [List.countP_cons] at room
    obtain ⟨v, read, h⟩ := nullBits_cons h
    by_cases nullable : c.nullable = true
    · rw [if_pos nullable] at h room
      rw [ih h (by omega), testBit_noted bits _ (by omega), Bool.or_eq_true, or_assoc]
      refine or_congr_right ?_
      have here : v.isNull = true ↔ NullAt args (c :: cs) 0 := by
        rw [nullAt_zero_iff nullable, read, Option.some.injEq]
        exact decide_eq_true_iff
      rw [Bool.and_eq_true, decide_eq_true_iff, here]
      constructor
      · rintro (⟨null, rfl⟩ | ⟨later, null⟩)
        · exact ⟨Nat.le_refl i, by rwa [Nat.sub_self]⟩
        · refine ⟨by omega, ?_⟩
          rw [show i - bit = i - (bit + 1) + 1 by omega]
          exact (nullAt_succ_iff nullable).2 null
      · rintro ⟨le, null⟩
        by_cases same : i = bit
        · subst same
          rw [Nat.sub_self] at null
          exact .inl ⟨null, rfl⟩
        · rw [show i - bit = i - (bit + 1) + 1 by omega, nullAt_succ_iff nullable] at null
          exact .inr ⟨by omega, null⟩
    · rw [if_neg nullable] at h room
      rw [ih h.2 (by omega), nullAt_cons_iff nullable]

/-- Every capture can be read, and is not null unless it is nullable. -/
theorem reads_of_nullBits {cs : List Capture} {bit : Nat} {bits r : UInt64}
    (h : nullBits args cs bit bits = .ok r) :
    ∀ c ∈ cs, ∃ v, c.read args = some v ∧ (c.nullable = false → v.isNull = false) := by
  induction cs generalizing bit bits with
  | nil =>
    intro c none
    cases none
  | cons c cs ih =>
    obtain ⟨v, read, h⟩ := nullBits_cons h
    refine List.forall_mem_cons.2 ?_
    by_cases nullable : c.nullable = true
    · rw [if_pos nullable] at h
      refine ⟨⟨v, read, fun required => ?_⟩, ih h⟩
      rw [nullable] at required
      cases required
    · rw [if_neg nullable] at h
      exact ⟨⟨v, read, fun _ => h.1⟩, ih h.2⟩

/-- What building a query and adding order terms and paging to it can make. -/
inductive Built : CompiledQuery → Prop where
  | create {shape : UInt32} {index : IndexType} {condition : Expr} {q : CompiledQuery} :
    CompiledQuery.create shape index condition = .ok q → Built q
  | orderBy {q : CompiledQuery} (e : Expr) (descending : Bool) :
      Built q → Built (q.orderBy e descending)
  | skip {q : CompiledQuery} (n : Nat) : Built q → Built (q.skip n)
  | take {q : CompiledQuery} (n : Nat) : Built q → Built (q.take n)

theorem shape_of_create {shape : UInt32} {index : IndexType} {condition : Expr} {q : CompiledQuery}
    (h : CompiledQuery.create shape index condition = .ok q) : q.shape = shape := by
  unfold CompiledQuery.create at h
  dsimp only at h
  split at h <;> cases h
  rfl

/-- A query that was built has a bit for each of its nullable captures. -/
theorem Built.countP_le {q : CompiledQuery} (h : Built q) :
    q.condition.captures.countP Capture.nullable ≤ maxNullableCaptures := by
  induction h with
  | create h =>
    unfold CompiledQuery.create at h
    dsimp only at h
    split at h
    · cases h
    · next few =>
      cases h
      exact Nat.le_of_not_lt few
  | orderBy _ _ _ ih | skip _ _ ih | take _ _ ih => exact ih

theorem Built.lt_of_nullAt (built : q.Built) {k : Nat}
    (h : NullAt args q.condition.captures k) : k < 32 :=
  Nat.lt_of_lt_of_le h.lt built.countP_le

/-- The bits of a discriminator: those of null captures, and behind them those of
the number of the query. -/
theorem testBit_discriminator_iff (built : q.Built) (h : q.discriminator args = .ok d) (i : Nat) :
    d.toNat.testBit i = true ↔
      (32 ≤ i ∧ q.shape.toNat.testBit (i - 32) = true) ∨ NullAt args q.condition.captures i := by
  obtain ⟨bits, noted, same⟩ := bind_eq_ok_iff.1 h
  obtain rfl := Except.ok.inj same
  have few := built.countP_le
  unfold maxNullableCaptures at few
  have low := testBit_nullBits_iff noted (by omega) i
  have high : (q.shape.toUInt64 <<< 32).toNat = q.shape.toNat <<< 32 := by
    have small : q.shape.toNat <<< 32 < 2 ^ 64 := by
      have word := q.shape.toNat_lt
      rw [Nat.shiftLeft_eq]
      omega
    rw [UInt64.toNat_shiftLeft]
    exact Nat.mod_eq_of_lt small
  rw [UInt64.toNat_or, Nat.testBit_or, Bool.or_eq_true, high, Nat.testBit_shiftLeft,
    Bool.and_eq_true, decide_eq_true_iff, low]
  simp

/-- The high half is the number of the query; no null bit reaches it. -/
theorem shape_of_discriminator (built : q.Built) (h : q.discriminator args = .ok d) :
    d.toNat >>> 32 = q.shape.toNat := by
  refine Nat.eq_of_testBit_eq fun i => Bool.eq_iff_iff.2 ?_
  rw [Nat.testBit_shiftRight, testBit_discriminator_iff built h, Nat.add_sub_cancel_left]
  constructor
  · rintro (⟨-, set⟩ | null)
    · exact set
    · have beyond := built.lt_of_nullAt null
      omega
  · intro set
    exact .inl ⟨Nat.le_add_right 32 i, set⟩

/-- The low half has the bits of the captures that are null. -/
theorem nullAt_iff_testBit (built : q.Built) (h : q.discriminator args = .ok d) (k : Nat) :
    NullAt args q.condition.captures k ↔ k < 32 ∧ d.toNat.testBit k = true := by
  rw [testBit_discriminator_iff built h]
  constructor
  · intro null
    exact ⟨built.lt_of_nullAt null, .inr null⟩
  · rintro ⟨lt, ⟨le, -⟩ | null⟩
    · omega
    · exact null

/-- Equal discriminators tell that the queries have the same number. -/
theorem shape_eq_of_discriminator (built : q.Built) (built' : q'.Built)
    (ha : q.discriminator a = .ok d) (hb : q'.discriminator b = .ok d) : q.shape = q'.shape := by
  apply UInt32.toNat_inj.1
  rw [← shape_of_discriminator built ha, ← shape_of_discriminator built' hb]

/-- A query has a discriminator only if its captures can be read and are not null
unless they are nullable. -/
theorem reads_of_discriminator (h : q.discriminator args = .ok d) :
    ∀ c ∈ q.condition.captures, ∃ v, c.read args = some v ∧
      (c.nullable = false → v.isNull = false) := by
  obtain ⟨bits, noted, -⟩ := bind_eq_ok_iff.1 h
  exact reads_of_nullBits noted

/-- Equal discriminators tell that every capture of the condition is null for both
arguments or for neither. -/
theorem isNull_eq_of_discriminator (built : q.Built) (ha : q.discriminator a = .ok d)
    (hb : q.discriminator b = .ok d) :
    ∀ c ∈ q.condition.captures, ∃ v w, c.read a = some v ∧
      c.read b = some w ∧ v.isNull = w.isNull := by
  intro c member
  obtain ⟨v, hv, present⟩ := reads_of_discriminator ha c member
  obtain ⟨w, hw, present'⟩ := reads_of_discriminator hb c member
  refine ⟨v, w, hv, hw, ?_⟩
  cases nullable : c.nullable with
  | false => rw [present nullable, present' nullable]
  | true =>
    obtain ⟨k, null_iff⟩ := exists_nullAt_iff member nullable
    have told := (nullAt_iff_testBit built ha k).trans (nullAt_iff_testBit built hb k).symm
    rw [null_iff, null_iff, hv, hw, Option.some.injEq, Option.some.injEq] at told
    exact decide_eq_decide.2 told

/-- Two discriminators are equal just if the queries have the same number and their nullable
captures are null in the same positions. The null bits stay in the low half, and there is no
discriminator if a capture that is not nullable is null. -/
theorem discriminator_exact (built : q.Built) (built' : q'.Built) :
    (∀ d d', q.discriminator a = .ok d → q'.discriminator b = .ok d' →
      (d = d' ↔ q.shape = q'.shape ∧ ∀ k, NullAt a q.condition.captures k ↔
        NullAt b q'.condition.captures k)) ∧
    (∀ d, q.discriminator a = .ok d → d.toNat >>> 32 = q.shape.toNat ∧
      ∀ k, NullAt a q.condition.captures k ↔ k < 32 ∧ d.toNat.testBit k = true) ∧
    ((∃ c ∈ q.condition.captures, c.nullable = false ∧ c.read a = some .null) →
      ∃ err, q.discriminator a = .error err) := by
  refine ⟨?_, ?_, ?_⟩
  · intro d d' ha hb
    constructor
    · rintro rfl
      refine ⟨shape_eq_of_discriminator built built' ha hb, fun k => ?_⟩
      rw [nullAt_iff_testBit built ha, nullAt_iff_testBit built' hb]
    · rintro ⟨shape, nulls⟩
      apply UInt64.toNat_inj.1
      refine Nat.eq_of_testBit_eq fun i => Bool.eq_iff_iff.2 ?_
      rw [testBit_discriminator_iff built ha, testBit_discriminator_iff built' hb, shape, nulls]
  · intro d ha
    exact ⟨shape_of_discriminator built ha, nullAt_iff_testBit built ha⟩
  · rintro ⟨c, member, required, null⟩
    cases told : q.discriminator a with
    | error err => exact ⟨err, rfl⟩
    | ok d =>
      obtain ⟨v, read, present⟩ := reads_of_discriminator told c member
      obtain rfl := Option.some.inj (null.symm.trans read)
      cases present required

/-- A title and an author that may be absent, and between them a kind that must be there. -/
def byTitleAndAuthor : CompiledQuery :=
  let optional (name : String) : Expr :=
  .capture ⟨name, true, fun args => some ((args name).getD .null)⟩
  let kind : Expr := .capture ⟨"kind", false, fun args => args "kind"⟩
  ⟨7, ⟨"ByTitle", [], some⟩, .and (optional "title") (.and kind (optional "author")), [],
    ⟨none, none⟩⟩

/-- The author takes the second bit, since the kind takes none. -/
theorem byTitleAndAuthor_tells_author :
    let given : Arguments := fun _ => some (.text "a")
    let unsigned : Arguments := fun name => if name = "author" then none else some (.text "a")
    ∃ d d', byTitleAndAuthor.discriminator given = .ok d ∧
      byTitleAndAuthor.discriminator unsigned = .ok d' ∧
      d ≠ d' ∧ d'.toNat >>> 32 = 7 ∧ d'.toNat.testBit 1 = true ∧
      ∃ err, byTitleAndAuthor.discriminator (fun _ => some .null) = .error err := by
  intro given unsigned
  have start : create 7 byTitleAndAuthor.index byTitleAndAuthor.condition = .ok byTitleAndAuthor :=
    rfl
  have built : byTitleAndAuthor.Built := .create start
  obtain ⟨d, hd⟩ : ∃ d, byTitleAndAuthor.discriminator given = .ok d := ⟨_, rfl⟩
  obtain ⟨d', hd'⟩ : ∃ d, byTitleAndAuthor.discriminator unsigned = .ok d := ⟨_, rfl⟩
  have absent : NullAt unsigned byTitleAndAuthor.condition.captures 1 := ⟨_, rfl, rfl⟩
  obtain ⟨same_iff, -, -⟩ := discriminator_exact (a := given) (b := unsigned) built built
  obtain ⟨-, halves, -⟩ := discriminator_exact (a := unsigned) (b := unsigned) built built
  obtain ⟨shape, nulls⟩ := halves d' hd'
  refine ⟨d, d', hd, hd', ?_, shape, ((nulls 1).1 absent).2, ?_⟩
  · intro same
    obtain ⟨c, found, null⟩ := (((same_iff d d' hd hd').1 same).2 1).2 absent
    cases found
    cases null
  · apply (discriminator_exact (b := given) built built).2.2
    refine ⟨⟨"kind", false, fun args => args "kind"⟩, ?_, rfl, rfl⟩
    simp [byTitleAndAuthor, Expr.and, Expr.captures]

end CompiledQuery

end DocStore

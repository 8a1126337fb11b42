import DocStore.Proofs.SqlMeaning

/-!
# Membership and equality

Membership in a list of one item is compiled as a comparison, so that a null item
becomes a test for null. Several items stand in a list of `IN`, which compares
each of them with `=`; a null among them leaves the answer unknown wherever no
other item decides it. Membership is therefore the disjunction of the equalities
with the items, and absence the conjunction of the inequalities, unless null is
one of several items: then they agree only on the rows that equal an item.
-/

set_option autoImplicit false

namespace DocStore

/-! ## Disjunctions and conjunctions -/

section Connectives

variable {truths : List (Option Bool)}

theorem anyHolds_eq_true_iff : anyHolds truths = some true ↔ some true ∈ truths := by
  unfold anyHolds
  induction truths with
  | nil => simp
  | cons t truths ih =>
    rw [List.foldr_cons, List.mem_cons, ← ih]
    rcases t with _ | _ | _ <;> rcases truths.foldr eitherHolds (some false) with _ | _ | _ <;>
      decide

theorem anyHolds_eq_false_iff : anyHolds truths = some false ↔ ∀ t ∈ truths, t = some false := by
  unfold anyHolds
  induction truths with
  | nil => simp
  | cons t truths ih =>
    rw [List.foldr_cons, List.forall_mem_cons, ← ih]
    rcases t with _ | _ | _ <;> rcases truths.foldr eitherHolds (some false) with _ | _ | _ <;>
      decide

/-- A disjunction of known truths is known. -/
theorem anyHolds_ne_none (known : ∀ t ∈ truths, t ≠ none) : anyHolds truths ≠ none := by
  unfold anyHolds
  induction truths with
  | nil => simp
  | cons t truths ih =>
    obtain ⟨here, later⟩ := List.forall_mem_cons.1 known
    have rest := ih later
    rw [List.foldr_cons]
    rcases t with _ | _ | _ <;> rcases h : truths.foldr eitherHolds (some false) with _ | _ | _ <;>
      first | exact absurd rfl here | exact absurd h rest | decide

/-- The disjunction, or the conjunction of what is negated. -/
def connective (negated : Bool) (truths : List (Option Bool)) : Option Bool :=
  if negated then allHold truths else anyHolds truths

/-- The conjunction of negated truths is the negation of their disjunction. -/
theorem connective_map (negated : Bool) (truths : List (Option Bool)) :
    connective negated (truths.map (Option.map (· != negated))) =
    (anyHolds truths).map (· != negated) := by
  unfold connective anyHolds allHold
  induction truths with
  | nil => cases negated <;> rfl
  | cons t truths ih =>
    cases negated
    · have same : Option.map (fun x : Bool => x != false) = id := by
        funext o
        rcases o with _ | _ | _ <;> rfl
      simp only [Bool.false_eq_true, if_false, same, List.map_id, id]
    · simp only [if_true, List.map_cons, List.foldr_cons] at ih ⊢
      rw [ih]
      rcases t with _ | _ | _ <;> rcases truths.foldr eitherHolds (some false) with _ | _ | _ <;>
        rfl

theorem connective_single (negated : Bool) (t : Option Bool) : connective negated [t] = t := by
  cases negated <;> rcases t with _ | _ | _ <;> rfl

end Connectives

/-! ## Equality with a null item -/

namespace Backend

variable (b : Backend) {v : Value} {items : List Value}

/-- Equality with an item that is known, where null equals null. -/
def equals (v item : Value) : Option Bool :=
  if item.isNull then some v.isNull else b.compared .eq v item

/-- Comparing with each item is the same unless one of them is null and none is equal. -/
theorem anyHolds_compared_eq_iff :
    anyHolds (items.map (b.compared .eq v)) = anyHolds (items.map (b.equals v)) ↔
      (∀ item ∈ items, item.isNull = false) ∨
        anyHolds (items.map (b.compared .eq v)) = some true := by
  constructor
  · intro same
    refine or_iff_not_imp_left.2 fun null => ?_
    push Not at null
    obtain ⟨item, member, null⟩ := null
    obtain rfl : item = .null := by simpa [Value.isNull] using null
    have unknown : none ∈ items.map (b.compared .eq v) :=
      List.mem_map.2 ⟨.null, member, b.compared_null_right .eq⟩
    -- The null item excludes that the first disjunction is false. The second has no unknown
    -- disjunct, except where the value is null and equals that item.
    rcases decided : anyHolds (items.map (b.equals v)) with _ | _ | _
    · cases nullValue : v.isNull with
      | true =>
        have equal : some true ∈ items.map (b.equals v) :=
          List.mem_map.2 ⟨.null, member, congrArg some nullValue⟩
        rw [anyHolds_eq_true_iff.2 equal] at decided
        cases decided
      | false =>
        refine absurd decided (anyHolds_ne_none (List.forall_mem_map.2 fun w _ => ?_))
        unfold equals
        split
        · simp
        · next known => rw [b.compared_of_not_isNull .eq nullValue (by simpa using known)]; simp
    · rw [decided] at same
      cases anyHolds_eq_false_iff.1 same none unknown
    · rw [same, decided]
  · rintro (known | found)
    · refine congrArg anyHolds (List.map_congr_left fun item member => ?_)
      rw [equals, known item member, if_neg Bool.false_ne_true]
    · rw [found, eq_comm, anyHolds_eq_true_iff]
      obtain ⟨item, member, equal⟩ := List.mem_map.1 (anyHolds_eq_true_iff.1 found)
      refine List.mem_map.2 ⟨item, member, ?_⟩
      have known : item.isNull = false := by
        cases null : item.isNull with
        | false => rfl
        | true =>
          obtain rfl : item = .null := by simpa [Value.isNull] using null
          rw [b.compared_null_right] at equal
          cases equal
      rw [equals, known, if_neg Bool.false_ne_true, equal]

end Backend

namespace Expr

variable {t : Target} {bs : List Binding} {target item : Expr} {items : List Expr}

/-- Membership in a list, or absence from it. -/
def isIn (negated : Bool) (target : Expr) (items : List Expr) : Expr :=
  .call (if negated then .isNotIn else .isIn) (target :: items)

/-- Equality with an item, or inequality. -/
def equalTo (negated : Bool) (target item : Expr) : Expr :=
  .binary (if negated then .ne else .eq) target item

/-- The value that is bound for an item. -/
def boundValue (args : Option Arguments) (e : Expr) : Value := Slot.value args ⟨e, .exact⟩

/-- An item that reaches no row and has a value. -/
structure Known (args : Option Arguments) (e : Expr) : Prop where
  fixed : e.isRowDependent = false
  value : e.evaluate args = .ok (e.boundValue args)

theorem known_of_evaluate {args : Option Arguments} {e : Expr} {v : Value}
    (fixed : e.isRowDependent = false) (value : e.evaluate args = .ok v) : e.Known args := by
  refine ⟨fixed, ?_⟩
  rw [boundValue, Slot.value, value]
  simp only [Affix.apply_exact]

theorem Known.isNullUnder_eq {args : Option Arguments} {e : Expr} (known : e.Known args) :
    e.isNullUnder args = (e.boundValue args).isNull := by
  rw [isNullUnder, known.value]

/-! ## What the conditions mean -/

theorem image_isIn (negated : Bool) (row : target.isRowDependent = true) :
    (isIn negated target items).image t bs .condition =
      membershipImage t.arguments negated (⟨target, target.image t bs .value⟩ ::
        depictions t bs items) := by
  have reaches : ∀ method, (Expr.call method (target :: items)).isRowDependent = true := fun _ => by
    simp [isRowDependent, anyRowDependent, row]
  unfold isIn
  cases negated <;>
    simp only [image, reaches, Bool.not_true, Bool.false_eq_true, if_false, if_true,
    methodImage, depictions]

theorem image_equalTo (negated : Bool) (row : target.isRowDependent = true) :
    (equalTo negated target item).image t bs .condition =
      operationImage t.arguments (if negated then .ne else .eq) ⟨target, target.image t bs .value⟩
        ⟨item, item.image t bs .value⟩ := by
  have reaches : ∀ op, (Expr.binary op target item).isRowDependent = true :=
    fun _ => by simp [isRowDependent, row]
  unfold equalTo
  cases negated <;>
    simp only [image, reaches, Bool.not_true, Bool.false_eq_true, if_false, if_true,
    BinaryOp.isLogical]

section Truth

variable (b : Backend) (s : Scope)

theorem Known.value_image (known : item.Known t.arguments) :
    (item.image t bs .value).value b (Slot.value t.arguments) s = item.boundValue t.arguments := by
  simp only [image_of_fixed .value known.fixed, fixedImage, SqlTree.value, boundValue]

/-- Equality with a known item compares with it, or tests for null. -/
theorem truth?_equalTo (negated : Bool) (row : target.isRowDependent = true)
    (known : item.Known t.arguments) :
    ((equalTo negated target item).image t bs .condition).truth? b (Slot.value t.arguments) s =
      (b.equals ((target.image t bs .value).value b (Slot.value t.arguments) s)
          (item.boundValue t.arguments)).map
        (· != negated) := by
  rw [image_equalTo negated row]
  unfold operationImage Backend.equals
  rw [if_neg (fun h => by simp [row] at h)]
  cases null : (item.boundValue t.arguments).isNull with
  | true =>
    have test : ((if negated then BinaryOp.ne else .eq) = .eq ∨
          (if negated then BinaryOp.ne else .eq) = .ne) ∧
        item.isRowDependent = false ∧ item.isNullUnder t.arguments = true :=
      ⟨by cases negated <;> decide, known.fixed, known.isNullUnder_eq.trans null⟩
    rw [if_pos test, if_pos rfl, SqlTree.truth?_isNull, Option.map_some]
    cases negated <;> rfl
  | false =>
    have compared : (item.image t bs .value).value b (Slot.value t.arguments) s =
        item.boundValue t.arguments :=
      known.value_image b s
    have eq : BinaryOp.eq.isComparison = true := rfl
    have ne : BinaryOp.ne.isComparison = true := rfl
    rw [if_neg (fun h => by simp [known.isNullUnder_eq, null] at h), if_neg Bool.false_ne_true]
    cases negated with
    | false =>
      simp only [Bool.false_eq_true, if_false, SqlTree.truth?_comparison b eq, compared,
        Bool.bne_false, Option.map_id']
    | true =>
      simp only [if_true, SqlTree.truth?_comparison b ne, compared, b.compared_ne, Bool.bne_true]

theorem values_depictions (known : ∀ e ∈ items, Known t.arguments e) :
    ((depictions t bs items).map Depicted.image).map (SqlTree.value b (Slot.value t.arguments) s) =
      items.map (boundValue t.arguments) := by
  induction items with
  | nil => rfl
  | cons e items ih =>
    obtain ⟨here, later⟩ := List.forall_mem_cons.1 known
    simp only [depictions, List.map_cons, ih later, here.value_image b s]

/-- Several items are compared one by one. -/
theorem truth?_isIn (negated : Bool) (row : target.isRowDependent = true)
    (several : ¬items.length ≤ 1) (known : ∀ e ∈ items, Known t.arguments e) :
    ((isIn negated target items).image t bs .condition).truth? b (Slot.value t.arguments) s =
      (anyHolds ((items.map (boundValue t.arguments)).map
        (b.compared .eq ((target.image t bs .value).value b (Slot.value t.arguments) s)))).map
        (· != negated) := by
  have listed :
      ((depictions t bs items).map Depicted.image).map
        (SqlTree.value b (Slot.value t.arguments) s) =
      items.map (boundValue t.arguments) := values_depictions b s known
  rw [image_isIn negated row]
  rcases items with _ | ⟨first, _ | ⟨second, rest⟩⟩
  · simp at several
  · simp at several
  · simp only [depictions, membershipImage] at listed ⊢
    rw [SqlTree.truth?_inList, listed]
    rfl

/-- No item leaves nothing to compare with, and one is compared as it is. -/
theorem truth?_isIn_of_few (negated : Bool) (row : target.isRowDependent = true)
    (few : items.length ≤ 1) :
    ((isIn negated target items).image t bs .condition).truth? b (Slot.value t.arguments) s =
      connective negated (items.map fun item =>
        ((equalTo negated target item).image t bs .condition).truth? b
          (Slot.value t.arguments) s) := by
  rw [image_isIn negated row]
  rcases items with _ | ⟨item, _ | ⟨second, rest⟩⟩
  · rw [depictions, membershipImage, SqlTree.truth?_truth]
    cases negated <;> rfl
  · rw [List.map_singleton, connective_single, image_equalTo negated row]
    rfl
  · simp at few

end Truth

end Expr

/-! ## What compiles -/

namespace Compile

variable {t : Target} {target item : Expr} {items : List Expr} {c d : Compilation} {sql : Sql}

theorem known_of_value (fixed : item.isRowDependent = false) (h : Gives (value t item) c sql d) :
    item.Known t.arguments := by
  rw [value_of_fixed t fixed] at h
  obtain ⟨v, value, _⟩ := gives_bindExpr_iff.1 h
  exact Expr.known_of_evaluate fixed value

theorem known_of_values (fixed : ∀ e ∈ items, e.isRowDependent = false) {sqls : List Sql}
    (h : Gives (values (operands t items)) c sqls d) : ∀ e ∈ items, Expr.Known t.arguments e := by
  induction items generalizing c sqls d with
  | nil => exact fun _ member => by cases member
  | cons e items ih =>
    obtain ⟨here, later⟩ := List.forall_mem_cons.1 fixed
    obtain ⟨_, _, first, h⟩ := gives_bind_iff.1 h
    obtain ⟨_, _, rest, _⟩ := gives_bind_iff.1 h
    exact List.forall_mem_cons.2 ⟨known_of_value here first, ih later rest⟩

/-- A comparison with a fixed item has compiled both, the item at least to its null. -/
theorem known_of_comparison {op : BinaryOp} (row : target.isRowDependent = true)
    (fixed : item.isRowDependent = false)
    (h : Gives (comparison t op ⟨target, value t target⟩ ⟨item, value t item⟩) c sql d) :
    item.Known t.arguments ∧ ∃ left d, Gives (value t target) c left d := by
  have ways := gives_comparison_under h
  rw [if_neg fun left => by simp [row] at left] at ways
  split at ways
  · next null =>
    obtain ⟨left, first, _⟩ := ways
    obtain ⟨_, _, null⟩ := null
    simp only [Expr.isNullUnder] at null
    split at null
    · next v value => exact ⟨Expr.known_of_evaluate fixed value, left, d, first⟩
    · cases null
  · obtain ⟨left, _, between, first, second, _⟩ := ways
    exact ⟨known_of_value fixed second, left, between, first⟩

/-- A target that compiles is compared with any item that has a value. -/
theorem exists_equality {op : BinaryOp} (equality : op = .eq ∨ op = .ne)
    (row : target.isRowDependent = true) (known : item.Known t.arguments) {left : Sql}
    (h : Gives (value t target) c left d) :
    ∃ sql d, Gives (comparison t op ⟨target, value t target⟩ ⟨item, value t item⟩) c sql d := by
  obtain ⟨fixed, evaluated⟩ := known
  have untested : Gives (nullTest? t op ⟨target, value t target⟩ ⟨item, value t item⟩) c
      none c := by
    rw [nullTest?, if_pos row]
    exact gives_pure_iff.2 ⟨rfl, rfl⟩
  have read := gives_ofExcept_iff.2 ⟨evaluated, Eq.refl c⟩
  rw [comparison, if_pos equality]
  cases null : (item.boundValue t.arguments).isNull with
  | true =>
    have tested : Gives (nullTest? t op ⟨item, value t item⟩ ⟨target, value t target⟩) c
        (some (.isNull left (op = .ne))) d := by
      rw [nullTest?, if_neg (by simp [fixed])]
      refine gives_bind_iff.2 ⟨_, c, read, ?_⟩
      rw [if_pos null]
      exact gives_bind_iff.2 ⟨left, d, h, gives_pure_iff.2 ⟨rfl, rfl⟩⟩
    exact ⟨_, d, gives_bind_iff.2 ⟨none, c, untested,
      gives_bind_iff.2 ⟨_, d, tested, gives_pure_iff.2 ⟨rfl, rfl⟩⟩⟩⟩
  | false =>
    have tested : Gives (nullTest? t op ⟨item, value t item⟩ ⟨target, value t target⟩) c
        none c := by
      rw [nullTest?, if_neg (by simp [fixed])]
      refine gives_bind_iff.2 ⟨_, c, read, ?_⟩
      rw [if_neg (by simp [null])]
      exact gives_pure_iff.2 ⟨rfl, rfl⟩
    have bound : ∃ right e, Gives (value t item) d right e := by
      rw [value_of_fixed t fixed]
      exact ⟨_, _, gives_bindExpr_iff.2 ⟨_, evaluated, rfl, rfl⟩⟩
    obtain ⟨right, e, second⟩ := bound
    exact ⟨.binary op left right, e,
      gives_bind_iff.2 ⟨none, c, untested, gives_bind_iff.2 ⟨none, c, tested,
      gives_bind_iff.2 ⟨left, d, h,
        gives_bind_iff.2 ⟨right, e, second, gives_pure_iff.2 ⟨rfl, rfl⟩⟩⟩⟩⟩⟩

end Compile

namespace Expr

variable {t : Target} {bs : List Binding} {target : Expr} {items : List Expr} {negated : Bool}
  {r : CompiledCondition}

/-- Where membership compiles, the items have values, and the target compiles if there are any. -/
theorem CompilesTo.known (h : CompilesTo t bs (isIn negated target items) r)
    (row : target.isRowDependent = true) (fixed : ∀ e ∈ items, e.isRowDependent = false) :
    (∀ e ∈ items, Known t.arguments e) ∧ (items ≠ [] → ∃ c left d, c.bindings = bs ∧
      c.parameters.Numbered t.dialect.parameter ∧
        Compile.Gives (Compile.value t target) c left d) := by
  obtain ⟨c, d, bindings, numbered, gives, _⟩ := h
  have member : Compile.Gives (Compile.membership t negated (Compile.operands t (target :: items)))
      c r.condition d := by
    have reaches : ∀ method, (Expr.call method (target :: items)).isRowDependent = true :=
      fun _ => by
        simp [isRowDependent, anyRowDependent, row]
    unfold isIn at gives
    cases negated <;> simpa [Compile.condition, reaches, Compile.callCondition] using gives
  rcases items with _ | ⟨item, _ | ⟨second, rest⟩⟩
  · exact ⟨fun _ never => (by cases never), fun none => absurd rfl none⟩
  · obtain ⟨known, left, d, first⟩ := Compile.known_of_comparison row (fixed item (by simp)) member
    exact ⟨List.forall_mem_singleton.2 known, fun _ => ⟨c, left, d, bindings, numbered, first⟩⟩
  · obtain ⟨left, d, first, later⟩ := Compile.gives_bind_iff.1 member
    obtain ⟨_, _, listed, _⟩ := Compile.gives_bind_iff.1 later
    exact ⟨Compile.known_of_values fixed listed, fun _ => ⟨c, left, d, bindings, numbered, first⟩⟩

/-- Where membership compiles, so does the comparison with each item. -/
theorem CompilesTo.exists_equalTo (h : CompilesTo t bs (isIn negated target items) r)
    (row : target.isRowDependent = true) (fixed : ∀ e ∈ items, e.isRowDependent = false) :
    ∀ item ∈ items, ∃ r', (equalTo negated target item).CompilesTo t bs r' := by
  intro item member
  obtain ⟨known, compiles⟩ := h.known row fixed
  obtain ⟨c, left, d, bindings, numbered, gives⟩ := compiles (List.ne_nil_of_mem member)
  have equality : (if negated then BinaryOp.ne else .eq) = .eq ∨
      (if negated then BinaryOp.ne else .eq) = .ne := by
    cases negated <;> decide
  obtain ⟨sql, e, compared⟩ := Compile.exists_equality equality row (known item member) gives
  refine ⟨⟨sql, e.parameters⟩, c, e, bindings, numbered, ?_, rfl⟩
  have reaches : ∀ op, (Expr.binary op target item).isRowDependent = true :=
    fun _ => by simp [isRowDependent, row]
  unfold equalTo
  cases negated <;>
    simpa [Compile.condition, reaches, BinaryOp.isLogical, BinaryOp.isComparison] using compared

/-- Membership is the disjunction of the equalities with the items, and absence the conjunction of
the inequalities, exactly unless null is one of several items and the target equals none of them. -/
theorem CompilesTo.isIn_eq_iff (dialect : t.dialect = .standard ∨ t.dialect = .sqlite)
    (row : target.isRowDependent = true) (fixed : ∀ e ∈ items, e.isRowDependent = false)
    (h : CompilesTo t bs (isIn negated target items) r) :
    (∀ item ∈ items, ∃ r', (equalTo negated target item).CompilesTo t bs r') ∧
      ∀ rs, items.Forall₂ (fun item r' => (equalTo negated target item).CompilesTo t bs r') rs →
        ∀ b s,
        (r.truth? t.dialect b s = connective negated (rs.map fun r' => r'.truth? t.dialect b s) ↔
          items.length ≤ 1 ∨ (∀ item ∈ items, item.isNullUnder t.arguments = false) ∨
            r.truth? t.dialect b s = some !negated) := by
  refine ⟨h.exists_equalTo row fixed, fun rs compiled b s => ?_⟩
  obtain ⟨known, _⟩ := h.known row fixed
  have truths : (rs.map fun r' => r'.truth? t.dialect b s) = items.map fun item =>
      ((equalTo negated target item).image t bs .condition).truth? b
        (Slot.value t.arguments) s := by
    have each : List.Forall₂ (· = ·) (items.map fun item =>
        ((equalTo negated target item).image t bs .condition).truth? b
        (Slot.value t.arguments) s) (rs.map fun r' => r'.truth? t.dialect b s) :=
      List.forall₂_map_left_iff.2 (List.forall₂_map_right_iff.2 (compiled.imp fun _ _ h' =>
        (h'.truth?_eq dialect b s).symm))
    rw [List.forall₂_eq_eq_eq] at each
    exact each.symm
  rw [h.truth?_eq dialect, truths]
  by_cases few : items.length ≤ 1
  · exact iff_of_true (truth?_isIn_of_few b s negated row few) (.inl few)
  · have each :
        (items.map fun item => ((equalTo negated target item).image t bs .condition).truth? b
        (Slot.value t.arguments) s) = ((items.map (boundValue t.arguments)).map
          (b.equals ((target.image t bs .value).value b (Slot.value t.arguments) s))).map
          (Option.map (· != negated)) := by
      rw [List.map_map, List.map_map]
      exact List.map_congr_left fun item member =>
        truth?_equalTo b s negated row (known item member)
    have nulls : (∀ item ∈ items, item.isNullUnder t.arguments = false) ↔
        ∀ v ∈ items.map (boundValue t.arguments), v.isNull = false := by
      rw [List.forall_mem_map]
      exact forall₂_congr fun item member => by rw [(known item member).isNullUnder_eq]
    have flip : Function.Injective (Option.map fun found : Bool => found != negated) :=
      Option.map_injective fun x y => by cases x <;> cases y <;> cases negated <;> decide
    have asked : (some !negated : Option Bool) = (some true).map (· != negated) := by
      cases negated <;> rfl
    rw [or_iff_right few, truth?_isIn b s negated row few known, each, connective_map, flip.eq_iff,
      nulls, asked, flip.eq_iff]
    exact b.anyHolds_compared_eq_iff

/-- Titles, and null. -/
def untitledOrDraft : List Expr := [.const .null, .const (.text "draft")]

/-- A row without a title is not found to be among null and a title. -/
theorem isIn_untitledOrDraft :
    let t : Target := ⟨.standard, ⟨"", ""⟩, none⟩
    let title : Expr := .member ⟨"ByTitle", "title", [⟨"title", .text, true⟩]⟩
    (t.dialect = .standard ∨ t.dialect = .sqlite) ∧ title.isRowDependent = true ∧
      (∀ e ∈ untitledOrDraft, e.isRowDependent = false) ∧
      ∃ r, compileCondition t "ByTitle" (isIn false title untitledOrDraft) = .ok r ∧
        CompilesTo t [⟨"ByTitle", "ByTitle"⟩] (isIn false title untitledOrDraft) r ∧
        (∀ item ∈ untitledOrDraft, ∃ r',
          (equalTo false title item).CompilesTo t [⟨"ByTitle", "ByTitle"⟩] r') ∧
        ∀ rs, untitledOrDraft.Forall₂ (fun item r' =>
            (equalTo false title item).CompilesTo t [⟨"ByTitle", "ByTitle"⟩] r') rs →
          ∀ b, r.truth? t.dialect b (fun _ => ⟨[]⟩) ≠
            connective false (rs.map fun r' => r'.truth? t.dialect b fun _ => ⟨[]⟩) := by
  intro t title
  obtain ⟨r, hr⟩ : ∃ r, compileCondition t "ByTitle" (isIn false title untitledOrDraft) = .ok r :=
    ⟨_, rfl⟩
  have compiles := Compile.compilesTo_of_compileCondition hr
  have fixed : ∀ e ∈ untitledOrDraft, e.isRowDependent = false := by
    simp [untitledOrDraft, isRowDependent]
  obtain ⟨each, agrees⟩ := CompilesTo.isIn_eq_iff (.inl rfl) rfl fixed compiles
  refine ⟨.inl rfl, rfl, fixed, r, hr, compiles, each, fun rs compiled b same => ?_⟩
  have unknown : r.truth? t.dialect b (fun _ => ⟨[]⟩) = none :=
    (compiles.truth?_eq (.inl rfl) b _).trans rfl
  rcases (agrees rs compiled b _).1 same with few | known | found
  · simp [untitledOrDraft] at few
  · cases known (.const .null) List.mem_cons_self
  · rw [unknown] at found
    cases found

end Expr

end DocStore

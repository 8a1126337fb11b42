import DocStore.Proofs.SqlMeaning

/-!
# Conditions that read captures

A condition that reaches no row is decided while compiling, unless it reads
captures: then its value is bound and compared with the literal for true, so that
other arguments can take its place. `Expr.settle` puts the values that captures
read in their places, which turns the second kind of condition into the first.
Both ways agree on truth values and on null. An integer counts as true unless
it is zero, but equals the literal only if it is one.
-/

set_option autoImplicit false

namespace DocStore

/-- A null, a truth value or an integer counts as true where it equals the literal for true, unless
it is another integer than 0 and 1. -/
theorem Backend.compared_one_iff (b : Backend) {v : Value}
    (kind : v = .null ∨ ∃ flag, v.bool? = some flag) :
    (b.compared .eq v (.int 1) = some true ↔ v.bool? = some true) ↔
    ∀ n, v = .int n → n = 0 ∨ n = 1 := by
  cases v with
  | null => simp [b.compared_null_left, Value.bool?]
  | bool flag => simp [b.compared_flag, Value.bool?]
  | int n =>
    have apart : (0 : Int64) ≠ 1 := by decide
    simp only [b.compared_ints, Value.bool?, Option.some.injEq, decide_eq_true_eq, bne_iff_ne,
      Value.int.injEq, forall_eq']
    constructor
    · intro same
      by_cases zero : n = 0
      · exact .inl zero
      · exact .inr (same.2 zero)
    · rintro (rfl | rfl)
      · simp [apart]
      · simp [apart.symm]
  | float _ | text _ => simp [Value.bool?] at kind

namespace Expr

mutual

/-- The expression with the values that its captures read in their places. -/
def settle (args : Arguments) : Expr → Expr
  | .const v => .const v
  | .capture c => .const ((c.read args).getD .null)
  | .member m => .member m
  | .unary op e => .unary op (settle args e)
  | .binary op l r => .binary op (settle args l) (settle args r)
  | .call method es => .call method (settleAll args es)
  | .inQuery negated index selector condition es =>
    .inQuery negated index selector (settle args condition) (settleAll args es)
  | .convert e kind => .convert (settle args e) kind

def settleAll (args : Arguments) : List Expr → List Expr
  | [] => []
  | e :: es => settle args e :: settleAll args es

end

section Settled

variable (args : Arguments)

mutual

theorem isRowDependent_settle : (e : Expr) → (e.settle args).isRowDependent = e.isRowDependent
  | .const _ | .capture _ | .member _ | .inQuery _ _ _ _ _ => by simp only [settle, isRowDependent]
  | .unary _ e | .convert e _ => by simp only [settle, isRowDependent, isRowDependent_settle e]
  | .binary _ l r => by
    simp only [settle, isRowDependent, isRowDependent_settle l, isRowDependent_settle r]
  | .call _ es => by simp only [settle, isRowDependent, anyRowDependent_settleAll es]

theorem anyRowDependent_settleAll :
    (es : List Expr) → anyRowDependent (settleAll args es) = anyRowDependent es
  | [] => by simp only [settleAll]
  | e :: es => by
    simp only [settleAll, anyRowDependent, isRowDependent_settle e, anyRowDependent_settleAll es]

end

mutual

theorem captures_settle : (e : Expr) → (e.settle args).captures = []
  | .const _ | .capture _ | .member _ => by simp only [settle, captures]
  | .unary _ e | .convert e _ => by simp only [settle, captures, captures_settle e]
  | .binary _ l r => by
    simp only [settle, captures, captures_settle l, captures_settle r, List.append_nil]
  | .call _ es => by simp only [settle, captures, capturesOf_settleAll es]
  | .inQuery _ _ _ condition es => by
    simp only [settle, captures, captures_settle condition, capturesOf_settleAll es,
      List.append_nil]

theorem capturesOf_settleAll : (es : List Expr) → capturesOf (settleAll args es) = []
  | [] => by simp only [settleAll, capturesOf]
  | e :: es => by
    simp only [settleAll, capturesOf, captures_settle e, capturesOf_settleAll es, List.append_nil]

end

theorem not_hasCaptures_settle (e : Expr) : ¬(e.settle args).hasCaptures = true := by
  simp [hasCaptures, captures_settle]

variable {args} (given : Option Arguments)

mutual

/-- An expression with a value has it also with the captures in their places, whatever
the arguments are then. -/
theorem evaluate_settle : (e : Expr) → ∀ {v : Value}, e.evaluate (some args) = .ok v →
    (e.settle args).evaluate given = .ok v
  | .const _, _, h => h
  | .capture c, v, h => by
    simp only [evaluate, Capture.value] at h
    split at h
    · next w read =>
      cases h
      simp only [settle, evaluate, read, Option.getD_some]
    · cases h
  | .member _, _, h => by cases h
  | .unary op e, v, h => by
    simp only [evaluate] at h
    obtain ⟨w, hw, h⟩ := bind_eq_ok_iff.1 h
    simp only [settle, evaluate, evaluate_settle e hw]
    exact h
  | .binary op l r, v, h => by
    simp only [evaluate] at h
    obtain ⟨w, hw, h⟩ := bind_eq_ok_iff.1 h
    obtain ⟨u, hu, h⟩ := bind_eq_ok_iff.1 h
    simp only [settle, evaluate, evaluate_settle l hw, evaluate_settle r hu]
    exact h
  | .call method es, v, h => by
    simp only [evaluate] at h
    obtain ⟨vs, hvs, h⟩ := bind_eq_ok_iff.1 h
    simp only [settle, evaluate, evaluateAll_settleAll es hvs]
    exact h
  | .inQuery _ _ _ _ es, v, h => by
    simp only [evaluate] at h
    obtain ⟨_, _, h⟩ := bind_eq_ok_iff.1 h
    cases h
  | .convert e kind, v, h => by
    simp only [evaluate] at h
    obtain ⟨w, hw, h⟩ := bind_eq_ok_iff.1 h
    simp only [settle, evaluate, evaluate_settle e hw]
    exact h

theorem evaluateAll_settleAll :
    (es : List Expr) → ∀ {vs : List Value}, evaluateAll (some args) es = .ok vs →
    evaluateAll given (settleAll args es) = .ok vs
  | [], _, h => h
  | e :: es, vs, h => by
    simp only [evaluateAll] at h
    obtain ⟨v, hv, h⟩ := bind_eq_ok_iff.1 h
    obtain ⟨ws, hws, h⟩ := bind_eq_ok_iff.1 h
    simp only [settleAll, evaluateAll, evaluate_settle e hv, evaluateAll_settleAll es hws]
    exact h

end

end Settled

section Conditions

variable {t : Target} {bs : List Binding} {e : Expr} {r : CompiledCondition}

/-- A condition that is decided while compiling is null or counts as true or false. -/
theorem CompilesTo.decided (h : e.CompilesTo t bs r) (fixed : e.isRowDependent = false)
    (plain : ¬e.hasCaptures = true) :
    ∃ v, e.evaluate t.arguments = .ok v ∧ (v = .null ∨ ∃ flag, v.bool? = some flag) := by
  obtain ⟨c, d, _, _, gives, _⟩ := h
  rw [Compile.condition_of_fixed t fixed, Compile.fixedCondition, if_neg plain] at gives
  obtain ⟨v, _, read, gives⟩ := Compile.gives_bind_iff.1 gives
  refine ⟨v, (Compile.gives_ofExcept_iff.1 read).1, ?_⟩
  cases v with
  | null => exact .inl rfl
  | bool flag => exact .inr ⟨flag, rfl⟩
  | int n => exact .inr ⟨n != 0, rfl⟩
  | float _ | text _ => exact absurd gives Compile.not_gives_fail

/-- The value of a condition that reads captures is bound. -/
theorem CompilesTo.evaluates (h : e.CompilesTo t bs r) (fixed : e.isRowDependent = false)
    (reads : e.hasCaptures = true) : ∃ v, e.evaluate t.arguments = .ok v := by
  obtain ⟨c, d, _, _, gives, _⟩ := h
  rw [Compile.condition_of_fixed t fixed, Compile.fixedCondition, if_pos reads] at gives
  obtain ⟨_, _, bound, _⟩ := Compile.gives_bind_iff.1 gives
  obtain ⟨v, value, _⟩ := Compile.gives_bindExpr_iff.1 bound
  exact ⟨v, value⟩

variable (b : Backend) (s : Scope)

theorem truth?_image_of_decided (fixed : e.isRowDependent = false)
    (plain : ¬e.hasCaptures = true) {v : Value} (value : e.evaluate t.arguments = .ok v) :
    (e.image t bs .condition).truth? b (Slot.value t.arguments) s =
    some (decide (v.bool? = some true)) := by
  rw [image_of_fixed .condition fixed, fixedImage, if_neg plain, SqlTree.truth?_truth,
    isTrueUnder, value]

theorem truth?_image_of_captured (fixed : e.isRowDependent = false)
    (reads : e.hasCaptures = true) {v : Value} (value : e.evaluate t.arguments = .ok v) :
    (e.image t bs .condition).truth? b (Slot.value t.arguments) s = b.compared .eq v (.int 1) := by
  rw [image_of_fixed .condition fixed, fixedImage, if_pos reads, SqlTree.truth?_isTrue]
  simp only [SqlTree.value, Slot.value, value, Affix.apply_exact]

/-- A condition means the same with the values of its captures in their places, exactly if it is
no integer but 0 and 1. -/
theorem truth?_settle_iff (dialect : t.dialect = .standard ∨ t.dialect = .sqlite) {args : Arguments}
    (given : t.arguments = some args) (fixed : e.isRowDependent = false)
    (reads : e.hasCaptures = true) (h : e.CompilesTo t bs r) {r' : CompiledCondition}
    (h' : (e.settle args).CompilesTo t bs r') :
    (r.truth? t.dialect b s = some true ↔ r'.truth? t.dialect b s = some true) ↔
      ∀ n, e.evaluate (some args) = .ok (.int n) → n = 0 ∨ n = 1 := by
  have settled : (e.settle args).isRowDependent = false :=
    (isRowDependent_settle args e).trans fixed
  have plain := not_hasCaptures_settle args e
  obtain ⟨v, value⟩ := h.evaluates fixed reads
  obtain ⟨w, value', kind⟩ := h'.decided settled plain
  -- The two ways are taken with one value.
  obtain rfl : v = w := by
    have same := evaluate_settle t.arguments e (given ▸ value)
    rw [value'] at same
    exact (Except.ok.inj same).symm
  rw [h.truth?_eq dialect, h'.truth?_eq dialect, truth?_image_of_captured b s fixed reads value,
    truth?_image_of_decided b s settled plain value', ← given, value]
  simpa using b.compared_one_iff kind

end Conditions

/-- A flag that is given when the query runs. -/
def givenFlag : Expr := .capture ⟨"flag", false, fun args => args "flag"⟩

/-- Two counts as true, but is not found true when it is captured. -/
theorem givenFlag_two :
    let args : Arguments := fun _ => some (.int 2)
    let t : Target := ⟨.standard, ⟨"", ""⟩, some args⟩
    (t.dialect = .standard ∨ t.dialect = .sqlite) ∧
    t.arguments = some args ∧ givenFlag.isRowDependent = false ∧
      givenFlag.hasCaptures = true ∧ ∃ r r', compileCondition t "ByTitle" givenFlag = .ok r ∧
        givenFlag.CompilesTo t [⟨"ByTitle", "ByTitle"⟩] r ∧
        compileCondition t "ByTitle" (givenFlag.settle args) = .ok r' ∧
        (givenFlag.settle args).CompilesTo t [⟨"ByTitle", "ByTitle"⟩] r' ∧
        ∀ b s, ¬(r.truth? t.dialect b s = some true ↔ r'.truth? t.dialect b s = some true) := by
  intro args t
  obtain ⟨r, hr⟩ : ∃ r, compileCondition t "ByTitle" givenFlag = .ok r := ⟨_, rfl⟩
  obtain ⟨r', hr'⟩ : ∃ r', compileCondition t "ByTitle" (givenFlag.settle args) = .ok r' := ⟨_, rfl⟩
  have captured := Compile.compilesTo_of_compileCondition hr
  have settled := Compile.compilesTo_of_compileCondition hr'
  refine ⟨.inl rfl, rfl, rfl, rfl, r, r', hr, captured, hr', settled, fun b s agree => ?_⟩
  have decided := (truth?_settle_iff b s (.inl rfl) rfl rfl rfl captured settled).1 agree 2 rfl
  revert decided
  decide

end Expr

end DocStore

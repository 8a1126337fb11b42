import DocStore.Proofs.CompiledShapes

/-!
# Compiling once and binding again

A rebinder names the parameter it evaluates again. In a dialect whose parameter
names differ, it reaches the one parameter it was recorded for, and two runs of
the compiler that answer the same SQL recorded for the same places: binding the
parameters of one run again for the arguments of the other gives the parameters
of the other. With `same_sql_iff_untracked_same` beside it, SQL and parameters
for other arguments follow from the operands that are tested for null.
-/

set_option autoImplicit false

namespace DocStore

/-! ## Parameters by name -/

namespace Parameters

def names (ps : Parameters) : List String := ps.entries.map Prod.fst

theorem names_push (ps : Parameters) (name : String) (v : Value) :
    (ps.push name v).names = ps.names ++ [name] := by
  simp [names, push]

theorem names_setEntry (name : String) (v : Value) (entries : List (String × Value)) :
    (setEntry name v entries).map Prod.fst = entries.map Prod.fst := by
  induction entries with
  | nil => rfl
  | cons e rest ih =>
    unfold setEntry
    split
    · next here => simp [here]
    · simp [ih]

theorem names_set (ps : Parameters) (name : String) (v : Value) :
    (ps.set name v).names = ps.names :=
  names_setEntry name v ps.entries

/-- Setting a parameter that is not the last leaves the last. -/
theorem set_push_of_ne (ps : Parameters) {name last : String} (v w : Value) (other : last ≠ name) :
    (ps.push last v).set name w = (ps.set name w).push last v := by
  obtain ⟨entries⟩ := ps
  simp only [set, push, mk.injEq]
  induction entries with
  | nil => simp [setEntry, other]
  | cons e rest ih =>
    simp only [List.cons_append, setEntry]
    split
    · rfl
    · simp [ih]

/-- Setting a parameter whose name is new with it replaces its value. -/
theorem set_push_self (ps : Parameters) {name : String} (v w : Value) (fresh : name ∉ ps.names) :
    (ps.push name v).set name w = ps.push name w := by
  obtain ⟨entries⟩ := ps
  simp only [set, push, mk.injEq]
  induction entries with
  | nil => simp [setEntry]
  | cons e rest ih =>
    simp only [names, List.map_cons, List.mem_cons, not_or] at fresh
    simp only [List.cons_append, setEntry, if_neg (Ne.symm fresh.1), List.cons.injEq, true_and]
    exact ih fresh.2

end Parameters

namespace CompiledSql

variable {args : Arguments} {rs : List Rebinder} {ps qs : Parameters}

theorem rebind_cons_iff {r : Rebinder} : rebind args (r :: rs) ps = .ok qs ↔
    ∃ v, r.expr.evaluate (some args) = .ok v ∧
      rebind args rs (ps.set r.parameter (r.affix.apply v)) = .ok qs := by
  rw [rebind, bind_eq_ok_iff]

/-- Binding again changes values only. -/
theorem names_rebind (h : rebind args rs ps = .ok qs) : qs.names = ps.names := by
  induction rs generalizing ps with
  | nil => cases h; rfl
  | cons r rs ih =>
    obtain ⟨v, _, h⟩ := rebind_cons_iff.1 h
    rw [ih h, Parameters.names_set]

/-- A parameter that no rebinder names keeps its value. -/
theorem rebind_push {name : String} {v : Value} (h : rebind args rs ps = .ok qs)
    (other : ∀ r ∈ rs, name ≠ r.parameter) :
    rebind args rs (ps.push name v) = .ok (qs.push name v) := by
  induction rs generalizing ps with
  | nil => cases h; rfl
  | cons r rs ih =>
    obtain ⟨w, hw, h⟩ := rebind_cons_iff.1 h
    obtain ⟨here, later⟩ := List.forall_mem_cons.1 other
    rw [rebind_cons_iff]
    refine ⟨w, hw, ?_⟩
    rw [Parameters.set_push_of_ne ps v _ here]
    exact ih h later

/-- The rebinder recorded last is the last to run. -/
theorem rebind_snoc {r : Rebinder} {v : Value} (h : rebind args rs ps = .ok qs)
    (hv : r.expr.evaluate (some args) = .ok v) :
    rebind args (rs ++ [r]) ps = .ok (qs.set r.parameter (r.affix.apply v)) := by
  induction rs generalizing ps with
  | nil =>
    cases h
    exact rebind_cons_iff.2 ⟨v, hv, rfl⟩
  | cons r' rs ih =>
    obtain ⟨w, hw, h⟩ := rebind_cons_iff.1 h
    exact rebind_cons_iff.2 ⟨w, hw, ih h⟩

end CompiledSql

/-! ## Dialects whose parameter names differ -/

namespace Dialect

theorem injective_parameter_standard : Function.Injective Dialect.standard.parameter := by
  intro m n h
  have digits : ∀ k, Nat.ofDigitChars 10 (Nat.repr k).toList 0 = k := by
    intro k
    rw [Nat.repr_eq_ofList_toDigits, String.toList_ofList]
    exact Nat.ofDigitChars_toDigits (by decide) (by decide)
  have same : Nat.repr m = Nat.repr n := (String.append_right_inj "@p").1 h
  rw [← digits m, same, digits n]

theorem injective_parameter_sqlite : Function.Injective Dialect.sqlite.parameter :=
  injective_parameter_standard

end Dialect

/-! ## Numbered parameters -/

namespace Parameters

/-- Every parameter has the name of its number. -/
def Numbered (name : Nat → String) (ps : Parameters) : Prop :=
  ps.names = (List.range ps.size).map name

variable {name : Nat → String} {ps : Parameters}

theorem numbered_empty (name : Nat → String) : Numbered name ∅ := rfl

theorem Numbered.push (h : ps.Numbered name) (v : Value) :
    (ps.push (name ps.size) v).Numbered name := by
  rw [Numbered, names_push, Compile.size_push, List.range_succ, List.map_append, ← h,
    List.map_singleton]

/-- The next parameter has a name of its own. -/
theorem Numbered.fresh (h : ps.Numbered name) (injective : Function.Injective name) :
    name ps.size ∉ ps.names := by
  rw [h, List.mem_map]
  rintro ⟨i, hi, same⟩
  exact absurd (injective same) (Nat.ne_of_lt (List.mem_range.1 hi))

end Parameters

/-! ## Two runs that answer the same -/

/-- Compilations under the same aliases, of which the first binds again, for the
arguments of the second, what the second has bound. -/
structure Compilation.Rebinds (parameter : Nat → String) (b : Arguments)
    (c c' : Compilation) : Prop where
  bindings : c.bindings = c'.bindings
  numbered : c.parameters.names = (List.range c.parameters.size).map parameter
  recorded : ∀ r ∈ c.rebinders, r.parameter ∈ c.parameters.names
  rebind : CompiledSql.rebind b c.rebinders c.parameters = .ok c'.parameters

namespace Compilation.Rebinds

variable {parameter : Nat → String} {b : Arguments} {c c' : Compilation}

theorem start (parameter : Nat → String) (b : Arguments) (bindings : List Binding) :
    Compilation.Rebinds parameter b { Compilation.start with bindings := bindings }
      { Compilation.start with bindings := bindings } where
  bindings := rfl
  numbered := rfl
  recorded := fun _ h => by cases h
  rebind := rfl

theorem withBindings (h : c.Rebinds parameter b c') {bs bs' : List Binding} (same : bs = bs') :
    Compilation.Rebinds parameter b { c with bindings := bs } { c' with bindings := bs' } where
  bindings := same
  numbered := h.numbered
  recorded := h.recorded
  rebind := h.rebind

/-- As many parameters are bound. -/
theorem size_eq (h : c.Rebinds parameter b c') : c'.parameters.size = c.parameters.size := by
  have names := congrArg List.length (CompiledSql.names_rebind h.rebind)
  simpa [Parameters.names, Parameters.size] using names

/-- The next parameter has a name of its own. -/
theorem fresh (h : c.Rebinds parameter b c') (injective : Function.Injective parameter) :
    parameter c.parameters.size ∉ c.parameters.names := by
  have numbered : c.parameters.Numbered parameter := h.numbered
  exact numbered.fresh injective

theorem fresh_of_recorded (h : c.Rebinds parameter b c')
    (injective : Function.Injective parameter) :
    ∀ r ∈ c.rebinders, parameter c.parameters.size ≠ r.parameter :=
  fun r hr same => h.fresh injective (same ▸ h.recorded r hr)

/-- A value without captures is bound alike and left alone. -/
theorem push_fixed (h : c.Rebinds parameter b c') (injective : Function.Injective parameter)
    (v : Value) : Compilation.Rebinds parameter b
      { c with parameters := c.parameters.push (parameter c.parameters.size) v }
      { c' with parameters := c'.parameters.push (parameter c'.parameters.size) v } where
  bindings := h.bindings
  numbered := Parameters.Numbered.push h.numbered v
  recorded := fun r hr => by
    rw [Parameters.names_push]
    exact List.mem_append_left _ (h.recorded r hr)
  rebind := by
    rw [h.size_eq]
    exact CompiledSql.rebind_push h.rebind (h.fresh_of_recorded injective)

/-- A value that reads captures is bound in both and evaluated again in the first. -/
theorem push_recorded (h : c.Rebinds parameter b c')
    (injective : Function.Injective parameter) {e : Expr} {affix : Affix} (v : Value) {w : Value}
    (hw : e.evaluate (some b) = .ok w) {rs : List Rebinder} : Compilation.Rebinds parameter b
      { c with
        parameters := c.parameters.push (parameter c.parameters.size) v
        rebinders := c.rebinders ++ [⟨parameter c.parameters.size, e, affix⟩] }
      { c' with
        parameters := c'.parameters.push (parameter c'.parameters.size) (affix.apply w)
        rebinders := rs } where
  bindings := h.bindings
  numbered := Parameters.Numbered.push h.numbered v
  recorded := fun r hr => by
    rw [Parameters.names_push]
    rcases List.mem_append.1 hr with hr | hr
    · exact List.mem_append_left _ (h.recorded r hr)
    · cases List.mem_singleton.1 hr
      exact List.mem_append_right _ (List.mem_singleton_self _)
  rebind := by
    have others := CompiledSql.rebind_push h.rebind (v := v) (h.fresh_of_recorded injective)
    -- The new rebinder sets the name pushed last, which nothing before it has:
    -- names differ by number.
    have unset : parameter c.parameters.size ∉ c'.parameters.names := by
      rw [CompiledSql.names_rebind h.rebind]
      exact h.fresh injective
    rw [h.size_eq]
    exact (CompiledSql.rebind_snoc others hw).trans
      (congrArg Except.ok (Parameters.set_push_self _ v _ unset))

end Compilation.Rebinds

namespace Compile

variable {α β γ : Type}

/-- Two steps that, from compilations of which one binds the other again, leave
such compilations wherever they answer the same. -/
def Lockstep (parameter : Nat → String) (b : Arguments) (x y : Compile α) : Prop :=
  ∀ ⦃c c' d d' : Compilation⦄ ⦃r : α⦄, c.Rebinds parameter b c' → Gives x c r d → Gives y c' r d' →
    d.Rebinds parameter b d'

namespace Lockstep

variable {parameter : Nat → String} {b : Arguments}
variable {x y : Compile α} {u v : Compile β} {w z : Compile γ}

theorem fail {err : Error} : Lockstep parameter b (fail err : Compile α) y :=
  fun _ _ _ _ _ _ hx _ => absurd hx not_gives_fail

theorem pure (r s : α) : Lockstep parameter b (pure r : Compile α) (Pure.pure s) := by
  intro c c' d d' r' h hx hy
  obtain ⟨_, rfl⟩ := gives_pure_iff.1 hx
  obtain ⟨_, rfl⟩ := gives_pure_iff.1 hy
  exact h

/-- What a step answers can be read off the SQL built from it. -/
theorem map (h : Lockstep parameter b u v) {f : β → α} (injective : Function.Injective f) :
    Lockstep parameter b (do let r ← u; Pure.pure (f r)) (do let r ← v; Pure.pure (f r)) := by
  intro c c' d d' r rebinds hx hy
  obtain ⟨p, e, hu, hr⟩ := gives_bind_iff.1 hx
  obtain ⟨q, e', hv, hs⟩ := gives_bind_iff.1 hy
  obtain ⟨rfl, rfl⟩ := gives_pure_iff.1 hr
  obtain ⟨same, rfl⟩ := gives_pure_iff.1 hs
  cases injective same
  exact h rebinds hu hv

theorem map₂ (h₁ : Lockstep parameter b u v) (h₂ : Lockstep parameter b w z) {f : β → γ → α}
    (injective : ∀ r s p q, f r p = f s q → r = s ∧ p = q) :
    Lockstep parameter b (do let r ← u; let p ← w; Pure.pure (f r p))
      (do let r ← v; let p ← z; Pure.pure (f r p)) := by
  intro c c' d d' r rebinds hx hy
  obtain ⟨r₁, e, hu, hx⟩ := gives_bind_iff.1 hx
  obtain ⟨s₁, e', hv, hy⟩ := gives_bind_iff.1 hy
  obtain ⟨r₂, e₂, hw, hr⟩ := gives_bind_iff.1 hx
  obtain ⟨s₂, e₂', hz, hs⟩ := gives_bind_iff.1 hy
  obtain ⟨rfl, rfl⟩ := gives_pure_iff.1 hr
  obtain ⟨same, rfl⟩ := gives_pure_iff.1 hs
  obtain ⟨rfl, rfl⟩ := injective _ _ _ _ same
  exact h₂ (h₁ rebinds hu hv) hw hz

end Lockstep

section Parts

variable {dialect : Dialect} (inj : Function.Injective dialect.parameter) {names : TableNames}
  {a b : Arguments}

variable (dialect names a b) in
/-- Rendering an expression as a value in both runs. -/
def ValueLockstep (e : Expr) : Prop :=
  Lockstep dialect.parameter b (value ⟨dialect, names, some a⟩ e) (value ⟨dialect, names, some b⟩ e)

variable (dialect names a b) in
/-- Rendering an expression as a condition in both runs. -/
def ConditionLockstep (e : Expr) : Prop :=
  Lockstep dialect.parameter b (condition ⟨dialect, names, some a⟩ e)
    (condition ⟨dialect, names, some b⟩ e)

include inj in
theorem lockstep_bindExpr (affix : Affix) (e : Expr) : Lockstep dialect.parameter b
    (bindExpr ⟨dialect, names, some a⟩ affix e) (bindExpr ⟨dialect, names, some b⟩ affix e) := by
  intro c c' d d' r rebinds hx hy
  obtain ⟨v, hv, _, rfl⟩ := gives_bindExpr_iff.1 hx
  obtain ⟨w, hw, _, rfl⟩ := gives_bindExpr_iff.1 hy
  by_cases reads : e.hasCaptures = true
  · rw [if_pos reads, if_pos reads]
    exact rebinds.push_recorded inj _ hw
  -- Without captures both arguments give one value, so leaving it as it was bound is right.
  · have none : e.captures = [] := by simpa [Expr.hasCaptures] using reads
    change e.evaluate (some a) = .ok v at hv
    rw [Expr.evaluate_congr (some a) (some b) e none, hw, Except.ok.injEq] at hv
    subst hv
    rw [if_neg reads, if_neg reads]
    exact rebinds.push_fixed inj _

theorem lockstep_member (m : Member) : Lockstep dialect.parameter b (member m) (member m) := by
  intro c c' d d' r rebinds hx hy
  obtain ⟨_, rfl, _⟩ := gives_member_iff.1 hx
  obtain ⟨_, rfl, _⟩ := gives_member_iff.1 hy
  exact rebinds

theorem isTrue_injective : Function.Injective Sql.isTrue := by
  intro x y h
  simpa [Sql.isTrue] using h

include inj in
/-- A condition on no row binds a value only if it reads captures. -/
theorem lockstep_fixedCondition (e : Expr) : Lockstep dialect.parameter b
    (fixedCondition ⟨dialect, names, some a⟩ e) (fixedCondition ⟨dialect, names, some b⟩ e) := by
  by_cases reads : e.hasCaptures = true
  · simp only [fixedCondition, if_pos reads]
    exact (lockstep_bindExpr inj .exact e).map isTrue_injective
  · intro c c' d d' r rebinds hx hy
    obtain ⟨rfl, _⟩ := gives_fixedCondition reads hx
    obtain ⟨rfl, _⟩ := gives_fixedCondition reads hy
    exact rebinds

theorem Plainly.lockstep {op : BinaryOp} {l r : Expr} {c c' d d' : Compilation} {e : Sql}
    (hl : ValueLockstep dialect names a b l) (hr : ValueLockstep dialect names a b r)
    (rebinds : c.Rebinds dialect.parameter b c')
    (h : Plainly op (value ⟨dialect, names, some a⟩ l) (value ⟨dialect, names, some a⟩ r) c e d)
    (h' : Plainly op (value ⟨dialect, names, some b⟩ l)
      (value ⟨dialect, names, some b⟩ r) c' e d') :
    d.Rebinds dialect.parameter b d' := by
  obtain ⟨x, y, c₁, hx, hy, rfl⟩ := h
  obtain ⟨x', y', c₁', hx', hy', same⟩ := h'
  obtain ⟨_, rfl, rfl⟩ := Sql.binary.inj same
  exact hr (hl rebinds hx hx') hy hy'

/-- The same SQL comes of a comparison only if both runs test the same operand for null, or none. -/
theorem lockstep_comparison {op : BinaryOp} {l r : Expr}
    (row : l.isRowDependent = true ∨ r.isRowDependent = true)
    (hl : ValueLockstep dialect names a b l) (hr : ValueLockstep dialect names a b r) :
    Lockstep dialect.parameter b
      (comparison ⟨dialect, names, some a⟩ op ⟨l, value ⟨dialect, names, some a⟩ l⟩
        ⟨r, value ⟨dialect, names, some a⟩ r⟩)
      (comparison ⟨dialect, names, some b⟩ op ⟨l, value ⟨dialect, names, some b⟩ l⟩
        ⟨r, value ⟨dialect, names, some b⟩ r⟩) := by
  intro c c' d d' e rebinds hx hy
  replace hx := gives_comparison hx
  replace hy := gives_comparison hy
  have oneFixed : ¬(l.isRowDependent = false ∧ r.isRowDependent = false) := by
    rintro ⟨fl, fr⟩
    simp [fl, fr] at row
  -- Each run has three ways; where they differ the SQL does too, or both
  -- operands would reach no row.
  simp only at hx hy
  split at hx
  · next left =>
    obtain ⟨x, hx, rfl⟩ := hx
    split at hy
    · obtain ⟨y, hy, same⟩ := hy
      obtain ⟨rfl, _⟩ := Sql.isNull.inj same
      exact hr rebinds hx hy
    · split at hy
      · next right => exact absurd ⟨left.2.1, right.2.1⟩ oneFixed
      · obtain ⟨_, _, _, _, _, same⟩ := hy
        cases same
  · split at hx
    · next right =>
      obtain ⟨x, hx, rfl⟩ := hx
      split at hy
      · next left => exact absurd ⟨left.2.1, right.2.1⟩ oneFixed
      · split at hy
        · obtain ⟨y, hy, same⟩ := hy
          obtain ⟨rfl, _⟩ := Sql.isNull.inj same
          exact hl rebinds hx hy
        · obtain ⟨_, _, _, _, _, same⟩ := hy
          cases same
    · split at hy
      · obtain ⟨_, _, rfl⟩ := hy
        obtain ⟨_, _, _, _, _, same⟩ := hx
        cases same
      · split at hy
        · obtain ⟨_, _, rfl⟩ := hy
          obtain ⟨_, _, _, _, _, same⟩ := hx
          cases same
        · exact Plainly.lockstep hl hr rebinds hx hy

theorem wildcards_injective (affix : Affix) : Function.Injective (wildcards affix) := by
  intro p q h
  cases affix <;> simpa [wildcards] using h

include inj in
theorem lockstep_pattern (affix : Affix) {pattern : Expr}
    (h : ValueLockstep dialect names a b pattern) : Lockstep dialect.parameter b
      (patternStep ⟨dialect, names, some a⟩ affix ⟨pattern, value ⟨dialect, names, some a⟩ pattern⟩)
      (patternStep ⟨dialect, names, some b⟩ affix ⟨pattern,
        value ⟨dialect, names, some b⟩ pattern⟩) := by
  unfold patternStep
  by_cases row : pattern.isRowDependent = true
  · rw [if_pos row, if_pos row]
    exact h.map (wildcards_injective affix)
  · rw [if_neg row, if_neg row]
    exact lockstep_bindExpr inj affix pattern

theorem lockstep_logical (op : BinaryOp) {l r : Expr} (hl : ConditionLockstep dialect names a b l)
    (hr : ConditionLockstep dialect names a b r) : Lockstep dialect.parameter b
      (logical op (condition ⟨dialect, names, some a⟩ l) (condition ⟨dialect, names, some a⟩ r))
      (logical op (condition ⟨dialect, names, some b⟩ l) (condition ⟨dialect, names, some b⟩ r)) :=
  hl.map₂ hr fun _ _ _ _ h => by simpa using h

section Methods

variable {es : List Expr} (steps : ∀ e ∈ es, ValueLockstep dialect names a b e)
include steps

theorem lockstep_values : Lockstep dialect.parameter b
    (values (operands ⟨dialect, names, some a⟩ es))
    (values (operands ⟨dialect, names, some b⟩ es)) := by
  induction es with
  | nil => exact Lockstep.pure [] []
  | cons e es ih =>
    obtain ⟨here, later⟩ := List.forall_mem_cons.1 steps
    exact Lockstep.map₂ here (ih later) fun _ _ _ _ h => List.cons.inj h

theorem lockstep_receiver (method : String) : Lockstep dialect.parameter b
    (receiver method (operands ⟨dialect, names, some a⟩ es))
    (receiver method (operands ⟨dialect, names, some b⟩ es)) := by
  cases es with
  | nil => exact Lockstep.fail
  | cons e es => exact steps e List.mem_cons_self

include inj in
theorem lockstep_like (affix : Affix) : Lockstep dialect.parameter b
    (like ⟨dialect, names, some a⟩ affix (operands ⟨dialect, names, some a⟩ es))
    (like ⟨dialect, names, some b⟩ affix (operands ⟨dialect, names, some b⟩ es)) := by
  rcases es with _ | ⟨target, _ | ⟨pattern, rest⟩⟩
  · exact Lockstep.fail
  · exact Lockstep.fail
  · simp only [operands, like_eq]
    exact Lockstep.map₂ (steps target (by simp))
      (lockstep_pattern inj affix (steps pattern (by simp))) fun _ _ _ _ h => by simpa using h

theorem lockstep_membership (negated : Bool) (row : Expr.anyRowDependent es = true) :
    Lockstep dialect.parameter b
    (membership ⟨dialect, names, some a⟩ negated (operands ⟨dialect, names, some a⟩ es))
    (membership ⟨dialect, names, some b⟩ negated (operands ⟨dialect, names, some b⟩ es)) := by
  rcases es with _ | ⟨target, _ | ⟨item, _ | ⟨item', rest⟩⟩⟩
  · exact Lockstep.fail
  · exact Lockstep.pure _ _
  · have either : target.isRowDependent = true ∨ item.isRowDependent = true := by
      simpa [Expr.anyRowDependent] using row
    exact lockstep_comparison either (steps target (by simp)) (steps item (by simp))
  · obtain ⟨first, items⟩ := List.forall_mem_cons.1 steps
    exact Lockstep.map₂ first (lockstep_values items) fun _ _ _ _ h => by simpa using h

include inj in
theorem lockstep_callCondition (method : Method) (row : Expr.anyRowDependent es = true) :
    Lockstep dialect.parameter b
      (callCondition ⟨dialect, names, some a⟩ method (operands ⟨dialect, names, some a⟩ es))
      (callCondition ⟨dialect, names, some b⟩ method (operands ⟨dialect, names, some b⟩ es)) := by
  cases method with
  | startsWith | endsWith | contains => exact lockstep_like inj steps _
  | isIn | isNotIn => exact lockstep_membership steps _ row
  | host _ | concat | toUpper | toLower => exact Lockstep.fail

include inj in
theorem lockstep_callValue (method : Method) (row : Expr.anyRowDependent es = true) :
    Lockstep dialect.parameter b
      (callValue ⟨dialect, names, some a⟩ method (operands ⟨dialect, names, some a⟩ es))
      (callValue ⟨dialect, names, some b⟩ method (operands ⟨dialect, names, some b⟩ es)) := by
  cases method with
  | concat => exact (lockstep_values steps).map fun _ _ h => Sql.concat.inj h
  | toUpper => exact (lockstep_receiver steps _).map fun _ _ h => Sql.upper.inj h
  | toLower => exact (lockstep_receiver steps _).map fun _ _ h => Sql.lower.inj h
  | startsWith | endsWith | contains | isIn | isNotIn | host _ =>
    exact (lockstep_callCondition inj steps _ row).map fun _ _ h => Sql.paren.inj h

/-- A subquery is compiled under the same alias in both runs and forgets it in both. -/
theorem lockstep_subquery {inner : Expr} (negated : Bool) (index : String) (selector : Member)
    (filter : ConditionLockstep dialect names a b inner) : Lockstep dialect.parameter b
      (subquery ⟨dialect, names, some a⟩ negated index selector
        (condition ⟨dialect, names, some a⟩ inner) (operands ⟨dialect, names, some a⟩ es))
      (subquery ⟨dialect, names, some b⟩ negated index selector
        (condition ⟨dialect, names, some b⟩ inner) (operands ⟨dialect, names, some b⟩ es)) := by
  intro c c' d d' r rebinds hx hy
  obtain ⟨left, c₁, _, inside, c₂, hleft, _, hinside, rfl, rfl⟩ := gives_subquery hx
  obtain ⟨left', c₁', _, inside', c₂', hleft', _, hinside', rfl, same⟩ := gives_subquery hy
  obtain ⟨rfl, selected, _⟩ := Sql.inList.inj same
  obtain ⟨_, _, _, rfl⟩ := Sql.select.inj (List.cons.inj selected).1
  have before := lockstep_receiver steps _ rebinds hleft hleft'
  have under := before.withBindings (congrArg (fun bs =>
    (⟨index, index ++ "_" ++ toString bs.length⟩ :: bs : List Binding)) before.bindings)
  have after := filter under hinside hinside'
  exact after.withBindings (congrArg List.tail after.bindings)

end Methods

theorem parenthesized_lockstep {x y : Compile Sql} (h : Lockstep dialect.parameter b x y) :
    Lockstep dialect.parameter b (parenthesized x) (parenthesized y) :=
  h.map fun _ _ same => Sql.paren.inj same

theorem negation_lockstep {x y : Compile Sql} (h : Lockstep dialect.parameter b x y) :
    Lockstep dialect.parameter b (negation x) (negation y) :=
  h.map fun _ _ same => Sql.paren.inj (Sql.not.inj same)

mutual

/-- Two runs over a condition that answer the same SQL bind alike. -/
theorem lockstep_condition (inj : Function.Injective dialect.parameter) :
    (e : Expr) → ConditionLockstep dialect names a b e
  | .const v => lockstep_fixedCondition inj (.const v)
  | .capture c => lockstep_fixedCondition inj (.capture c)
  | .member m => by
    rw [ConditionLockstep, condition, condition]
    exact (lockstep_member m).map isTrue_injective
  | .unary op inner => by
    simp only [ConditionLockstep, condition]
    cases row : (Expr.unary op inner).isRowDependent with
    | false => exact lockstep_fixedCondition inj _
    | true =>
      cases op with
      | not => exact negation_lockstep (lockstep_condition inj inner)
      | negate => exact Lockstep.fail
  | .binary op l r => by
    simp only [ConditionLockstep, condition]
    cases row : (Expr.binary op l r).isRowDependent with
    | false => exact lockstep_fixedCondition inj _
    | true =>
      simp only [Bool.not_true, Bool.false_eq_true, if_false]
      split
      · exact lockstep_logical op (lockstep_condition inj l) (lockstep_condition inj r)
      · split
        · exact lockstep_comparison (by simpa [Expr.isRowDependent] using row)
            (lockstep_value inj l) (lockstep_value inj r)
        · exact Lockstep.fail
  | .call method args => by
    simp only [ConditionLockstep, condition]
    cases row : (Expr.call method args).isRowDependent with
    | false => exact lockstep_fixedCondition inj _
    | true => exact lockstep_callCondition inj (lockstep_operands inj args) method row
  | .inQuery negated index selector inner args => by
    rw [ConditionLockstep, condition, condition]
    exact lockstep_subquery (lockstep_operands inj args) negated index selector
      (lockstep_condition inj inner)
  | .convert inner kind => by
    simp only [ConditionLockstep, condition]
    cases row : (Expr.convert inner kind).isRowDependent with
    | false => exact lockstep_fixedCondition inj _
    | true => exact lockstep_condition inj inner

/-- Two runs over a value, in the same way. -/
theorem lockstep_value (inj : Function.Injective dialect.parameter) :
    (e : Expr) → ValueLockstep dialect names a b e
  | .const v => lockstep_bindExpr inj .exact (.const v)
  | .capture c => lockstep_bindExpr inj .exact (.capture c)
  | .member m => by
    rw [ValueLockstep, value, value]
    exact lockstep_member m
  | .unary op inner => by
    simp only [ValueLockstep, value]
    cases row : (Expr.unary op inner).isRowDependent with
    | false => exact lockstep_bindExpr inj .exact _
    | true =>
      cases op with
      | not => exact parenthesized_lockstep (negation_lockstep (lockstep_condition inj inner))
      | negate =>
        exact (lockstep_value inj inner).map fun _ _ same => Sql.negate.inj (Sql.paren.inj same)
  | .binary op l r => by
    simp only [ValueLockstep, value]
    cases row : (Expr.binary op l r).isRowDependent with
    | false => exact lockstep_bindExpr inj .exact _
    | true =>
      simp only [Bool.not_true, Bool.false_eq_true, if_false]
      split
      · exact parenthesized_lockstep (lockstep_logical op (lockstep_condition inj l)
          (lockstep_condition inj r))
      · split
        · exact parenthesized_lockstep
            (lockstep_comparison (by simpa [Expr.isRowDependent] using row) (lockstep_value inj l)
              (lockstep_value inj r))
        · exact (lockstep_value inj l).map₂ (lockstep_value inj r) fun _ _ _ _ same => by
            simpa using same
  | .call method args => by
    simp only [ValueLockstep, value]
    cases row : (Expr.call method args).isRowDependent with
    | false => exact lockstep_bindExpr inj .exact _
    | true => exact lockstep_callValue inj (lockstep_operands inj args) method row
  | .inQuery negated index selector inner args => by
    rw [ValueLockstep, value, value]
    exact parenthesized_lockstep
      (lockstep_subquery (lockstep_operands inj args) negated index selector
        (lockstep_condition inj inner))
  | .convert inner kind => by
    simp only [ValueLockstep, value]
    cases row : (Expr.convert inner kind).isRowDependent with
    | false => exact lockstep_bindExpr inj .exact _
    | true => exact lockstep_value inj inner

theorem lockstep_operands (inj : Function.Injective dialect.parameter) :
    (es : List Expr) → ∀ e ∈ es, ValueLockstep dialect names a b e
  | [] => fun _ h => by cases h
  | e :: es => List.forall_mem_cons.2 ⟨lockstep_value inj e, lockstep_operands inj es⟩

end

include inj in
theorem lockstep_order (terms : List OrderTerm) : Lockstep dialect.parameter b
    (order ⟨dialect, names, some a⟩ terms) (order ⟨dialect, names, some b⟩ terms) := by
  induction terms with
  | nil => exact Lockstep.pure [] []
  | cons term terms ih =>
    have here : ValueLockstep dialect names a b term.expr := lockstep_value inj term.expr
    refine Lockstep.map₂ (f := fun e rest => SqlOrder.mk e term.descending :: rest) here
      ih fun r s p q same => ?_
    obtain ⟨same, rest⟩ := List.cons.inj same
    exact ⟨(SqlOrder.mk.inj same).1, rest⟩

end Parts

end Compile

/-! ## Compiled queries -/

namespace CompiledQuery

variable {q : CompiledQuery} {dialect : Dialect} {names : TableNames} {a b args : Arguments}
  {sql sql' : CompiledSql}

/-- The operands of `=` and `<>` that compiling tests for null: those that reach
no row, in the condition with its subqueries and in the order terms. The test
of a list of one item is a comparison. -/
def tests (q : CompiledQuery) : List Expr := q.condition.conditionTests ++ orderTests q.order

/-- SQL that compiling for other arguments gives again binds their parameters. -/
theorem bind_of_same_query (injective : Function.Injective dialect.parameter)
    (hsql : q.compile dialect names a = .ok sql) (hsql' : q.compile dialect names b = .ok sql')
    (same : sql.query = sql'.query) : sql.bind b = .ok sql'.parameters := by
  obtain ⟨filter, order, c, d, hfilter, horder, rfl⟩ := gives_of_compile hsql
  obtain ⟨filter', order', c', d', hfilter', horder', rfl⟩ := gives_of_compile hsql'
  obtain ⟨_, _, rfl, rfl, _⟩ := Query.indexRows.inj same
  have start := Compilation.Rebinds.start dialect.parameter b [⟨q.index.name, q.index.name⟩]
  have filtered := Compile.lockstep_condition injective q.condition start hfilter hfilter'
  exact (Compile.lockstep_order injective q.order filtered horder horder').rebind

/-- A query is compiled once: for all arguments that make the same operands
null, compiling gives the same SQL, and binding the first compilation again gives
the parameters that compiling anew would bind, each under its name, in its place
and with its wildcards. -/
theorem same_sql_and_rebinds (injective : Function.Injective dialect.parameter)
    (hsql : q.compile dialect names a = .ok sql) (hsql' : q.compile dialect names b = .ok sql')
    (same : SameNulls a b q.tests) :
    sql.query = sql'.query ∧ sql.query.text dialect = sql'.query.text dialect ∧
      sql.bind b = .ok sql'.parameters := by
  obtain ⟨filter, order, filter', order', query, query', parts⟩ := parts_of_compile hsql hsql'
  rw [if_pos (sameNulls_append_iff.1 same)] at parts
  obtain ⟨rfl, rfl⟩ := parts
  have equal : sql.query = sql'.query := query.trans query'.symm
  exact ⟨equal, congrArg (Query.text dialect) equal, bind_of_same_query injective hsql hsql' equal⟩

/-- Rows whose title starts with one text and is not another, which may be absent. -/
def withPrefix : CompiledQuery :=
  let index : IndexType := ⟨"ByTitle", [⟨"title", .text, true⟩], some⟩
  ⟨0, index, .and (.call .startsWith [index.field "title", .capture (optionalText "start")])
    (.binary .ne (index.field "title") (.capture (optionalText "other"))), [], ⟨none, some 10⟩⟩

/-- A start and another title. -/
def givenTitles (start other : String) : Arguments :=
  fun name => some (.text (if name = "start" then start else other))

/-- Compiled with one start, the query binds another with its wildcard, and the
other title beside it. -/
theorem withPrefix_rebinds : ∃ sql sql',
    withPrefix.compile .standard ⟨"", ""⟩ (givenTitles "a" "ab") = .ok sql ∧
      withPrefix.compile .standard ⟨"", ""⟩ (givenTitles "x" "y") = .ok sql' ∧
      sql.query.text .standard = sql'.query.text .standard ∧ sql.parameters ≠ sql'.parameters ∧
      sql.bind (givenTitles "x" "y") = .ok ⟨[("@p0", .text "x%"), ("@p1", .text "y")]⟩ := by
  have ran :
      (withPrefix.compile .standard ⟨"", ""⟩ (givenTitles "a" "ab")).map CompiledSql.parameters =
      .ok ⟨[("@p0", .text "a%"), ("@p1", .text "ab")]⟩ := by rfl
  have ran' :
      (withPrefix.compile .standard ⟨"", ""⟩ (givenTitles "x" "y")).map CompiledSql.parameters =
      .ok ⟨[("@p0", .text "x%"), ("@p1", .text "y")]⟩ := by rfl
  obtain ⟨sql, hsql⟩ : ∃ sql,
      withPrefix.compile .standard ⟨"", ""⟩ (givenTitles "a" "ab") = .ok sql :=
    ⟨_, rfl⟩
  obtain ⟨sql', hsql'⟩ : ∃ sql,
      withPrefix.compile .standard ⟨"", ""⟩ (givenTitles "x" "y") = .ok sql :=
    ⟨_, rfl⟩
  have rebinds := same_sql_and_rebinds Dialect.injective_parameter_standard hsql hsql' (by decide)
  rw [hsql] at ran
  rw [hsql'] at ran'
  have bound : sql.parameters = _ := Except.ok.inj ran
  have bound' : sql'.parameters = _ := Except.ok.inj ran'
  refine ⟨sql, sql', hsql, hsql', rebinds.2.1, ?_, ?_⟩
  · rw [bound, bound']
    decide
  · rw [rebinds.2.2, bound']

end CompiledQuery

end DocStore

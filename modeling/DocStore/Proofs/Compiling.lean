import DocStore.CompiledQuery

/-!
# Steps of compiling

A compiling step against a compilation, as a relation: `Gives` is a step that
succeeds, with what it answers and what it leaves. Each way of putting steps
together has an equation for it, so that nothing else opens the monad.
-/

set_option autoImplicit false

namespace DocStore

namespace Expr

mutual

/-- An expression that reads no captures has the same value for all arguments. -/
theorem evaluate_congr (args args' : Option Arguments) :
    (e : Expr) → e.captures = [] → e.evaluate args = e.evaluate args'
  | .const _, _ => rfl
  | .capture _, h => by cases h
  | .member _, _ => rfl
  | .unary _ e, h => by simp only [evaluate, evaluate_congr args args' e h]
  | .binary _ l r, h => by
    obtain ⟨hl, hr⟩ := List.append_eq_nil_iff.1 h
    simp only [evaluate, evaluate_congr args args' l hl, evaluate_congr args args' r hr]
  | .call _ es, h => by simp only [evaluate, evaluateAll_congr args args' es h]
  | .inQuery _ _ _ _ es, h => by
    obtain ⟨_, hes⟩ := List.append_eq_nil_iff.1 h
    simp only [evaluate, evaluateAll_congr args args' es hes]
  | .convert e _, h => by simp only [evaluate, evaluate_congr args args' e h]

theorem evaluateAll_congr (args args' : Option Arguments) :
    (es : List Expr) → capturesOf es = [] → evaluateAll args es = evaluateAll args' es
  | [], _ => rfl
  | e :: es, h => by
    obtain ⟨he, hes⟩ := List.append_eq_nil_iff.1 h
    simp only [evaluateAll, evaluate_congr args args' e he, evaluateAll_congr args args' es hes]

end

end Expr

theorem Affix.apply_exact (v : Value) : Affix.exact.apply v = v := by
  cases v <;> rfl

namespace Compile

variable {α β : Type}

/-- A step succeeds from a compilation with an answer and leaves a compilation. -/
def Gives (x : Compile α) (c : Compilation) (r : α) (d : Compilation) : Prop :=
  x.run.run c = (.ok r, d)

theorem gives_pure_iff {r s : α} {c d : Compilation} : Gives (pure r) c s d ↔ s = r ∧ d = c := by
  change (Except.ok r, c) = (Except.ok s, d) ↔ _
  simp [eq_comm]

theorem run_bind (x : Compile α) (f : α → Compile β) (c : Compilation) :
    (x >>= f).run.run c =
      match x.run.run c with
      | (.ok r, d) => (f r).run.run d
      | (.error err, d) => (.error err, d) := by
  rw [ExceptT.run_bind, StateT.run_bind]
  rcases x.run.run c with ⟨_ | _, _⟩ <;> rfl

theorem gives_bind_iff {x : Compile α} {f : α → Compile β} {c e : Compilation} {s : β} :
    Gives (x >>= f) c s e ↔ ∃ r d, Gives x c r d ∧ Gives (f r) d s e := by
  unfold Gives
  rw [run_bind]
  constructor
  · intro h
    rcases hx : x.run.run c with ⟨err | r, d⟩
    · rw [hx] at h; cases h
    · rw [hx] at h; exact ⟨r, d, rfl, h⟩
  · rintro ⟨r, d, hx, hf⟩
    rw [hx]; exact hf

theorem not_gives_fail {err : Error} {c d : Compilation} {r : α} : ¬Gives (fail err) c r d := by
  intro h
  cases h

theorem gives_ofExcept_iff {x : Except Error α} {c d : Compilation} {r : α} :
    Gives (ofExcept x) c r d ↔ x = .ok r ∧ d = c := by
  cases x with
  | ok a =>
    rw [ofExcept, gives_pure_iff, Except.ok.injEq]
    exact and_congr_left fun _ => eq_comm
  | error err => exact ⟨fun h => absurd h not_gives_fail, fun h => nomatch h.1⟩

/-- Where one of two steps is taken, only that one counts. -/
theorem gives_ite_iff {p : Prop} [Decidable p] {x y : Compile α} {c d : Compilation} {r : α} :
    Gives (if p then x else y) c r d ↔ if p then Gives x c r d else Gives y c r d := by
  split <;> rfl

theorem gives_get_iff {c d e : Compilation} : Gives get c d e ↔ d = c ∧ e = c := by
  change (Except.ok c, c) = (Except.ok d, e) ↔ _
  simp [eq_comm]

theorem gives_bindIndex_iff {index tableAlias : String} {c d : Compilation} {u : Unit} :
    Gives (bindIndex index tableAlias) c u d ↔
    d = { c with bindings := ⟨index, tableAlias⟩ :: c.bindings } := by
  change (Except.ok (), _) = (Except.ok u, d) ↔ _
  simp [eq_comm]

/-- The alias is gone after the step, also if it fails. -/
theorem run_withIndex (index tableAlias : String) (x : Compile α) (c : Compilation) :
    (withIndex index tableAlias x).run.run c =
      match x.run.run { c with bindings := ⟨index, tableAlias⟩ :: c.bindings } with
      | (.ok r, e) => (.ok r, { e with bindings := e.bindings.tail })
      | (.error err, e) => (.error err, { e with bindings := e.bindings.tail }) := by
  change (fun p : Except Error α × Compilation =>
    (ofExcept p.1).run.run { p.2 with bindings := p.2.bindings.tail })
    (x.run.run { c with bindings := ⟨index, tableAlias⟩ :: c.bindings }) = _
  rcases x.run.run { c with bindings := ⟨index, tableAlias⟩ :: c.bindings } with ⟨_ | _, _⟩ <;> rfl

theorem gives_withIndex_iff {index tableAlias : String} {x : Compile α}
    {c d : Compilation} {r : α} : Gives (withIndex index tableAlias x) c r d ↔
      ∃ e, Gives x { c with bindings := ⟨index, tableAlias⟩ :: c.bindings } r e ∧
        d = { e with bindings := e.bindings.tail } := by
  unfold Gives
  rw [run_withIndex]
  rcases x.run.run { c with bindings := ⟨index, tableAlias⟩ :: c.bindings } with ⟨err | s, e⟩
  · exact ⟨(fun h => nomatch h), (fun ⟨_, h, _⟩ => nomatch h)⟩
  · constructor
    · intro h
      cases h
      exact ⟨e, rfl, rfl⟩
    · rintro ⟨e', h, rfl⟩
      cases h
      rfl

/-- A known member is the column of the innermost binding of its index, and
nothing is bound for it. -/
theorem gives_member_iff {m : Member} {c d : Compilation} {e : Sql} :
    Gives (member m) c e d ↔ m.isKnown = true ∧ d = c ∧
      ∃ b, (c.bindings.find? fun b => b.index = m.index) = some b ∧
        e = .column b.tableAlias m.column := by
  unfold member
  rw [gives_ite_iff]
  by_cases known : m.isKnown = true
  · rw [if_pos known, gives_bind_iff]
    simp only [gives_get_iff]
    cases hb : c.bindings.find? fun b => b.index = m.index with
    | none =>
      constructor
      · rintro ⟨_, _, ⟨rfl, rfl⟩, h⟩
        rw [hb] at h
        exact absurd h not_gives_fail
      · rintro ⟨_, _, _, h, _⟩; cases h
    | some b =>
      constructor
      · rintro ⟨_, _, ⟨rfl, rfl⟩, h⟩
        rw [hb] at h
        obtain ⟨rfl, rfl⟩ := gives_pure_iff.1 h
        exact ⟨known, rfl, b, rfl, rfl⟩
      · rintro ⟨_, rfl, b', h, rfl⟩
        cases h
        refine ⟨d, d, ⟨rfl, rfl⟩, ?_⟩
        rw [hb]
        exact gives_pure_iff.2 ⟨rfl, rfl⟩
  · rw [if_neg known]
    exact ⟨fun h => absurd h not_gives_fail, fun h => absurd h.1 known⟩

/-- The value of a fixed expression becomes one parameter more, with a rebinder
if it reads captures. -/
theorem gives_bindExpr_iff {t : Target} {affix : Affix} {e : Expr} {c d : Compilation} {r : Sql} :
    Gives (bindExpr t affix e) c r d ↔ ∃ v, e.evaluate t.arguments = .ok v ∧
    r = .param c.parameters.size ∧ d = { c with
        parameters := c.parameters.push (t.dialect.parameter c.parameters.size) (affix.apply v)
        rebinders :=
          if e.hasCaptures then c.rebinders ++ [⟨t.dialect.parameter c.parameters.size, e, affix⟩]
          else c.rebinders } := by
  have noted : ∀ {v : Value}, e.evaluate t.arguments = .ok v → (bindExpr t affix e).run.run c =
      (.ok (.param c.parameters.size), { c with
        parameters := c.parameters.push (t.dialect.parameter c.parameters.size) (affix.apply v)
        rebinders :=
          if e.hasCaptures then c.rebinders ++ [⟨t.dialect.parameter c.parameters.size, e, affix⟩]
          else c.rebinders }) := by
    intro v value
    unfold bindExpr
    rw [value]
    split <;> rfl
  constructor
  · intro h
    obtain ⟨v, _, hv, _⟩ := gives_bind_iff.1 h
    obtain ⟨value, _⟩ := gives_ofExcept_iff.1 hv
    obtain ⟨answer, left⟩ := Prod.mk.inj ((noted value).symm.trans h)
    exact ⟨v, value, (Except.ok.inj answer).symm, left.symm⟩
  · rintro ⟨v, value, rfl, rfl⟩
    exact noted value

theorem gives_bindExpr {t : Target} {affix : Affix} {e : Expr} {c d : Compilation} {r : Sql}
    (h : Gives (bindExpr t affix e) c r d) :
    r = .param c.parameters.size ∧ d.bindings = c.bindings ∧ ∃ v, e.evaluate t.arguments = .ok v ∧
      d.parameters = c.parameters.push (t.dialect.parameter c.parameters.size) (affix.apply v) := by
  obtain ⟨v, value, rfl, rfl⟩ := gives_bindExpr_iff.1 h
  exact ⟨rfl, rfl, v, value, rfl⟩

/-- A condition on no row that reads no captures is decided, and nothing is bound for it. -/
theorem gives_fixedCondition {t : Target} {e : Expr} {c d : Compilation} {r : Sql}
    (reads : ¬e.hasCaptures = true) (h : Gives (fixedCondition t e) c r d) :
    d = c ∧ ∃ v, e.evaluate t.arguments = .ok v ∧ r = .truth (v.bool? = some true) := by
  rw [fixedCondition, if_neg reads] at h
  obtain ⟨v, c, hv, h⟩ := gives_bind_iff.1 h
  obtain ⟨value, rfl⟩ := gives_ofExcept_iff.1 hv
  have counts : ∀ b : Bool, b = decide (some b = some true) := by decide
  cases v with
  | null =>
    obtain ⟨rfl, rfl⟩ := gives_pure_iff.1 h
    exact ⟨rfl, .null, value, rfl⟩
  | bool b =>
    obtain ⟨rfl, rfl⟩ := gives_pure_iff.1 h
    exact ⟨rfl, .bool b, value, congrArg Sql.truth (counts b)⟩
  | int n =>
    obtain ⟨rfl, rfl⟩ := gives_pure_iff.1 h
    exact ⟨rfl, .int n, value, congrArg Sql.truth (counts (n != 0))⟩
  | float _ | text _ => exact absurd h not_gives_fail

theorem size_push (ps : Parameters) (name : String) (v : Value) :
    (ps.push name v).size = ps.size + 1 := by
  simp [Parameters.size, Parameters.push]

end Compile

end DocStore

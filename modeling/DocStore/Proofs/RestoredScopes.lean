import DocStore.Proofs.CompilingSteps
import DocStore.Proofs.Placeholders

/-!
# What compiling leaves behind

A compiled query is put together by compiling one expression after another, and
a member of a later one resolves against the bindings that the earlier ones left.
Whether it succeeds or fails, deep in a subquery or not, compiling leaves just
the bindings that it found, and all parameters and rebinders that were there; it
adds parameters under the next names, and rebinders for some of these.
-/

set_option autoImplicit false

namespace DocStore

/-- One compilation continues another in the same scope. -/
structure Compilation.Continues (dialect : Dialect) (c d : Compilation) : Prop where
  bindings : d.bindings = c.bindings
  additions : ∃ (vs : List Value) (new : List Rebinder),
    d.parameters.entries = c.parameters.entries ++
      (dialect.numbered c.parameters.size vs.length).zip vs ∧
    d.rebinders = c.rebinders ++ new ∧
    (new.map Rebinder.parameter).Sublist (dialect.numbered c.parameters.size vs.length)

theorem Dialect.length_numbered (d : Dialect) (start count : Nat) :
    (d.numbered start count).length = count := by
  rw [numbered, List.length_map, List.length_range]

theorem Dialect.numbered_one (d : Dialect) (start : Nat) :
    d.numbered start 1 = [d.parameter start] := rfl

namespace Compilation.Continues

variable {dialect : Dialect} {c d e : Compilation}

theorem refl (c : Compilation) : Continues dialect c c := by
  refine ⟨rfl, [], [], ?_, ?_, ?_⟩
  · rw [List.zip_nil_right, List.append_nil]
  · rw [List.append_nil]
  · exact List.nil_sublist _

/-- What is added later is numbered after what was added first. -/
theorem trans (h : Continues dialect c d) (h' : Continues dialect d e) : Continues dialect c e := by
  obtain ⟨kept, vs, new, entries, rebinders, named⟩ := h
  obtain ⟨kept', vs', new', entries', rebinders', named'⟩ := h'
  have size : d.parameters.size = c.parameters.size + vs.length := by
    rw [Parameters.size, entries, List.length_append, List.length_zip, dialect.length_numbered,
      Nat.min_self, Parameters.size]
  rw [size] at entries' named'
  have names := dialect.numbered_append c.parameters.size vs.length vs'.length
  refine ⟨kept'.trans kept, vs ++ vs', new ++ new', ?_, ?_, ?_⟩
  · rw [entries', entries, List.length_append, ← names,
      List.zip_append (dialect.length_numbered _ _), List.append_assoc]
  · rw [rebinders', rebinders, List.append_assoc]
  · rw [List.length_append, ← names, List.map_append]
    exact named.append named'

/-- An alias that is bound in between is gone again. -/
theorem unbind {b : Binding} (h : Continues dialect { c with bindings := b :: c.bindings } d) :
    Continues dialect c { d with bindings := d.bindings.tail } where
  bindings := by rw [h.bindings, List.tail_cons]
  additions := h.additions

end Compilation.Continues

namespace Compile

open Compilation

variable {α β : Type} {t : Target} {dialect : Dialect}

/-- From every compilation, and whether it succeeds or fails, a step comes to one that continues
it in the same scope. -/
def Restores (dialect : Dialect) (x : Compile α) : Prop :=
  ∀ c : Compilation, c.Continues dialect (x.run.run c).2

theorem restores_pure (a : α) : Restores dialect (pure a : Compile α) := fun c => .refl c

theorem restores_fail (err : Error) : Restores dialect (fail err : Compile α) := fun c => .refl c

theorem restores_ofExcept (x : Except Error α) : Restores dialect (ofExcept x) := by
  cases x with
  | ok a => exact restores_pure a
  | error err => exact restores_fail err

/-- A step that fails leaves what was there; what would have followed it adds nothing. -/
theorem Restores.bind {x : Compile α} {f : α → Compile β} (hx : Restores dialect x)
    (hf : ∀ a, Restores dialect (f a)) : Restores dialect (x >>= f) := by
  intro c
  have first := hx c
  rw [run_bind]
  rcases ran : x.run.run c with ⟨err | a, d⟩
  · rwa [ran] at first
  · rw [ran] at first
    exact first.trans (hf a d)

theorem Restores.withIndex {x : Compile α} (h : Restores dialect x) (index tableAlias : String) :
    Restores dialect (withIndex index tableAlias x) := by
  intro c
  have inside := (h { c with bindings := ⟨index, tableAlias⟩ :: c.bindings }).unbind
  rw [run_withIndex]
  rcases ran : x.run.run { c with bindings := ⟨index, tableAlias⟩ :: c.bindings } with ⟨err | a, d⟩
  · rwa [ran] at inside
  · rwa [ran] at inside

/-- A value is bound under the next name, and so is its rebinder if it reads captures. -/
theorem restores_bindExpr (t : Target) (affix : Affix) (e : Expr) :
    Restores t.dialect (bindExpr t affix e) := by
  intro c
  cases value : e.evaluate t.arguments with
  | error err =>
    have failed : (bindExpr t affix e).run.run c = (.error err, c) := by
      unfold bindExpr
      rw [value, run_bind]
      rfl
    rw [failed]
    exact .refl c
  | ok v =>
    have gives : Gives (bindExpr t affix e) c _ _ := gives_bindExpr_iff.2 ⟨v, value, rfl, rfl⟩
    unfold Gives at gives
    rw [gives]
    refine ⟨rfl, [affix.apply v],
      if e.hasCaptures then [⟨t.dialect.parameter c.parameters.size, e, affix⟩] else [], ?_, ?_, ?_⟩
    · rfl
    · dsimp only
      split
      · rfl
      · rw [List.append_nil]
    · rw [List.length_singleton, t.dialect.numbered_one]
      split
      · exact List.Sublist.refl _
      · exact List.nil_sublist _

/-- However steps are put together. -/
theorem carries_restores (t : Target) :
    Carries t (fun _ => True) fun _ x => Restores t.dialect x where
  pure := restores_pure
  bind := Restores.bind
  get := fun c => .refl c
  fail _ := restores_fail _
  withIndex index tableAlias h := h.withIndex index tableAlias
  evaluate _ _ := restores_ofExcept _
  bindExpr _ _ affix := restores_bindExpr t affix _

/-- The `ORDER BY` clause of some terms, over single rows or over groups of them. -/
def orderBy (t : Target) (grouped : Bool) (terms : List OrderTerm) : Compile String := do
  let rendered ← order t terms
  pure (SqlOrder.clause t.dialect grouped rendered)

/-- From every compilation, and whether or not it fails, compiling a condition, a value or order
terms leaves the bindings as they were and keeps the parameters and rebinders before those that it
adds, which take the next names. -/
theorem compiling_restores_scope (t : Target) :
    (∀ e, Restores t.dialect (condition t e) ∧ Restores t.dialect (value t e)) ∧
    ∀ grouped terms, Restores t.dialect (orderBy t grouped terms) := by
  have inherited : Expr.Inherited fun _ => True := by
    constructor <;> simp
  constructor
  · intro e
    constructor
    · exact (carries_restores t).condition inherited e trivial
    · exact (carries_restores t).value inherited e trivial
  · intro grouped terms
    exact (carries_restores t).andThen ((carries_restores t).order inherited fun _ _ => trivial) _

end Compile

end DocStore

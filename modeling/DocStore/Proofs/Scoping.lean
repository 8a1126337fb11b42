import DocStore.Proofs.StackedBindings

/-!
# Aliases of compiled conditions

The value of a tree depends on the rows of the aliases that it names outside of
its own subqueries. A compiled condition names no others than those of the
indexes that are bound, since each member resolves against them and a subquery
binds its alias for as long as it is compiled.
-/

set_option autoImplicit false

namespace DocStore

namespace SqlTree

variable {α : Type}

mutual

/-- The columns are of these aliases, or of those of the subqueries around them. -/
def Within (aliases : List String) : SqlTree α → Prop
  | .placeholder _ | .number _ | .text _ => True
  | .column table _ => table ∈ aliases
  | .binary _ l r | .concat l r | .like l r => Within aliases l ∧ Within aliases r
  | .not e | .negate e | .isNull e _ => Within aliases e
  | .inList e items _ => Within aliases e ∧ WithinAll aliases items
  | .inSelect e selector _ tableAlias condition _ =>
    Within aliases e ∧ Within (tableAlias :: aliases) selector ∧
    Within (tableAlias :: aliases) condition
  | .apply _ args => WithinAll aliases args

def WithinAll (aliases : List String) : List (SqlTree α) → Prop
  | [] => True
  | e :: es => Within aliases e ∧ WithinAll aliases es

end

variable (b : Backend) {given : α → Value}

/-- Scopes that agree on some aliases agree on them and one more, which stands for
the same row in both. -/
theorem update_agrees {s s' : Scope} {aliases : List String} (agree : ∀ a ∈ aliases, s a = s' a)
    (tableAlias : String) (row : Row) :
    ∀ a ∈ tableAlias :: aliases, Function.update s tableAlias row a =
      Function.update s' tableAlias row a := by
  intro a member
  by_cases same : a = tableAlias
  · subst same
    rw [Function.update_self, Function.update_self]
  · rw [Function.update_of_ne same, Function.update_of_ne same]
    exact agree a ((List.mem_cons.1 member).resolve_left same)

mutual

/-- Scopes that agree on the aliases of a tree give it the same value. -/
theorem value_congr {s s' : Scope} {aliases : List String} (agree : ∀ a ∈ aliases, s a = s' a) :
    (e : SqlTree α) → e.Within aliases → e.value b given s = e.value b given s'
  | .placeholder _, _ | .number _, _ | .text _, _ => by simp only [value]
  | .column table _, within => by simp only [value, agree table within]
  | .binary _ l r, within | .concat l r, within | .like l r, within => by
    simp only [value, value_congr agree l within.1, value_congr agree r within.2]
  | .not e, within | .negate e, within | .isNull e _, within => by
    simp only [value, value_congr agree e within]
  | .inList e items _, within => by
    simp only [value, value_congr agree e within.1, values_congr agree items within.2]
  | .inSelect e selector _ tableAlias condition _, within => by
    simp only [value, value_congr agree e within.1,
      value_congr (update_agrees agree tableAlias _) selector within.2.1,
      value_congr (update_agrees agree tableAlias _) condition within.2.2]
  | .apply _ args, within => by simp only [value, values_congr agree args within]

theorem values_congr {s s' : Scope} {aliases : List String} (agree : ∀ a ∈ aliases, s a = s' a) :
    (es : List (SqlTree α)) → WithinAll aliases es → values b given s es = values b given s' es
  | [], _ => by simp only [values]
  | e :: es, within => by
    simp only [values, value_congr agree e within.1, values_congr agree es within.2]

end

theorem withinAll_of_forall₂ {aliases : List String} {es es' : List (SqlTree α)}
    (h : List.Forall₂ (fun e _ => e.Within aliases) es es') : WithinAll aliases es := by
  induction h with
  | nil => trivial
  | cons first _ ih => exact ⟨first, ih⟩

end SqlTree

namespace Compile

variable {t : Target}

/-- A tree that names bound aliases only is made of such trees. -/
theorem congruence_within :
    Congruence (fun _ => "") fun bs e _ => e.Within (bs.map Binding.tableAlias) where
  placeholder _ _ := trivial
  number _ _ := trivial
  text _ _ := trivial
  column found _ := List.mem_map_of_mem (List.mem_of_find?_eq_some found)
  binary hl hr _ := ⟨hl, hr⟩
  concat hl hr := ⟨hl, hr⟩
  not h := h
  negate h := h
  isNull h _ := h
  like hl hr := ⟨hl, hr⟩
  inList h items _ := ⟨h, SqlTree.withinAll_of_forall₂ items⟩
  inSelect h selector condition _ _ := ⟨h, selector, condition⟩
  apply args _ := SqlTree.withinAll_of_forall₂ args

/-- The image of a condition that compiles names bound aliases only. -/
theorem within_of_gives {c d : Compilation} {sql : Sql} {e : Expr}
    (h : Gives (condition t e) c sql d) :
    (e.image t c.bindings .condition).Within (c.bindings.map Binding.tableAlias) :=
  relates_condition congruence_within e h

/-- Scopes that agree on the bound indexes agree on a condition that compiles. -/
theorem truth?_congr {c d : Compilation} {sql : Sql} {e : Expr} (h : Gives (condition t e) c sql d)
    (b : Backend) {s s' : Scope}
    (agree : ∀ binding ∈ c.bindings, s binding.tableAlias = s' binding.tableAlias) :
    (e.image t c.bindings .condition).truth? b (Slot.value t.arguments) s =
      (e.image t c.bindings .condition).truth? b (Slot.value t.arguments) s' := by
  rw [SqlTree.truth?, SqlTree.value_congr b (List.forall_mem_map.2 agree) _ (within_of_gives h),
    SqlTree.truth?]

end Compile

end DocStore

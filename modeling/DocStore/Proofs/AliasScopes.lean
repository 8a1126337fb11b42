import DocStore.Proofs.Rendering
import Mathlib.Data.List.Nodup

/-!
# Aliases in scope

In SQL text an alias denotes the table of that name in the innermost `FROM`
clause that has it. `SqlTree.resolved` names the tables of a tree by what they
are instead: an alias that hides another one changes which table a column has
there. In a clear tree (`SqlTree.Clear`) no subquery hides an alias.
-/

set_option autoImplicit false

namespace DocStore

/-- A table that a `FROM` clause names: how many clauses there are around its
own, and its place there. -/
structure TableInstance where
  depth : Nat
  place : Nat
deriving DecidableEq

/-- The table that an alias denotes under clauses, from the innermost outwards, of which
the aliases are given: that of the first clause that has the alias, where it has to be
that of one table only. -/
def TableInstance.resolve? : List (List String) → String → Option TableInstance
  | [], _ => none
  | clause :: outer, a =>
    if a ∈ clause then
      if clause.count a = 1 then some ⟨outer.length, clause.idxOf a⟩ else none
    else resolve? outer a

namespace TableInstance

variable {clause : List String} {scope : List (List String)} {a b : String} {i : TableInstance}

theorem resolve?_of_mem (member : a ∈ clause) (unique : clause.Nodup) (outer : List (List String)) :
    resolve? (clause :: outer) a = some ⟨outer.length, clause.idxOf a⟩ := by
  rw [resolve?, if_pos member, if_pos (List.count_eq_one_of_mem unique member)]

theorem resolve?_of_not_mem (other : a ∉ clause) (outer : List (List String)) :
    resolve? (clause :: outer) a = resolve? outer a := by
  rw [resolve?, if_neg other]

theorem resolve?_self (a : String) (outer : List (List String)) :
    resolve? ([a] :: outer) a = some ⟨outer.length, 0⟩ := by
  rw [resolve?_of_mem (List.mem_singleton_self a) (List.nodup_singleton a), List.idxOf_cons_self]

theorem exists_of_resolve? (h : resolve? scope a = some i) : ∃ clause ∈ scope, a ∈ clause := by
  induction scope with
  | nil => cases h
  | cons clause outer ih =>
    by_cases member : a ∈ clause
    · exact ⟨clause, List.mem_cons_self, member⟩
    · rw [resolve?_of_not_mem member] at h
      obtain ⟨c, inner, has⟩ := ih h
      exact ⟨c, List.mem_cons_of_mem _ inner, has⟩

/-- An alias that no clause has hides none. -/
theorem resolve?_cons_fresh (fresh : ∀ clause ∈ scope, b ∉ clause) (h : resolve? scope a = some i) :
    resolve? ([b] :: scope) a = some i := by
  obtain ⟨clause, member, has⟩ := exists_of_resolve? h
  rw [resolve?_of_not_mem _ scope, h]
  rw [List.mem_singleton]
  rintro rfl
  exact fresh clause member has

/-- Where aliases differ, each one denotes its own table. -/
theorem resolve?_getElem (unique : clause.Nodup) {k : Nat} (bound : k < clause.length) :
    resolve? [clause] clause[k] = some ⟨0, k⟩ := by
  rw [resolve?_of_mem (List.getElem_mem bound) unique, unique.idxOf_getElem]
  rfl

end TableInstance

namespace SqlTree

open TableInstance

variable {α : Type}

mutual

/-- The tree with its tables named by what they are: every column by the table
that its alias denotes. -/
def resolved (f : Option TableInstance → String) (scope : List (List String)) :
    SqlTree α → SqlTree α
  | .placeholder a => .placeholder a
  | .column table name => .column (f (resolve? scope table)) name
  | .number digits => .number digits
  | .text s => .text s
  | .binary op l r => .binary op (resolved f scope l) (resolved f scope r)
  | .concat l r => .concat (resolved f scope l) (resolved f scope r)
  | .not e => .not (resolved f scope e)
  | .negate e => .negate (resolved f scope e)
  | .isNull e negated => .isNull (resolved f scope e) negated
  | .like e pattern => .like (resolved f scope e) (resolved f scope pattern)
  | .inList e items negated => .inList (resolved f scope e) (resolvedAll f scope items) negated
  | .inSelect e selector table tableAlias condition negated =>
    .inSelect (resolved f scope e) (resolved f ([tableAlias] :: scope) selector) table
      (f (some ⟨scope.length, 0⟩)) (resolved f ([tableAlias] :: scope) condition) negated
  | .apply g args => .apply g (resolvedAll f scope args)

def resolvedAll (f : Option TableInstance → String) (scope : List (List String)) :
    List (SqlTree α) → List (SqlTree α)
  | [] => []
  | e :: es => resolved f scope e :: resolvedAll f scope es

end

mutual

/-- The aliases of the subqueries in a tree. -/
def aliases : SqlTree α → List String
  | .placeholder _ | .column _ _ | .number _ | .text _ => []
  | .binary _ l r | .concat l r | .like l r => aliases l ++ aliases r
  | .not e | .negate e | .isNull e _ => aliases e
  | .inList e items _ => aliases e ++ aliasesAll items
  | .inSelect e selector _ tableAlias condition _ =>
    aliases e ++ tableAlias :: (aliases selector ++ aliases condition)
  | .apply _ args => aliasesAll args

def aliasesAll : List (SqlTree α) → List String
  | [] => []
  | e :: es => aliases e ++ aliasesAll es

end

mutual

/-- No subquery has the alias of a table around it. -/
def Clear (scope : List (List String)) : SqlTree α → Prop
  | .placeholder _ | .column _ _ | .number _ | .text _ => True
  | .binary _ l r | .concat l r | .like l r => Clear scope l ∧ Clear scope r
  | .not e | .negate e | .isNull e _ => Clear scope e
  | .inList e items _ => Clear scope e ∧ ClearAll scope items
  | .inSelect e selector _ tableAlias condition _ =>
    Clear scope e ∧ (∀ clause ∈ scope, tableAlias ∉ clause) ∧
    Clear ([tableAlias] :: scope) selector ∧ Clear ([tableAlias] :: scope) condition
  | .apply _ args => ClearAll scope args

def ClearAll (scope : List (List String)) : List (SqlTree α) → Prop
  | [] => True
  | e :: es => Clear scope e ∧ ClearAll scope es

end

mutual

theorem Clear.not_mem {scope : List (List String)} :
    {e : SqlTree α} → e.Clear scope → ∀ a ∈ e.aliases, ∀ clause ∈ scope, a ∉ clause
  | .placeholder _, _ | .column _ _, _ | .number _, _ | .text _, _ =>
    fun _ member => by cases member
  | .binary _ _ _, clear | .concat _ _, clear | .like _ _, clear =>
    List.forall_mem_append.2 ⟨Clear.not_mem clear.1, Clear.not_mem clear.2⟩
  | .not e, clear | .negate e, clear | .isNull e _, clear => Clear.not_mem (e := e) clear
  | .inList _ _ _, clear =>
    List.forall_mem_append.2 ⟨Clear.not_mem clear.1, ClearAll.not_mem clear.2⟩
  | .inSelect _ _ _ _ _ _, ⟨clear, fresh, selector, condition⟩ =>
    List.forall_mem_append.2 ⟨Clear.not_mem clear,
      List.forall_mem_cons.2 ⟨fresh, List.forall_mem_append.2
      ⟨fun a member clause inner =>
          Clear.not_mem selector a member clause (List.mem_cons_of_mem _ inner),
        fun a member clause inner =>
          Clear.not_mem condition a member clause (List.mem_cons_of_mem _ inner)⟩⟩⟩
  | .apply _ args, clear => ClearAll.not_mem clear

theorem ClearAll.not_mem {scope : List (List String)} :
    {es : List (SqlTree α)} → ClearAll scope es → ∀ a ∈ aliasesAll es, ∀ clause ∈ scope, a ∉ clause
  | [], _ => fun _ member => by cases member
  | _ :: _, clear => List.forall_mem_append.2 ⟨Clear.not_mem clear.1, ClearAll.not_mem clear.2⟩

end

/-! ### Placeholders play no part -/

section Named

variable (name : Nat → String) (f : Option TableInstance → String)

mutual

theorem aliases_named : (e : SqlTree α) → ∀ n, (e.named name n).aliases = e.aliases
  | .placeholder _, _ | .column _ _, _ | .number _, _ | .text _, _ => rfl
  | .binary _ l r, _ | .concat l r, _ | .like l r, _ => by
    simp only [named, aliases, aliases_named l, aliases_named r]
  | .not e, _ | .negate e, _ | .isNull e _, _ => by simp only [named, aliases, aliases_named e]
  | .inList e items _, _ => by simp only [named, aliases, aliases_named e, aliasesAll_named items]
  | .inSelect e selector _ _ condition _, _ => by
    simp only [named, aliases, aliases_named e, aliases_named selector, aliases_named condition]
  | .apply _ args, _ => by simp only [named, aliases, aliasesAll_named args]

theorem aliasesAll_named :
    (es : List (SqlTree α)) → ∀ n, aliasesAll (namedAll name n es) = aliasesAll es
  | [], _ => rfl
  | e :: es, _ => by simp only [namedAll, aliasesAll, aliases_named e, aliasesAll_named es]

end

mutual

theorem clear_named : (e : SqlTree α) → ∀ scope n, (e.named name n).Clear scope ↔ e.Clear scope
  | .placeholder _, _, _ | .column _ _, _, _ | .number _, _, _ | .text _, _, _ => Iff.rfl
  | .binary _ l r, _, _ | .concat l r, _, _ | .like l r, _, _ => by
    simp only [named, Clear, clear_named l, clear_named r]
  | .not e, _, _ | .negate e, _, _ | .isNull e _, _, _ => by simp only [named, Clear, clear_named e]
  | .inList e items _, _, _ => by simp only [named, Clear, clear_named e, clearAll_named items]
  | .inSelect e selector _ _ condition _, _, _ => by
    simp only [named, Clear, clear_named e, clear_named selector, clear_named condition]
  | .apply _ args, _, _ => by simp only [named, Clear, clearAll_named args]

theorem clearAll_named :
    (es : List (SqlTree α)) → ∀ scope n, ClearAll scope (namedAll name n es) ↔ ClearAll scope es
  | [], _, _ => Iff.rfl
  | e :: es, _, _ => by simp only [namedAll, ClearAll, clear_named e, clearAll_named es]

end

mutual

theorem slots_resolved : (e : SqlTree α) → ∀ scope, (e.resolved f scope).slots = e.slots
  | .placeholder _, _ | .column _ _, _ | .number _, _ | .text _, _ => rfl
  | .binary _ l r, _ | .concat l r, _ | .like l r, _ => by
    simp only [resolved, slots, slots_resolved l, slots_resolved r]
  | .not e, _ | .negate e, _ | .isNull e _, _ => by simp only [resolved, slots, slots_resolved e]
  | .inList e items _, _ => by
    simp only [resolved, slots, slots_resolved e, slotsAll_resolved items]
  | .inSelect e selector _ _ condition _, _ => by
    simp only [resolved, slots, slots_resolved e, slots_resolved selector, slots_resolved condition]
  | .apply _ args, _ => by simp only [resolved, slots, slotsAll_resolved args]

theorem slotsAll_resolved :
    (es : List (SqlTree α)) → ∀ scope, slotsAll (resolvedAll f scope es) = slotsAll es
  | [], _ => rfl
  | e :: es, _ => by simp only [resolvedAll, slotsAll, slots_resolved e, slotsAll_resolved es]

end

mutual

theorem resolved_named :
    (e : SqlTree α) → ∀ scope n, (e.named name n).resolved f scope =
    (e.resolved f scope).named name n
  | .placeholder _, _, _ | .column _ _, _, _ | .number _, _, _ | .text _, _, _ => rfl
  | .binary _ l r, _, _ | .concat l r, _, _ | .like l r, _, _ => by
    simp only [named, resolved, resolved_named l, resolved_named r, slots_resolved]
  | .not e, _, _ | .negate e, _, _ | .isNull e _, _, _ => by
    simp only [named, resolved, resolved_named e]
  | .inList e items _, _, _ => by
    simp only [named, resolved, resolved_named e, resolvedAll_named items, slots_resolved]
  | .inSelect e selector _ _ condition _, _, _ => by
    simp only [named, resolved, resolved_named e, resolved_named selector, resolved_named condition,
      slots_resolved]
  | .apply _ args, _, _ => by simp only [named, resolved, resolvedAll_named args]

theorem resolvedAll_named : (es : List (SqlTree α)) → ∀ scope n,
    resolvedAll f scope (namedAll name n es) = namedAll name n (resolvedAll f scope es)
  | [], _, _ => rfl
  | e :: es, _, _ => by
    simp only [namedAll, resolvedAll, resolved_named e, resolvedAll_named es, slots_resolved]

end

end Named

end SqlTree

end DocStore

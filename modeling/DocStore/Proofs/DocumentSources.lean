import DocStore.Proofs.Conjunctions
import DocStore.Proofs.JoinedRows
import DocStore.Proofs.Scoping
import DocStore.Proofs.StatementTables

/-!
# What statements over documents are made of

The source of a query over documents has the type of the entity and the condition
of every joined index, all compiled under the joined indexes. Their conjunction is
true in a scope where the document has the type and all conditions are true,
whatever else is bound after them.
-/

set_option autoImplicit false

namespace DocStore

/-! ## What the statements are made of -/

namespace Compile

variable {t : Target}

/-- A value becomes one parameter more. -/
theorem gives_bindValue_iff {v : Value} {c d : Compilation} {sql : Sql} : Gives (bind t v) c sql d ↔
    sql = .param c.parameters.size ∧
      d = { c with parameters := c.parameters.push (t.dialect.parameter c.parameters.size) v } := by
  change (Except.ok (Sql.param c.parameters.size), _) = (Except.ok sql, d) ↔ _
  simp [eq_comm]

theorem renders_bind (v : Value) :
    RendersOperand t (fun _ => .placeholder ⟨.const v, .exact⟩) (bind t v) := by
  intro c d sql h
  obtain ⟨rfl, rfl⟩ := gives_bindValue_iff.1 h
  have bound : Slot.value t.arguments ⟨.const v, .exact⟩ = v := Affix.apply_exact v
  refine ⟨⟨rfl, ?_⟩, Sql.isOperand_param c.parameters.size⟩
  simp only [SqlTree.slots, List.map_cons, List.map_nil, bound]
  rfl

end Compile

namespace DocumentQuery

section Source

variable {t : Target}

/-- The images of the conditions on the indexes. -/
def images (t : Target) (conditions : List (String × Expr)) (bs : List Binding) :
    List (SqlTree Slot) :=
  conditions.map fun j => j.2.image t bs .condition

theorem renders_joinConditions (conditions : List (String × Expr)) :
    Compile.Renders t (fun bs => SqlTree.slotsAll (images t conditions bs)) (fun bs n sqls =>
      List.Forall₂ Sql.IsPhrase sqls (SqlTree.namedAll Dialect.standard.parameter n
        (images t conditions bs)))
      (joinConditions t conditions) := by
  induction conditions with
  | nil => exact Compile.Renders.pure fun _ _ => .nil
  | cons j conditions ih =>
    exact Compile.Renders.map₂ (Compile.renders_condition j.2) ih fun _ _ _ _ hp hq => .cons hp hq

/-- Every condition is compiled under the same indexes. -/
theorem exists_gives_of_joinConditions {conditions : List (String × Expr)} {c d : Compilation}
    {sqls : List Sql} (h : Compile.Gives (joinConditions t conditions) c sqls d) :
    ∀ j ∈ conditions, ∃ c' sql d', c'.bindings = c.bindings ∧
      Compile.Gives (Compile.condition t j.2) c' sql d' := by
  induction conditions generalizing c sqls d with
  | nil => exact fun _ never => by cases never
  | cons j conditions ih =>
    obtain ⟨sql, c', first, h⟩ := Compile.gives_bind_iff.1 h
    obtain ⟨_, _, rest, _⟩ := Compile.gives_bind_iff.1 h
    have later := ih rest
    rw [(Compile.renders_condition j.2 first).1.bindings] at later
    exact List.forall_mem_cons.2 ⟨⟨c, sql, c', rfl, first⟩, later⟩

/-- The bindings of joined indexes, the last one innermost. -/
def bindingsOf (joins : List Join) : List Binding :=
  (joins.map fun join => ⟨join.index, join.index⟩).reverse

theorem mem_bindingsOf_iff {joins : List Join} {binding : Binding} : binding ∈ bindingsOf joins ↔
    ∃ join ∈ joins, binding = ⟨join.index, join.index⟩ := by
  simp only [bindingsOf, List.mem_reverse, List.mem_map, eq_comm]

theorem gives_bindJoins_iff {joins : List Join} {c d : Compilation} {u : Unit} :
    Compile.Gives (bindJoins joins) c u d ↔
    d = { c with bindings := bindingsOf joins ++ c.bindings } := by
  induction joins generalizing c with
  | nil =>
    rw [bindJoins, Compile.gives_pure_iff]
    exact and_iff_right rfl
  | cons join joins ih =>
    rw [bindJoins, Compile.gives_bind_iff]
    simp only [Compile.gives_bindIndex_iff, ih, bindingsOf, List.map_cons, List.reverse_cons,
      List.append_assoc, List.singleton_append]
    constructor
    · rintro ⟨_, _, rfl, rfl⟩
      rfl
    · rintro rfl
      exact ⟨(), _, rfl, rfl⟩

/-- The condition that a document is of the entity type. -/
def typeImage (entity : EntityType) : SqlTree Slot :=
  .binary .eq (.column Join.documentAlias Column.typeName)
    (.placeholder ⟨.const (.text entity.name), .exact⟩)

/-- The type of the document, and then the conditions on the indexes. -/
def conditionImages (t : Target) (q : DocumentQuery) (joins : List Join) : List (SqlTree Slot) :=
  typeImage q.entity :: images t q.joins (bindingsOf joins)

/-- What a source is: the tables, and conditions that read as those of the query. -/
structure Describes (t : Target) (q : DocumentQuery) (joins : List Join) (source : DocumentSource)
    (c : Compilation) : Prop where
  table : source.table = t.names.document
  joined : source.joins = joins
  phrases : List.Forall₂ Sql.IsPhrase source.conditions
    (SqlTree.namedAll Dialect.standard.parameter 0 (conditionImages t q joins))
  binds : Compilation.Binds t { Compilation.start with bindings := bindingsOf joins }
    (SqlTree.slotsAll (conditionImages t q joins)) c
  compiled : ∀ j ∈ q.joins, ∃ c' sql d', c'.bindings = bindingsOf joins ∧
    Compile.Gives (Compile.condition t j.2) c' sql d'

variable {q : DocumentQuery} {joins : List Join} {source : DocumentSource} {d : Compilation}

theorem describes_of_gives (h : Compile.Gives (q.source t joins) .start source d) :
    Describes t q joins source d := by
  obtain ⟨_, c₁, bound, h⟩ := Compile.gives_bind_iff.1 h
  obtain rfl := gives_bindJoins_iff.1 bound
  obtain ⟨entity, c₂, typed, h⟩ := Compile.gives_bind_iff.1 h
  obtain ⟨conditions, c₃, listed, h⟩ := Compile.gives_bind_iff.1 h
  obtain ⟨rfl, rfl⟩ := Compile.gives_pure_iff.1 h
  obtain ⟨first, operand⟩ := Compile.renders_bind _ typed
  obtain ⟨rest, phrases⟩ := renders_joinConditions _ listed
  have compiled := exists_gives_of_joinConditions listed
  rw [show Compilation.start.bindings = [] from rfl, List.append_nil] at first
  rw [first.bindings] at rest phrases compiled
  rw [first.size_eq] at phrases
  have column := Sql.isOperand_column Join.documentAlias Column.typeName
  exact ⟨rfl, rfl, .cons (Sql.isPhrase_binary rfl column operand) phrases,
    first.trans rest, compiled⟩

theorem truth?_typeImage (b : Backend) (s : Scope) (entity : EntityType) :
    (typeImage entity).truth? b (Slot.value t.arguments) s =
      b.compared .eq ((s Join.documentAlias).cell Column.typeName) (.text entity.name) := by
  rw [typeImage, SqlTree.truth?_comparison b rfl]
  rfl

/-- Conditions on the joined indexes are true in a scope. -/
def Meets (b : Backend) (t : Target) (joins : List Join) (conditions : List Expr)
    (s : Scope) : Prop :=
  ∀ e ∈ conditions, (e.image t (bindingsOf joins) .condition).truth? b (Slot.value t.arguments) s =
    some true

/-- A row is a document of an entity type. -/
def IsTyped (b : Backend) (entity : EntityType) (document : Row) : Prop :=
  b.compared .eq (document.cell Column.typeName) (.text entity.name) = some true

instance (b : Backend) (entity : EntityType) (document : Row) :
    Decidable (IsTyped b entity document) :=
  inferInstanceAs (Decidable (_ = _))

instance (b : Backend) (t : Target) (joins : List Join) (conditions : List Expr) (s : Scope) :
    Decidable (Meets b t joins conditions s) := inferInstanceAs (Decidable (∀ _ ∈ _, _ = _))

/-- Which conditions are true depends on the rows of the joined indexes only. -/
theorem Describes.meets_congr (describes : Describes t q joins source d) {b : Backend}
    {s s' : Scope} (agree : ∀ join ∈ joins, s join.index = s' join.index)
    (meets : Meets b t joins (q.joins.map Prod.snd) s) :
    Meets b t joins (q.joins.map Prod.snd) s' := by
  refine List.forall_mem_map.2 fun j member => ?_
  obtain ⟨c, sql, e, bindings, gives⟩ := describes.compiled j member
  have bound : ∀ binding ∈ c.bindings, s binding.tableAlias = s' binding.tableAlias := by
    intro binding member
    rw [bindings] at member
    obtain ⟨join, joined, rfl⟩ := mem_bindingsOf_iff.1 member
    exact agree join joined
  have same := Compile.truth?_congr gives b bound
  rw [bindings] at same
  rw [← same]
  exact meets _ (List.mem_map_of_mem member)

theorem Describes.conditions_ne_nil (describes : Describes t q joins source d) :
    source.conditions ≠ [] := by
  intro none
  have phrases := describes.phrases
  rw [none] at phrases
  cases phrases

/-- What the conditions of a source read as. -/
def conditionTree (t : Target) (q : DocumentQuery) (joins : List Join) : SqlTree String :=
  .conjunction (SqlTree.namedAll Dialect.standard.parameter 0 (conditionImages t q joins))

/-- It is true where they are met, with what is bound for them and after them. -/
theorem Describes.truth?_conditionTree (describes : Describes t q joins source d)
    (dialect : t.dialect = .standard ∨ t.dialect = .sqlite) {slots : List Slot} {e : Compilation}
    (later : d.Binds t slots e) (b : Backend) (s : Scope) :
    (conditionTree t q joins).truth? b e.parameters.given s = some true ↔
      IsTyped b q.entity (s Join.documentAlias) ∧ Meets b t joins (q.joins.map Prod.snd) s := by
  have name : t.dialect.parameter = Dialect.standard.parameter := by
    rcases dialect with standard | sqlite
    · rw [standard]
    · rw [sqlite]
      rfl
  have named : SqlTree.Names (Slot.value t.arguments) e.parameters.given t.dialect.parameter 0
      (SqlTree.slotsAll (conditionImages t q joins)) := by
    have whole := (describes.binds.trans later).parameters
    have all := SqlTree.names_pushAll dialect (Parameters.numbered_empty _)
      (SqlTree.slotsAll (conditionImages t q joins) ++ slots)
    rw [whole]
    exact (SqlTree.names_append_iff.1 all).1
  unfold conditionTree conditionImages at *
  rw [name, ← SqlTree.slots_conjunction] at named
  rw [← SqlTree.named_conjunction, SqlTree.truth?, SqlTree.value_named b s _ _ named,
    ← SqlTree.truth?, SqlTree.truth?_conjunction_iff, List.forall_mem_cons, truth?_typeImage,
    images, List.forall_mem_map, IsTyped, Meets, List.forall_mem_map]

end Source

end DocumentQuery

end DocStore

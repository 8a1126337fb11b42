import DocStore.Proofs.SelectStatements
import Mathlib.Data.List.Nodup

/-!
# Rows of joined tables

How the indexes of a statement over documents are joined. A join of an index is one
`INNER JOIN`, or two with the bridge between, and each of them equates two columns.
Under distinct aliases, a scope that is joined chooses a row of every index:
`exists_joined_iff` says that these choices are all those of linked rows.
-/

set_option autoImplicit false

namespace DocStore

/-! ## Inner joins -/

/-- The rows of a table under an alias, of which a column equals one of an alias before. -/
structure InnerJoin where
  table : String
  tableAlias : String
  column : String
  other : String
  otherColumn : String

namespace InnerJoin

def text (d : Dialect) (j : InnerJoin) : String :=
  Join.innerJoin d j.table j.tableAlias j.column j.other j.otherColumn

/-- The columns of the joined row and the row before are equal. -/
def equates (b : Backend) (j : InnerJoin) (s : Scope) : Prop :=
  b.compared .eq ((s j.tableAlias).cell j.column) ((s j.other).cell j.otherColumn) = some true

instance (b : Backend) (j : InnerJoin) (s : Scope) : Decidable (j.equates b s) :=
  inferInstanceAs (Decidable (_ = _))

/-- What it reads as. -/
def tree (j : InnerJoin) : JoinTree :=
  ⟨j.table, j.tableAlias, .binary .eq (.column j.tableAlias j.column)
    (.column j.other j.otherColumn)⟩

/-- In a scope, the alias stands for a row that equates. -/
def Holds (b : Backend) (j : InnerJoin) (s : Scope) : Prop :=
  s j.tableAlias ∈ b.tables j.table ∧ j.equates b s

/-- A join depends on two aliases. -/
theorem holds_congr {b : Backend} {j : InnerJoin} {s s' : Scope}
    (joined : s j.tableAlias = s' j.tableAlias) (before : s j.other = s' j.other) :
    j.Holds b s ↔ j.Holds b s' := by
  rw [Holds, Holds, equates, equates, joined, before]

end InnerJoin

namespace Join

/-- The tables that a join takes, in order. -/
def innerJoins (join : Join) : List InnerJoin :=
  match join.bridge with
  | none => [⟨join.table, join.index, Column.documentIdName, documentAlias, Column.idName⟩]
  | some bridge =>
    [⟨bridge, TableNames.bridgeName join.index, Column.documentIdName, documentAlias,
        Column.idName⟩,
      ⟨join.table, join.index, Column.idName, TableNames.bridgeName join.index,
        TableNames.bridgeColumn join.index⟩]

theorem text_eq (d : Dialect) (join : Join) :
    join.text d = String.join (join.innerJoins.map (InnerJoin.text d)) := by
  unfold text innerJoins
  cases join.bridge <;> simp [InnerJoin.text, String.join]

/-- The aliases of a statement over documents: that of the documents, and those of the
tables that are joined. -/
def tableAliases (joins : List Join) : List String :=
  documentAlias :: (joins.flatMap innerJoins).map InnerJoin.tableAlias

/-- A row of the index is linked to a document: it names the document itself, or a row of
the bridge names both. -/
def Links (b : Backend) (join : Join) (document row : Row) : Prop :=
  row ∈ b.tables join.table ∧
    match join.bridge with
    | none => b.compared .eq (row.cell Column.documentIdName) (document.cell Column.idName) =
        some true
    | some bridge => ∃ link ∈ b.tables bridge,
        b.compared .eq (link.cell Column.documentIdName) (document.cell Column.idName) = some true ∧
          b.compared .eq (row.cell Column.idName) (link.cell (TableNames.bridgeColumn join.index)) =
            some true

instance (b : Backend) (join : Join) (document row : Row) :
    Decidable (join.Links b document row) := by
  unfold Links
  cases join.bridge <;> exact inferInstance

/-- Where the joins of an index hold, its row is linked to the document. -/
theorem links_of_holds {b : Backend} {join : Join} {s : Scope}
    (holds : ∀ j ∈ join.innerJoins, j.Holds b s) :
    join.Links b (s documentAlias) (s join.index) := by
  unfold innerJoins at holds
  unfold Links
  cases h : join.bridge with
  | none =>
    rw [h] at holds
    exact holds _ (List.mem_singleton_self _)
  | some bridge =>
    rw [h] at holds
    obtain ⟨⟨linked, document⟩, here⟩ := List.forall_mem_cons.1 holds
    obtain ⟨row, index⟩ := List.forall_mem_singleton.1 here
    exact ⟨row, _, linked, document, index⟩

end Join

/-! ## Scopes -/

/-- Every join refers to an alias that is seen before it. -/
def Refers (seen : List String) : List InnerJoin → Prop
  | [] => True
  | j :: js => j.other ∈ seen ∧ Refers (j.tableAlias :: seen) js

theorem nodup_seen {seen aliases : List String} {first : String}
    (distinct : (seen ++ first :: aliases).Nodup) : (first :: seen ++ aliases).Nodup := by
  rwa [List.cons_append, ← List.perm_middle.nodup_iff]

theorem not_mem_of_seen {seen aliases : List String} {a : String}
    (distinct : (seen ++ aliases).Nodup) (member : a ∈ seen) :
    a ∉ aliases := fun again => List.disjoint_of_nodup_append distinct member again

section Scopes

variable {b : Backend} {given : String → Value} {s s₀ : Scope} {seen : List String}
  {js : List InnerJoin}

theorem InnerJoin.truth?_tree (j : InnerJoin) :
    j.tree.condition.truth? b given s = some true ↔ j.equates b s := by
  rw [tree, SqlTree.truth?_comparison b rfl]
  rfl

theorem InnerJoin.mem_extend_iff {scopes : List Scope} {j : InnerJoin} :
    s ∈ j.tree.extend b given scopes ↔
    ∃ s₀ ∈ scopes, ∃ row ∈ b.tables j.table, s = Function.update s₀ j.tableAlias row ∧
      j.equates b s := by
  simp only [JoinTree.extend, List.mem_flatMap, List.mem_filter, List.mem_map, decide_eq_true_eq,
    j.truth?_tree]
  constructor
  · rintro ⟨s₀, member, ⟨row, stored, rfl⟩, equal⟩
    exact ⟨s₀, member, row, stored, rfl, equal⟩
  · rintro ⟨s₀, member, row, stored, rfl, equal⟩
    exact ⟨s₀, member, ⟨row, stored, rfl⟩, equal⟩

/-- A scope stands for what another one does, and for the rows that are joined. -/
def Extends (b : Backend) (s₀ : Scope) (js : List InnerJoin) (s : Scope) : Prop :=
  (∀ a, a ∉ js.map InnerJoin.tableAlias → s a = s₀ a) ∧ ∀ j ∈ js, j.Holds b s

/-- What is joined to some scopes: under distinct aliases, every choice of rows that equate. -/
theorem mem_foldl_extend_iff {scopes : List Scope} (refers : Refers seen js)
    (distinct : (seen ++ js.map InnerJoin.tableAlias).Nodup) :
    s ∈ (js.map InnerJoin.tree).foldl (JoinTree.extend b given) scopes ↔
    ∃ s₀ ∈ scopes, Extends b s₀ js s := by
  unfold Extends
  induction js generalizing seen scopes with
  | nil =>
    constructor
    · exact fun member => ⟨s, member, fun _ _ => rfl, fun _ never => by cases never⟩
    · rintro ⟨s₀, member, same, _⟩
      rwa [funext fun a => same a List.not_mem_nil]
  | cons j js ih =>
    rw [List.map_cons] at distinct
    have later := nodup_seen distinct
    have fresh : j.tableAlias ∉ js.map InnerJoin.tableAlias :=
      not_mem_of_seen later List.mem_cons_self
    have before : j.other ∉ js.map InnerJoin.tableAlias :=
      not_mem_of_seen later (List.mem_cons_of_mem _ refers.1)
    rw [List.map_cons, List.foldl_cons, ih refers.2 later]
    simp only [InnerJoin.mem_extend_iff, List.forall_mem_cons]
    simp only [List.map_cons, List.mem_cons, not_or]
    constructor
    · rintro ⟨s₁, ⟨s₀, member, row, stored, rfl, equal⟩, same, holds⟩
      refine ⟨s₀, member, fun a outside => ?_,
        (InnerJoin.holds_congr (same _ fresh) (same _ before)).2 ⟨?_, equal⟩, holds⟩
      · rw [same a outside.2, Function.update_of_ne outside.1]
      · rwa [Function.update_self]
    · rintro ⟨s₀, member, same, here, holds⟩
      have agree : ∀ a, a ∉ js.map InnerJoin.tableAlias →
          s a = Function.update s₀ j.tableAlias (s j.tableAlias) a := by
        intro a outside
        by_cases joined : a = j.tableAlias
        · rw [joined, Function.update_self]
        · rw [Function.update_of_ne joined, same a ⟨joined, outside⟩]
      have equal := (InnerJoin.holds_congr (agree _ fresh) (agree _ before)).1 here
      exact ⟨_, ⟨s₀, member, s j.tableAlias, here.1, rfl, equal.2⟩, agree, holds⟩

theorem update_of_seen {aliases : List String} {first a : String} {row : Row}
    (distinct : (seen ++ first :: aliases).Nodup) (member : a ∈ seen) :
    Function.update s first row a = s a := by
  refine Function.update_of_ne ?_ _ _
  rintro rfl
  exact not_mem_of_seen distinct member List.mem_cons_self

/-- One join before others, with a row that equates. -/
theorem Extends.cons {j : InnerJoin} {row : Row}
    (h : Extends b (Function.update s₀ j.tableAlias row) js s)
    (distinct : (seen ++ (j :: js).map InnerJoin.tableAlias).Nodup) (before : j.other ∈ seen)
    (stored : row ∈ b.tables j.table)
    (equal : b.compared .eq (row.cell j.column) ((s₀ j.other).cell j.otherColumn) = some true) :
    Extends b s₀ (j :: js) s ∧ s j.tableAlias = row := by
  obtain ⟨same, holds⟩ := h
  have later := nodup_seen distinct
  have here : s j.tableAlias = row := by
    rw [same _ (not_mem_of_seen later List.mem_cons_self), Function.update_self]
  have other : s j.other = s₀ j.other := by
    rw [same _ (not_mem_of_seen later (List.mem_cons_of_mem _ before)),
      update_of_seen distinct before]
  refine ⟨⟨fun a outside => ?_, List.forall_mem_cons.2 ⟨?_, holds⟩⟩, here⟩
  · rw [List.map_cons, List.mem_cons, not_or] at outside
    rw [same a outside.2, Function.update_of_ne outside.1]
  · rw [InnerJoin.Holds, InnerJoin.equates, here, other]
    exact ⟨stored, equal⟩

end Scopes

/-! ## Statements over documents -/

namespace DocumentSource

def innerJoins (source : DocumentSource) : List InnerJoin := source.joins.flatMap Join.innerJoins

def aliases (source : DocumentSource) : List String := Join.tableAliases source.joins

/-- What it reads as, with a condition. -/
def tree (source : DocumentSource) (condition : SqlTree String) : SourceTree :=
  ⟨source.table, Join.documentAlias, source.innerJoins.map InnerJoin.tree, condition⟩

theorem aliases_tree (source : DocumentSource) (condition : SqlTree String) :
    (source.tree condition).aliases = source.aliases := by
  rw [SourceTree.aliases, tree, List.map_map]
  rfl

theorem text_eq (d : Dialect) (source : DocumentSource) :
    source.text d = " FROM " ++ d.quote source.table ++ " AS " ++ d.quote Join.documentAlias ++
      String.join (source.innerJoins.map (InnerJoin.text d)) ++ " WHERE " ++
        " AND ".intercalate (source.conditions.map (Sql.text d)) := by
  have joined : String.join (source.joins.map (Join.text d)) =
      String.join (source.innerJoins.map (InnerJoin.text d)) := by
    unfold innerJoins
    generalize source.joins = joins
    induction joins with
    | nil => rfl
    | cons join joins ih =>
      rw [List.map_cons, String.join_cons, ih, Join.text_eq, List.flatMap_cons, List.map_append,
        String.join_append]
  rw [text, joined]

variable {b : Backend} {given : String → Value} {source : DocumentSource}
  {condition : SqlTree String}

theorem refers_flatMap {seen : List String} {joins : List Join}
    (document : Join.documentAlias ∈ seen) : Refers seen (joins.flatMap Join.innerJoins) := by
  induction joins generalizing seen with
  | nil => trivial
  | cons join joins ih =>
    rw [List.flatMap_cons]
    unfold Join.innerJoins
    cases join.bridge with
    | none => exact ⟨document, ih (List.mem_cons_of_mem _ document)⟩
    | some bridge =>
      exact ⟨document, List.mem_cons_self,
        ih (List.mem_cons_of_mem _ (List.mem_cons_of_mem _ document))⟩

/-- The scopes that are joined stand for a document and for rows that equate,
and for nothing else. -/
theorem mem_joined_iff (distinct : source.aliases.Nodup) {s : Scope} :
    s ∈ (source.tree condition).joined b given ↔
    s Join.documentAlias ∈ b.tables source.table ∧ (∀ a, a ∉ source.aliases → s a = Row.empty) ∧
      ∀ j ∈ source.innerJoins, j.Holds b s := by
  have refers : Refers [Join.documentAlias] source.innerJoins := refers_flatMap List.mem_cons_self
  have fresh : Join.documentAlias ∉ source.innerJoins.map InnerJoin.tableAlias :=
    (List.nodup_cons.1 distinct).1
  rw [SourceTree.joined, tree, mem_foldl_extend_iff refers distinct]
  simp only [aliases, Join.tableAliases, List.mem_cons, not_or]
  constructor
  · rintro ⟨_, member, same, holds⟩
    obtain ⟨document, stored, rfl⟩ := List.mem_map.1 member
    refine ⟨?_, fun a outside => ?_, holds⟩
    · rw [same _ fresh, Function.update_self]
      exact stored
    · rw [same a outside.2, Function.update_of_ne outside.1]
  · rintro ⟨stored, empty, holds⟩
    refine ⟨_, List.mem_map_of_mem stored, fun a outside => ?_, holds⟩
    by_cases document : a = Join.documentAlias
    · rw [document, Function.update_self]
    · rw [Function.update_of_ne document, empty a ⟨document, outside⟩]

/-- Rows that are linked to the document of a scope are joined to it, with
the rows of the bridges. -/
theorem exists_extension {document : Row} {choice s₀ : Scope} {seen : List String}
    {joins : List Join}
    (distinct : (seen ++ (joins.flatMap Join.innerJoins).map InnerJoin.tableAlias).Nodup)
    (first : Join.documentAlias ∈ seen)
    (linked : ∀ join ∈ joins, join.Links b document (choice join.index))
    (start : s₀ Join.documentAlias = document) :
    ∃ s : Scope, Extends b s₀ (joins.flatMap Join.innerJoins) s ∧
      ∀ join ∈ joins, s join.index = choice join.index := by
  induction joins generalizing seen s₀ with
  | nil =>
    exact ⟨s₀, ⟨fun _ _ => rfl, fun _ never => by cases never⟩, fun _ never => by cases never⟩
  | cons join joins ih =>
    obtain ⟨⟨stored, link⟩, linked⟩ := List.forall_mem_cons.1 linked
    rw [List.flatMap_cons] at distinct ⊢
    cases bridged : join.bridge with
    | none =>
      have here : join.innerJoins = [⟨join.table, join.index, Column.documentIdName,
          Join.documentAlias, Column.idName⟩] := by
        rw [Join.innerJoins, bridged]
      rw [bridged, ← start] at link
      rw [here] at distinct ⊢
      obtain ⟨s, extended, chosen⟩ := ih (nodup_seen distinct) (List.mem_cons_of_mem _ first) linked
        ((update_of_seen distinct first).trans start)
      obtain ⟨extended, row⟩ := extended.cons distinct first stored link
      exact ⟨s, extended, List.forall_mem_cons.2 ⟨row, chosen⟩⟩
    | some bridge =>
      have here : join.innerJoins =
          [⟨bridge, TableNames.bridgeName join.index, Column.documentIdName, Join.documentAlias,
              Column.idName⟩,
            ⟨join.table, join.index, Column.idName, TableNames.bridgeName join.index,
              TableNames.bridgeColumn join.index⟩] := by
        rw [Join.innerJoins, bridged]
      rw [bridged, ← start] at link
      rw [here] at distinct ⊢
      obtain ⟨between, kept, toDocument, toRow⟩ := link
      have next := nodup_seen distinct
      obtain ⟨s, extended, chosen⟩ :=
        ih (nodup_seen next) (List.mem_cons_of_mem _ (List.mem_cons_of_mem _ first)) linked
        ((update_of_seen next (List.mem_cons_of_mem _ first)).trans
          ((update_of_seen distinct first).trans start))
      obtain ⟨extended, row⟩ :=
        extended.cons next List.mem_cons_self stored (by rwa [Function.update_self])
      exact ⟨s, (extended.cons distinct first kept toDocument).1,
        List.forall_mem_cons.2 ⟨row, chosen⟩⟩

/-- For what depends on the rows of the indexes only, the scopes that are joined are all the
choices of linked rows. -/
theorem exists_joined_iff (distinct : source.aliases.Nodup) {Q : Scope → Prop} {document : Row}
    (depends : ∀ s s' : Scope, (∀ join ∈ source.joins, s join.index = s' join.index) → Q s → Q s') :
    (∃ s ∈ (source.tree condition).joined b given, s Join.documentAlias = document ∧ Q s) ↔
      document ∈ b.tables source.table ∧
        ∃ choice : Scope, (∀ join ∈ source.joins, join.Links b document (choice join.index)) ∧
          Q choice := by
  constructor
  · rintro ⟨s, member, rfl, meets⟩
    obtain ⟨stored, _, holds⟩ := (mem_joined_iff distinct).1 member
    refine ⟨stored, s, fun join joined => Join.links_of_holds fun j inside => holds j ?_, meets⟩
    exact List.mem_flatMap.2 ⟨join, joined, inside⟩
  · rintro ⟨stored, choice, linked, meets⟩
    have start : Function.update (fun _ => Row.empty) Join.documentAlias document
        Join.documentAlias = document :=
      Function.update_self _ _ _
    have first : Join.documentAlias ∈ [Join.documentAlias] := List.mem_cons_self
    obtain ⟨s, ⟨same, holds⟩, chosen⟩ := exists_extension distinct first linked start
    have here : s Join.documentAlias = document := by
      rw [same _ (List.nodup_cons.1 distinct).1, start]
    refine ⟨s, (mem_joined_iff distinct).2 ⟨here ▸ stored, fun a outside => ?_, holds⟩, here,
      depends choice s (fun join member => (chosen join member).symm) meets⟩
    obtain ⟨other, unseen⟩ := not_or.1 (mt List.mem_cons.2 outside)
    rw [same a unseen, Function.update_of_ne other]

end DocumentSource

end DocStore

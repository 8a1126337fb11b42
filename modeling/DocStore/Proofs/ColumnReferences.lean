import DocStore.Proofs.AliasScopes
import DocStore.Proofs.CompiledShapes
import DocStore.Proofs.JoinedRows
import DocStore.Proofs.NumberedParameters
import DocStore.Proofs.StackedBindings

/-!
# What columns refer to

A column names a table by an alias, which denotes the table of that alias in the
innermost `FROM` clause that has it. The compiler means the table of the
innermost binding of an index. Its aliases of subqueries are numbered by how many
bindings are around them, so none hides that of another subquery; but an alias of
the outermost clause is the plain name of an index, and may look like one of them.
-/

set_option autoImplicit false

namespace DocStore

/-! ## What the compiler binds -/

/-- Names of tables as names of the places where they stand in a stack. -/
def TableInstance.naming (f : Option TableInstance → String) (place : Nat → TableInstance)
    (k : Option Nat) : String :=
  f (k.map place)

namespace Compile

open TableInstance

/-- The number at the end of the alias of a subquery is that of the bindings around it. -/
theorem eq_of_subqueryAlias_eq {i j : String} {m n : Nat}
    (same : subqueryAlias i m = subqueryAlias j n) : m = n := by
  have digits : ∀ k, ∀ c ∈ (Nat.toDigits 10 k).reverse, c.isDigit = true := fun k c member =>
    Nat.isDigit_of_mem_toDigits (by decide) (by decide) (List.mem_reverse.1 member)
  -- From the end, the digits go up to the underscore.
  have ending : ∀ i k, (subqueryAlias i k).toList.reverse.takeWhile Char.isDigit =
      (Nat.toDigits 10 k).reverse := by
    intro i k
    have spelled : (subqueryAlias i k).toList.reverse =
        (Nat.toDigits 10 k).reverse ++ '_' :: i.toList.reverse := by
      rw [subqueryAlias, String.toList_append, String.toList_append, Nat.toString_eq_repr,
        Nat.toList_repr, List.reverse_append, List.reverse_append]
      rfl
    rw [spelled, List.takeWhile_append_of_pos (digits k)]
    exact List.append_nil _
  have reversed : (Nat.toDigits 10 m).reverse = (Nat.toDigits 10 n).reverse := by
    rw [← ending i m, same, ending j n]
  have value : ∀ k, Nat.ofDigitChars 10 (Nat.toDigits 10 k) 0 = k :=
    fun k => Nat.ofDigitChars_toDigits (by decide) (by decide)
  rw [← value m, List.reverse_injective reversed, value n]

/-- The alias of a subquery ends in a digit. -/
theorem last_subqueryAlias (index : String) (n : Nat) :
    (subqueryAlias index n).toList.getLast?.any Char.isDigit = true := by
  cases last : (Nat.toDigits 10 n).getLast? with
  | none => exact absurd (List.getLast?_eq_none_iff.1 last) Nat.toDigits_ne_nil
  | some c =>
    rw [subqueryAlias, String.toList_append, Nat.toString_eq_repr, Nat.toList_repr,
      List.getLast?_append, last]
    exact Nat.isDigit_of_mem_toDigits (by decide) (by decide) (List.mem_of_getLast? last)

/-- Where the bindings of a stack stand: the alias of each one denotes the table of its place, and
subqueries go on from there, with one clause for each. -/
structure Grounded (clause : List String) (place : Nat → TableInstance) (scope : List (List String))
    (bs : List Binding) : Prop where
  denotes : ∀ {index b}, (bs.find? fun b => b.index = index) = some b →
    ∃ k, innermost? index (bs.map Binding.index) = some k ∧
      resolve? scope b.tableAlias = some (place k)
  goes : ∀ k, place (bs.length + k) = ⟨scope.length + k, 0⟩
  clauses : ∀ c ∈ scope, c = clause ∨ ∃ index n, n < bs.length ∧ c = [subqueryAlias index n]

namespace Grounded

variable {clause : List String} {place : Nat → TableInstance} {scope : List (List String)}
  {bs : List Binding} {index : String}

/-- The alias of the next subquery is in no clause if it is not in the outermost. -/
theorem fresh (h : Grounded clause place scope bs)
    (other : subqueryAlias index bs.length ∉ clause) :
    ∀ c ∈ scope, subqueryAlias index bs.length ∉ c := by
  intro c member
  obtain rfl | ⟨i, n, before, rfl⟩ := h.clauses c member
  · exact other
  · rw [List.mem_singleton]
    intro same
    have equal := eq_of_subqueryAlias_eq same
    omega

theorem push (h : Grounded clause place scope bs) (other : subqueryAlias index bs.length ∉ clause) :
    Grounded clause place ([subqueryAlias index bs.length] :: scope)
      (⟨index, subqueryAlias index bs.length⟩ :: bs) where
  denotes := by
    intro i b found
    rw [List.find?_cons] at found
    rw [List.map_cons, innermost?]
    by_cases here : index = i
    · simp only [here, decide_true] at found
      cases found
      refine ⟨bs.length, by rw [if_pos here, List.length_map], ?_⟩
      rw [here, resolve?_self]
      exact congrArg some (h.goes 0).symm
    · simp only [here, decide_false] at found
      obtain ⟨k, innermost, resolves⟩ := h.denotes found
      exact ⟨k, by rw [if_neg here, innermost], resolve?_cons_fresh (h.fresh other) resolves⟩
  goes k := by
    have next := h.goes (1 + k)
    simpa only [List.length_cons, Nat.add_assoc] using next
  clauses := by
    refine List.forall_mem_cons.2 ⟨.inr ⟨index, bs.length, Nat.lt_succ_self _, rfl⟩,
      fun c member => ?_⟩
    obtain rfl | ⟨i, n, before, rfl⟩ := h.clauses c member
    · exact .inl rfl
    · exact .inr ⟨i, n, Nat.lt_succ_of_lt before, rfl⟩

end Grounded

/-- The aliases of subqueries in what is compiled under some bindings tell a
number that is not smaller. -/
def Numbered (bs : List Binding) (e _ : SqlTree Slot) : Prop :=
  ∀ a ∈ e.aliases, ∃ index n, bs.length ≤ n ∧ a = subqueryAlias index n

theorem numbered_all {bs : List Binding} {es es' : List (SqlTree Slot)}
    (h : List.Forall₂ (Numbered bs) es es') :
    ∀ a ∈ SqlTree.aliasesAll es, ∃ index n, bs.length ≤ n ∧ a = subqueryAlias index n := by
  induction h with
  | nil => exact fun _ member => by cases member
  | cons first _ ih => exact List.forall_mem_append.2 ⟨first, ih⟩

theorem congruence_numbered : Congruence (fun _ => "") Numbered := by
  have none : ∀ bs : List Binding, ∀ a ∈ ([] : List String),
      ∃ index n, bs.length ≤ n ∧ a = subqueryAlias index n :=
    fun _ _ member => by cases member
  exact {
    placeholder := fun bs _ => none bs
    number := fun bs _ => none bs
    text := fun bs _ => none bs
    column := fun _ _ => none _
    binary := fun hl hr _ => List.forall_mem_append.2 ⟨hl, hr⟩
    concat := fun hl hr => List.forall_mem_append.2 ⟨hl, hr⟩
    not := fun h => h
    negate := fun h => h
    isNull := fun h _ => h
    like := fun hl hr => List.forall_mem_append.2 ⟨hl, hr⟩
    inList := fun h items _ => List.forall_mem_append.2 ⟨h, numbered_all items⟩
    inSelect := by
      intro bs index e e' s s' f f' h selector condition table negated
      have later : ∀ {a}, (∃ i n, bs.length + 1 ≤ n ∧ a = subqueryAlias i n) →
          ∃ i n, bs.length ≤ n ∧ a = subqueryAlias i n :=
        fun ⟨i, n, le, eq⟩ => ⟨i, n, by omega, eq⟩
      refine List.forall_mem_append.2 ⟨h,
        List.forall_mem_cons.2 ⟨⟨index, bs.length, Nat.le_refl _, rfl⟩, ?_⟩⟩
      exact List.forall_mem_append.2 ⟨fun a member => later (selector a member),
        fun a member => later (condition a member)⟩
    apply := fun args _ => numbered_all args }

/-- A tree as it is compiled is clear and, with its tables named by what they are, it is the tree in
which the bindings are named by what stands at their places. -/
def Settled (f : Option TableInstance → String) (clause : List String) (place : Nat → TableInstance)
    (bs : List Binding) (e e' : SqlTree Slot) : Prop :=
  ∀ {scope}, Grounded clause place scope bs → (∀ a ∈ e.aliases, a ∉ clause) →
    e.Clear scope ∧ e.resolved f scope = e'

section Settling

variable {f : Option TableInstance → String} {clause : List String} {place : Nat → TableInstance}

theorem settled_all {bs : List Binding} {es es' : List (SqlTree Slot)}
    (h : List.Forall₂ (Settled f clause place bs) es es') {scope : List (List String)}
    (grounded : Grounded clause place scope bs) (other : ∀ a ∈ SqlTree.aliasesAll es, a ∉ clause) :
    SqlTree.ClearAll scope es ∧ SqlTree.resolvedAll f scope es = es' := by
  induction h with
  | nil => exact ⟨trivial, rfl⟩
  | cons first _ ih =>
    obtain ⟨here, later⟩ := List.forall_mem_append.1 other
    obtain ⟨clear, same⟩ := first grounded here
    obtain ⟨clears, sames⟩ := ih later
    exact ⟨⟨clear, clears⟩, by rw [SqlTree.resolvedAll, same, sames]⟩

/-- Under a node with two operands. -/
theorem Settled.both {bs : List Binding} {l l' r r' : SqlTree Slot}
    (hl : Settled f clause place bs l l') (hr : Settled f clause place bs r r')
    {scope : List (List String)} (grounded : Grounded clause place scope bs)
    (other : ∀ a ∈ l.aliases ++ r.aliases, a ∉ clause) :
    (l.Clear scope ∧ r.Clear scope) ∧ l.resolved f scope = l' ∧ r.resolved f scope = r' := by
  obtain ⟨left, right⟩ := List.forall_mem_append.1 other
  obtain ⟨clear, same⟩ := hl grounded left
  obtain ⟨clear', same'⟩ := hr grounded right
  exact ⟨⟨clear, clear'⟩, same, same'⟩

theorem congruence_settled : Congruence (naming f place) (Settled f clause place) where
  placeholder _ _ _ _ _ := ⟨trivial, rfl⟩
  number _ _ _ _ _ := ⟨trivial, rfl⟩
  text _ _ _ _ _ := ⟨trivial, rfl⟩
  column := by
    intro bs index b found column scope grounded _
    obtain ⟨k, innermost, resolves⟩ := grounded.denotes found
    refine ⟨trivial, ?_⟩
    rw [SqlTree.resolved, resolves, innermost]
    rfl
  binary hl hr op _ grounded other := by
    obtain ⟨clear, rfl, rfl⟩ := hl.both hr grounded other
    exact ⟨clear, rfl⟩
  concat hl hr _ grounded other := by
    obtain ⟨clear, rfl, rfl⟩ := hl.both hr grounded other
    exact ⟨clear, rfl⟩
  not h _ grounded other := by
    obtain ⟨clear, rfl⟩ := h grounded other
    exact ⟨clear, rfl⟩
  negate h _ grounded other := by
    obtain ⟨clear, rfl⟩ := h grounded other
    exact ⟨clear, rfl⟩
  isNull h _ _ grounded other := by
    obtain ⟨clear, rfl⟩ := h grounded other
    exact ⟨clear, rfl⟩
  like hl hr _ grounded other := by
    obtain ⟨clear, rfl, rfl⟩ := hl.both hr grounded other
    exact ⟨clear, rfl⟩
  inList h items _ _ grounded other := by
    obtain ⟨here, listed⟩ := List.forall_mem_append.1 other
    obtain ⟨clear, rfl⟩ := h grounded here
    obtain ⟨clears, rfl⟩ := settled_all items grounded listed
    exact ⟨⟨clear, clears⟩, rfl⟩
  inSelect := by
    intro bs index e e' s s' c c' h selector condition table negated scope grounded other
    obtain ⟨outside, other⟩ := List.forall_mem_append.1 other
    obtain ⟨apart, inside⟩ := List.forall_mem_cons.1 other
    obtain ⟨clear, rfl⟩ := h grounded outside
    obtain ⟨clears, rfl, rfl⟩ := selector.both condition (grounded.push apart) inside
    refine ⟨⟨clear, grounded.fresh apart, clears⟩, ?_⟩
    -- The table of the subquery is what stands at the next place of the stack.
    rw [SqlTree.resolved, ← Nat.add_zero scope.length, ← grounded.goes 0]
    rfl
  apply args _ _ grounded other := by
    obtain ⟨clears, rfl⟩ := settled_all args grounded other
    exact ⟨clears, rfl⟩

end Settling

/-- Trees as they are compiled under some bindings, and with names for the places of these, that
every congruence relates. -/
def Placed (bs : List Binding) (images : List (SqlTree Slot))
    (placed : (Option Nat → String) → List (SqlTree Slot)) : Prop :=
  ∀ ⦃R name⦄, Congruence name R → List.Forall₂ (R bs) images (placed name)

section Lists

variable {t : Target} {c d : Compilation}

theorem placed_order {terms : List OrderTerm} {order : List SqlOrder}
    (h : Gives (Compile.order t terms) c order d) :
    Placed c.bindings (OrderTerm.images t terms c.bindings)
      (fun name =>
        terms.map fun term => term.expr.placed name t (c.bindings.map Binding.index) .value) := by
  intro R name congruence
  induction terms generalizing c order d with
  | nil => exact .nil
  | cons term terms ih =>
    obtain ⟨_, _, first, h⟩ := gives_bind_iff.1 h
    obtain ⟨_, _, rest, _⟩ := gives_bind_iff.1 h
    have later := ih rest
    rw [(renders_value term.expr first).1.bindings] at later
    exact .cons (relates_value congruence term.expr first) later

theorem placed_joinConditions {conditions : List (String × Expr)} {sqls : List Sql}
    (h : Gives (DocumentQuery.joinConditions t conditions) c sqls d) :
    Placed c.bindings (DocumentQuery.images t conditions c.bindings)
      (fun name => conditions.map fun j =>
        j.2.placed name t (c.bindings.map Binding.index) .condition) := by
  intro R name congruence
  induction conditions generalizing c sqls d with
  | nil => exact .nil
  | cons j conditions ih =>
    obtain ⟨_, _, first, h⟩ := gives_bind_iff.1 h
    obtain ⟨_, _, rest, _⟩ := gives_bind_iff.1 h
    have later := ih rest
    rw [(renders_condition j.2 first).1.bindings] at later
    exact .cons (relates_condition congruence j.2 first) later

end Lists

end Compile

/-! ## Queries -/

open TableInstance (naming)

/-- What stands at a place in the stack of a query over one index: there is one
clause for every binding. -/
def TableInstance.nested (k : Nat) : TableInstance := ⟨k, 0⟩

/-- The aliases of the `FROM` clause of a query. -/
def Query.fromAliases : Query → List String
  | .indexRows index _ _ _ _ | .indexCount index _ _ => [index]
  | .documents source _ _ | .documentCount source => Join.tableAliases source.joins
  | .documentById _ | .maxId _ => []

/-- What the columns of a query refer to, when its conditions and values read as trees. Aliases of
the `FROM` clause denote their own tables. Those of subqueries are the names of indexes with a
number, of which the least is given. No subquery has the alias of a table around it if and only if
none has one of the `FROM` clause; and then every column denotes the table that is meant. -/
structure Query.Resolves (q : Query) (d : Dialect) (clause : List String)
    (trees : List (SqlTree String)) (least : Nat)
    (meant : (Option TableInstance → String) → List (SqlTree Slot)) : Prop where
  clause_eq : q.fromAliases = clause
  reads : q.pieces.map (fun sql => SqlReader.read (sql.text d)) = trees.map some
  tables : ∀ k (bound : k < clause.length), TableInstance.resolve? [clause] clause[k] = some ⟨0, k⟩
  aliases : ∀ a ∈ SqlTree.aliasesAll trees, ∃ index n, least ≤ n ∧ a = Compile.subqueryAlias index n
  clear_iff : SqlTree.ClearAll [clause] trees ↔ ∀ a ∈ SqlTree.aliasesAll trees, a ∉ clause
  denotes : SqlTree.ClearAll [clause] trees →
    ∀ f, SqlTree.resolvedAll f [clause] trees = SqlTree.namedAll d.parameter 0 (meant f)


namespace Query

open Compile

variable {d : Dialect} {q : Query} {images : List (SqlTree Slot)} {least : Nat}

/-- Placeholders play no part in what columns refer to. -/
theorem resolves_of_images {clause : List String}
    {meant : (Option TableInstance → String) → List (SqlTree Slot)}
    (clause_eq : q.fromAliases = clause) (unique : clause.Nodup)
    (reads : q.pieces.map (fun sql => SqlReader.read (sql.text d)) =
      (SqlTree.namedAll d.parameter 0 images).map some)
    (numbered : ∀ a ∈ SqlTree.aliasesAll images, ∃ index n, least ≤ n ∧ a = subqueryAlias index n)
    (settled : (∀ a ∈ SqlTree.aliasesAll images, a ∉ clause) →
      ∀ f, SqlTree.ClearAll [clause] images ∧ SqlTree.resolvedAll f [clause] images = meant f) :
    q.Resolves d clause (SqlTree.namedAll d.parameter 0 images) least meant := by
  have other : SqlTree.ClearAll [clause] images ↔ ∀ a ∈ SqlTree.aliasesAll images, a ∉ clause :=
    ⟨fun clear a member => clear.not_mem a member _ (List.mem_singleton_self _),
      fun other => (settled other fun _ => "").1⟩
  refine ⟨clause_eq, reads, fun k bound => TableInstance.resolve?_getElem unique bound, ?_, ?_,
    fun clear f => ?_⟩
  · rwa [SqlTree.aliasesAll_named]
  · rwa [SqlTree.aliasesAll_named, SqlTree.clearAll_named]
  · rw [SqlTree.clearAll_named] at clear
    rw [SqlTree.resolvedAll_named, (settled (other.1 clear) f).2]

theorem grounded_index (index : String) : Grounded [index] .nested [[index]] [⟨index, index⟩] where
  denotes := by
    intro i b found
    have same := List.find?_some found
    obtain rfl := List.mem_singleton.1 (List.mem_of_find?_eq_some found)
    obtain rfl := of_decide_eq_true same
    exact ⟨0, if_pos rfl, TableInstance.resolve?_self _ []⟩
  goes _ := rfl
  clauses c member := .inl (List.mem_singleton.1 member)

/-- A query over one index, with the trees that its filter and order stand for. -/
theorem resolves_index {index : String} {placed : (Option Nat → String) → List (SqlTree Slot)}
    (clause_eq : q.fromAliases = [index])
    (reads : q.pieces.map (fun sql => SqlReader.read (sql.text d)) =
      (SqlTree.namedAll d.parameter 0 images).map some)
    (h : Placed [⟨index, index⟩] images placed) :
    q.Resolves d [index] (SqlTree.namedAll d.parameter 0 images) 1 fun f =>
      placed (naming f .nested) :=
  resolves_of_images clause_eq (List.nodup_singleton index) reads
    (numbered_all (h congruence_numbered)) fun other _ =>
    settled_all (h congruence_settled) (grounded_index index) other

end Query

/-- The filter of a query over an index, with names for the places of bindings. -/
def IndexQuery.placedCondition (q : IndexQuery) (name : Option Nat → String) (t : Target) :
    SqlTree Slot :=
  q.filter.elim (.truth true) fun e => e.placed name t [q.index.name] .condition

/-- The order of a query over an index, with names for the places of bindings. -/
def IndexQuery.placedOrder (q : IndexQuery) (name : Option Nat → String) (t : Target) :
    List (SqlTree Slot) :=
  q.order.map fun term => term.expr.placed name t [q.index.name] .value

theorem IndexQuery.placed_condition {q : IndexQuery} {t : Target} {d : Compilation} {sql : Sql}
    (h : Compile.Gives (q.condition t) .start sql d) :
    d.bindings = [q.binding] ∧ ∀ {R name}, Compile.Congruence name R →
      R [q.binding] (q.conditionImage t [q.binding]) (q.placedCondition name t) := by
  refine ⟨(q.binds_of_condition h).1.bindings, fun congruence => ?_⟩
  obtain ⟨_, c₁, bound, h⟩ := Compile.gives_bind_iff.1 h
  obtain rfl := Compile.gives_bindIndex_iff.1 bound
  unfold conditionImage placedCondition
  cases filter : q.filter with
  | none => exact congruence.truth true
  | some e =>
    rw [filter] at h
    exact Compile.relates_condition congruence e h

/-- Names that do not end in a digit are never those of subqueries. -/
theorem Query.Resolves.clear_of_endings {q : Query} {d : Dialect} {clause : List String}
    {trees : List (SqlTree String)} {least : Nat}
    {meant : (Option TableInstance → String) → List (SqlTree Slot)}
    (h : q.Resolves d clause trees least meant)
    (plain : ∀ a ∈ clause, a.toList.getLast?.any Char.isDigit = false) :
    SqlTree.ClearAll [clause] trees := by
  refine h.clear_iff.2 fun a member inside => ?_
  obtain ⟨index, n, _, rfl⟩ := h.aliases a member
  exact Bool.false_ne_true ((plain _ inside).symm.trans (Compile.last_subqueryAlias index n))

/-- What stands at a place in the stack of a query over documents: the tables of the indexes in the
order in which they are joined, and then those of subqueries. -/
def TableInstance.ofPlace (joins : List Join) (k : Nat) : TableInstance :=
  match joins[k]? with
  | some join => ⟨0, (Join.tableAliases joins).idxOf join.index⟩
  | none => ⟨k - joins.length + 1, 0⟩

/-- The innermost binding of an index is found at its place. -/
theorem innermost?_of_find? {bs : List Binding} {index : String} {b : Binding}
    (found : (bs.find? fun b => b.index = index) = some b) :
    ∃ k, innermost? index (bs.map Binding.index) = some k ∧ bs.reverse[k]? = some b := by
  induction bs with
  | nil => cases found
  | cons first bs ih =>
    rw [List.map_cons, innermost?, List.length_map, List.reverse_cons]
    by_cases here : first.index = index
    · simp only [List.find?_cons, here, decide_true] at found
      cases found
      exact ⟨bs.length, if_pos here, by rw [List.getElem?_append_right (by simp)]; simp⟩
    · simp only [List.find?_cons, here, decide_false] at found
      obtain ⟨k, place, at'⟩ := ih found
      exact ⟨k, by rw [if_neg here, place], by
        rw [List.getElem?_append_left (List.getElem?_eq_some_iff.1 at').1, at']⟩

namespace DocumentQuery

open Compile

/-- The condition on the type of the document, whose table is the first. -/
def meantType (q : DocumentQuery) (f : Option TableInstance → String) : SqlTree Slot :=
  .binary .eq (.column (f (some ⟨0, 0⟩)) Column.typeName)
    (.placeholder ⟨.const (.text q.entity.name), .exact⟩)

/-- The conditions on the indexes, with names for the places of bindings. -/
def placedConditions (q : DocumentQuery) (name : Option Nat → String) (t : Target)
    (joins : List Join) : List (SqlTree Slot) :=
  q.joins.map fun j => j.2.placed name t ((bindingsOf joins).map Binding.index) .condition

/-- The order of the query, with names for the places of bindings. -/
def placedOrder (q : DocumentQuery) (name : Option Nat → String) (t : Target) (joins : List Join) :
    List (SqlTree Slot) :=
  q.order.map fun term => term.expr.placed name t ((bindingsOf joins).map Binding.index) .value

variable {joins : List Join}

theorem length_bindingsOf : (bindingsOf joins).length = joins.length := by
  rw [bindingsOf, List.length_reverse, List.length_map]

theorem grounded_joins (unique : (Join.tableAliases joins).Nodup) :
    Grounded (Join.tableAliases joins) (.ofPlace joins) [Join.tableAliases joins]
      (bindingsOf joins) where
  denotes := by
    intro index b found
    obtain ⟨k, place, at'⟩ := innermost?_of_find? found
    rw [bindingsOf, List.reverse_reverse, List.getElem?_map, Option.map_eq_some_iff] at at'
    obtain ⟨join, here, rfl⟩ := at'
    have joined : join.index ∈ Join.tableAliases joins := by
      have own : join.index ∈ join.innerJoins.map InnerJoin.tableAlias := by
        unfold Join.innerJoins
        cases join.bridge <;> simp
      rw [Join.tableAliases, List.map_flatMap]
      exact List.mem_cons_of_mem _ (List.mem_flatMap.2 ⟨join, List.mem_of_getElem? here, own⟩)
    refine ⟨k, place, ?_⟩
    rw [TableInstance.resolve?_of_mem joined unique, TableInstance.ofPlace, here]
    rfl
  goes k := by
    rw [length_bindingsOf, TableInstance.ofPlace, List.getElem?_eq_none (Nat.le_add_right _ _)]
    simp [Nat.add_comm]
  clauses c member := .inl (List.mem_singleton.1 member)

theorem placed_source {q : DocumentQuery} {t : Target} {source : DocumentSource} {d : Compilation}
    (h : Gives (q.source t joins) .start source d) :
    source.joins = joins ∧ d.bindings = bindingsOf joins ∧
      Placed (bindingsOf joins) (images t q.joins (bindingsOf joins))
        (fun name => q.placedConditions name t joins) := by
  have describes := describes_of_gives h
  refine ⟨describes.joined, describes.binds.bindings, ?_⟩
  obtain ⟨_, c₁, bound, h⟩ := gives_bind_iff.1 h
  obtain rfl := gives_bindJoins_iff.1 bound
  obtain ⟨_, c₂, typed, h⟩ := gives_bind_iff.1 h
  obtain ⟨_, _, listed, _⟩ := gives_bind_iff.1 h
  have same : c₂.bindings = bindingsOf joins :=
    ((renders_bind _ typed).1.bindings).trans (List.append_nil _)
  have placed := placed_joinConditions listed
  rw [same] at placed
  exact placed

/-- A query over documents, with the trees that its conditions on indexes
and its order stand for. -/
theorem resolves_documents {d : Dialect} {query : Query} {q : DocumentQuery}
    {images : List (SqlTree Slot)} {placed : (Option Nat → String) → List (SqlTree Slot)}
    (clause_eq : query.fromAliases = Join.tableAliases joins)
    (unique : (Join.tableAliases joins).Nodup)
    (reads : query.pieces.map (fun sql => SqlReader.read (sql.text d)) =
      (SqlTree.namedAll d.parameter 0 (typeImage q.entity :: images)).map some)
    (h : Placed (bindingsOf joins) images placed) :
    query.Resolves d (Join.tableAliases joins)
      (SqlTree.namedAll d.parameter 0 (typeImage q.entity :: images)) joins.length
      fun f => q.meantType f :: placed (naming f (.ofPlace joins)) := by
  have numbered := numbered_all (h congruence_numbered)
  rw [length_bindingsOf] at numbered
  refine Query.resolves_of_images clause_eq unique reads
    (fun a member => numbered a member) fun other f => ?_
  obtain ⟨clear, same⟩ := settled_all (h congruence_settled) (grounded_joins unique) other
  refine ⟨⟨⟨trivial, trivial⟩, clear⟩, ?_⟩
  have documents : TableInstance.resolve? [Join.tableAliases joins] Join.documentAlias =
      some ⟨0, 0⟩ :=
    TableInstance.resolve?_getElem unique (Nat.zero_lt_succ _)
  rw [SqlTree.resolvedAll, same, typeImage, SqlTree.resolved, SqlTree.resolved,
    SqlTree.resolved, documents]
  rfl

end DocumentQuery

/-- A statement that is a query of which the columns denote what is meant. -/
def Statement.Resolves (s : Statement) (d : Dialect) (clause : List String) (least : Nat)
    (meant : (Option TableInstance → String) → List (SqlTree Slot)) : Prop :=
  ∃ query ps trees, s = .query query ps ∧ query.Resolves d clause trees least meant

section Statements

variable {settings : Settings} (dialect : settings.dialect = .standard ∨ settings.dialect = .sqlite)
  {s : Statement}
include dialect

namespace IndexQuery

variable {q : IndexQuery}

theorem resolves_statement (h : q.statement settings = .ok s) :
    s.Resolves settings.dialect [q.index.name] 1 fun f =>
      q.placedCondition (naming f .nested) (q.target settings) ::
      q.placedOrder (naming f .nested) (q.target settings) := by
  obtain ⟨_, _, rfl, aligned⟩ := aligned_statement dialect h
  obtain ⟨query, c, gives, same⟩ := Compile.toStatement_eq_ok_iff.1 h
  obtain ⟨filter, c₁, filtered, gives⟩ := Compile.gives_bind_iff.1 gives
  obtain ⟨order, c₂, ordered, gives⟩ := Compile.gives_bind_iff.1 gives
  obtain ⟨rfl, rfl⟩ := Compile.gives_pure_iff.1 gives
  cases same
  obtain ⟨bindings, condition⟩ := placed_condition filtered
  have terms := Compile.placed_order ordered
  rw [bindings] at terms
  exact ⟨_, _, _, rfl, Query.resolves_index rfl aligned.reads fun R name congruence =>
    .cons (condition congruence) (terms congruence)⟩

theorem resolves_countStatement (h : q.countStatement settings = .ok s) :
    s.Resolves settings.dialect [q.index.name] 1 fun f =>
      [q.placedCondition (naming f .nested) (q.target settings)] := by
  obtain ⟨_, _, rfl, aligned⟩ := aligned_countStatement dialect h
  obtain ⟨query, c, gives, same⟩ := Compile.toStatement_eq_ok_iff.1 h
  obtain ⟨filter, c₁, filtered, gives⟩ := Compile.gives_bind_iff.1 gives
  obtain ⟨rfl, rfl⟩ := Compile.gives_pure_iff.1 gives
  cases same
  obtain ⟨_, condition⟩ := placed_condition filtered
  exact ⟨_, _, _, rfl, Query.resolves_index rfl aligned.reads fun R name congruence =>
    .cons (condition congruence) .nil⟩

end IndexQuery

namespace DocumentQuery

variable {q : DocumentQuery} {joins : List Join} (unique : (Join.tableAliases joins).Nodup)
include unique

theorem resolves_compile (h : q.compile settings joins = .ok s) :
    s.Resolves settings.dialect (Join.tableAliases joins) joins.length fun f => q.meantType f ::
      (q.placedConditions (naming f (.ofPlace joins)) (q.target settings) joins ++
        q.placedOrder (naming f (.ofPlace joins)) (q.target settings) joins) := by
  obtain ⟨_, _, rfl, aligned⟩ := aligned_compile dialect h
  obtain ⟨query, c, gives, same⟩ := Compile.toStatement_eq_ok_iff.1 h
  obtain ⟨source, c₁, made, gives⟩ := Compile.gives_bind_iff.1 gives
  obtain ⟨order, c₂, ordered, gives⟩ := Compile.gives_bind_iff.1 gives
  obtain ⟨rfl, rfl⟩ := Compile.gives_pure_iff.1 gives
  cases same
  obtain ⟨joined, bindings, conditions⟩ := placed_source made
  have terms := Compile.placed_order ordered
  rw [bindings] at terms
  have clause_eq : (Query.documents source order q.paging).fromAliases = Join.tableAliases joins :=
    congrArg Join.tableAliases joined
  exact ⟨_, _, _, rfl, resolves_documents clause_eq unique aligned.reads fun R name congruence =>
    List.rel_append (conditions congruence) (terms congruence)⟩

theorem resolves_compileCount (h : q.compileCount settings joins = .ok s) :
    s.Resolves settings.dialect (Join.tableAliases joins) joins.length fun f =>
      q.meantType f :: q.placedConditions (naming f (.ofPlace joins))
        (q.target settings) joins := by
  obtain ⟨_, _, rfl, aligned⟩ := aligned_compileCount dialect h
  obtain ⟨query, c, gives, same⟩ := Compile.toStatement_eq_ok_iff.1 h
  obtain ⟨source, c₁, made, gives⟩ := Compile.gives_bind_iff.1 gives
  obtain ⟨rfl, rfl⟩ := Compile.gives_pure_iff.1 gives
  cases same
  obtain ⟨joined, _, conditions⟩ := placed_source made
  have clause_eq : (Query.documentCount source).fromAliases = Join.tableAliases joins :=
    congrArg Join.tableAliases joined
  exact ⟨_, _, _, rfl, resolves_documents clause_eq unique aligned.reads conditions⟩

end DocumentQuery

end Statements

/-- The condition and the order of a compiled query, with names for the places of bindings. -/
def CompiledQuery.placed (q : CompiledQuery) (name : Option Nat → String) (t : Target) :
    List (SqlTree Slot) :=
  q.condition.placed name t [q.index.name] .condition :: q.order.map fun term =>
    term.expr.placed name t [q.index.name] .value

theorem CompiledQuery.resolves {q : CompiledQuery} {d : Dialect}
    (dialect : d = .standard ∨ d = .sqlite) {names : TableNames} {args : Arguments}
    {sql : CompiledSql} (h : q.compile d names args = .ok sql) :
    ∃ trees, sql.query.Resolves d [q.index.name] trees 1 fun f =>
      q.placed (naming f .nested) ⟨d, names, some args⟩ := by
  obtain ⟨filter, order, c, e, filtered, ordered, rfl⟩ := gives_of_compile h
  obtain ⟨binds, phrase⟩ := Compile.renders_condition q.condition filtered
  obtain ⟨_, phrases⟩ := Compile.renders_order q.order ordered
  have terms := Compile.placed_order ordered
  rw [binds.bindings] at phrases terms
  rw [binds.size_eq] at phrases
  have pieces := List.Forall₂.cons phrase phrases
  rw [← Dialect.parameter_eq dialect] at pieces
  have reads := Sql.reads_of_phrases dialect pieces
  have placed : Compile.Placed [⟨q.index.name, q.index.name⟩] (_ :: _) fun name =>
      q.placed name ⟨d, names, some args⟩ :=
    fun R name congruence => .cons (Compile.relates_condition congruence q.condition filtered)
      (terms congruence)
  exact ⟨_, Query.resolves_index rfl reads placed⟩

/-- In queries over an index and over documents every column denotes the table of the innermost
binding of its index, as long as no subquery has the alias of a table of the `FROM` clause, which
are those of its indexes. -/
theorem columns_denote_bindings {d : Dialect} (dialect : d = .standard ∨ d = .sqlite) :
    (∀ {settings : Settings} {q : IndexQuery}, settings.dialect = d →
      (∀ s, q.statement settings = .ok s → s.Resolves d [q.index.name] 1 fun f =>
        q.placedCondition (naming f .nested) (q.target settings) ::
        q.placedOrder (naming f .nested) (q.target settings)) ∧
      (∀ s, q.countStatement settings = .ok s → s.Resolves d [q.index.name] 1 fun f =>
        [q.placedCondition (naming f .nested) (q.target settings)])) ∧
    (∀ {q : CompiledQuery} {names args sql}, q.compile d names args = .ok sql →
      ∃ trees, sql.query.Resolves d [q.index.name] trees 1 fun f =>
        q.placed (naming f .nested) ⟨d, names, some args⟩) ∧
    (∀ {settings : Settings} {q : DocumentQuery} {joins}, settings.dialect = d →
      (Join.tableAliases joins).Nodup →
      (∀ s, q.compile settings joins = .ok s →
        s.Resolves d (Join.tableAliases joins) joins.length fun f =>
          q.meantType f ::
          (q.placedConditions (naming f (.ofPlace joins)) (q.target settings) joins ++
            q.placedOrder (naming f (.ofPlace joins)) (q.target settings) joins)) ∧
      (∀ s, q.compileCount settings joins = .ok s →
        s.Resolves d (Join.tableAliases joins) joins.length fun f =>
          q.meantType f ::
          q.placedConditions (naming f (.ofPlace joins)) (q.target settings) joins)) := by
  refine ⟨?_, CompiledQuery.resolves dialect, ?_⟩
  · rintro settings q rfl
    exact ⟨fun _ h => IndexQuery.resolves_statement dialect h,
      fun _ h => IndexQuery.resolves_countStatement dialect h⟩
  · rintro settings q joins rfl unique
    exact ⟨fun _ h => DocumentQuery.resolves_compile dialect unique h,
      fun _ h => DocumentQuery.resolves_compileCount dialect unique h⟩

/-- Rows of an index under a condition with two subqueries over another index, one inside the other,
that both refer to the row. -/
def titlesTagged (name : String) : IndexQuery :=
  let titles : IndexType := ⟨name, [⟨"title", .text, false⟩], some⟩
  let tags : IndexType := ⟨"Tags", [⟨"title", .text, false⟩, ⟨"tag", .text, false⟩], some⟩
  let same := (tags.field "title").eq (titles.field "title")
  { IndexQuery.ofIndex titles "" with
    filter := some ((titles.field "title").isInQuery false tags "tag"
      (same.and ((tags.field "tag").isInQuery true tags "tag" same))) }

/-- Documents by an index of aggregates, with a subquery over an index that is called like the
alias of the documents. -/
def documentsTagged : DocumentQuery :=
  let tags : IndexType := ⟨"ByTag", [⟨"tag", .text, false⟩], some⟩
  let days : IndexType := ⟨"d", [⟨"tag", .text, false⟩], some⟩
  { DocumentQuery.ofEntity ⟨"Article", some, fun _ => 0, fun _ json => json⟩ "" with
    joins :=
      [("ByTag", (tags.field "tag").isInQuery false days "tag"
        ((days.field "tag").eq (tags.field "tag")))] }

theorem columns_denote_bindings_tagged :
    (∃ query ps trees, (titlesTagged "ByTitle").statement ⟨.default, .sqlite, .json⟩ =
        .ok (.query query ps) ∧
      query.pieces.map (fun sql => SqlReader.read (sql.text .sqlite)) = trees.map some ∧
      ∀ f : Option TableInstance → String, SqlTree.resolvedAll f [["ByTitle"]] trees =
        [.inSelect (.column (f (some ⟨0, 0⟩)) "title") (.column (f (some ⟨1, 0⟩)) "tag") "Tags"
          (f (some ⟨1, 0⟩))
          (.binary .and (.binary .eq (.column (f (some ⟨1, 0⟩)) "title")
              (.column (f (some ⟨0, 0⟩)) "title"))
            (.inSelect (.column (f (some ⟨1, 0⟩)) "tag") (.column (f (some ⟨2, 0⟩)) "tag") "Tags"
              (f (some ⟨2, 0⟩))
              (.binary .eq (.column (f (some ⟨2, 0⟩)) "title") (.column (f (some ⟨0, 0⟩)) "title"))
              true)) false]) ∧
    ∃ query ps trees, documentsTagged.compileCount ⟨.default, .sqlite, .json⟩
          [⟨"ByTag", "ByTag", some "ByTag_Document"⟩] =
        .ok (.query query ps) ∧
      query.pieces.map (fun sql => SqlReader.read (sql.text .sqlite)) = trees.map some ∧
      ∀ f : Option TableInstance → String,
        SqlTree.resolvedAll f [["d", "ByTag_Document", "ByTag"]] trees =
        [.binary .eq (.column (f (some ⟨0, 0⟩)) "Type") (.placeholder (Dialect.sqlite.parameter 0)),
          .inSelect (.column (f (some ⟨0, 2⟩)) "tag") (.column (f (some ⟨1, 0⟩)) "tag") "d"
            (f (some ⟨1, 0⟩))
            (.binary .eq (.column (f (some ⟨1, 0⟩)) "tag") (.column (f (some ⟨0, 2⟩)) "tag"))
            false] := by
  have denotes := columns_denote_bindings (.inr rfl)
  constructor
  · obtain ⟨s, selected⟩ : ∃ s, (titlesTagged "ByTitle").statement ⟨.default, .sqlite, .json⟩ =
      .ok s := ⟨_, rfl⟩
    obtain ⟨query, ps, trees, rfl, resolves⟩ := (denotes.1 rfl).1 s selected
    exact ⟨query, ps, trees, selected, resolves.reads,
      resolves.denotes (resolves.clear_of_endings (by decide))⟩
  · obtain ⟨s, counted⟩ : ∃ s, documentsTagged.compileCount ⟨.default, .sqlite, .json⟩
        [⟨"ByTag", "ByTag", some "ByTag_Document"⟩] = .ok s := ⟨_, rfl⟩
    obtain ⟨query, ps, trees, rfl, resolves⟩ := (denotes.2.2 rfl (by decide)).2 s counted
    exact ⟨query, ps, trees, counted, resolves.reads,
      resolves.denotes (resolves.clear_of_endings (by decide))⟩

/-- Under a name that looks like the alias of the first subquery, both subqueries refer to the row
of that subquery instead. -/
example (t : Target) (f : Option TableInstance → String) :
    ((titlesTagged "Tags_1").conditionImage t [⟨"Tags_1", "Tags_1"⟩]).resolved f [["Tags_1"]] =
      .inSelect (.column (f (some ⟨0, 0⟩)) "title") (.column (f (some ⟨1, 0⟩)) "tag")
        (t.names.index "Tags") (f (some ⟨1, 0⟩))
        (.binary .and (.binary .eq (.column (f (some ⟨1, 0⟩)) "title")
            (.column (f (some ⟨1, 0⟩)) "title"))
          (.inSelect (.column (f (some ⟨1, 0⟩)) "tag") (.column (f (some ⟨2, 0⟩)) "tag")
            (t.names.index "Tags") (f (some ⟨2, 0⟩))
            (.binary .eq (.column (f (some ⟨2, 0⟩)) "title") (.column (f (some ⟨1, 0⟩)) "title"))
            true)) false := rfl

end DocStore

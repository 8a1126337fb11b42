import DocStore.Proofs.Conjunctions

/-!
# SELECT statements

What a reader makes of the text of a statement, and what it means. `SqlReader.statement`
reads the clauses from the tokens: the columns that are shown or counted, the tables
that are joined with their conditions, `WHERE`, `GROUP BY` and `ORDER BY`. `FROM` and each
`INNER JOIN` put the rows of one table under an alias, and `WHERE` keeps those scopes in
which its condition is true. `GROUP BY` keeps one scope of all that are the same in its
columns, `DISTINCT` one of all that show the same, and `COUNT(DISTINCT ..)` counts values
that are not null. A statement in which two tables have the same alias has no meaning.
-/

set_option autoImplicit false

namespace DocStore

/-! ## Statements as trees -/

/-- A column of the table that stands under an alias. -/
structure ColumnRef where
  table : String
  name : String
deriving DecidableEq

/-- A table that is joined under an alias, where a condition is true. -/
structure JoinTree where
  table : String
  tableAlias : String
  condition : SqlTree String

inductive Selection where
  | columns (distinct : Bool) (columns : List ColumnRef)
  /-- The number of values in a column, under a name of its own. -/
  | countDistinct (column : ColumnRef) (name : String)

/-- The tables of a statement, and the condition of `WHERE`. -/
structure SourceTree where
  table : String
  tableAlias : String
  joins : List JoinTree
  condition : SqlTree String

structure SelectTree where
  selection : Selection
  source : SourceTree
  /-- The columns of `GROUP BY`, if it is there. -/
  groups : Option (List ColumnRef)
  /-- The terms of `ORDER BY`, each with whether it descends. -/
  order : List (SqlTree String × Bool)

namespace SqlReader

/-! ## The clauses of a statement -/

/-- A condition or a value, as far as it goes. -/
def phrase (ts : List Token) : Option (SqlTree String × List Token) :=
  expression (3 * ts.length + 3) 0 ts

/-- Columns between commas. -/
def columns : List Token → Option (List ColumnRef × List Token)
  | .identifier table :: .dot :: .identifier name :: .comma :: ts => do
    let (cs, ts) ← columns ts
    some (⟨table, name⟩ :: cs, ts)
  | .identifier table :: .dot :: .identifier name :: ts => some ([⟨table, name⟩], ts)
  | _ => none

def selection : List Token → Option (Selection × List Token)
  | .word .SELECT :: .name "COUNT" :: .opening :: .name "DISTINCT" :: .identifier table :: .dot ::
      .identifier column :: .closing :: .word .AS :: .identifier name :: ts =>
    some (.countDistinct ⟨table, column⟩ name, ts)
  | .word .SELECT :: .name "DISTINCT" :: ts => do
    let (cs, ts) ← columns ts
    some (.columns true cs, ts)
  | .word .SELECT :: ts => do
    let (cs, ts) ← columns ts
    some (.columns false cs, ts)
  | _ => none

/-- As many joins as there are. -/
def joins (fuel : Nat) (ts : List Token) : Option (List JoinTree × List Token) :=
  match fuel with
  | 0 => none
  | fuel + 1 =>
    match ts with
    | .name "INNER" :: .name "JOIN" :: .identifier table :: .word .AS :: .identifier tableAlias ::
        .name "ON" :: ts => do
      let (condition, ts) ← phrase ts
      let (js, ts) ← joins fuel ts
      some (⟨table, tableAlias, condition⟩ :: js, ts)
    | ts => some ([], ts)

/-- The condition of `WHERE`; without one every scope is kept. -/
def filter : List Token → Option (SqlTree String × List Token)
  | .word .WHERE :: ts => phrase ts
  | ts => some (.truth true, ts)

def source : List Token → Option (SourceTree × List Token)
  | .word .FROM :: .identifier table :: .word .AS :: .identifier tableAlias :: ts => do
    let (joins, ts) ← joins (ts.length + 1) ts
    let (condition, ts) ← filter ts
    some (⟨table, tableAlias, joins, condition⟩, ts)
  | _ => none

def groups : List Token → Option (Option (List ColumnRef) × List Token)
  | .name "GROUP" :: .name "BY" :: ts => do
    let (cs, ts) ← columns ts
    some (some cs, ts)
  | ts => some (none, ts)

/-- A term of an order; without a direction it ascends. -/
def term (ts : List Token) : Option ((SqlTree String × Bool) × List Token) := do
  let (e, ts) ← phrase ts
  match ts with
  | .name "ASC" :: ts => some ((e, false), ts)
  | .name "DESC" :: ts => some ((e, true), ts)
  | ts => some ((e, false), ts)

/-- Terms between commas. -/
def terms (fuel : Nat) (ts : List Token) : Option (List (SqlTree String × Bool) × List Token) :=
  match fuel with
  | 0 => none
  | fuel + 1 => do
    let (t, ts) ← term ts
    match ts with
    | .comma :: ts => do
      let (more, ts) ← terms fuel ts
      some (t :: more, ts)
    | ts => some ([t], ts)

def order : List Token → Option (List (SqlTree String × Bool) × List Token)
  | .name "ORDER" :: .name "BY" :: ts => terms (ts.length + 1) ts
  | ts => some ([], ts)

example : order [.name "ORDER", .name "BY", .name "MIN", .opening, .identifier "A", .dot,
    .identifier "x", .closing, .name "ASC", .comma, .identifier "A", .dot, .identifier "y",
    .name "DESC"] =
    some ([(.apply "MIN" [.column "A" "x"], false), (.column "A" "y", true)], []) := by
  rfl

/-- The tree of a text that is one statement. -/
def statement (s : String) : Option SelectTree := do
  let (selection, ts) ← selection (Lexer.tokens s)
  let (source, ts) ← source ts
  let (groups, ts) ← groups ts
  let (order, ts) ← order ts
  if ts.isEmpty then some ⟨selection, source, groups, order⟩ else none

end SqlReader

/-! ## What a statement means -/

/-- A row that has no columns. -/
def Row.empty : Row := ⟨[]⟩

/-- Values that are not distinct: two nulls, or values that are equal. -/
def Backend.Same (b : Backend) (v w : Value) : Prop := v = w ∨ b.compared .eq v w = some true

namespace Scope

variable (b : Backend) (cs : List ColumnRef)

/-- The value of a column. -/
def value (s : Scope) (c : ColumnRef) : Value := (s c.table).cell c.name

/-- Scopes that are the same in some columns. -/
def SameIn (s s' : Scope) : Prop := ∀ c ∈ cs, b.Same (s.value c) (s'.value c)

/-- The row of some columns. -/
def shown (s : Scope) : Row := ⟨cs.map fun c => (c.name, s.value c)⟩

end Scope

/-- A term that has one value for a group: one of its columns, or the least or the greatest of
its values. -/
def SqlTree.OfGroup (gs : List ColumnRef) : SqlTree String → Prop
  | .column table name => ⟨table, name⟩ ∈ gs
  | .apply f _ => f = "MIN" ∨ f = "MAX"
  | _ => False

/-- One of all that are the same. -/
structure Represents {α : Type} (same : α → α → Prop) (all kept : List α) : Prop where
  inside : ∀ x ∈ kept, x ∈ all
  covers : ∀ x ∈ all, ∃ y ∈ kept, same x y
  apart : kept.Pairwise fun x y => ¬same x y

section Meaning

variable (b : Backend) (given : String → Value)

/-- Every scope with every row of a table under which the condition is true. -/
def JoinTree.extend (scopes : List Scope) (j : JoinTree) : List Scope :=
  scopes.flatMap fun s => ((b.tables j.table).map (Function.update s j.tableAlias)).filter
    fun s => j.condition.truth? b given s = some true

namespace SourceTree

variable (t : SourceTree)

/-- The aliases of the tables. -/
def aliases : List String := t.tableAlias :: t.joins.map JoinTree.tableAlias

/-- What `FROM` and `INNER JOIN` put together. -/
def joined : List Scope :=
  t.joins.foldl (JoinTree.extend b given)
    ((b.tables t.table).map (Function.update (fun _ => Row.empty) t.tableAlias))

/-- What `WHERE` keeps of it. -/
def kept : List Scope := (t.joined b given).filter fun s => t.condition.truth? b given s = some true

end SourceTree

namespace SelectTree

variable (t : SelectTree)

/-- One scope of every group of those that are kept, and without `GROUP BY` all of them. -/
def Grouped (scopes : List Scope) : Prop :=
  match t.groups with
  | none => scopes = t.source.kept b given
  | some cs => Represents (Scope.SameIn b cs) (t.source.kept b given) scopes

/-- After `GROUP BY`, what is shown and what orders has one value for a group. With `DISTINCT` no
order is read. -/
def Shows (distinct : Bool) (cs : List ColumnRef) : Prop :=
  (∀ gs ∈ t.groups, cs ⊆ gs ∧ ∀ o ∈ t.order, o.1.OfGroup gs) ∧ (distinct = true → t.order = [])

/-- The rows that answer a statement which shows columns. An order arranges them, and any
arrangement counts. -/
def Answers (rows : List Row) : Prop :=
  t.source.aliases.Nodup ∧ match t.selection with
    | .columns distinct cs => t.Shows distinct cs ∧ ∃ grouped listed, t.Grouped b given grouped ∧
      (if distinct then Represents (Scope.SameIn b cs) grouped listed else listed = grouped) ∧
        rows.Perm (listed.map (Scope.shown cs))
    | .countDistinct _ _ => False

/-- The number that answers a statement which counts: of the values that are not null, one of all
that are the same. -/
def Counts (n : Nat) : Prop :=
  t.source.aliases.Nodup ∧ match t.selection with
    | .columns _ _ => False
    | .countDistinct c _ => t.groups = none ∧ ∃ values : List Value,
      Represents b.Same (((t.source.kept b given).map fun s => s.value c).filter fun v => !v.isNull)
          values ∧
        n = values.length

variable {b given} {source : SourceTree} {cs : List ColumnRef} {rows : List Row}

/-- Distinct rows: one of all that are the same in what is shown. -/
theorem answers_distinct_iff :
    SelectTree.Answers b given ⟨.columns true cs, source, none, []⟩ rows ↔
    source.aliases.Nodup ∧ ∃ listed, Represents (Scope.SameIn b cs) (source.kept b given) listed ∧
      rows.Perm (listed.map (Scope.shown cs)) := by
  refine and_congr_right fun _ => ⟨?_, ?_⟩
  · rintro ⟨_, _, listed, rfl, represents, arranged⟩
    exact ⟨listed, represents, arranged⟩
  · rintro ⟨listed, represents, arranged⟩
    exact ⟨⟨fun _ none => (Option.not_mem_none _ none).elim, fun _ => rfl⟩, _, listed, rfl,
      represents, arranged⟩

/-- Groups by what is shown: one of all that are the same in it. -/
theorem answers_grouped_iff {order : List (SqlTree String × Bool)}
    (single : ∀ o ∈ order, o.1.OfGroup cs) :
    SelectTree.Answers b given ⟨.columns false cs, source, some cs, order⟩ rows ↔
      source.aliases.Nodup ∧ ∃ listed, Represents (Scope.SameIn b cs) (source.kept b given) listed ∧
        rows.Perm (listed.map (Scope.shown cs)) := by
  refine and_congr_right fun _ => ⟨?_, ?_⟩
  · rintro ⟨_, _, listed, represents, rfl, arranged⟩
    exact ⟨_, represents, arranged⟩
  · rintro ⟨listed, represents, arranged⟩
    refine ⟨⟨fun gs same => ?_, nofun⟩, _, listed, represents, rfl, arranged⟩
    cases same
    exact ⟨List.Subset.refl cs, single⟩

end SelectTree

end Meaning

namespace BoundSql

variable (b : Backend) (q : BoundSql)

/-- The rows that answer a text, with its parameters by name. -/
def Answers (rows : List Row) : Prop :=
  ∃ t, SqlReader.statement q.sql = some t ∧ t.Answers b q.parameters.given rows

/-- The number that answers a text, with its parameters by name. -/
def Counts (n : Nat) : Prop :=
  ∃ t, SqlReader.statement q.sql = some t ∧ t.Counts b q.parameters.given n

variable {b q} {t : SelectTree} (reads : SqlReader.statement q.sql = some t)
include reads

theorem answers_iff {rows : List Row} : q.Answers b rows ↔ t.Answers b q.parameters.given rows := by
  simp only [Answers, reads, Option.some.injEq, exists_eq_left']

theorem counts_iff {n : Nat} : q.Counts b n ↔ t.Counts b q.parameters.given n := by
  simp only [Counts, reads, Option.some.injEq, exists_eq_left']

end BoundSql

theorem Backend.same_int_iff {b : Backend} {i j : Int64} :
    b.Same (.int i) (.int j) ↔ Value.int i = .int j := by
  rw [Same, compared_ints, Option.some.injEq, decide_eq_true_eq, Value.int.injEq, or_self]

theorem Scope.shown_eq_iff {cs : List ColumnRef} {s s' : Scope} :
    s.shown cs = s'.shown cs ↔ ∀ c ∈ cs, s.value c = s'.value c := by
  simp [shown]

section Images

variable {α β : Type} {same : α → α → Prop} {xs ys : List α} {zs : List β} {f : α → β}

/-- Where the same is what has the same image, there is one for every image. -/
theorem Represents.perm_map (represents : Represents same xs ys)
    (same_iff : ∀ x ∈ xs, ∀ y ∈ xs, same x y ↔ f x = f y) (nodup : zs.Nodup)
    (images : ∀ z, z ∈ zs ↔ ∃ x ∈ xs, f x = z) : (ys.map f).Perm zs := by
  have apart : (ys.map f).Nodup := List.pairwise_map.2 <|
    represents.apart.imp_of_mem fun hx hy unlike equal =>
      unlike ((same_iff _ (represents.inside _ hx) _ (represents.inside _ hy)).2 equal)
  refine (List.perm_ext_iff_of_nodup apart nodup).2 fun z => ?_
  rw [images, List.mem_map]
  constructor
  · rintro ⟨y, member, rfl⟩
    exact ⟨y, represents.inside y member, rfl⟩
  · rintro ⟨x, member, rfl⟩
    obtain ⟨y, kept, like⟩ := represents.covers x member
    exact ⟨y, kept, ((same_iff x member y (represents.inside y kept)).1 like).symm⟩

theorem exists_preimages (each : ∀ z ∈ zs, ∃ x ∈ xs, f x = z) :
    ∃ ys : List α, (∀ y ∈ ys, y ∈ xs) ∧ ys.map f = zs := by
  induction zs with
  | nil => exact ⟨[], List.forall_mem_nil _, rfl⟩
  | cons z zs ih =>
    obtain ⟨⟨x, member, rfl⟩, later⟩ := List.forall_mem_cons.1 each
    obtain ⟨ys, inside, rfl⟩ := ih later
    exact ⟨x :: ys, List.forall_mem_cons.2 ⟨member, inside⟩, rfl⟩

theorem exists_represents (same_iff : ∀ x ∈ xs, ∀ y ∈ xs, same x y ↔ f x = f y) (nodup : zs.Nodup)
    (images : ∀ z, z ∈ zs ↔ ∃ x ∈ xs, f x = z) : ∃ ys, Represents same xs ys ∧ ys.map f = zs := by
  obtain ⟨ys, inside, rfl⟩ := exists_preimages fun z member => (images z).1 member
  refine ⟨ys, ⟨inside, fun x member => ?_, ?_⟩, rfl⟩
  · obtain ⟨y, kept, equal⟩ := List.mem_map.1 ((images (f x)).2 ⟨x, member, rfl⟩)
    exact ⟨y, kept, (same_iff x member y (inside y kept)).2 equal.symm⟩
  · exact (List.pairwise_map.1 nodup).imp_of_mem fun hx hy unequal like =>
      unequal ((same_iff _ (inside _ hx) _ (inside _ hy)).1 like)

end Images

/-! ## Tokens that read as clauses -/

/-- The tokens of a column. -/
def ColumnRef.tokens (c : ColumnRef) : List Token := [.identifier c.table, .dot, .identifier c.name]

namespace SqlReader

variable {fuel : Nat} {ts rest : List Token} {e : SqlTree String}

theorem stops_name (s : String) (rest : List Token) : Stops 0 (.name s :: rest) :=
  fun _ _ _ _ => rfl

theorem stops_where (rest : List Token) : Stops 0 (.word .WHERE :: rest) := fun _ _ _ _ => rfl

theorem ReadsPhrase.phrase_eq (h : ReadsPhrase ts e) (stops : Stops 0 rest) :
    phrase (ts ++ rest) = some (e, rest) :=
  h.all (Nat.zero_le _) stops (by rw [List.length_append]; omega)

/-- Columns are read up to the first token that is no comma. -/
theorem columns_eq {c : ColumnRef} {cs : List ColumnRef} {t : Token} (last : t ≠ .comma)
    (rest : List Token) :
    columns (Lexer.separated .comma ((c :: cs).map ColumnRef.tokens) ++ t :: rest) =
    some (c :: cs, t :: rest) := by
  induction cs generalizing c with
  | nil =>
    refine columns.eq_2 _ _ _ fun ts same => ?_
    cases same
    exact last rfl
  | cons next cs ih =>
    simp only [List.map_cons, Lexer.separated, ColumnRef.tokens, List.cons_append,
      List.nil_append] at ih ⊢
    rw [columns, ih]
    rfl

theorem selection_distinct {cs : List ColumnRef} (h : columns ts = some (cs, rest)) :
    selection (.word .SELECT :: .name "DISTINCT" :: ts) = some (.columns true cs, rest) := by
  rw [selection, h]
  rfl

theorem selection_columns {first : String} {cs : List ColumnRef}
    (h : columns (.identifier first :: ts) = some (cs, rest)) :
    selection (.word .SELECT :: .identifier first :: ts) = some (.columns false cs, rest) := by
  simp only [selection, h, Option.bind_eq_bind, Option.bind_some]

theorem joins_cons (table tableAlias : String) {js : List JoinTree} {left : List Token}
    (h : ReadsPhrase ts e) (stops : Stops 0 rest) (later : joins fuel rest = some (js, left)) :
    joins (fuel + 1) (.name "INNER" :: .name "JOIN" :: .identifier table :: .word .AS ::
      .identifier tableAlias :: .name "ON" :: (ts ++ rest)) =
      some (⟨table, tableAlias, e⟩ :: js, left) := by
  rw [joins, h.phrase_eq stops]
  simp only [Option.bind_eq_bind, Option.bind_some, later]

/-- Tokens that read as a term of an order. -/
def ReadsTerm (ts : List Token) (t : SqlTree String × Bool) : Prop :=
  ∀ rest, term (ts ++ rest) = some (t, rest)

theorem ReadsPhrase.term (h : ReadsPhrase ts e) (descending : Bool) :
    ReadsTerm (ts ++ [.name (if descending then "DESC" else "ASC")]) (e, descending) := by
  intro rest
  rw [SqlReader.term, List.append_assoc, List.singleton_append, h.phrase_eq (stops_name _ _)]
  cases descending <;> rfl

/-- Terms that the text ends with. -/
theorem terms_eq {tss : List (List Token)} {os : List (SqlTree String × Bool)}
    (h : List.Forall₂ ReadsTerm tss os) (nonempty : tss ≠ [])
    (enough : (Lexer.separated .comma tss).length < fuel) :
    terms fuel (Lexer.separated .comma tss) = some (os, []) := by
  induction h generalizing fuel with
  | nil => exact absurd rfl nonempty
  | @cons ts o tss os here later ih =>
    obtain ⟨fuel, rfl⟩ : ∃ n, fuel = n + 1 := ⟨fuel - 1, by omega⟩
    cases later with
    | nil =>
      have last := here []
      rw [List.append_nil] at last
      rw [Lexer.separated, terms, last]
      rfl
    | cons _ _ =>
      rw [Lexer.separated, List.length_append, List.length_cons] at enough
      rw [Lexer.separated, terms, here]
      simp only [Option.bind_eq_bind, Option.bind_some]
      rw [ih (List.cons_ne_nil _ _) (by omega)]
      rfl

/-- The clauses of a statement one after another. -/
theorem statement_eq {s : String} {left left' left'' : List Token} {t : SelectTree}
    (lexes : Lexer.Lexes s ts) (shows : selection ts = some (t.selection, left))
    (tables : source left = some (t.source, left')) (same : groups left' = some (t.groups, left''))
    (sorts : order left'' = some (t.order, [])) : statement s = some t := by
  rw [statement, Lexer.tokens_eq lexes]
  simp only [shows, tables, same, sorts, Option.bind_eq_bind, Option.bind_some]
  rfl

end SqlReader

end DocStore

import DocStore.Proofs.NumberedParameters

/-!
# Texts of statements over documents

A reader of the text of a statement over documents finds the tables of its source in the
order in which they are joined, the conjunction of its conditions, and the columns of the
document: they are shown as distinct rows where no order is asked for, and are the columns
of the groups where one is. A term of an order is the least or the greatest value of a
group. The statement that counts shows the number of distinct ids.
-/

set_option autoImplicit false

namespace DocStore

open Lexer SqlReader

namespace Lexer

variable {s u m : String} {ts us ms : List Token}

/-- A piece of text that reads as tokens and ends what stands before it. -/
structure Follows (s : String) (ts : List Token) : Prop where
  lexes : Lexes s ts
  ends : Ends s.toList

theorem follows_empty : Follows "" [] := ⟨fun _ _ => rfl, by simp [Ends]⟩

theorem Infix.follows (hm : Infix m ms) (hu : Lexes u us) : Follows (m ++ u) (ms ++ us) := by
  obtain ⟨c, head, ends⟩ := hm.ends
  exact ⟨hm.spells.append hu, ends_append head ends⟩

theorem Follows.append (h : Follows s ts) (hu : Follows u us) : Follows (s ++ u) (ts ++ us) :=
  ⟨h.lexes.append hu.lexes hu.ends, h.ends.append hu.ends⟩

theorem Lexes.followed (h : Lexes s ts) (hu : Follows u us) : Lexes (s ++ u) (ts ++ us) :=
  h.append hu.lexes hu.ends

end Lexer

/-- The columns of a document under its alias. -/
def Document.columnRefs : List ColumnRef := columnNames.map (ColumnRef.mk Join.documentAlias)

/-- The tokens of a join. -/
def InnerJoin.tokens (j : InnerJoin) : List Token :=
  .name "INNER" :: .name "JOIN" :: .identifier j.table :: .word .AS :: .identifier j.tableAlias ::
    .name "ON" :: (ColumnRef.tokens ⟨j.tableAlias, j.column⟩ ++
      .op .eq :: ColumnRef.tokens ⟨j.other, j.otherColumn⟩)

/-- Joins are read up to `WHERE`. -/
theorem SqlReader.joins_eq {js : List InnerJoin} {fuel : Nat} {rest : List Token}
    (enough : (js.flatMap InnerJoin.tokens).length < fuel) :
    joins fuel (js.flatMap InnerJoin.tokens ++ .word .WHERE :: rest) =
    some (js.map InnerJoin.tree, .word .WHERE :: rest) := by
  induction js generalizing fuel with
  | nil =>
    obtain ⟨fuel, rfl⟩ : ∃ n, fuel = n + 1 := ⟨fuel - 1, by omega⟩
    rfl
  | cons j js ih =>
    rw [List.flatMap_cons, List.length_append, InnerJoin.tokens, List.length_cons] at enough
    obtain ⟨fuel, rfl⟩ : ∃ n, fuel = n + 1 := ⟨fuel - 1, by omega⟩
    have equation : ReadsPhrase (ColumnRef.tokens ⟨j.tableAlias, j.column⟩ ++
          .op .eq :: ColumnRef.tokens ⟨j.other, j.otherColumn⟩)
        (.binary .eq (.column j.tableAlias j.column) (.column j.other j.otherColumn)) :=
      readsPhrase_binary (by decide) (readsOperand_column _ _) (readsOperand_column _ _)
    have stops : Stops 0 (js.flatMap InnerJoin.tokens ++ .word .WHERE :: rest) := by
      cases js with
      | nil => exact stops_where rest
      | cons _ _ => exact stops_name "INNER" _
    have later : joins fuel (js.flatMap InnerJoin.tokens ++ .word .WHERE :: rest) =
        some (js.map InnerJoin.tree, .word .WHERE :: rest) := ih (by omega)
    have whole := joins_cons j.table j.tableAlias equation stops later
    simp only [List.flatMap_cons, InnerJoin.tokens, List.cons_append, List.append_assoc] at whole ⊢
    exact whole

section Dialects

variable {d : Dialect} (dialect : d = .standard ∨ d = .sqlite)
include dialect

theorem ColumnRef.lexes_tokens (table name : String) :
    Lexes (d.quote table ++ "." ++ d.quote name) (tokens ⟨table, name⟩) :=
  (Dialect.lexes_quote dialect table).joined infix_dot (Dialect.lexes_quote dialect name)

theorem InnerJoin.follows_text (j : InnerJoin) : Follows (j.text d) j.tokens := by
  have join : Infix " INNER JOIN " [.name "INNER", .name "JOIN"] :=
    ⟨fun _ => rfl, ' ', rfl, by decide⟩
  have on : Infix " ON " [.name "ON"] := ⟨fun _ => rfl, ' ', rfl, by decide⟩
  have quoted := Dialect.lexes_quote dialect
  have equation := (ColumnRef.lexes_tokens dialect j.tableAlias j.column).joined infix_equals
    (ColumnRef.lexes_tokens dialect j.other j.otherColumn)
  have whole :=
    join.follows (((quoted j.table).joined infix_as (quoted j.tableAlias)).joined on equation)
  unfold text Join.innerJoin tokens
  simp only [String.append_assoc, List.cons_append, List.nil_append] at whole ⊢
  exact whole

theorem InnerJoin.follows_texts (js : List InnerJoin) :
    Follows (String.join (js.map (text d))) (js.flatMap tokens) := by
  induction js with
  | nil => exact follows_empty
  | cons j js ih =>
    rw [List.map_cons, String.join_cons, List.flatMap_cons]
    exact (follows_text dialect j).append ih

theorem Sql.IsPhrase.tokens {sql : Sql} {e : SqlTree String} (h : sql.IsPhrase e) :
    ∃ ts, Lexes (sql.text d) ts ∧ ReadsPhrase ts e := by
  rcases dialect with rfl | rfl
  · exact h
  · rw [Sql.text_sqlite]
    exact h

theorem Sql.tokens_of_phrases {sqls : List Sql} {es : List (SqlTree String)}
    (h : List.Forall₂ IsPhrase sqls es) :
    ∃ tss, List.Forall₂ Lexes (sqls.map (text d)) tss ∧ List.Forall₂ ReadsPhrase tss es := by
  induction h with
  | nil => exact ⟨[], .nil, .nil⟩
  | cons here _ ih =>
    obtain ⟨ts, lexes, reads⟩ := here.tokens dialect
    obtain ⟨tss, lexess, readss⟩ := ih
    exact ⟨ts :: tss, .cons lexes lexess, .cons reads readss⟩

namespace DocumentSource

theorem lexes_columnsText :
    Lexes (columnsText d) (separated .comma (Document.columnRefs.map ColumnRef.tokens)) := by
  have column := ColumnRef.lexes_tokens dialect Join.documentAlias
  exact lexes_intercalate infix_comma
    (.cons (column _) (.cons (column _) (.cons (column _) (.cons (column _) .nil))))
    (List.cons_ne_nil _ _)

/-- A source is read up to what ends its last condition. -/
theorem reads_text {source : DocumentSource} {es : List (SqlTree String)}
    (phrases : List.Forall₂ Sql.IsPhrase source.conditions es) (nonempty : source.conditions ≠ []) :
    ∃ ts, Follows (source.text d) (.word .FROM :: ts) ∧ ∀ rest, Stops 0 rest →
      SqlReader.source (.word .FROM :: ts ++ rest) =
        some (source.tree (.conjunction es), rest) := by
  obtain ⟨tss, lexes, reads⟩ := Sql.tokens_of_phrases dialect phrases
  have some : source.conditions.map (Sql.text d) ≠ [] := by simpa using nonempty
  have conditions := infix_where.follows (lexes_intercalate infix_and lexes some)
  have quoted := Dialect.lexes_quote dialect
  have tables :=
    infix_from.follows ((quoted source.table).joined infix_as (quoted Join.documentAlias))
  have whole :=
    (tables.append (InnerJoin.follows_texts dialect source.innerJoins)).append conditions
  rw [text_eq]
  simp only [String.append_assoc, List.cons_append, List.nil_append] at whole ⊢
  refine ⟨_, whole, fun rest stops => ?_⟩
  have read : tss ≠ [] := by
    rintro rfl
    exact some (List.forall₂_nil_right_iff.1 lexes)
  simp only [List.cons_append, List.append_assoc, SqlReader.source]
  rw [joins_eq (by rw [List.length_append]; omega)]
  simp only [Option.bind_eq_bind, Option.bind_some, filter, phrase]
  rw [expression_conditions stops reads read (by rw [List.length_append]; omega)]
  rfl

end DocumentSource

namespace SqlOrder

/-- A term over groups reads as the least or the greatest of its values. -/
theorem reads_groupedText {o : SqlOrder} {e : SqlTree String} (phrase : o.term.IsPhrase e) :
    ∃ ts, Lexes (o.groupedText d) ts ∧
      ReadsTerm ts (.apply (if o.descending then "MAX" else "MIN") [e], o.descending) := by
  obtain ⟨ts, lexes, reads⟩ := phrase.tokens dialect
  have applied := readsOperand_apply (if o.descending then "MAX" else "MIN") reads
  refine ⟨_, ?_, applied.phrase.term o.descending⟩
  unfold groupedText
  cases o.descending with
  | false =>
    have least : Spells "MIN(" [.name "MIN", .opening] := fun _ => rfl
    have ascending : Follows " ASC" [.name "ASC"] :=
      ⟨fun _ ends => lex_word_ends ['A', 'S', 'C'] ends, by simp [Ends, isWordChar]⟩
    exact (least.append lexes).close.followed ascending
  | true =>
    have greatest : Spells "MAX(" [.name "MAX", .opening] := fun _ => rfl
    have descending : Follows " DESC" [.name "DESC"] :=
      ⟨fun _ ends => lex_word_ends ['D', 'E', 'S', 'C'] ends, by simp [Ends, isWordChar]⟩
    exact (greatest.append lexes).close.followed descending

theorem reads_groupedTexts {order : List SqlOrder} {es : List (SqlTree String)}
    (phrases : List.Forall₂ Sql.IsPhrase (order.map term) es) : ∃ tss os,
      List.Forall₂ Lexes (order.map (groupedText d)) tss ∧
        List.Forall₂ ReadsTerm tss os ∧ ∀ gs, ∀ o ∈ os, o.1.OfGroup gs := by
  induction order generalizing es with
  | nil => exact ⟨[], [], .nil, .nil, fun _ _ never => by cases never⟩
  | cons o order ih =>
    obtain ⟨e, es, here, later, rfl⟩ := List.forall₂_cons_left_iff.1 phrases
    obtain ⟨ts, lexes, reads⟩ := reads_groupedText dialect here
    obtain ⟨tss, os, lexess, readss, grouped⟩ := ih later
    refine ⟨ts :: tss, _ :: os, .cons lexes lexess, .cons reads readss,
      fun gs => List.forall_mem_cons.2 ⟨?_, grouped gs⟩⟩
    cases o.descending
    · exact .inl rfl
    · exact .inr rfl

/-- The terms of an order over groups, which end the text. -/
theorem reads_clause {o : SqlOrder} {order : List SqlOrder} {es : List (SqlTree String)}
    (phrases : List.Forall₂ Sql.IsPhrase ((o :: order).map term) es) :
    ∃ ts os, Follows (clause d true (o :: order)) (.name "ORDER" :: ts) ∧
      SqlReader.order (.name "ORDER" :: ts) = some (os, []) ∧ ∀ gs, ∀ o ∈ os, o.1.OfGroup gs := by
  have by' : Infix " ORDER BY " [.name "ORDER", .name "BY"] := ⟨fun _ => rfl, ' ', rfl, by decide⟩
  obtain ⟨tss, os, lexes, reads, grouped⟩ := reads_groupedTexts dialect phrases
  have some : tss ≠ [] := by
    rintro rfl
    exact List.cons_ne_nil _ _ (List.forall₂_nil_right_iff.1 lexes)
  exact ⟨_, os, by'.follows (lexes_intercalate infix_comma lexes (List.cons_ne_nil _ _)),
    terms_eq reads some (Nat.lt_succ_self _), grouped⟩

end SqlOrder

/-! ## The three statements -/

omit dialect in
theorem Document.columns_eq {t : Token} (last : t ≠ .comma) (rest : List Token) :
    SqlReader.columns (separated .comma (columnRefs.map ColumnRef.tokens) ++ t :: rest) =
    some (columnRefs, t :: rest) :=
  SqlReader.columns_eq last rest

theorem Dialect.paging_none : d.paging ⟨none, none⟩ = "" := by
  rcases dialect with rfl | rfl <;> rfl

namespace Query

variable {source : DocumentSource} {es : List (SqlTree String)}
  (phrases : List.Forall₂ Sql.IsPhrase source.conditions es) (nonempty : source.conditions ≠ [])
include phrases nonempty

/-- Without an order the documents are distinct rows. -/
theorem statement_distinct : SqlReader.statement (text d (.documents source [] ⟨none, none⟩)) =
    some ⟨.columns true Document.columnRefs, source.tree (.conjunction es), none, []⟩ := by
  have written : text d (.documents source [] ⟨none, none⟩) =
      "SELECT DISTINCT " ++ DocumentSource.columnsText d ++ source.text d ++
        d.paging ⟨none, none⟩ := rfl
  have distinct : Spells "SELECT DISTINCT " [.word .SELECT, .name "DISTINCT"] := fun _ => rfl
  obtain ⟨ts, follows, reads⟩ := source.reads_text dialect phrases nonempty
  have whole := (distinct.append (DocumentSource.lexes_columnsText dialect)).followed follows
  have tables := reads [] stops_nil
  rw [List.append_nil] at tables
  rw [written, Dialect.paging_none dialect, String.append_empty]
  exact statement_eq whole (selection_distinct (Document.columns_eq (by decide) ts)) tables rfl rfl

/-- With an order they are groups. -/
theorem statement_grouped {o : SqlOrder} {order : List SqlOrder} {terms : List (SqlTree String)}
    (ordered : List.Forall₂ Sql.IsPhrase ((o :: order).map SqlOrder.term) terms) :
    ∃ os, SqlReader.statement (text d (.documents source (o :: order) ⟨none, none⟩)) =
      some ⟨.columns false Document.columnRefs, source.tree (.conjunction es),
          some Document.columnRefs, os⟩ ∧
        ∀ gs, ∀ o ∈ os, o.1.OfGroup gs := by
  have written : text d (.documents source (o :: order) ⟨none, none⟩) =
      "SELECT " ++ DocumentSource.columnsText d ++ source.text d ++
        (" GROUP BY " ++ (DocumentSource.columnsText d ++
        SqlOrder.clause d true (o :: order))) ++ d.paging ⟨none, none⟩ := by
    simp only [← String.append_assoc]
    rfl
  have select : Spells "SELECT " [.word .SELECT] := fun _ => rfl
  have group : Infix " GROUP BY " [.name "GROUP", .name "BY"] := ⟨fun _ => rfl, ' ', rfl, by decide⟩
  have columns := DocumentSource.lexes_columnsText dialect
  obtain ⟨ts, follows, reads⟩ := source.reads_text dialect phrases nonempty
  obtain ⟨us, os, sorted, arranges, grouped⟩ := SqlOrder.reads_clause dialect ordered
  have whole :=
    ((select.append columns).followed follows).followed (group.follows (columns.followed sorted))
  have same : groups (.name "GROUP" :: .name "BY" ::
      (separated .comma (Document.columnRefs.map ColumnRef.tokens) ++ .name "ORDER" :: us)) =
      some (some Document.columnRefs, .name "ORDER" :: us) := by
    rw [groups, Document.columns_eq (by decide)]
    rfl
  refine ⟨os, ?_, grouped⟩
  rw [written, Dialect.paging_none dialect, String.append_empty]
  rw [List.append_assoc] at whole
  exact statement_eq whole (selection_columns (Document.columns_eq (by decide) _))
    (reads _ (stops_name _ _)) same arranges

/-- The count is of distinct ids. -/
theorem statement_count : SqlReader.statement (text d (.documentCount source)) =
    some ⟨.countDistinct ⟨Join.documentAlias, Column.idName⟩ Column.countName,
      source.tree (.conjunction es), none, []⟩ := by
  have written : text d (.documentCount source) =
      "SELECT COUNT(DISTINCT " ++ DocumentSource.qualified d Column.idName ++
      ") AS " ++ d.quote Column.countName ++ source.text d := rfl
  have count : Spells "SELECT COUNT(DISTINCT " [.word .SELECT, .name "COUNT", .opening,
      .name "DISTINCT"] := fun _ => rfl
  have as : Infix ") AS " [.closing, .word .AS] := ⟨fun _ => rfl, ')', rfl, by decide⟩
  obtain ⟨ts, follows, reads⟩ := source.reads_text dialect phrases nonempty
  have id := ColumnRef.lexes_tokens dialect Join.documentAlias Column.idName
  have whole :=
    ((count.append id).joined as (Dialect.lexes_quote dialect Column.countName)).followed follows
  have tables := reads [] stops_nil
  rw [List.append_nil] at tables
  rw [written]
  exact statement_eq whole rfl tables rfl rfl

end Query

end Dialects

end DocStore

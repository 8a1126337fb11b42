import DocStore.Proofs.DocumentSources
import DocStore.Proofs.FlushWrites
import DocStore.Proofs.Placeholders

/-!
# Placeholders and parameters

Nothing but a rendered expression or a written cell puts a placeholder into the
text of a statement. What compiles binds parameters in the order in which their
placeholders stand: so the text has the names of the parameters gained, each
once, from left to right, and every value is that of the slot, or of the cell, in
whose place its name stands.
-/

set_option autoImplicit false

namespace DocStore

open Lexer Token

/-! ## Clauses -/

namespace Lexer

variable {s u m : String} {ts ms : List Token} {names names' : List String}

/-- A piece of text that has placeholders and ends what stands before it. -/
structure Trails (s : String) (names : List String) : Prop where
  holds : Holds s names
  ends : Ends s.toList

theorem trails_empty : Trails "" [] := ⟨holds_empty, by simp [Ends]⟩

theorem Infix.trails (hm : Infix m ms) (none : held ms = []) (hu : Holds u names) :
    Trails (m ++ u) names := by
  obtain ⟨c, head, ends⟩ := hm.ends
  exact ⟨hm.spells.holds none hu, ends_append head ends⟩

theorem Ends.append (h : Ends s.toList) (hu : Ends u.toList) : Ends (s ++ u).toList := by
  intro c hc
  rw [String.toList_append, List.head?_append] at hc
  cases head : s.toList.head? with
  | none =>
    rw [head] at hc
    exact hu c hc
  | some x =>
    rw [head] at hc
    exact h c (head ▸ hc)

theorem Trails.append (h : Trails s names) (hu : Trails u names') :
    Trails (s ++ u) (names ++ names') :=
  ⟨h.holds.append hu.holds hu.ends, h.ends.append hu.ends⟩

theorem Holds.trailed (h : Holds s names) (hu : Trails u names') :
    Holds (s ++ u) (names ++ names') := h.append hu.holds hu.ends

/-- More text without placeholders. -/
theorem Holds.plain (h : Holds s names) (hm : Infix m ms) (none : held ms = []) (hu : Holds u []) :
    Holds (s ++ m ++ u) names := by
  rw [← List.append_nil names]
  exact h.joined hm none hu

theorem infix_equals : Infix " = " [.op .eq] := ⟨fun _ => rfl, ' ', rfl, by decide⟩

theorem infix_and : Infix " AND " [.op .and] := ⟨fun _ => rfl, ' ', rfl, by decide⟩

theorem placeholder?_ofWord {c : Char} (digit : c.isDigit = true) (cs : List Char) :
    (Token.ofWord (c :: cs)).placeholder? = none := by
  unfold Token.ofWord
  split
  · next same =>
    cases same
    cases digit
  any_goals rfl
  split <;> rfl

theorem holds_number (n : Nat) : Holds (toString n) [] := by
  have digits : ∀ c ∈ Nat.toDigits 10 n, c.isDigit = true :=
    fun c => Nat.isDigit_of_mem_toDigits (by decide) (by decide)
  have written : (toString n).toList = Nat.toDigits 10 n := by
    rw [Nat.toString_eq_repr, Nat.repr_eq_ofList_toDigits, String.toList_ofList]
  have word : ∀ c : Char, c.isDigit = true → isWordChar c = true :=
    fun c digit => by simp [isWordChar, Char.isAlphanum, digit]
  cases spelled : Nat.toDigits 10 n with
  | nil => exact absurd spelled Nat.toDigits_ne_nil
  | cons c cs =>
    rw [spelled] at digits written
    obtain ⟨first, rest⟩ := List.forall_mem_cons.1 digits
    have visible : c.isWhitespace = false := by
      simp only [Char.isWhitespace, Bool.or_eq_false_iff, decide_eq_false_iff_not]
      refine ⟨⟨⟨?_, ?_⟩, ?_⟩, ?_⟩ <;> (rintro rfl; cases first)
    refine ⟨[.ofWord (c :: cs)], fun more ends => ?_, ?_⟩
    · have begun : ∀ cs, lex .between (c :: cs) = lex (.word [c]) cs := fun cs => by
        simp [lex, step, start, visible, word c first]
      rw [written, List.cons_append, begun, lex_word fun x hx => word x (rest x hx),
        lex_word_ends _ ends]
      rfl
    · rw [held_cons (placeholder?_ofWord first cs), held_nil]

end Lexer

theorem SqlTree.slotsAll_eq_flatten {α : Type} (es : List (SqlTree α)) :
    slotsAll es = (es.map slots).flatten := by
  induction es with
  | nil => rfl
  | cons e es ih => rw [slotsAll, ih, List.map_cons, List.flatten_cons]

theorem SqlTree.slotsAll_append {α : Type} (es es' : List (SqlTree α)) :
    slotsAll (es ++ es') = slotsAll es ++ slotsAll es' := by
  rw [slotsAll_eq_flatten, slotsAll_eq_flatten, slotsAll_eq_flatten, List.map_append,
    List.flatten_append]

theorem SqlOrder.trails_direction (descending : Bool) :
    Trails (if descending then " DESC" else " ASC") [] := by
  cases descending
  · exact ⟨⟨[.name "ASC"], fun _ ends => lex_word_ends ['A', 'S', 'C'] ends, rfl⟩, by
      simp [Ends, isWordChar]⟩
  · exact ⟨⟨[.name "DESC"], fun _ ends => lex_word_ends ['D', 'E', 'S', 'C'] ends, rfl⟩, by
      simp [Ends, isWordChar]⟩

section Dialects

variable {d : Dialect} (dialect : d = .standard ∨ d = .sqlite)
include dialect

theorem Dialect.lexes_quote (name : String) : Lexes (d.quote name) [.identifier name] := by
  rcases dialect with rfl | rfl <;> exact lexes_identifier name

theorem Dialect.lexes_parameter (n : Nat) :
    Lexes (d.parameter n) [.placeholder (d.parameter n)] := by
  rcases dialect with rfl | rfl <;> exact Lexer.lexes_parameter n

theorem Dialect.holds_quote (name : String) : Holds (d.quote name) [] :=
  (Dialect.lexes_quote dialect name).holds rfl

/-- Pages are numbers. -/
theorem Dialect.trails_paging (p : Paging) : Trails (d.paging p) [] := by
  have limit : Infix " LIMIT " [.name "LIMIT"] := ⟨fun _ => rfl, ' ', rfl, by decide⟩
  have offset : Infix " OFFSET " [.name "OFFSET"] := ⟨fun _ => rfl, ' ', rfl, by decide⟩
  have unlimited : Infix " LIMIT -1 OFFSET " [.name "LIMIT", .op .sub, .number "1",
      .name "OFFSET"] :=
    ⟨fun _ => rfl, ' ', rfl, by decide⟩
  have both (take skip : Nat) :
      Trails (" LIMIT " ++ toString take ++ " OFFSET " ++ toString skip) [] := by
    have taken := limit.trails rfl (holds_number take)
    rw [String.append_assoc]
    exact taken.append (offset.trails rfl (holds_number skip))
  obtain ⟨_ | skip, _ | take⟩ := p
  · rcases dialect with rfl | rfl <;> exact trails_empty
  · rcases dialect with rfl | rfl <;> exact limit.trails rfl (holds_number take)
  · rcases dialect with rfl | rfl
    · exact offset.trails rfl (holds_number skip)
    · exact unlimited.trails rfl (holds_number skip)
  · rcases dialect with rfl | rfl <;> exact both take skip

theorem Sql.IsPhrase.holds_text {sql : Sql} {e : SqlTree String} (h : sql.IsPhrase e) :
    Holds (sql.text d) e.slots := by
  rcases dialect with rfl | rfl
  · exact h.holds
  · rw [Sql.text_sqlite]
    exact h.holds

namespace SqlOrder

theorem holds_term {o : SqlOrder} {e : SqlTree String} (grouped : Bool) (h : o.term.IsPhrase e) :
    Holds (if grouped then o.groupedText d else o.text d) e.slots := by
  have term := h.holds_text dialect
  have direction := trails_direction o.descending
  rw [← List.append_nil e.slots]
  cases grouped with
  | false => exact term.trailed direction
  | true =>
    refine Holds.trailed (Holds.close ?_) direction
    cases o.descending
    · have least : Spells "MIN(" [.name "MIN", .opening] := fun _ => rfl
      exact least.holds rfl term
    · have greatest : Spells "MAX(" [.name "MAX", .opening] := fun _ => rfl
      exact greatest.holds rfl term

/-- The terms of an order, whether over rows or over groups of them. -/
theorem trails_clause {order : List SqlOrder} {es : List (SqlTree String)} (grouped : Bool)
    (h : List.Forall₂ Sql.IsPhrase (order.map term) es) :
    Trails (clause d grouped order) (SqlTree.slotsAll es) := by
  have by' : Infix " ORDER BY " [.name "ORDER", .name "BY"] := ⟨fun _ => rfl, ' ', rfl, by decide⟩
  have terms : List.Forall₂ Holds (order.map (if grouped then groupedText d else text d))
      (es.map SqlTree.slots) := by
    rw [List.forall₂_map_left_iff] at h ⊢
    rw [List.forall₂_map_right_iff]
    refine h.imp fun o e phrase => ?_
    have held := holds_term dialect grouped phrase
    cases grouped <;> exact held
  rw [clause, SqlTree.slotsAll_eq_flatten]
  split
  · next empty =>
    rw [List.isEmpty_iff.1 empty] at terms
    generalize es.map SqlTree.slots = nss at terms ⊢
    cases terms
    exact trails_empty
  · exact by'.trails rfl (holds_intercalate infix_comma rfl terms)

end SqlOrder

/-! ## Statements -/

theorem Join.trails_innerJoin (table tableAlias column other otherColumn : String) :
    Trails (innerJoin d table tableAlias column other otherColumn) [] := by
  have quoted := Dialect.holds_quote dialect
  have join : Infix " INNER JOIN " [.name "INNER", .name "JOIN"] :=
    ⟨fun _ => rfl, ' ', rfl, by decide⟩
  have on : Infix " ON " [.name "ON"] := ⟨fun _ => rfl, ' ', rfl, by decide⟩
  have equation :
      Holds (d.quote tableAlias ++ "." ++ d.quote column ++ " = " ++ d.quote other ++ "." ++
        d.quote otherColumn) [] :=
    (((quoted tableAlias).plain infix_dot rfl (quoted column)).plain infix_equals rfl
        (quoted other)).plain infix_dot rfl
      (quoted otherColumn)
  have whole :=
    join.trails rfl (((quoted table).plain infix_as rfl (quoted tableAlias)).plain on rfl equation)
  unfold innerJoin
  simp only [String.append_assoc] at whole ⊢
  exact whole

theorem Join.trails_text (join : Join) : Trails (join.text d) [] := by
  unfold text
  split
  · exact trails_innerJoin dialect _ _ _ _ _
  · exact (trails_innerJoin dialect _ _ _ _ _).append (trails_innerJoin dialect _ _ _ _ _)

theorem Join.trails_texts (joins : List Join) : Trails (String.join (joins.map (text d))) [] := by
  induction joins with
  | nil => exact trails_empty
  | cons join joins ih =>
    rw [List.map_cons, String.join_cons]
    exact (trails_text dialect join).append ih

namespace DocumentSource

theorem holds_columnsText : Holds (columnsText d) [] := by
  have column (name : String) : Holds (qualified d name) [] :=
    (Dialect.holds_quote dialect _).plain infix_dot rfl (Dialect.holds_quote dialect name)
  exact holds_intercalate infix_comma rfl
    (.cons (column _) (.cons (column _) (.cons (column _) (.cons (column _) .nil))))

theorem trails_text {source : DocumentSource} {es : List (SqlTree String)}
    (h : List.Forall₂ Sql.IsPhrase source.conditions es) :
    Trails (source.text d) (SqlTree.slotsAll es) := by
  have conditions : Holds (" AND ".intercalate (source.conditions.map (Sql.text d)))
      (SqlTree.slotsAll es) := by
    rw [SqlTree.slotsAll_eq_flatten]
    refine holds_intercalate infix_and rfl ?_
    rw [List.forall₂_map_left_iff, List.forall₂_map_right_iff]
    exact h.imp fun sql e phrase => phrase.holds_text dialect
  have tables :=
    infix_from.trails rfl ((Dialect.holds_quote dialect source.table).plain infix_as rfl
    (Dialect.holds_quote dialect Join.documentAlias))
  have whole := (tables.append (Join.trails_texts dialect source.joins)).append
    (infix_where.trails rfl conditions)
  unfold text
  simp only [String.append_assoc, List.nil_append] at whole ⊢
  exact whole

end DocumentSource

/-- The conditions and values of a query, from left to right as they stand in its text. -/
def Query.pieces : Query → List Sql
  | .indexRows _ _ filter order _ => filter :: order.map SqlOrder.term
  | .indexCount _ _ filter => [filter]
  | .documentById _ => [.param 0]
  | .documents source order _ => source.conditions ++ order.map SqlOrder.term
  | .documentCount source => source.conditions
  | .maxId _ => []

namespace Query

theorem holds_indexRows {index table : String} {filter : Sql} {order : List SqlOrder}
    {paging : Option Paging} {e : SqlTree String} {es : List (SqlTree String)}
    (he : filter.IsPhrase e) (hes : List.Forall₂ Sql.IsPhrase (order.map SqlOrder.term) es) :
    Holds (text d (.indexRows index table filter order paging)) (SqlTree.slotsAll (e :: es)) := by
  have quoted := Dialect.holds_quote dialect
  have select : Spells "SELECT " [.word .SELECT] := fun _ => rfl
  have rows : Infix ".* FROM " [.dot, .op .mul, .word .FROM] := ⟨fun _ => rfl, '.', rfl, by decide⟩
  have pages : Trails (paging.elim "" d.paging) [] := by
    cases paging
    · exact trails_empty
    · exact Dialect.trails_paging dialect _
  have table := ((select.holds rfl (quoted index)).plain rows rfl (quoted table)).plain infix_as rfl
    (quoted index)
  have filtered := table.joined infix_where rfl (he.holds_text dialect)
  have ordered := filtered.trailed (SqlOrder.trails_clause dialect false hes)
  have whole := ordered.trailed pages
  rw [List.append_nil] at whole
  exact whole

theorem holds_indexCount {index table : String} {filter : Sql} {e : SqlTree String}
    (he : filter.IsPhrase e) : Holds (text d (.indexCount index table filter)) e.slots := by
  have quoted := Dialect.holds_quote dialect
  have count : Spells "SELECT COUNT(*) AS " [.word .SELECT, .name "COUNT", .opening, .op .mul,
      .closing, .word .AS] := fun _ => rfl
  have table :=
    ((count.holds rfl (quoted Column.countName)).plain infix_from rfl (quoted table)).plain infix_as
      rfl (quoted index)
  exact table.joined infix_where rfl (he.holds_text dialect)

theorem holds_documentById {table : String} {e : SqlTree String} (he : (Sql.param 0).IsPhrase e) :
    Holds (text d (.documentById table)) e.slots := by
  have quoted := Dialect.holds_quote dialect
  have select : Spells "SELECT " [.word .SELECT] := fun _ => rfl
  have listed : Holds (", ".intercalate (Document.columnNames.map d.quote)) [] :=
    holds_intercalate infix_comma rfl
      (.cons (quoted _) (.cons (quoted _) (.cons (quoted _) (.cons (quoted _) .nil))))
  have row := ((select.holds rfl listed).plain infix_from rfl (quoted table)).plain infix_where rfl
    (quoted Column.idName)
  have parameter := he.holds_text dialect
  rw [Sql.text] at parameter
  exact row.joined infix_equals rfl parameter

/-- Without an order documents are selected once, and under an order they are grouped. -/
theorem holds_documents {source : DocumentSource} {order : List SqlOrder} {paging : Paging}
    {conditions terms : List (SqlTree String)}
    (hc : List.Forall₂ Sql.IsPhrase source.conditions conditions)
    (ht : List.Forall₂ Sql.IsPhrase (order.map SqlOrder.term) terms) :
    Holds (text d (.documents source order paging))
      (SqlTree.slotsAll conditions ++ SqlTree.slotsAll terms) := by
  have columns := DocumentSource.holds_columnsText dialect
  have pages := Dialect.trails_paging dialect paging
  have rows := DocumentSource.trails_text dialect hc
  cases order with
  | nil =>
    cases ht
    have distinct : Spells "SELECT DISTINCT " [.word .SELECT, .name "DISTINCT"] := fun _ => rfl
    exact ((distinct.holds rfl columns).trailed rows).trailed pages
  | cons term order =>
    have select : Spells "SELECT " [.word .SELECT] := fun _ => rfl
    have group : Infix " GROUP BY " [.name "GROUP", .name "BY"] :=
      ⟨fun _ => rfl, ' ', rfl, by decide⟩
    have grouped := ((select.holds rfl columns).trailed rows).plain group rfl columns
    have whole := (grouped.trailed (SqlOrder.trails_clause dialect true ht)).trailed pages
    rw [List.append_nil] at whole
    exact whole

theorem holds_documentCount {source : DocumentSource} {conditions : List (SqlTree String)}
    (hc : List.Forall₂ Sql.IsPhrase source.conditions conditions) :
    Holds (text d (.documentCount source)) (SqlTree.slotsAll conditions) := by
  have quoted := Dialect.holds_quote dialect
  have count : Spells "SELECT COUNT(DISTINCT " [.word .SELECT, .name "COUNT", .opening,
      .name "DISTINCT"] := fun _ => rfl
  have as : Infix ") AS " [.closing, .word .AS] := ⟨fun _ => rfl, ')', rfl, by decide⟩
  have id : Holds (DocumentSource.qualified d Column.idName) [] :=
    (quoted Join.documentAlias).plain infix_dot rfl (quoted Column.idName)
  exact ((count.holds rfl id).plain as rfl (quoted Column.countName)).trailed
    (DocumentSource.trails_text dialect hc)

theorem holds_maxId {table : String} : Holds (text d (.maxId table)) [] := by
  have quoted := Dialect.holds_quote dialect
  have max : Spells "SELECT MAX(" [.word .SELECT, .name "MAX", .opening] := fun _ => rfl
  have from' : Infix ") FROM " [.closing, .word .FROM] := ⟨fun _ => rfl, ')', rfl, by decide⟩
  exact (max.holds rfl (quoted Column.idName)).plain from' rfl (quoted table)

/-- The placeholders of a query are those of its conditions and values. -/
theorem holds_text {q : Query} {es : List (SqlTree String)}
    (h : List.Forall₂ Sql.IsPhrase q.pieces es) : Holds (q.text d) (SqlTree.slotsAll es) := by
  cases q with
  | indexRows index table filter order paging =>
    cases h with
    | cons he hes => exact holds_indexRows dialect he hes
  | indexCount index table filter =>
    cases h with
    | cons he hes =>
      cases hes
      rw [SqlTree.slotsAll, SqlTree.slotsAll, List.append_nil]
      exact holds_indexCount dialect he
  | documentById table =>
    cases h with
    | cons he hes =>
      cases hes
      rw [SqlTree.slotsAll, SqlTree.slotsAll, List.append_nil]
      exact holds_documentById dialect he
  | documents source order paging =>
    obtain ⟨conditions, terms, rfl, hc, ht⟩ : ∃ conditions terms, es = conditions ++ terms ∧
        List.Forall₂ Sql.IsPhrase source.conditions conditions ∧
          List.Forall₂ Sql.IsPhrase (order.map SqlOrder.term) terms :=
      ⟨_, _, (List.take_append_drop source.conditions.length es).symm,
        (List.forall₂_take_append _ _ _ h.flip).flip, (List.forall₂_drop_append _ _ _ h.flip).flip⟩
    rw [SqlTree.slotsAll_append]
    exact holds_documents dialect hc ht
  | documentCount source => exact holds_documentCount dialect h
  | maxId table =>
    cases h
    exact holds_maxId dialect

end Query

end Dialects

/-! ## Changes -/

/-- The cells of a change, in the order of their parameters. -/
def Statement.cells : Statement → Cells
  | .insert _ cells | .insertReturning _ cells => cells
  | .update _ cells keys => cells ++ keys
  | .delete _ keys => keys
  | .query .. | .schema _ => []

/-- An equation of each column with the placeholder of its parameter. -/
def Cells.equationTokens (d : Dialect) (start : Nat) (cells : Cells) : List (List Token) :=
  cells.zipIdx.map fun (cell, i) => [.identifier cell.1, .op .eq,
    .placeholder (d.parameter (start + i))]

/-- The columns, and then as many placeholders. -/
def Statement.insertionTokens (d : Dialect) (table : String) (cells : Cells) : List Token :=
  [.name "INSERT", .name "INTO", .identifier table, .opening] ++
      separated .comma (cells.map fun cell => [.identifier cell.1]) ++
    [.closing, .name "VALUES", .opening] ++
    separated .comma ((d.numbered 0 cells.length).map fun name => [.placeholder name]) ++
    [.closing]

/-- The tokens of a change. -/
def Statement.changeTokens (d : Dialect) : Statement → List Token
  | .insert table cells => insertionTokens d table cells
  | .insertReturning table cells =>
    insertionTokens d table cells ++ [.name "RETURNING", .identifier Column.idName]
  | .update table cells keys =>
    [.name "UPDATE", .identifier table, .name "SET"] ++
        separated .comma (cells.equationTokens d 0) ++
      [.word .WHERE] ++ separated (.op .and) (keys.equationTokens d cells.length)
  | .delete table keys =>
    [.name "DELETE", .word .FROM, .identifier table, .word .WHERE] ++
    separated (.op .and) (keys.equationTokens d 0)
  | .query .. | .schema _ => []

/-- A change that puts one parameter in the place of every cell: the text is as it should be laid
out, its placeholders are numbered from left to right, and each is the name of the parameter with
the value of its cell. -/
structure Statement.AlignedChange (d : Dialect) (s : Statement) : Prop where
  tokens : Lexer.tokens (s.text d) = s.changeTokens d
  placeholders : Lexer.placeholders (s.text d) = d.numbered 0 s.cells.length
  once : (Lexer.placeholders (s.text d)).Nodup
  parameters : (s.parameters d).entries = (Lexer.placeholders (s.text d)).zip (s.cells.map Prod.snd)

namespace Cells

theorem bound_eq (d : Dialect) (start : Nat) (cells : Cells) :
    cells.bound d start = (d.numbered start cells.length).zip (cells.map Prod.snd) := by
  refine List.ext_getElem (by simp [bound, Dialect.numbered]) fun i h h' => ?_
  simp [bound, Dialect.numbered]

theorem names_bound (d : Dialect) (start : Nat) (cells : Cells) :
    (cells.bound d start).map Prod.fst = d.numbered start cells.length := by
  rw [bound_eq, List.map_fst_zip]
  simp [Dialect.numbered]

theorem flatMap_held_equationTokens (d : Dialect) (start : Nat) (cells : Cells) :
    (cells.equationTokens d start).flatMap held = d.numbered start cells.length := by
  have each : (cells.equationTokens d start).map held =
      (d.numbered start cells.length).map fun name => [name] := by
    refine List.ext_getElem (by simp [equationTokens, Dialect.numbered]) fun i h h' => ?_
    simp only [equationTokens, Dialect.numbered, List.getElem_map, List.getElem_zipIdx,
      List.getElem_range]
    rw [Nat.zero_add]
    rfl
  rw [List.flatMap_def, each, ← List.flatMap_def, List.flatMap_singleton']

end Cells

section Changes

variable {d : Dialect} (dialect : d = .standard ∨ d = .sqlite)
include dialect

theorem Cells.lexes_equations (start : Nat) (cells : Cells) :
    List.Forall₂ Lexes (cells.equations d start) (cells.equationTokens d start) := by
  rw [equations, equationTokens, List.forall₂_map_left_iff, List.forall₂_map_right_iff,
    List.forall₂_same]
  exact fun x _ => (Dialect.lexes_quote dialect x.1.1).joined infix_equals
    (Dialect.lexes_parameter dialect _)

namespace Statement

theorem lexes_insertion (table : String) (cells : Cells) :
    Lexes (insertText d table cells) (insertionTokens d table cells) := by
  have into : Spells "INSERT INTO " [.name "INSERT", .name "INTO"] := fun _ => rfl
  have columns : Infix " (" [.opening] := ⟨fun _ => rfl, ' ', rfl, by decide⟩
  have values : Infix ") VALUES (" [.closing, .name "VALUES", .opening] :=
    ⟨fun _ => rfl, ')', rfl, by decide⟩
  have listed : List.Forall₂ Lexes (cells.map fun c => d.quote c.1)
      (cells.map fun cell => [.identifier cell.1]) := by
    rw [List.forall₂_map_left_iff, List.forall₂_map_right_iff, List.forall₂_same]
    exact fun cell _ => Dialect.lexes_quote dialect cell.1
  have bound : List.Forall₂ Lexes ((cells.bound d 0).map Prod.fst)
      ((d.numbered 0 cells.length).map fun name => [.placeholder name]) := by
    rw [cells.names_bound, List.forall₂_map_right_iff, List.forall₂_same]
    refine fun name mem => ?_
    obtain ⟨i, _, rfl⟩ := List.mem_map.1 mem
    exact Dialect.lexes_parameter dialect _
  have whole :=
    (((into.append (Dialect.lexes_quote dialect table)).joined columns
      (lexes_separated infix_comma listed)).joined values
    (lexes_separated infix_comma bound)).close
  unfold insertText insertionTokens
  simp only [List.append_assoc, List.cons_append, List.nil_append] at whole ⊢
  exact whole

omit dialect in
theorem held_insertionTokens (table : String) (cells : Cells) :
    held (insertionTokens d table cells) = d.numbered 0 cells.length := by
  have columns : (cells.map fun cell => [Token.identifier cell.1]).flatMap held = [] := by
    rw [List.flatMap_map]
    exact List.flatMap_eq_nil_iff.2 fun _ _ => rfl
  have names : ((d.numbered 0 cells.length).map fun name => [Token.placeholder name]).flatMap held =
      d.numbered 0 cells.length := by
    simp [List.flatMap_map]
  rw [insertionTokens, held_append, held_append, held_append, held_append, held_separated rfl,
    held_separated rfl, columns, names]
  exact List.append_nil _

theorem lexes_change {s : Statement} {table : String} (change : s.table? = some table) :
    Lexes (s.text d) (s.changeTokens d) := by
  have quoted := Dialect.lexes_quote dialect
  cases s with
  | insert table cells => exact lexes_insertion dialect table cells
  | insertReturning table cells =>
    have returning : Infix " RETURNING " [.name "RETURNING"] := ⟨fun _ => rfl, ' ', rfl, by decide⟩
    have whole := (lexes_insertion dialect table cells).joined returning (quoted Column.idName)
    rcases dialect with rfl | rfl <;> exact whole
  | update table cells keys =>
    have update : Spells "UPDATE " [.name "UPDATE"] := fun _ => rfl
    have set : Infix " SET " [.name "SET"] := ⟨fun _ => rfl, ' ', rfl, by decide⟩
    have assigned := lexes_separated infix_comma (Cells.lexes_equations dialect 0 cells)
    have found := lexes_separated infix_and (Cells.lexes_equations dialect cells.length keys)
    have whole := ((update.append (quoted table)).joined set assigned).joined infix_where found
    simpa only [text, changeTokens, List.append_assoc, List.cons_append,
      List.nil_append] using whole
  | delete table keys =>
    have delete : Spells "DELETE FROM " [.name "DELETE", .word .FROM] := fun _ => rfl
    have found := lexes_separated infix_and (Cells.lexes_equations dialect 0 keys)
    have whole := (delete.append (quoted table)).joined infix_where found
    simpa only [text, changeTokens, List.append_assoc, List.cons_append,
      List.nil_append] using whole
  | query | schema => cases change

omit dialect in
theorem held_changeTokens (s : Statement) :
    held (s.changeTokens d) = d.numbered 0 s.cells.length := by
  cases s with
  | insert table cells => exact held_insertionTokens table cells
  | insertReturning table cells =>
    rw [changeTokens, held_append, held_insertionTokens]
    exact List.append_nil _
  | update table cells keys =>
    rw [changeTokens, held_append, held_append, held_append, held_separated rfl, held_separated rfl,
      Cells.flatMap_held_equationTokens, Cells.flatMap_held_equationTokens, Statement.cells,
      List.length_append, ← d.numbered_append, Nat.zero_add]
    exact congrArg (· ++ _) (List.append_nil _)
  | delete table keys =>
    rw [changeTokens, held_append, held_separated rfl, Cells.flatMap_held_equationTokens]
    rfl
  | query | schema => rfl

theorem aligned_of_change {s : Statement} {table : String} (change : s.table? = some table) :
    s.AlignedChange d := by
  have tokens := tokens_eq (lexes_change dialect change)
  have numbered : Lexer.placeholders (s.text d) = d.numbered 0 s.cells.length := by
    rw [Lexer.placeholders, tokens, held_changeTokens]
  refine ⟨tokens, numbered, numbered ▸ Dialect.nodup_numbered dialect _ _, ?_⟩
  rw [numbered]
  cases s with
  | insert _ cells | insertReturning _ cells | delete _ cells => exact cells.bound_eq d 0
  | update table cells keys =>
    rw [parameters, Statement.cells, List.length_append, ← d.numbered_append, List.map_append,
      List.zip_append, Nat.zero_add, Cells.bound_eq, Cells.bound_eq]
    simp [Dialect.numbered]
  | query | schema => cases change

end Statement

end Changes

/-! ## Expressions and queries -/

namespace SqlTree

variable {α : Type}

theorem namedAll_append (name : Nat → String) (n : Nat) (es es' : List (SqlTree α)) :
    namedAll name n (es ++ es') = namedAll name n es ++
    namedAll name (n + (slotsAll es).length) es' := by
  induction es generalizing n with
  | nil => rfl
  | cons e es ih => simp [namedAll, slotsAll, ih, Nat.add_assoc]

end SqlTree

/-- A text that was written out of pieces while parameters were bound after others: each piece
reads as its image, with its placeholders numbered on. The placeholders of the text, from left
to right, are the names of the parameters gained, each once, and the values are those of what
stands in their places. -/
structure Aligned (t : Target) (before after : Parameters) (text : String) (pieces : List Sql)
    (images : List (SqlTree Slot)) : Prop where
  reads : pieces.map (fun sql => SqlReader.read (sql.text t.dialect)) =
    (SqlTree.namedAll t.dialect.parameter before.size images).map some
  placeholders : Lexer.placeholders text = t.dialect.numbered before.size
    (SqlTree.slotsAll images).length
  once : (Lexer.placeholders text).Nodup
  gained : after.entries = before.entries ++
    (Lexer.placeholders text).zip ((SqlTree.slotsAll images).map (Slot.value t.arguments))

/-- Both dialects number parameters alike. -/
theorem Dialect.parameter_eq {d : Dialect} (dialect : d = .standard ∨ d = .sqlite) :
    d.parameter = Dialect.standard.parameter := by
  rcases dialect with rfl | rfl <;> rfl

theorem Sql.reads_of_phrases {d : Dialect} (dialect : d = .standard ∨ d = .sqlite) {sqls : List Sql}
    {es : List (SqlTree String)} (h : List.Forall₂ IsPhrase sqls es) :
    sqls.map (fun sql => SqlReader.read (sql.text d)) = es.map some := by
  induction h with
  | nil => rfl
  | @cons sql e _ _ phrase _ ih =>
    have same : sql.text d = sql.text .standard := by
      rcases dialect with rfl | rfl
      · rfl
      · exact sql.text_sqlite
    rw [List.map_cons, List.map_cons, ih, same, phrase.read]

theorem Compilation.Binds.aligned {t : Target}
    (dialect : t.dialect = .standard ∨ t.dialect = .sqlite) {c d : Compilation}
    {images : List (SqlTree Slot)} (binds : c.Binds t (SqlTree.slotsAll images) d)
    {pieces : List Sql}
    (phrases : List.Forall₂ Sql.IsPhrase pieces
      (SqlTree.namedAll Dialect.standard.parameter c.parameters.size images)) {text : String}
    (holds : Holds text
      (SqlTree.slotsAll (SqlTree.namedAll Dialect.standard.parameter c.parameters.size images))) :
    Aligned t c.parameters d.parameters text pieces images := by
  rw [← Dialect.parameter_eq dialect] at phrases holds
  have placeholders := holds.placeholders_eq
  rw [SqlTree.slots_namedAll] at placeholders
  refine ⟨Sql.reads_of_phrases dialect phrases, placeholders,
    placeholders ▸ Dialect.nodup_numbered dialect _ _, ?_⟩
  rw [binds.parameters, Parameters.entries_pushAll, placeholders, List.length_map]

theorem Query.aligned {t : Target} (dialect : t.dialect = .standard ∨ t.dialect = .sqlite)
    {c d : Compilation} (q : Query) (images : List (SqlTree Slot))
    (binds : c.Binds t (SqlTree.slotsAll images) d)
    (phrases : List.Forall₂ Sql.IsPhrase q.pieces
      (SqlTree.namedAll Dialect.standard.parameter c.parameters.size images)) :
    Aligned t c.parameters d.parameters (q.text t.dialect) q.pieces images :=
  binds.aligned dialect phrases (q.holds_text dialect phrases)

/-- The images of order terms. -/
def OrderTerm.images (t : Target) (terms : List OrderTerm) (bs : List Binding) :
    List (SqlTree Slot) :=
  terms.map fun term => term.expr.image t bs .value

theorem Compile.renders_order {t : Target} (terms : List OrderTerm) :
    Renders t (fun bs => SqlTree.slotsAll (OrderTerm.images t terms bs))
      (fun bs n order => List.Forall₂ Sql.IsPhrase
      (order.map SqlOrder.term) (SqlTree.namedAll Dialect.standard.parameter n
        (OrderTerm.images t terms bs))) (order t terms) := by
  induction terms with
  | nil => exact Renders.pure fun _ _ => .nil
  | cons term terms ih =>
    exact Renders.map₂ (renders_value term.expr) ih fun _ _ _ _ operand rest =>
      .cons operand.phrase rest

/-- The image of the filter of a query over one index. -/
def IndexQuery.conditionImage (q : IndexQuery) (t : Target) (bs : List Binding) : SqlTree Slot :=
  q.filter.elim (.truth true) fun e => e.image t bs .condition

/-- The binding of the index of a query. -/
def IndexQuery.binding (q : IndexQuery) : Binding := ⟨q.index.name, q.index.name⟩

/-- Once its index is bound, the filter renders as its image. -/
theorem IndexQuery.binds_of_condition {q : IndexQuery} {t : Target} {c d : Compilation} {sql : Sql}
    (h : Compile.Gives (q.condition t) c sql d) :
    Compilation.Binds t { c with bindings := q.binding :: c.bindings }
        (q.conditionImage t (q.binding :: c.bindings)).slots d ∧
      sql.IsPhrase ((q.conditionImage t (q.binding :: c.bindings)).named Dialect.standard.parameter
        c.parameters.size) := by
  obtain ⟨_, c₁, bound, h⟩ := Compile.gives_bind_iff.1 h
  obtain rfl := Compile.gives_bindIndex_iff.1 bound
  unfold conditionImage
  cases filter : q.filter with
  | none =>
    rw [filter] at h
    obtain ⟨rfl, rfl⟩ := Compile.gives_pure_iff.1 h
    exact ⟨.nothing t _, Sql.isPhrase_truth true⟩
  | some e =>
    rw [filter] at h
    exact Compile.renders_condition e h

/-- A query that starts with no parameters and is aligned with the images of its pieces. -/
def Statement.AlignedQuery (s : Statement) (t : Target) (images : List (SqlTree Slot)) : Prop :=
  ∃ query ps, s = .query query ps ∧ Aligned t ∅ ps (s.text t.dialect) query.pieces images

section Queries

variable {settings : Settings} (dialect : settings.dialect = .standard ∨ settings.dialect = .sqlite)
  {s : Statement}
include dialect

theorem IndexQuery.aligned_statement {q : IndexQuery} (h : q.statement settings = .ok s) :
    s.AlignedQuery (q.target settings)
    (q.conditionImage (q.target settings) [q.binding] ::
      OrderTerm.images (q.target settings) q.order [q.binding]) := by
  obtain ⟨query, c, gives, rfl⟩ := Compile.toStatement_eq_ok_iff.1 h
  obtain ⟨filter, c₁, filtered, gives⟩ := Compile.gives_bind_iff.1 gives
  obtain ⟨order, c₂, ordered, gives⟩ := Compile.gives_bind_iff.1 gives
  obtain ⟨rfl, rfl⟩ := Compile.gives_pure_iff.1 gives
  obtain ⟨binds, phrase⟩ := q.binds_of_condition filtered
  obtain ⟨later, phrases⟩ := Compile.renders_order _ ordered
  rw [binds.bindings] at later phrases
  rw [binds.size_eq] at phrases
  exact ⟨_, _, rfl, Query.aligned dialect (.indexRows _ _ filter order _) (_ :: _)
    (binds.trans later) (.cons phrase phrases)⟩

theorem IndexQuery.aligned_countStatement {q : IndexQuery} (h : q.countStatement settings = .ok s) :
    s.AlignedQuery (q.target settings)
    [q.conditionImage (q.target settings) [q.binding]] := by
  obtain ⟨query, c, gives, rfl⟩ := Compile.toStatement_eq_ok_iff.1 h
  obtain ⟨filter, c₁, filtered, gives⟩ := Compile.gives_bind_iff.1 gives
  obtain ⟨rfl, rfl⟩ := Compile.gives_pure_iff.1 gives
  obtain ⟨binds, phrase⟩ := q.binds_of_condition filtered
  rw [← List.append_nil (SqlTree.slots _)] at binds
  exact ⟨_, _, rfl, Query.aligned dialect (.indexCount _ _ filter) [_] binds (.cons phrase .nil)⟩

namespace DocumentQuery

variable {q : DocumentQuery} {joins : List Join}

theorem aligned_compile (h : q.compile settings joins = .ok s) : s.AlignedQuery (q.target settings)
    (conditionImages (q.target settings) q joins ++
      OrderTerm.images (q.target settings) q.order (bindingsOf joins)) := by
  obtain ⟨query, c, gives, rfl⟩ := Compile.toStatement_eq_ok_iff.1 h
  obtain ⟨source, c₁, made, gives⟩ := Compile.gives_bind_iff.1 gives
  obtain ⟨order, c₂, ordered, gives⟩ := Compile.gives_bind_iff.1 gives
  obtain ⟨rfl, rfl⟩ := Compile.gives_pure_iff.1 gives
  obtain ⟨_, _, phrase, binds, _⟩ := describes_of_gives made
  obtain ⟨later, phrases⟩ := Compile.renders_order _ ordered
  rw [binds.bindings] at later phrases
  rw [binds.size_eq] at phrases
  have both := binds.trans later
  rw [← SqlTree.slotsAll_append] at both
  have all : List.Forall₂ Sql.IsPhrase (source.conditions ++ order.map SqlOrder.term)
      (SqlTree.namedAll Dialect.standard.parameter 0 (conditionImages (q.target settings) q joins ++
        OrderTerm.images (q.target settings) q.order (bindingsOf joins))) := by
    rw [SqlTree.namedAll_append]
    exact List.rel_append phrase phrases
  exact ⟨_, _, rfl, Query.aligned dialect (.documents source order _) (_ ++ _) both all⟩

theorem aligned_compileCount (h : q.compileCount settings joins = .ok s) :
    s.AlignedQuery (q.target settings)
    (conditionImages (q.target settings) q joins) := by
  obtain ⟨query, c, gives, rfl⟩ := Compile.toStatement_eq_ok_iff.1 h
  obtain ⟨source, c₁, made, gives⟩ := Compile.gives_bind_iff.1 gives
  obtain ⟨rfl, rfl⟩ := Compile.gives_pure_iff.1 gives
  obtain ⟨_, _, phrases, binds, _⟩ := describes_of_gives made
  exact ⟨_, _, rfl, Query.aligned dialect (.documentCount source) _ binds phrases⟩

end DocumentQuery

end Queries

section Pieces

variable {t : Target} (dialect : t.dialect = .standard ∨ t.dialect = .sqlite) {c c' : Compilation}
include dialect

theorem Compile.aligned_rendering {place : Place} {e : Expr} {sql : Sql}
    (h : Compile.Gives (Compile.rendering t place e) c sql c') :
    Aligned t c.parameters c'.parameters (sql.text t.dialect) [sql]
      [e.image t c.bindings place] := by
  obtain ⟨binds, phrase⟩ : c.Binds t (e.image t c.bindings place).slots c' ∧
      sql.IsPhrase ((e.image t c.bindings place).named Dialect.standard.parameter
        c.parameters.size) := by
    cases place with
    | condition => exact Compile.renders_condition e h
    | value => exact (Compile.renders_value e).phrase h
  have holds := phrase.holds_text dialect
  rw [← List.append_nil (SqlTree.slots _)] at binds holds
  exact binds.aligned dialect (.cons phrase .nil) holds

theorem Compile.aligned_order {terms : List OrderTerm} (grouped : Bool) {order : List SqlOrder}
    (h : Compile.Gives (Compile.order t terms) c order c') : Aligned t c.parameters c'.parameters
      (SqlOrder.clause t.dialect grouped order) (order.map SqlOrder.term)
      (OrderTerm.images t terms c.bindings) := by
  obtain ⟨binds, phrases⟩ := Compile.renders_order terms h
  exact binds.aligned dialect phrases (SqlOrder.trails_clause dialect grouped phrases).holds

end Pieces

theorem Command.aligned_of_emits {d : Dialect} (dialect : d = .standard ∨ d = .sqlite)
    {conn : Connection} {command : Command} {events : List Event} {result : Except Error Unit}
    (h : (command.run conn).run.Emits events result) :
    ∀ e ∈ events, ∃ s, (e.request = .execute conn s ∨ e.request = .scalar conn s) ∧
      s.AlignedChange d := by
  intro e member
  have sends := ((command.asks_sends conn).ensures.of_emits h).1 e member
  obtain ⟨s, asked, _, _, change⟩ := sends.1
  exact ⟨s, asked, Statement.aligned_of_change dialect change⟩

/-- Placeholders and parameters line up in expressions and orders, wherever they are rendered, in
all that commands send, and in the queries over an index and over documents. -/
theorem placeholders_line_up {d : Dialect} (dialect : d = .standard ∨ d = .sqlite) :
    (∀ {t place e c c' sql}, t.dialect = d → Compile.Gives (Compile.rendering t place e) c sql c' →
      Aligned t c.parameters c'.parameters (sql.text d) [sql] [e.image t c.bindings place]) ∧
    (∀ {t terms c c' order}, t.dialect = d →
      Compile.Gives (Compile.order t terms) c order c' → ∀ grouped,
      Aligned t c.parameters c'.parameters (SqlOrder.clause d grouped order)
        (order.map SqlOrder.term) (OrderTerm.images t terms c.bindings)) ∧
    (∀ {conn events result} {command : Command}, (command.run conn).run.Emits events result →
      ∀ e ∈ events, ∃ s, (e.request = .execute conn s ∨ e.request = .scalar conn s) ∧
        s.AlignedChange d) ∧
    (∀ {settings : Settings} {q : IndexQuery}, settings.dialect = d →
      (∀ s, q.statement settings = .ok s → s.AlignedQuery (q.target settings)
        (q.conditionImage (q.target settings) [q.binding] ::
          OrderTerm.images (q.target settings) q.order [q.binding])) ∧
      (∀ s, q.countStatement settings = .ok s → s.AlignedQuery (q.target settings)
        [q.conditionImage (q.target settings) [q.binding]])) ∧
    (∀ {settings : Settings} {q : DocumentQuery} {joins}, settings.dialect = d →
      (∀ s, q.compile settings joins = .ok s → s.AlignedQuery (q.target settings)
        (DocumentQuery.conditionImages (q.target settings) q joins ++
          OrderTerm.images (q.target settings) q.order (DocumentQuery.bindingsOf joins))) ∧
      (∀ s, q.compileCount settings joins = .ok s → s.AlignedQuery (q.target settings)
        (DocumentQuery.conditionImages (q.target settings) q joins))) := by
  refine ⟨?_, ?_, Command.aligned_of_emits dialect, ?_, ?_⟩
  · rintro t place e c c' sql rfl h
    exact Compile.aligned_rendering dialect h
  · rintro t terms c c' order rfl h grouped
    exact Compile.aligned_order dialect grouped h
  · rintro settings q rfl
    exact ⟨fun _ h => IndexQuery.aligned_statement dialect h,
      fun _ h => IndexQuery.aligned_countStatement dialect h⟩
  · rintro settings q joins rfl
    exact ⟨fun _ h => DocumentQuery.aligned_compile dialect h,
      fun _ h => DocumentQuery.aligned_compileCount dialect h⟩

/-- Drafts by their labels, in a column that looks like a placeholder. -/
def draftsByLabel : IndexQuery :=
  let index : IndexType := ⟨"Drafts", [⟨"@p7", .text, true⟩, ⟨"n", .integer, false⟩], some⟩
  { IndexQuery.ofIndex index "" with
    filter := some (.and (.call .startsWith [index.field "@p7", .const (.text "@p9")])
      (.binary .or (.call .isNotIn [index.field "n", .const (.int 1), .const (.int 2)])
        (.eq (index.field "@p7") (.const .null))))
    order := [⟨.concat (index.field "@p7") (.const (.text "x")), true⟩, ⟨index.field "n", false⟩]
    paging := ⟨some 3, some 5⟩ }

/-- Gives an aggregate row its new cells and unlinks a document. -/
def relabel : Command := .updateReduceRow ⟨"", ""⟩ "Drafts" 4
  [("@p7", .text "b"), ("n", .int 2)] [] [9]

theorem placeholders_line_up_drafts :
    (∃ s, draftsByLabel.statement ⟨.default, .sqlite, .json⟩ = .ok s ∧
      Lexer.placeholders (s.text .sqlite) = ["@p0", "@p1", "@p2", "@p3"] ∧
      (s.parameters .sqlite).entries = [("@p0", .text "@p9%"), ("@p1", .int 1), ("@p2", .int 2),
        ("@p3", .text "x")]) ∧
    ∀ conn, ∃ s events, (relabel.run conn).run.Emits (⟨.execute conn s, .ok 1⟩ :: events) (.ok ()) ∧
      Lexer.placeholders (s.text .sqlite) = ["@p0", "@p1", "@p2"] := by
  have lines := placeholders_line_up (.inr rfl)
  constructor
  · obtain ⟨s, selected⟩ : ∃ s, draftsByLabel.statement ⟨.default, .sqlite, .json⟩ = .ok s :=
      ⟨_, rfl⟩
    obtain ⟨query, ps, rfl, aligned⟩ := (lines.2.2.2.1 rfl).1 s selected
    have entries := aligned.gained
    rw [aligned.placeholders] at entries
    exact ⟨_, selected, aligned.placeholders, entries⟩
  · intro conn
    have sent : (relabel.run conn).run.Emits [⟨.execute conn relabel.statement, .ok 1⟩,
        ⟨.execute conn (Command.unlinkStatement ⟨"", ""⟩ "Drafts" 4 9), .ok 1⟩] (.ok ()) :=
      .ask (.ask (.done _))
    obtain ⟨s, asked, aligned⟩ := lines.2.2.1 sent _ List.mem_cons_self
    rcases asked with same | same <;> cases same
    exact ⟨_, _, sent, aligned.placeholders⟩

end DocStore

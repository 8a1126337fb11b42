import DocStore.Proofs.SqlTrees

/-!
# What SQL text means

`Sql.IsOperand` and `Sql.IsPhrase` are SQL whose text reads as a tree: an operand
wherever it stands, a phrase only where no operator takes a part of it. There is
one lemma for each way of building SQL, for the texts that the standard dialect
writes; SQLite writes conditions and values in the same way.
-/

set_option autoImplicit false

namespace DocStore

namespace Sql

open Lexer SqlReader

mutual

theorem text_sqlite : (e : Sql) → e.text .sqlite = e.text .standard
  | .param _ | .column _ _ | .boolean _ | .string _ | .truth _ => by simp only [text]; rfl
  | .binary _ l r => by simp only [text, text_sqlite l, text_sqlite r]
  | .not e | .negate e | .isNull e _ | .paren e => by simp only [text, text_sqlite e]
  | .like e pattern => by simp only [text, text_sqlite e, text_sqlite pattern]; rfl
  | .upper e | .lower e => by simp only [text, text_sqlite e]; rfl
  | .concat parts => by simp only [text, texts_sqlite parts]; rfl
  | .inList e items _ => by simp only [text, text_sqlite e, texts_sqlite items]; rfl
  | .select selector _ _ condition => by
    simp only [text, text_sqlite selector, text_sqlite condition]; rfl

theorem texts_sqlite : (es : List Sql) → texts .sqlite es = texts .standard es
  | [] => by simp only [texts]
  | e :: es => by simp only [texts, text_sqlite e, texts_sqlite es]

end

/-- SQL whose text reads as an operand. It does not begin with a minus, which
after another one would begin a comment. -/
def IsOperand (sql : Sql) (e : SqlTree String) : Prop :=
  ∃ ts, Lexes (sql.text .standard) ts ∧ ReadsOperand ts e ∧
    ∃ c, (sql.text .standard).toList.head? = some c ∧ c ≠ '-'

/-- SQL whose text reads as a tree where nothing around it binds tighter than `NOT`. -/
def IsPhrase (sql : Sql) (e : SqlTree String) : Prop :=
  ∃ ts, Lexes (sql.text .standard) ts ∧ ReadsPhrase ts e

variable {x y : Sql} {e l r : SqlTree String}

theorem IsOperand.phrase (h : x.IsOperand e) : x.IsPhrase e := by
  obtain ⟨ts, lexes, reads, _⟩ := h
  exact ⟨ts, lexes, reads.phrase⟩

theorem IsPhrase.read (h : x.IsPhrase e) : read (x.text .standard) = some e := by
  obtain ⟨ts, lexes, reads⟩ := h
  exact reads.read lexes

/-! ## Operands -/

theorem isOperand_param (n : Nat) :
    (param n).IsOperand (.placeholder (Dialect.standard.parameter n)) := by
  unfold IsOperand
  simp only [text]
  exact ⟨_, lexes_parameter n, readsOperand_placeholder _, '@',
    String.toList_append (s := "@p") ▸ rfl, by decide⟩

theorem isOperand_column (table name : String) :
    (column table name).IsOperand (.column table name) := by
  unfold IsOperand
  simp only [text]
  refine ⟨_, (lexes_identifier table).joined infix_dot (lexes_identifier name),
    readsOperand_column table name, '"', ?_, by decide⟩
  simp [Dialect.standard]

theorem isOperand_boolean (b : Bool) :
    (boolean b).IsOperand (.number (if b then "1" else "0")) := by
  unfold IsOperand
  simp only [text]
  cases b with
  | true =>
    exact ⟨[.number "1"], fun rest ends => lex_word_ends ['1'] ends, readsOperand_number "1", '1',
      rfl, by decide⟩
  | false =>
    exact ⟨[.number "0"], fun rest ends => lex_word_ends ['0'] ends, readsOperand_number "0", '0',
      rfl, by decide⟩

theorem isOperand_string (s : String) : (string s).IsOperand (.text s) := by
  unfold IsOperand
  simp only [text]
  refine ⟨_, lexes_text s, readsOperand_text s, '\'', ?_, by decide⟩
  simp [Dialect.standard]

/-- Text that begins with a parenthesis, or another piece, does not begin with a minus. -/
theorem head_of_append {m s : String} {c : Char} (head : m.toList.head? = some c) :
    (m ++ s).toList.head? = some c := by
  rw [String.toList_append, List.head?_append, head]
  rfl

theorem spells_opening : Spells "(" [.opening] := fun _ => rfl

theorem isOperand_paren (h : x.IsPhrase e) : (paren x).IsOperand e := by
  obtain ⟨ts, lexes, reads⟩ := h
  unfold IsOperand
  simp only [text]
  exact ⟨_, (spells_opening.append lexes).close, reads.enclosed, '(',
    head_of_append (head_of_append rfl), by decide⟩

theorem isOperand_logical {op : BinaryOp} (logical : op.isLogical = true) (hx : x.IsPhrase l)
    (hy : y.IsPhrase r) : (Sql.paren (.binary op x y)).IsOperand (.binary op l r) := by
  obtain ⟨ls, hls, hl⟩ := hx
  obtain ⟨rs, hrs, hr⟩ := hy
  unfold IsOperand
  simp only [text]
  have inside : Lexes (x.text .standard ++ " " ++ op.sql ++ " " ++ y.text .standard)
      (ls ++ .op op :: rs) := by
    simpa [String.append_assoc] using hls.joined (infix_op op) hrs
  refine ⟨_, (spells_opening.append inside).close, ?_, '(',
    head_of_append (head_of_append rfl), by decide⟩
  simpa using readsOperand_logical logical hl hr

/-- A function applied to an operand. -/
theorem isOperand_apply {f : String} {z : Sql} (spelled : Spells (f ++ "(") [.name f, .opening])
    (text_eq : z.text .standard = f ++ "(" ++ x.text .standard ++ ")")
    (head : ∃ c, f.toList.head? = some c ∧ c ≠ '-') (h : x.IsOperand e) :
    z.IsOperand (.apply f [e]) := by
  obtain ⟨ts, lexes, reads, _⟩ := h
  obtain ⟨c, hc, other⟩ := head
  unfold IsOperand
  rw [text_eq]
  exact ⟨_, (spelled.append lexes).close, readsOperand_apply f reads.phrase, c,
    head_of_append (head_of_append (head_of_append hc)), other⟩

theorem isOperand_upper (h : x.IsOperand e) : (upper x).IsOperand (.apply "UPPER" [e]) :=
  isOperand_apply (fun _ => rfl) (by simp only [text]; rfl) ⟨'U', rfl, by decide⟩ h

theorem isOperand_lower (h : x.IsOperand e) : (lower x).IsOperand (.apply "LOWER" [e]) :=
  isOperand_apply (fun _ => rfl) (by simp only [text]; rfl) ⟨'L', rfl, by decide⟩ h

/-- Parts that each read as an operand, and their tokens. -/
theorem tokens_of_operands {xs : List Sql} {es : List (SqlTree String)}
    (h : List.Forall₂ IsOperand xs es) :
    ∃ tss, List.Forall₂ Lexes (texts .standard xs) tss ∧ List.Forall₂ ReadsOperand tss es := by
  induction h with
  | nil => exact ⟨[], .nil, .nil⟩
  | cons here _ ih =>
    obtain ⟨ts, lexes, reads, _⟩ := here
    obtain ⟨tss, lexess, readss⟩ := ih
    exact ⟨ts :: tss, by simpa only [texts] using .cons lexes lexess, .cons reads readss⟩

theorem isOperand_concat {xs : List Sql} {es : List (SqlTree String)}
    (h : List.Forall₂ IsOperand (x :: xs) (e :: es)) :
    (concat (x :: xs)).IsOperand (es.foldl .concat e) := by
  obtain ⟨tss, lexess, readss⟩ := tokens_of_operands h
  cases readss with
  | @cons ts _ tss _ reads readss =>
    have joined := lexes_intercalate infix_concat lexess (by simp [texts])
    unfold IsOperand
    simp only [text]
    exact ⟨_, (spells_opening.append joined).close, readsOperand_concat reads readss, '(',
      head_of_append (head_of_append rfl), by decide⟩

/-! ## Conditions, and values that need parentheses -/

/-- A comparison, or arithmetic. -/
theorem isPhrase_binary {op : BinaryOp} (tight : op.isLogical = false) (hx : x.IsOperand l)
    (hy : y.IsOperand r) : (Sql.binary op x y).IsPhrase (.binary op l r) := by
  obtain ⟨ls, hls, hl, _⟩ := hx
  obtain ⟨rs, hrs, hr, _⟩ := hy
  have level : notLevel ≤ op.level := by
    cases op with
    | and | or => cases tight
    | _ => decide
  unfold IsPhrase
  simp only [text]
  refine ⟨_, ?_, readsPhrase_binary level hl hr⟩
  simpa [String.append_assoc] using hls.joined (infix_op op) hrs

theorem isPhrase_isTrue (h : x.IsOperand e) : x.isTrue.IsPhrase (.binary .eq e (.number "1")) :=
  isPhrase_binary rfl h (isOperand_boolean true)

theorem isPhrase_truth (holds : Bool) :
    (truth holds).IsPhrase (.binary .eq (.number "1") (.number (if holds then "1" else "0"))) := by
  have same : (truth holds).text .standard =
      (Sql.binary .eq (.boolean true) (.boolean holds)).text .standard := by
    cases holds <;> simp only [text] <;> rfl
  unfold IsPhrase
  rw [same]
  exact isPhrase_binary rfl (isOperand_boolean true) (isOperand_boolean holds)

theorem isPhrase_not (h : x.IsOperand e) : (not x).IsPhrase (.not e) := by
  obtain ⟨ts, lexes, reads, _⟩ := h
  have spelled : Spells "NOT " [.word .NOT] := fun _ => rfl
  unfold IsPhrase
  simp only [text]
  exact ⟨_, spelled.append lexes, readsPhrase_not reads⟩

theorem isPhrase_negate (h : x.IsOperand e) : (negate x).IsPhrase (.negate e) := by
  obtain ⟨ts, lexes, reads, c, head, other⟩ := h
  unfold IsPhrase
  simp only [text]
  exact ⟨_, lexes_negated lexes head other, readsPhrase_negate reads⟩

theorem isPhrase_isNull (h : x.IsOperand e) (negated : Bool) :
    (isNull x negated).IsPhrase (.isNull e negated) := by
  obtain ⟨ts, lexes, reads, _⟩ := h
  unfold IsPhrase
  simp only [text]
  refine ⟨_, ?_, readsPhrase_isNull reads negated⟩
  cases negated with
  | true =>
    have spelled : Lexes " IS NOT NULL" [.word .IS, .word .NOT, .word .NULL] := fun rest ends =>
      congrArg ([Token.word .IS, Token.word .NOT] ++ ·) (lex_word_ends ['N', 'U', 'L', 'L'] ends)
    exact lexes.append spelled (by simp [Ends, isWordChar])
  | false =>
    have spelled : Lexes " IS NULL" [.word .IS, .word .NULL] := fun rest ends =>
      congrArg ([Token.word .IS] ++ ·) (lex_word_ends ['N', 'U', 'L', 'L'] ends)
    exact lexes.append spelled (by simp [Ends, isWordChar])

theorem isPhrase_like (hx : x.IsOperand l) (hy : y.IsOperand r) :
    (like x y).IsPhrase (.like l r) := by
  obtain ⟨ls, hls, hl, _⟩ := hx
  obtain ⟨rs, hrs, hr, _⟩ := hy
  unfold IsPhrase
  simp only [text]
  exact ⟨_, hls.joined infix_like hrs, readsPhrase_like hl hr⟩

theorem infix_membership (negated : Bool) :
    Infix (if negated then " NOT IN (" else " IN (") (membershipTokens negated) := by
  cases negated <;> exact ⟨fun _ => rfl, ' ', rfl, by decide⟩

theorem isPhrase_inList {xs : List Sql} {es : List (SqlTree String)} (h : x.IsOperand e)
    (hs : List.Forall₂ IsOperand xs es) (nonempty : xs ≠ []) (negated : Bool) :
    (inList x xs negated).IsPhrase (.inList e es negated) := by
  obtain ⟨ts, lexes, reads, _⟩ := h
  obtain ⟨tss, lexess, readss⟩ := tokens_of_operands hs
  have written : texts .standard xs ≠ [] := by
    cases xs with
    | nil => exact absurd rfl nonempty
    | cons _ _ => simp [texts]
  unfold IsPhrase
  simp only [text]
  refine ⟨_, ?_, readsPhrase_inList reads readss (fun none => ?_) negated⟩
  · have listed :=
      (lexes.joined (infix_membership negated) (lexes_intercalate infix_comma lexess written)).close
    simpa [Dialect.standard] using listed
  · rw [none] at lexess
    exact written (List.forall₂_nil_right_iff.1 lexess)

theorem isPhrase_inSelect {selector : Sql} {s : SqlTree String} (h : x.IsOperand e)
    (hs : selector.IsOperand s) (table tableAlias : String) {condition : Sql} {c : SqlTree String}
    (hc : condition.IsPhrase c) (negated : Bool) :
    (Sql.inList x [.select selector table tableAlias condition] negated).IsPhrase
      (.inSelect e s table tableAlias c negated) := by
  obtain ⟨ts, lexes, reads, _⟩ := h
  obtain ⟨ss, hss, hs, _⟩ := hs
  obtain ⟨cs, hcs, hc⟩ := hc
  have spelled : Spells "SELECT " [.word .SELECT] := fun _ => rfl
  have named := (spelled.append hss).joined infix_from (lexes_identifier table)
  have rows := ((named.joined infix_as (lexes_identifier tableAlias)).joined infix_where hcs).close
  unfold IsPhrase
  simp only [text, texts]
  refine ⟨_, ?_, readsPhrase_inSelect reads hs table tableAlias hc negated⟩
  simpa [Dialect.standard, String.append_assoc] using lexes.joined (infix_membership negated) rows

end Sql

end DocStore

import DocStore.Proofs.Departures
import Mathlib.Data.List.Forall2

/-!
# SQL text as tokens

A reader of SQL text, written as one pass over its characters: a word ends
where its characters do, a quoted name or text where its quote is not doubled,
and `--` and `/*` begin comments. `Lexes` is a piece of text that reads as its
tokens wherever no letter, digit or quote follows; the pieces that SQL is built
from are put together along it.
-/

set_option autoImplicit false

namespace DocStore

/-- The words of SQL that are not operators of `BinaryOp`. -/
inductive Keyword where
  | NOT
  | IS
  | NULL
  | LIKE
  | IN
  | SELECT
  | FROM
  | AS
  | WHERE
deriving DecidableEq

inductive Token where
  | op (op : BinaryOp)
  | concat
  | word (k : Keyword)
  /-- A word that is no keyword, such as the name of a function. -/
  | name (s : String)
  | number (digits : String)
  | placeholder (name : String)
  | identifier (name : String)
  | text (s : String)
  | opening
  | closing
  | comma
  | dot
  | unknown
deriving DecidableEq

namespace Token

def ofWord (cs : List Char) : Token :=
  match cs with
  | '@' :: _ => .placeholder (String.ofList cs)
  | ['A', 'N', 'D'] => .op .and
  | ['O', 'R'] => .op .or
  | ['N', 'O', 'T'] => .word .NOT
  | ['I', 'S'] => .word .IS
  | ['N', 'U', 'L', 'L'] => .word .NULL
  | ['L', 'I', 'K', 'E'] => .word .LIKE
  | ['I', 'N'] => .word .IN
  | ['S', 'E', 'L', 'E', 'C', 'T'] => .word .SELECT
  | ['F', 'R', 'O', 'M'] => .word .FROM
  | ['A', 'S'] => .word .AS
  | ['W', 'H', 'E', 'R', 'E'] => .word .WHERE
  | cs => if cs.all Char.isDigit then .number (String.ofList cs) else .name (String.ofList cs)

def ofMark : List Char → Token
  | ['='] => .op .eq
  | ['<', '>'] => .op .ne
  | ['<'] => .op .lt
  | ['<', '='] => .op .le
  | ['>'] => .op .gt
  | ['>', '='] => .op .ge
  | ['+'] => .op .add
  | ['-'] => .op .sub
  | ['*'] => .op .mul
  | ['/'] => .op .div
  | ['|', '|'] => .concat
  | ['('] => .opening
  | [')'] => .closing
  | [','] => .comma
  | ['.'] => .dot
  | _ => .unknown

/-- What stands between two quotes: a name between `"`, and a text between `'`. -/
def ofQuoted (quote : Char) (cs : List Char) : Token :=
  if quote = '"' then .identifier (String.ofList cs) else .text (String.ofList cs)

end Token

namespace Lexer

/-- Where a reader stands. -/
inductive Mode where
  | between
  /-- In a word, with its characters so far. -/
  | word (cs : List Char)
  /-- After a mark that the next character may go on. -/
  | mark (c : Char)
  /-- Between quotes. -/
  | quoted (quote : Char) (cs : List Char)
  /-- After a quote that closes, unless it is doubled. -/
  | closed (quote : Char) (cs : List Char)
  | lineComment
  /-- In a block comment, after a star or not. -/
  | blockComment (star : Bool)

def isWordChar (c : Char) : Bool := c.isAlphanum || c = '_' || c = '@'

/-- Reads a character that begins something. -/
def start (c : Char) : List Token × Mode :=
  if c.isWhitespace then ([], .between)
  else if isWordChar c then ([], .word [c])
  else if c = '"' ∨ c = '\'' then ([], .quoted c [])
  else if c = '<' ∨ c = '>' ∨ c = '|' ∨ c = '-' ∨ c = '/' then ([], .mark c)
  else ([.ofMark [c]], .between)

/-- Ends a token and reads the character after it. -/
def startAfter (t : Token) (c : Char) : List Token × Mode := (t :: (start c).1, (start c).2)

def step (mode : Mode) (c : Char) : List Token × Mode :=
  match mode with
  | .between => start c
  | .word cs => if isWordChar c then ([], .word (cs ++ [c])) else startAfter (.ofWord cs) c
  | .mark m =>
    if m = '-' ∧ c = '-' then ([], .lineComment)
    else if m = '/' ∧ c = '*' then ([], .blockComment false)
    else if (m, c) ∈ [('<', '>'), ('<', '='), ('>', '='), ('|', '|')] then
      ([.ofMark [m, c]], .between)
    else startAfter (.ofMark [m]) c
  | .quoted quote cs => if c = quote then ([], .closed quote cs)
      else ([], .quoted quote (cs ++ [c]))
  | .closed quote cs =>
    if c = quote then ([], .quoted quote (cs ++ [c])) else startAfter (.ofQuoted quote cs) c
  | .lineComment => ([], if c = '\n' then .between else .lineComment)
  | .blockComment star => ([], if star ∧ c = '/' then .between else .blockComment (c = '*'))

/-- What the end of the text makes of what was being read. -/
def finish : Mode → List Token
  | .between | .lineComment => []
  | .word cs => [.ofWord cs]
  | .mark m => [.ofMark [m]]
  | .closed quote cs => [.ofQuoted quote cs]
  | .quoted _ _ | .blockComment _ => [.unknown]

def lex (mode : Mode) : List Char → List Token
  | [] => finish mode
  | c :: cs => (step mode c).1 ++ lex (step mode c).2 cs

/-- The tokens of a text. -/
def tokens (s : String) : List Token := lex .between s.toList

/-! ## Pieces of text -/

/-- A text that ends the word or the quoted name before it. -/
def Ends (cs : List Char) : Prop := ∀ c ∈ cs.head?, isWordChar c = false ∧ c ≠ '"' ∧ c ≠ '\''

/-- A piece of text that reads as tokens if what follows ends it. -/
def Lexes (s : String) (ts : List Token) : Prop :=
  ∀ rest, Ends rest → lex .between (s.toList ++ rest) = ts ++ lex .between rest

/-- A piece of text that reads as tokens whatever follows. -/
def Spells (s : String) (ts : List Token) : Prop :=
  ∀ rest, lex .between (s.toList ++ rest) = ts ++ lex .between rest

variable {s u : String} {ts us : List Token}

theorem Spells.lexes (h : Spells s ts) : Lexes s ts := fun rest _ => h rest

theorem Spells.append (h : Spells s ts) (hu : Lexes u us) : Lexes (s ++ u) (ts ++ us) := by
  intro rest ends
  rw [String.toList_append, List.append_assoc, h, hu rest ends, List.append_assoc]

theorem Lexes.append (h : Lexes s ts) (hu : Lexes u us) (ends : Ends u.toList) :
    Lexes (s ++ u) (ts ++ us) := by
  intro rest after
  -- An empty second piece leaves what follows it to end the first.
  have between : Ends (u.toList ++ rest) := by
    intro c hc
    cases hs : u.toList with
    | nil =>
      rw [hs] at hc
      exact after c hc
    | cons x cs =>
      rw [hs] at ends hc
      exact ends c hc
  rw [String.toList_append, List.append_assoc, h _ between, hu rest after, List.append_assoc]

theorem tokens_eq (h : Lexes s ts) : tokens s = ts := by
  have all := h [] (by simp [Ends])
  simpa [tokens, lex, finish] using all

example : tokens "\"a\"\"b\".\"c\" <=UPPER(@p0)--'" =
    [.identifier "a\"b", .dot, .identifier "c", .op .le, .name "UPPER", .opening,
      .placeholder "@p0", .closing] := by
  decide +kernel

/-- A blank or a mark before a piece ends what stands before both. -/
theorem ends_append {c : Char} {v : String} (head : u.toList.head? = some c)
    (ends : isWordChar c = false ∧ c ≠ '"' ∧ c ≠ '\'') : Ends (u ++ v).toList := by
  intro x hx
  rw [String.toList_append, List.head?_append, head] at hx
  cases hx
  exact ends

/-! ### Words -/

theorem lex_word {cs : List Char} (h : ∀ c ∈ cs, isWordChar c = true) (before rest : List Char) :
    lex (.word before) (cs ++ rest) = lex (.word (before ++ cs)) rest := by
  induction cs generalizing before with
  | nil => simp
  | cons c cs ih =>
    obtain ⟨hc, hcs⟩ := List.forall_mem_cons.1 h
    simp only [List.cons_append, lex, step, hc, if_true, List.nil_append]
    rw [ih hcs, List.append_assoc, List.singleton_append]

theorem lex_startAfter (t : Token) (c : Char) (rest : List Char) :
    (startAfter t c).1 ++ lex (startAfter t c).2 rest = t :: lex .between (c :: rest) := rfl

theorem lex_word_ends (cs : List Char) {rest : List Char} (ends : Ends rest) :
    lex (.word cs) rest = .ofWord cs :: lex .between rest := by
  cases rest with
  | nil => rfl
  | cons c rest =>
    have stop := (ends c rfl).1
    simp only [lex, step, stop, Bool.false_eq_true, if_false, lex_startAfter]

/-- A placeholder with a decimal number. -/
theorem lexes_parameter (n : Nat) :
    Lexes (Dialect.standard.parameter n) [.placeholder (Dialect.standard.parameter n)] := by
  intro rest ends
  have digits : ∀ c ∈ (toString n).toList, isWordChar c = true := by
    intro c hc
    rw [Nat.toString_eq_repr, Nat.repr_eq_ofList_toDigits, String.toList_ofList] at hc
    have digit := Nat.isDigit_of_mem_toDigits (by decide) (by decide) hc
    simp [isWordChar, Char.isAlphanum, digit]
  have spelled : (Dialect.standard.parameter n).toList = '@' :: 'p' :: (toString n).toList :=
    String.toList_append (s := "@p")
  have begun : ∀ cs, lex .between ('@' :: 'p' :: cs) = lex (.word ['@', 'p']) cs := fun _ => rfl
  rw [spelled, List.cons_append, List.cons_append, begun, lex_word digits, lex_word_ends _ ends]
  change Token.placeholder (String.ofList ('@' :: 'p' :: (toString n).toList)) :: _ = _
  rw [← spelled, String.ofList_toList]
  rfl

/-! ### Quoted names and texts -/

/-- Between quotes every character stands for itself, and a doubled quote for one. -/
theorem lex_quoted (quote : Char) (cs before rest : List Char) :
    lex (.quoted quote before) ((cs.flatMap fun x => if x = quote then [quote, quote] else [x]) ++
        quote :: rest) =
      lex (.closed quote (before ++ cs)) rest := by
  -- Induction on the characters, with those already read in `before`: a quote among them is
  -- closed and opened again by its double.
  induction cs generalizing before with
  | nil => simp [lex, step]
  | cons c cs ih =>
    have go := ih (before ++ [c])
    rw [List.append_assoc, List.singleton_append] at go
    by_cases hc : c = quote
    · subst hc
      simpa [lex, step] using go
    · simpa [lex, step, hc] using go

theorem lex_closed_ends {quote : Char} (cs : List Char) {rest : List Char}
    (ends : ∀ c ∈ rest.head?, c ≠ quote) :
    lex (.closed quote cs) rest = .ofQuoted quote cs :: lex .between rest := by
  cases rest with
  | nil => rfl
  | cons c rest =>
    have other := ends c rfl
    simp only [lex, step, other, if_false, lex_startAfter]

theorem lexes_quoted {quote : Char} (mark : quote = '"' ∨ quote = '\'') (s : String) :
    Lexes (String.singleton quote ++ doubling quote s ++ String.singleton quote)
      [.ofQuoted quote s.toList] := by
  intro rest ends
  have stops : ∀ c ∈ rest.head?, c ≠ quote := by
    intro c hc
    rcases mark with rfl | rfl
    · exact (ends c hc).2.1
    · exact (ends c hc).2.2
  have spelled :
      (String.singleton quote ++ doubling quote s ++ String.singleton quote).toList ++ rest =
      quote :: ((s.toList.flatMap fun x => if x = quote then [quote, quote] else [x]) ++
        quote :: rest) := by
    simp [doubling]
  have begun : ∀ cs, lex .between (quote :: cs) = lex (.quoted quote []) cs := by
    rcases mark with rfl | rfl <;> exact fun _ => rfl
  rw [spelled, begun, lex_quoted, List.nil_append, lex_closed_ends _ stops]
  rfl

theorem lexes_identifier (name : String) :
    Lexes (Dialect.standard.quote name) [.identifier name] := by
  have quoted := lexes_quoted (.inl rfl) name
  rw [Token.ofQuoted, if_pos rfl, String.ofList_toList] at quoted
  exact quoted

theorem lexes_text (s : String) : Lexes (Dialect.standard.stringLiteral s) [.text s] := by
  have quoted := lexes_quoted (.inr rfl) s
  rw [Token.ofQuoted, if_neg (by decide), String.ofList_toList] at quoted
  exact quoted

/-! ### The marks between pieces -/

/-- A piece that reads as tokens whatever follows, and ends what stands before it. -/
structure Infix (s : String) (ts : List Token) : Prop where
  spells : Spells s ts
  ends : ∃ c, s.toList.head? = some c ∧ isWordChar c = false ∧ c ≠ '"' ∧ c ≠ '\''

theorem Lexes.joined {l m r : String} {ls ms rs : List Token} (hl : Lexes l ls) (hm : Infix m ms)
    (hr : Lexes r rs) : Lexes (l ++ m ++ r) (ls ++ (ms ++ rs)) := by
  obtain ⟨c, head, ends⟩ := hm.ends
  rw [String.append_assoc]
  exact hl.append (hm.spells.append hr) (ends_append head ends)

theorem Lexes.close (h : Lexes s ts) : Lexes (s ++ ")") (ts ++ [.closing]) :=
  h.append (fun _ _ => rfl) (by simp [Ends, isWordChar])

theorem infix_op (op : BinaryOp) : Infix (" " ++ op.sql ++ " ") [.op op] := by
  cases op <;> exact ⟨fun _ => rfl, ' ', rfl, by decide⟩

theorem infix_like : Infix " LIKE " [.word .LIKE] := ⟨fun _ => rfl, ' ', rfl, by decide⟩

theorem infix_from : Infix " FROM " [.word .FROM] := ⟨fun _ => rfl, ' ', rfl, by decide⟩

theorem infix_as : Infix " AS " [.word .AS] := ⟨fun _ => rfl, ' ', rfl, by decide⟩

theorem infix_where : Infix " WHERE " [.word .WHERE] := ⟨fun _ => rfl, ' ', rfl, by decide⟩

theorem infix_dot : Infix "." [.dot] := ⟨fun _ => rfl, '.', rfl, by decide⟩

theorem infix_comma : Infix ", " [.comma] := ⟨fun _ => rfl, ',', rfl, by decide⟩

theorem infix_concat : Infix " || " [.concat] := ⟨fun _ => rfl, ' ', rfl, by decide⟩

/-- The tokens of several pieces, with a token between them. -/
def separated (separator : Token) : List (List Token) → List Token
  | [] => []
  | [ts] => ts
  | ts :: us :: more => ts ++ separator :: separated separator (us :: more)

theorem separated_cons (separator : Token) (ts : List Token) (more : List (List Token)) :
    separated separator (ts :: more) = ts ++ more.flatMap (separator :: ·) := by
  induction more generalizing ts with
  | nil => simp [separated]
  | cons us more ih => simp [separated, ih]

theorem lexes_intercalate {m : String} {separator : Token} (hm : Infix m [separator])
    {ss : List String} {tss : List (List Token)} (h : List.Forall₂ Lexes ss tss)
    (nonempty : ss ≠ []) : Lexes (m.intercalate ss) (separated separator tss) := by
  induction h with
  | nil => exact absurd rfl nonempty
  | @cons s ts ss tss here later ih =>
    cases later with
    | nil => simpa [separated] using here
    | cons _ _ =>
      rw [String.intercalate_cons_of_ne_nil (by simp)]
      exact here.joined hm (ih (by simp))

/-- A minus does not begin a comment if no minus follows. -/
theorem lexes_negated (h : Lexes s ts) {c : Char} (head : s.toList.head? = some c)
    (other : c ≠ '-') : Lexes ("-" ++ s) (.op .sub :: ts) := by
  intro rest ends
  rw [String.toList_append, List.append_assoc]
  obtain ⟨cs, hcs⟩ : ∃ cs, s.toList = c :: cs := List.head?_eq_some_iff.1 head
  have go := h rest ends
  rw [hcs] at go ⊢
  have minus : ∀ more, lex .between ('-' :: c :: more) = .op .sub :: lex .between (c :: more) := by
    intro more
    have ended : step (.mark '-') c = startAfter (.ofMark ['-']) c := by simp [step, other]
    change (step (.mark '-') c).1 ++ lex (step (.mark '-') c).2 more = _
    rw [ended, lex_startAfter]
    rfl
  change lex .between ('-' :: c :: (cs ++ rest)) = _
  rw [minus]
  exact congrArg _ go

end Lexer

end DocStore

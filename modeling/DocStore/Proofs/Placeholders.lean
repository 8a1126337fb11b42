import DocStore.Proofs.SqlMeaning
import Mathlib.Data.List.Nodup

/-!
# The placeholders of SQL text

Which placeholders a text has is seen from its tokens alone; quoted names, texts
and comments have none. A reader of a condition or a value drops no placeholder
and changes the order of none, so that a text that reads as a tree has its
placeholders just where the tree has its slots. `Lexer.Holds` puts the
placeholders of pieces of text together.
-/

set_option autoImplicit false

namespace DocStore

def Token.placeholder? : Token → Option String
  | .placeholder s => some s
  | _ => none

namespace Token

/-- The placeholders among tokens. -/
def held (ts : List Token) : List String := ts.filterMap placeholder?

variable {t : Token} {ts us : List Token} {s : String}

@[simp] theorem held_nil : held [] = [] := rfl

@[simp] theorem held_append : held (ts ++ us) = held ts ++ held us := List.filterMap_append

@[simp] theorem held_placeholder : held (.placeholder s :: ts) = s :: held ts := rfl

theorem held_cons (none : t.placeholder? = none) : held (t :: ts) = held ts :=
  List.filterMap_cons_none none

end Token

/-- The placeholders of a text, from left to right. -/
def Lexer.placeholders (s : String) : List String := Token.held (tokens s)

/-! ## Reading keeps the placeholders -/

namespace SqlReader

open Token

variable {α : Type} {fuel level : Nat} {e : SqlTree String} {es : List (SqlTree String)}
  {ts rest : List Token}

theorem eq_of_close {a b : α} (h : close a ts = some (b, rest)) :
    b = a ∧ ts = .closing :: rest := by
  unfold close at h
  split at h
  · cases h
    exact ⟨rfl, rfl⟩
  · cases h

/-- What is read has the placeholders of the tokens read, for so much fuel. -/
structure Conserves (fuel : Nat) : Prop where
  expression : ∀ {level ts e rest}, expression fuel level ts = some (e, rest) →
    held ts = e.slots ++ held rest
  operand : ∀ {ts e rest}, operand fuel ts = some (e, rest) → held ts = e.slots ++ held rest
  items : ∀ {ts es rest}, items fuel ts = some (es, rest) →
    held ts = SqlTree.slotsAll es ++ held rest
  membership : ∀ {e negated ts m rest}, membership fuel e negated ts = some (m, rest) →
    e.slots ++ held ts = m.slots ++ held rest
  continuation : ∀ {level e ts r rest}, continuation fuel level e ts = some (r, rest) →
    e.slots ++ held ts = r.slots ++ held rest

namespace Conserves

variable (h : Conserves fuel)
include h

theorem expression_succ (reads : SqlReader.expression (fuel + 1) level ts = some (e, rest)) :
    held ts = e.slots ++ held rest := by
  obtain ⟨⟨e', ts'⟩, first, reads⟩ := Option.bind_eq_some_iff.1 reads
  rw [h.operand first, h.continuation reads]

theorem items_succ (reads : SqlReader.items (fuel + 1) ts = some (es, rest)) :
    held ts = SqlTree.slotsAll es ++ held rest := by
  obtain ⟨⟨e, ts'⟩, first, reads⟩ := Option.bind_eq_some_iff.1 reads
  dsimp only at reads
  split at reads
  · obtain ⟨⟨es', ts''⟩, later, same⟩ := Option.bind_eq_some_iff.1 reads
    cases same
    rw [h.expression first, held_cons rfl, h.items later, SqlTree.slotsAll, List.append_assoc]
  · obtain ⟨rfl, rfl⟩ := eq_of_close reads
    rw [h.expression first, held_cons rfl, SqlTree.slotsAll, SqlTree.slotsAll, List.append_nil]

theorem operand_succ (reads : SqlReader.operand (fuel + 1) ts = some (e, rest)) :
    held ts = e.slots ++ held rest := by
  unfold SqlReader.operand at reads
  split at reads
  · cases reads
    rfl
  · cases reads
    rfl
  · cases reads
    rfl
  · cases reads
    rfl
  · obtain ⟨⟨args, ts'⟩, inside, same⟩ := Option.bind_eq_some_iff.1 reads
    cases same
    rw [held_cons rfl, held_cons rfl, h.items inside, SqlTree.slots]
  · obtain ⟨⟨e', ts'⟩, inside, reads⟩ := Option.bind_eq_some_iff.1 reads
    obtain ⟨rfl, rfl⟩ := eq_of_close reads
    rw [held_cons rfl, h.expression inside, held_cons rfl]
  · obtain ⟨⟨e', ts'⟩, inside, same⟩ := Option.bind_eq_some_iff.1 reads
    cases same
    rw [held_cons rfl, h.expression inside, SqlTree.slots]
  · obtain ⟨⟨e', ts'⟩, inside, same⟩ := Option.bind_eq_some_iff.1 reads
    cases same
    rw [held_cons rfl, h.expression inside, SqlTree.slots]
  · cases reads

theorem membership_succ {negated : Bool} {m : SqlTree String}
    (reads : SqlReader.membership (fuel + 1) e negated ts = some (m, rest)) :
    e.slots ++ held ts = m.slots ++ held rest := by
  unfold SqlReader.membership at reads
  split at reads
  · obtain ⟨⟨selector, ts₁⟩, selects, reads⟩ := Option.bind_eq_some_iff.1 reads
    dsimp only at reads
    split at reads
    · obtain ⟨⟨condition, ts₂⟩, filters, reads⟩ := Option.bind_eq_some_iff.1 reads
      obtain ⟨rfl, rfl⟩ := eq_of_close reads
      rw [held_cons rfl, h.expression selects]
      iterate 5 rw [held_cons rfl]
      rw [h.expression filters, held_cons rfl, SqlTree.slots, List.append_assoc, List.append_assoc]
    · cases reads
  · obtain ⟨⟨es, ts'⟩, inside, same⟩ := Option.bind_eq_some_iff.1 reads
    cases same
    rw [h.items inside, SqlTree.slots, List.append_assoc]

/-- The operators after an operand, of which there may be none. -/
theorem continuation_succ {r : SqlTree String}
    (reads : SqlReader.continuation (fuel + 1) level e ts = some (r, rest)) :
    e.slots ++ held ts = r.slots ++ held rest := by
  -- An operator takes an operand more, and goes on; one that binds too loosely is left.
  have operator {t : Token} {tight : Nat} {ts : List Token} {f : SqlTree String → SqlTree String}
      (plain : t.placeholder? = none)
      (slots : ∀ x, (f x).slots = e.slots ++ x.slots)
      (reads : ((SqlReader.expression fuel tight ts).bind fun p =>
          SqlReader.continuation fuel level (f p.1) p.2) =
        some (r, rest)) : e.slots ++ held (t :: ts) = r.slots ++ held rest := by
    obtain ⟨⟨x, ts'⟩, operand, reads⟩ := Option.bind_eq_some_iff.1 reads
    rw [held_cons plain, h.expression operand, ← List.append_assoc, ← slots, h.continuation reads]
  have tests {ts : List Token} {negated : Bool}
      (reads : ((SqlReader.membership fuel e negated ts).bind fun p =>
          SqlReader.continuation fuel level p.1 p.2) =
        some (r, rest)) : e.slots ++ held ts = r.slots ++ held rest := by
    obtain ⟨⟨m, ts'⟩, members, reads⟩ := Option.bind_eq_some_iff.1 reads
    rw [h.membership members, h.continuation reads]
  have ends {ts : List Token} (reads : some (e, ts) = some (r, rest)) :
      e.slots ++ held ts = r.slots ++ held rest := by
    cases reads
    rfl
  unfold SqlReader.continuation at reads
  split at reads
  · split at reads
    · exact operator rfl (fun _ => rfl) reads
    · exact ends reads
  · split at reads
    · exact operator rfl (fun _ => rfl) reads
    · exact ends reads
  · split at reads
    · rw [held_cons rfl, held_cons rfl]
      have kept := h.continuation reads
      rwa [SqlTree.slots] at kept
    · exact ends reads
  · split at reads
    · rw [held_cons rfl, held_cons rfl, held_cons rfl]
      have kept := h.continuation reads
      rwa [SqlTree.slots] at kept
    · exact ends reads
  · split at reads
    · exact operator rfl (fun _ => rfl) reads
    · exact ends reads
  · split at reads
    · rw [held_cons rfl, held_cons rfl]
      exact tests reads
    · exact ends reads
  · split at reads
    · rw [held_cons rfl, held_cons rfl, held_cons rfl]
      exact tests reads
    · exact ends reads
  · exact ends reads

end Conserves

/-- However much fuel there is. -/
theorem conserves (fuel : Nat) : Conserves fuel := by
  induction fuel with
  | zero => constructor <;> (intros; contradiction)
  | succ fuel ih =>
    exact ⟨ih.expression_succ, ih.operand_succ, ih.items_succ, ih.membership_succ,
      ih.continuation_succ⟩

/-- A text that reads as a tree has the placeholders of the tree, from left to right. -/
theorem placeholders_of_read {s : String} (h : read s = some e) :
    Lexer.placeholders s = e.slots := by
  unfold read at h
  split at h
  · next e' reads =>
    cases h
    rw [Lexer.placeholders, (conserves _).expression reads, held_nil, List.append_nil]
  · cases h

theorem ReadsPhrase.held (h : ReadsPhrase ts e) : held ts = e.slots := by
  have whole := h.all (Nat.zero_le _) stops_nil (Nat.le_refl _)
  rw [List.append_nil] at whole
  rw [(conserves _).expression whole, held_nil, List.append_nil]

end SqlReader

/-! ## Numbered placeholders -/

/-- The names of so many parameters after others. -/
def Dialect.numbered (d : Dialect) (start count : Nat) : List String :=
  (List.range count).map fun i => d.parameter (start + i)

theorem Dialect.numbered_append (d : Dialect) (start m n : Nat) :
    d.numbered start m ++ d.numbered (start + m) n = d.numbered start (m + n) := by
  rw [numbered, numbered, numbered, List.range_add, List.map_append, List.map_map]
  simp only [Function.comp_def, Nat.add_assoc]

/-- No two parameters have the same name. -/
theorem Dialect.nodup_numbered {d : Dialect} (dialect : d = .standard ∨ d = .sqlite)
    (start count : Nat) : (d.numbered start count).Nodup :=
  List.Nodup.map (fun _ _ same => Nat.add_left_cancel (injective_parameter dialect same))
    List.nodup_range

namespace SqlTree

variable {α : Type}

mutual

/-- The slots of a named tree are the names. -/
theorem slots_named (d : Dialect) :
    (e : SqlTree α) → ∀ n, (e.named d.parameter n).slots = d.numbered n e.slots.length
  | .placeholder _, n => rfl
  | .column _ _, _ | .number _, _ | .text _, _ => rfl
  | .binary _ l r, n | .concat l r, n | .like l r, n => by
    simp only [named, slots, slots_named d l, slots_named d r, d.numbered_append,
      List.length_append]
  | .not e, n | .negate e, n | .isNull e _, n => by simp only [named, slots, slots_named d e]
  | .inList e items _, n => by
    simp only [named, slots, slots_named d e, slots_namedAll d items, d.numbered_append,
      List.length_append]
  | .inSelect e selector _ _ condition _, n => by
    simp only [named, slots, slots_named d e, slots_named d selector, slots_named d condition,
      d.numbered_append, List.length_append]
  | .apply _ args, n => by simp only [named, slots, slots_namedAll d args]

theorem slots_namedAll (d : Dialect) : (es : List (SqlTree α)) → ∀ n,
    slotsAll (namedAll d.parameter n es) = d.numbered n (slotsAll es).length
  | [], _ => rfl
  | e :: es, n => by
    simp only [namedAll, slotsAll, slots_named d e, slots_namedAll d es, d.numbered_append,
      List.length_append]

end

end SqlTree

/-- Parameters bound one after another are entered under the next names. -/
theorem Parameters.entries_pushAll (d : Dialect) (ps : Parameters) (vs : List Value) :
    (ps.pushAll d.parameter vs).entries = ps.entries ++ (d.numbered ps.size vs.length).zip vs := by
  unfold pushAll
  induction vs generalizing ps with
  | nil => simp [Dialect.numbered]
  | cons v vs ih =>
    rw [List.foldl_cons, ih, Compile.size_push, push, List.append_assoc, List.length_cons,
      Nat.add_comm vs.length, ← d.numbered_append]
    rfl

/-! ## Pieces of text -/

namespace Lexer

open Token

/-- A piece of text that has placeholders, whatever ends it. -/
def Holds (s : String) (names : List String) : Prop := ∃ ts, Lexes s ts ∧ held ts = names

variable {s u m : String} {ts us ms : List Token} {names names' : List String}

theorem Holds.placeholders_eq (h : Holds s names) : placeholders s = names := by
  obtain ⟨ts, lexes, rfl⟩ := h
  rw [placeholders, tokens_eq lexes]

theorem Lexes.holds (h : Lexes s ts) (none : held ts = []) : Holds s [] := ⟨ts, h, none⟩

theorem Spells.holds (h : Spells s ts) (none : held ts = []) (hu : Holds u names) :
    Holds (s ++ u) names := by
  obtain ⟨us, lexes, rfl⟩ := hu
  exact ⟨ts ++ us, h.append lexes, by rw [held_append, none, List.nil_append]⟩

theorem Holds.append (h : Holds s names) (hu : Holds u names') (ends : Ends u.toList) :
    Holds (s ++ u) (names ++ names') := by
  obtain ⟨ts, lexes, rfl⟩ := h
  obtain ⟨us, lexes', rfl⟩ := hu
  exact ⟨ts ++ us, lexes.append lexes' ends, held_append⟩

theorem Holds.joined (h : Holds s names) (hm : Infix m ms) (none : held ms = [])
    (hu : Holds u names') : Holds (s ++ m ++ u) (names ++ names') := by
  obtain ⟨ts, lexes, rfl⟩ := h
  obtain ⟨us, lexes', rfl⟩ := hu
  exact ⟨ts ++ (ms ++ us), lexes.joined hm lexes', by
    rw [held_append, held_append, none, List.nil_append]⟩

theorem Holds.close (h : Holds s names) : Holds (s ++ ")") names := by
  obtain ⟨ts, lexes, rfl⟩ := h
  exact ⟨ts ++ [.closing], lexes.close, by
    rw [held_append, held_cons rfl, held_nil, List.append_nil]⟩

theorem lexes_empty : Lexes "" [] := fun _ _ => rfl

theorem holds_empty : Holds "" [] := lexes_empty.holds rfl

theorem held_separated {separator : Token} (none : separator.placeholder? = .none)
    (tss : List (List Token)) : held (separated separator tss) = tss.flatMap held := by
  cases tss with
  | nil => rfl
  | cons ts tss =>
    rw [separated_cons, held_append, List.flatMap_cons]
    congr 1
    induction tss with
    | nil => rfl
    | cons us tss ih => rw [List.flatMap_cons, List.flatMap_cons, held_append, held_cons none, ih]

/-- Pieces with something between them, of which there may be none. -/
theorem lexes_separated {separator : Token} (hm : Infix m [separator]) {ss : List String}
    {tss : List (List Token)} (h : List.Forall₂ Lexes ss tss) :
    Lexes (m.intercalate ss) (separated separator tss) := by
  cases h with
  | nil => exact lexes_empty
  | cons first rest => exact lexes_intercalate hm (.cons first rest) (by simp)

theorem holds_intercalate {separator : Token} (hm : Infix m [separator])
    (none : separator.placeholder? = .none) {ss : List String} {nss : List (List String)}
    (h : List.Forall₂ Holds ss nss) : Holds (m.intercalate ss) nss.flatten := by
  obtain ⟨tss, lexes, holds⟩ : ∃ tss, List.Forall₂ Lexes ss tss ∧ tss.map held = nss := by
    induction h with
    | nil => exact ⟨[], .nil, rfl⟩
    | cons first _ ih =>
      obtain ⟨ts, lexes, rfl⟩ := first
      obtain ⟨tss, rest, rfl⟩ := ih
      exact ⟨ts :: tss, .cons lexes rest, rfl⟩
  refine ⟨_, lexes_separated hm lexes, ?_⟩
  rw [held_separated none, ← holds, List.flatMap_def]

end Lexer

theorem Sql.IsPhrase.holds {sql : Sql} {e : SqlTree String} (h : sql.IsPhrase e) :
    Lexer.Holds (sql.text .standard) e.slots := by
  obtain ⟨ts, lexes, reads⟩ := h
  exact ⟨ts, lexes, reads.held⟩

end DocStore

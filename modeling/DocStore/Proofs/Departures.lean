import DocStore.Statement

/-!
# Where SQL departs

Two conditions compiled from one expression are the same tree up to the first
comparison that one of them turned into a test for null. `Sql.Departs` is that
relation. Trees that depart differ, and so do their texts, whatever follows
them: the texts agree up to the place where the trees do, and there one goes on
with the operator and the other with `IS`.
-/

set_option autoImplicit false

namespace DocStore

namespace Sql

/-- Forms whose text cannot begin with a placeholder. -/
def Opens : Sql → Prop
  | .column _ _ | .paren _ | .upper _ | .lower _ | .concat _ => True
  | _ => False

/-- The trees are the same up to a comparison with a placeholder, which one of them
tests for null instead. -/
inductive Departs : Sql → Sql → Prop where
  | symm {x y : Sql} : Departs x y → Departs y x
  /-- The operand on the left is null. -/
  | nullLeft {x y : Sql} {negated : Bool} {op : BinaryOp} {n : Nat} :
    x.Opens → Departs (.isNull x negated) (.binary op (.param n) y)
  /-- The operand on the right is null. -/
  | nullRight {x y : Sql} {negated : Bool} {op : BinaryOp} :
    op = .eq ∨ op = .ne → Departs (.isNull x negated) (.binary op x y)
  | before {x x' y : Sql} {negated : Bool} {op : BinaryOp} :
    Departs x x' → Departs (.isNull x negated) (.binary op x' y)
  | left {op : BinaryOp}
      {l l' r r' : Sql} : Departs l l' → Departs (.binary op l r) (.binary op l' r')
  | right {op : BinaryOp} {l r r' : Sql} : Departs r r' → Departs (.binary op l r) (.binary op l r')
  | not {x y : Sql} : Departs x y → Departs (.not x) (.not y)
  | negate {x y : Sql} : Departs x y → Departs (.negate x) (.negate y)
  | isNull {x y : Sql}
      {negated : Bool} : Departs x y → Departs (.isNull x negated) (.isNull y negated)
  | paren {x y : Sql} : Departs x y → Departs (.paren x) (.paren y)
  | upper {x y : Sql} : Departs x y → Departs (.upper x) (.upper y)
  | lower {x y : Sql} : Departs x y → Departs (.lower x) (.lower y)
  | subject {x y p q : Sql} : Departs x y → Departs (.like x p) (.like y q)
  | pattern {x p q : Sql} : Departs p q → Departs (.like x p) (.like x q)
  | concat {pre : List Sql} {x y : Sql} {xs ys : List Sql} :
    Departs x y → Departs (.concat (pre ++ x :: xs)) (.concat (pre ++ y :: ys))
  | target {x y : Sql} {xs ys : List Sql} {negated : Bool} :
    Departs x y → Departs (.inList x xs negated) (.inList y ys negated)
  | item {l x y : Sql} {pre xs ys : List Sql} {negated : Bool} :
    Departs x y → Departs (.inList l (pre ++ x :: xs) negated) (.inList l (pre ++ y :: ys) negated)
  | select {s x y : Sql} {table tableAlias : String} :
    Departs x y → Departs (.select s table tableAlias x) (.select s table tableAlias y)

theorem Departs.ne {x y : Sql} (h : Departs x y) : x ≠ y := by
  induction h with
  | symm _ ih => exact ih.symm
  | nullLeft _ | nullRight _ | before _ _ => intro h; cases h
  | left _ ih | right _ ih | not _ ih | negate _ ih | isNull _ ih | paren _ ih | upper _ ih
  | lower _ ih | subject _ ih | pattern _ ih | target _ ih | select _ ih =>
    intro h
    cases h
    exact ih rfl
  | concat _ ih =>
    intro h
    rw [Sql.concat.injEq] at h
    exact ih (List.cons.inj (List.append_cancel_left h)).1
  | item _ ih =>
    intro h
    rw [Sql.inList.injEq] at h
    exact ih (List.cons.inj (List.append_cancel_left h.2.1)).1

end Sql

/-- Lists that are the same up to an item where they are apart. -/
def FirstApart {α : Type} (apart : α → α → Prop) (xs ys : List α) : Prop :=
  ∃ pre x y xs' ys', apart x y ∧ xs = pre ++ x :: xs' ∧ ys = pre ++ y :: ys'

namespace FirstApart

variable {α : Type} {apart : α → α → Prop}

theorem head {x y : α} (h : apart x y) (xs ys : List α) : FirstApart apart (x :: xs) (y :: ys) :=
  ⟨[], x, y, xs, ys, h, rfl, rfl⟩

theorem tail {xs ys : List α} (h : FirstApart apart xs ys) (x : α) :
    FirstApart apart (x :: xs) (x :: ys) := by
  obtain ⟨pre, y, z, ys, zs, h, rfl, rfl⟩ := h
  exact ⟨x :: pre, y, z, ys, zs, h, rfl, rfl⟩

theorem ne (irrefl : ∀ x, ¬apart x x) {xs ys : List α} (h : FirstApart apart xs ys) : xs ≠ ys := by
  obtain ⟨pre, x, y, xs, ys, h, rfl, rfl⟩ := h
  intro e
  obtain ⟨rfl, _⟩ := List.cons.inj (List.append_cancel_left e)
  exact irrefl x h

theorem concat {xs ys : List Sql} (h : FirstApart Sql.Departs xs ys) :
    (Sql.concat xs).Departs (.concat ys) := by
  obtain ⟨pre, x, y, xs, ys, h, rfl, rfl⟩ := h
  exact .concat h

theorem inList {xs ys : List Sql} (h : FirstApart Sql.Departs xs ys) (l : Sql) (negated : Bool) :
    (Sql.inList l xs negated).Departs (.inList l ys negated) := by
  obtain ⟨pre, x, y, xs, ys, h, rfl, rfl⟩ := h
  exact .item h

end FirstApart

/-- Order terms of which one departs. -/
def SqlOrder.Departs (o p : SqlOrder) : Prop := o.term.Departs p.term

theorem SqlOrder.not_departs_self (o : SqlOrder) : ¬o.Departs o := fun h => Sql.Departs.ne h rfl

/-! ## Texts -/

/-- Two texts that differ whatever follows them. -/
def Diverge (s t : String) : Prop := ∀ u v : String, s ++ u ≠ t ++ v

namespace Diverge

variable {s t : String}

theorem symm (h : Diverge s t) : Diverge t s := fun u v e => h v u e.symm

theorem after (p : String) (h : Diverge s t) : Diverge (p ++ s) (p ++ t) := by
  intro u v e
  rw [String.append_assoc, String.append_assoc] at e
  exact h u v (String.append_right_inj p |>.1 e)

theorem then_ (u v : String) (h : Diverge s t) : Diverge (s ++ u) (t ++ v) := by
  intro u' v' e
  rw [String.append_assoc, String.append_assoc] at e
  exact h _ _ e

theorem ne (h : Diverge s t) : s ≠ t := fun e => h "" "" (by rw [e])

/-- Texts with other first characters. -/
theorem of_head {c d : Char} (hs : s.toList.head? = some c) (ht : t.toList.head? = some d)
    (h : c ≠ d) : Diverge s t := by
  intro u v e
  have e' := congrArg List.head? (congrArg String.toList e)
  rw [String.toList_append, String.toList_append, List.head?_append, List.head?_append,
    hs, ht] at e'
  exact h (Option.some.inj e')

end Diverge

/-- A joined text begins with its first part. -/
theorem intercalate_cons_eq (sep s : String) (xs : List String) :
    ∃ w, sep.intercalate (s :: xs) = s ++ w := by
  cases xs with
  | nil => exact ⟨"", by simp⟩
  | cons x xs => exact ⟨sep ++ sep.intercalate (x :: xs), by simp [String.append_assoc]⟩

theorem Diverge.intercalate {s t : String} (h : Diverge s t) (sep : String)
    (pre xs ys : List String) :
    Diverge (sep.intercalate (pre ++ s :: xs)) (sep.intercalate (pre ++ t :: ys)) := by
  induction pre with
  | nil =>
    obtain ⟨u, hu⟩ := intercalate_cons_eq sep s xs
    obtain ⟨v, hv⟩ := intercalate_cons_eq sep t ys
    rw [List.nil_append, List.nil_append, hu, hv]
    exact h.then_ u v
  | cons p pre ih =>
    rw [List.cons_append, List.cons_append, String.intercalate_cons_of_ne_nil (by simp),
      String.intercalate_cons_of_ne_nil (by simp)]
    exact ih.after (p ++ sep)

/-- The dialect writes conditions as the standard dialect does; the rest is its own. -/
structure Dialect.Conventional (d : Dialect) : Prop where
  quote : d.quote = Dialect.standard.quote
  parameter : d.parameter = Dialect.standard.parameter
  concat : d.concat = Dialect.standard.concat
  inList : d.inList = Dialect.standard.inList
  like : d.like = Dialect.standard.like
  upper : d.upper = Dialect.standard.upper
  lower : d.lower = Dialect.standard.lower

theorem Dialect.conventional_standard : Dialect.standard.Conventional := by constructor <;> rfl

theorem Dialect.conventional_sqlite : Dialect.sqlite.Conventional := by constructor <;> rfl

namespace Sql

variable {d : Dialect}

theorem texts_append (d : Dialect) (xs ys : List Sql) :
    texts d (xs ++ ys) = texts d xs ++ texts d ys := by
  induction xs with
  | nil => rfl
  | cons x xs ih => simp only [List.cons_append, texts, ih]

/-- What opens a value is not what opens a placeholder. -/
theorem Opens.diverge {x : Sql} (h : x.Opens) (conv : d.Conventional) (n : Nat) :
    Diverge (x.text d) (d.parameter n) := by
  have placeholder : (d.parameter n).toList.head? = some '@' := by
    simp [conv.parameter, Dialect.standard]
  cases x with
  | column table name =>
    exact .of_head (by simp [text, conv.quote, Dialect.standard]) placeholder
      (by decide : '"' ≠ '@')
  | paren e => exact .of_head (by simp [text]) placeholder (by decide : '(' ≠ '@')
  | upper e =>
    exact .of_head (by simp [text, conv.upper, Dialect.standard]) placeholder
      (by decide : 'U' ≠ '@')
  | lower e =>
    exact .of_head (by simp [text, conv.lower, Dialect.standard]) placeholder
      (by decide : 'L' ≠ '@')
  | concat parts =>
    exact .of_head (by simp [text, conv.concat, Dialect.standard]) placeholder
      (by decide : '(' ≠ '@')
  | _ => cases h

/-- Trees that depart have texts that differ, whatever follows them. -/
theorem Departs.diverge {x y : Sql} (conv : d.Conventional) (h : Departs x y) :
    Diverge (x.text d) (y.text d) := by
  induction h with
  | symm _ ih => exact ih.symm
  | nullLeft opens =>
    simp only [text, String.append_assoc]
    exact (opens.diverge conv _).then_ _ _
  | @nullRight x y negated op equality =>
    simp only [text, String.append_assoc]
    refine Diverge.after _ fun u v e => ?_
    have second := congrArg (fun s : String => s.toList[1]?) e
    rcases equality with rfl | rfl <;> cases negated <;> simp [BinaryOp.sql] at second
  | before _ ih =>
    simp only [text, String.append_assoc]
    exact ih.then_ _ _
  | left _ ih =>
    simp only [text, String.append_assoc]
    exact ih.then_ _ _
  | right _ ih =>
    simp only [text]
    exact ih.after _
  | not _ ih => exact ih.after _
  | negate _ ih => exact ih.after _
  | isNull _ ih => exact ih.then_ _ _
  | paren _ ih => exact (ih.after _).then_ _ _
  | upper _ ih =>
    simp only [text, conv.upper]
    exact (ih.after _).then_ _ _
  | lower _ ih =>
    simp only [text, conv.lower]
    exact (ih.after _).then_ _ _
  | subject _ ih =>
    simp only [text, conv.like]
    exact (ih.then_ _ _).then_ _ _
  | pattern _ ih =>
    simp only [text, conv.like]
    exact ih.after _
  | concat _ ih =>
    simp only [text, conv.concat, texts_append, texts]
    exact ((ih.intercalate _ _ _ _).after _).then_ _ _
  | target _ ih =>
    simp only [text, conv.inList, Dialect.standard, String.append_assoc]
    exact ih.then_ _ _
  | item _ ih =>
    simp only [text, conv.inList, texts_append, texts]
    exact ((ih.intercalate _ _ _ _).after _).then_ _ _
  | select _ ih =>
    simp only [text]
    exact ih.after _

end Sql

theorem SqlOrder.diverge_clause {d : Dialect} (conv : d.Conventional) {xs ys : List SqlOrder}
    (h : FirstApart SqlOrder.Departs xs ys) :
    Diverge (SqlOrder.clause d false xs) (SqlOrder.clause d false ys) := by
  obtain ⟨pre, x, y, xs, ys, departs, rfl, rfl⟩ := h
  have term : Diverge (x.text d) (y.text d) := (Sql.Departs.diverge conv departs).then_ _ _
  have clause : ∀ (o : SqlOrder) (os : List SqlOrder), SqlOrder.clause d false (pre ++ o :: os) =
      " ORDER BY " ++ ", ".intercalate (pre.map (text d) ++ o.text d :: os.map (text d)) := by
    intro o os
    simp [SqlOrder.clause]
  rw [clause, clause]
  exact (term.intercalate _ _ _ _).after _

end DocStore

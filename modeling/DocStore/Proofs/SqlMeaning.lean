import DocStore.Proofs.Database
import DocStore.Proofs.Folding
import DocStore.Proofs.Patterns
import DocStore.Proofs.Rebinding
import Mathlib.Logic.Function.Basic

/-!
# Conditions on the rows of tables

The value of a tree under the rows that its aliases stand for. Truth is
three-valued, `IN` is the disjunction of equalities, and a subquery reads the
rows of its table one after another under its own alias. What differs from one
backend to the next, such as how it rounds or sorts, is left open in `Backend`;
its laws are what every SQL backend has in common.

`CompiledCondition.truth?` reads the text of a compiled condition as a backend
does, with the parameters bound by name, and is the truth of its image.
-/

set_option autoImplicit false

namespace DocStore

/-- The value of a column; one that the row does not have is null. -/
def Row.cell (row : Row) (name : String) : Value := (row.value? name).getD .null

/-- One disjunct that holds decides; without any, none holds. -/
def anyHolds (truths : List (Option Bool)) : Option Bool := truths.foldr eitherHolds (some false)

/-- One conjunct that does not hold decides; without any, all hold. -/
def allHold (truths : List (Option Bool)) : Option Bool := truths.foldr bothHold (some true)

/-- Rows by the aliases they stand under. -/
abbrev Scope := String → Row

/-- The rows of the tables, and what operators make of values. Only values that
are not null are compared; a flag is stored as 1 or 0. -/
structure Backend where
  tables : Database
  compare : BinaryOp → Value → Value → Bool
  arithmetic : BinaryOp → Value → Value → Value
  negate : Value → Value
  concat : Value → Value → Value
  call : String → List Value → Value
  /-- The text of a value beside `LIKE`. -/
  text : Value → String
  int_eq : ∀ i j, compare .eq (.int i) (.int j) = decide (i = j)
  bool_eq : ∀ (flag : Bool) v, compare .eq (.bool flag) v =
    compare .eq (.int (if flag then 1 else 0)) v
  ne_eq : ∀ v w, compare .ne v w = !compare .eq v w
  text_text : ∀ s, text (.text s) = s

/-- Unknown as null. -/
def Value.ofTruth : Option Bool → Value
  | some b => .bool b
  | none => .null

@[simp] theorem Value.bool?_ofTruth (o : Option Bool) : (ofTruth o).bool? = o := by
  cases o <;> rfl

namespace Backend

/-- A comparison with null is unknown. -/
def compared (b : Backend) (op : BinaryOp) (v w : Value) : Option Bool :=
  if v.isNull || w.isNull then none else some (b.compare op v w)

def like (b : Backend) (v pattern : Value) : Option Bool :=
  if v.isNull || pattern.isNull then none
    else some (matchesPattern (b.text pattern).toList (b.text v).toList)

/-- `IN` is equality with one of the items, and `NOT IN` its negation. -/
def among (b : Backend) (negated : Bool) (v : Value) (items : List Value) : Option Bool :=
  (anyHolds (items.map (b.compared .eq v))).map (· != negated)

def binary (b : Backend) (op : BinaryOp) (v w : Value) : Value :=
  if op.isLogical then .ofTruth (op.kleene v.bool? w.bool?)
  else if op.isComparison then .ofTruth (b.compared op v w)
  else b.arithmetic op v w

/-- A backend that has numbers and texts as they are. -/
def plain (tables : Database) : Backend where
  tables := tables
  compare op v w :=
    let stored : Value → Value := fun
      | .bool flag => .int (if flag then 1 else 0)
      | v => v
    match op with
    | .eq => decide (stored v = stored w)
    | .ne => !decide (stored v = stored w)
    | op => ((stored v).order? (stored w)).any (Value.holdsFor op)
  arithmetic op v w := (Value.arithmetic op v w).toOption.getD .null
  negate v := (v.applyUnary .negate).toOption.getD .null
  concat v w := .text (v.toText ++ w.toText)
  call f vs :=
    match f, vs with
    | "UPPER", [.text s] => .text (Unicode.upper s)
    | "LOWER", [.text s] => .text (Unicode.lower s)
    | _, _ => .null
  text := Value.toText
  int_eq i j := by simp
  bool_eq flag v := rfl
  ne_eq v w := rfl
  text_text s := rfl

variable (b : Backend) {v w : Value}

theorem compared_of_not_isNull (op : BinaryOp) (hv : v.isNull = false) (hw : w.isNull = false) :
    b.compared op v w = some (b.compare op v w) := by
  rw [compared, hv, hw]
  rfl

theorem compared_null_left (op : BinaryOp) : b.compared op .null v = none := rfl

theorem compared_null_right (op : BinaryOp) : b.compared op v .null = none := by
  rw [compared, show Value.null.isNull = true from rfl, Bool.or_true, if_pos rfl]

/-- `<>` is the negation of `=`, also where both are unknown. -/
theorem compared_ne : b.compared .ne v w = (b.compared .eq v w).map (!·) := by
  unfold compared
  split
  · rfl
  · rw [ne_eq, Option.map_some]

theorem compared_ints (i j : Int64) : b.compared .eq (.int i) (.int j) = some (decide (i = j)) := by
  rw [b.compared_of_not_isNull .eq rfl rfl, int_eq]

theorem compared_flag (flag : Bool) : b.compared .eq (.bool flag) (.int 1) = some flag := by
  rw [b.compared_of_not_isNull .eq rfl rfl, bool_eq, int_eq]
  cases flag <;> rfl

end Backend

namespace SqlTree

variable {α : Type} (b : Backend)

mutual

/-- The value under the rows of a scope, with the values of the placeholders; that of a
condition is its truth. -/
def value (given : α → Value) (s : Scope) : SqlTree α → Value
  | .placeholder a => given a
  | .column table name => (s table).cell name
  | .number digits => ((Value.int64OfText? digits).map .int).getD .null
  | .text t => .text t
  | .binary op l r => b.binary op (value given s l) (value given s r)
  | .concat l r => b.concat (value given s l) (value given s r)
  | .not e => .ofTruth ((value given s e).bool?.map (!·))
  | .negate e => b.negate (value given s e)
  | .isNull e negated => .bool ((value given s e).isNull != negated)
  | .like e pattern => .ofTruth (b.like (value given s e) (value given s pattern))
  | .inList e items negated => .ofTruth (b.among negated (value given s e) (values given s items))
  | .inSelect e selector table tableAlias condition negated =>
    let met := (b.tables table).filter fun row =>
      (value given (Function.update s tableAlias row) condition).bool? = some true
    .ofTruth (b.among negated (value given s e) (met.map fun row =>
      value given (Function.update s tableAlias row) selector))
  | .apply f args => b.call f (values given s args)

def values (given : α → Value) (s : Scope) : List (SqlTree α) → List Value
  | [] => []
  | e :: es => value given s e :: values given s es

end

/-- The truth of a condition. -/
def truth? (given : α → Value) (s : Scope) (e : SqlTree α) : Option Bool :=
  (e.value b given s).bool?

variable {given : α → Value} {s : Scope} {e l r : SqlTree α}

theorem values_eq_map (es : List (SqlTree α)) : values b given s es = es.map (value b given s) := by
  induction es with
  | nil => rfl
  | cons e es ih => rw [values, ih, List.map_cons]

theorem truth?_logical {op : BinaryOp} (logical : op.isLogical = true) :
    truth? b given s (.binary op l r) = op.kleene (l.truth? b given s) (r.truth? b given s) := by
  simp only [truth?, value, Backend.binary, if_pos logical, Value.bool?_ofTruth]

theorem truth?_comparison {op : BinaryOp} (comparison : op.isComparison = true) :
    truth? b given s (.binary op l r) = b.compared op (l.value b given s) (r.value b given s) := by
  have tight := BinaryOp.not_logical_of_comparison comparison
  simp only [truth?, value, Backend.binary, tight, comparison, Bool.false_eq_true, if_false,
    if_true, Value.bool?_ofTruth]

theorem truth?_isTrue : truth? b given s e.isTrue = b.compared .eq (e.value b given s) (.int 1) :=
  truth?_comparison b rfl

theorem truth?_truth (holds : Bool) : truth? b given s (.truth holds) = some holds := by
  rw [truth, truth?_comparison b rfl]
  cases holds
  · exact b.compared_ints 1 0
  · exact b.compared_ints 1 1

theorem truth?_isNull (negated : Bool) :
    truth? b given s (.isNull e negated) = some ((e.value b given s).isNull != negated) := rfl

theorem truth?_like :
    truth? b given s (.like l r) = b.like (l.value b given s) (r.value b given s) := by
  rw [truth?, value, Value.bool?_ofTruth]

theorem truth?_inList (items : List (SqlTree α)) (negated : Bool) :
    truth? b given s (.inList e items negated) =
    b.among negated (e.value b given s) (items.map (value b given s)) := by
  rw [truth?, value, Value.bool?_ofTruth, values_eq_map]

/-! ## Placeholders by name -/

/-- The names from the number `n` on have the values of the slots. -/
def Names (given : α → Value) (named : String → Value) (name : Nat → String) (n : Nat)
    (slots : List α) : Prop :=
  ∀ i a, slots[i]? = some a → named (name (n + i)) = given a

variable {named : String → Value} {name : Nat → String} {n : Nat}

theorem names_append_iff {xs ys : List α} :
    Names given named name n (xs ++ ys) ↔ Names given named name n xs ∧
    Names given named name (n + xs.length) ys := by
  constructor
  · refine fun h => ⟨fun i a hi => h i a ?_, fun i a hi => ?_⟩
    · rw [List.getElem?_append_left (List.getElem?_eq_some_iff.1 hi).1, hi]
    · rw [Nat.add_assoc]
      refine h _ a ?_
      rw [List.getElem?_append_right (Nat.le_add_right _ _), Nat.add_sub_cancel_left, hi]
  · rintro ⟨hx, hy⟩ i a hi
    rcases lt_or_ge i xs.length with inside | outside
    · rw [List.getElem?_append_left inside] at hi
      exact hx i a hi
    · rw [List.getElem?_append_right outside] at hi
      have later := hy _ a hi
      rwa [Nat.add_assoc, Nat.add_sub_cancel' outside] at later

mutual

/-- Naming the placeholders changes no value. -/
theorem value_named (s : Scope) : (e : SqlTree α) → ∀ n, Names given named name n e.slots →
    (e.named name n).value b named s = e.value b given s
  | .placeholder a, n, h => h 0 a rfl
  | .column _ _, _, _ | .number _, _, _ | .text _, _, _ => by simp only [SqlTree.named, value]
  | .binary _ l r, n, h | .concat l r, n, h | .like l r, n, h => by
    rw [slots, names_append_iff] at h
    simp only [SqlTree.named, value, value_named s l _ h.1, value_named s r _ h.2]
  | .not e, n, h | .negate e, n, h | .isNull e _, n, h => by
    rw [slots] at h
    simp only [SqlTree.named, value, value_named s e _ h]
  | .inList e items _, n, h => by
    rw [slots, names_append_iff] at h
    simp only [SqlTree.named, value, value_named s e _ h.1, values_named s items _ h.2]
  | .inSelect e selector table tableAlias condition _, n, h => by
    rw [slots, names_append_iff, names_append_iff] at h
    obtain ⟨first, second, third⟩ := h
    simp only [SqlTree.named, value, value_named s e _ first, value_named _ selector _ second,
      value_named _ condition _ third]
  | .apply _ args, n, h => by
    rw [slots] at h
    simp only [SqlTree.named, value, values_named s args _ h]

theorem values_named (s : Scope) :
    (es : List (SqlTree α)) → ∀ n, Names given named name n (slotsAll es) →
    values b named s (namedAll name n es) = values b given s es
  | [], _, _ => by simp only [namedAll, values]
  | e :: es, n, h => by
    rw [slotsAll, names_append_iff] at h
    simp only [namedAll, values, value_named s e _ h.1, values_named s es _ h.2]

end

end SqlTree

/-! ## Parameters by name -/

namespace Parameters

/-- The value bound to a name. -/
def given (ps : Parameters) (name : String) : Value := (ps.get? name).getD .null

variable {name : Nat → String} {ps : Parameters}

theorem Numbered.pushAll (h : ps.Numbered name) (vs : List Value) :
    (ps.pushAll name vs).Numbered name := by
  unfold Parameters.pushAll
  induction vs generalizing ps with
  | nil => exact h
  | cons v vs ih => exact ih (h.push v)

theorem get?_push_of_some {key last : String} {v w : Value} (h : ps.get? key = some v) :
    (ps.push last w).get? key = some v := by
  unfold get? push at *
  rw [List.find?_append]
  cases found : ps.entries.find? fun e => e.1 = key with
  | none => rw [found] at h; cases h
  | some e => rw [found] at h; exact h

theorem get?_push_self {key : String} (fresh : key ∉ ps.names) (v : Value) :
    (ps.push key v).get? key = some v := by
  have missing : ps.entries.find? (fun e => e.1 = key) = none :=
    List.find?_eq_none.2 fun e he same => fresh (List.mem_map.2 ⟨e, he, of_decide_eq_true same⟩)
  simp [get?, push, List.find?_append, missing]

theorem get?_pushAll_of_some {key : String} {v : Value} (h : ps.get? key = some v)
    (vs : List Value) : (ps.pushAll name vs).get? key = some v := by
  unfold pushAll
  induction vs generalizing ps with
  | nil => exact h
  | cons w vs ih => exact ih (get?_push_of_some h)

/-- What is bound one after another is found under its number. -/
theorem Numbered.get?_pushAll (h : ps.Numbered name) (injective : Function.Injective name)
    {vs : List Value} {i : Nat} {v : Value} (hi : vs[i]? = some v) :
    (ps.pushAll name vs).get? (name (ps.size + i)) = some v := by
  induction vs generalizing ps i with
  | nil => cases hi
  | cons w vs ih =>
    cases i with
    | zero =>
      obtain rfl : w = v := by simpa using hi
      exact get?_pushAll_of_some (get?_push_self (h.fresh injective) w) vs
    | succ i =>
      have later := ih (h.push w) hi
      rwa [Compile.size_push, Nat.add_right_comm, Nat.add_assoc] at later

end Parameters

theorem Dialect.injective_parameter {d : Dialect} (dialect : d = .standard ∨ d = .sqlite) :
    Function.Injective d.parameter := by
  rcases dialect with rfl | rfl
  · exact injective_parameter_standard
  · exact injective_parameter_sqlite

/-! ## Compiled conditions -/

/-- The truth of a compiled condition as a backend reads it: its text in the dialect, with
its parameters by name. -/
def CompiledCondition.truth? (r : CompiledCondition) (dialect : Dialect) (b : Backend) (s : Scope) :
    Option Bool :=
  (SqlReader.read (r.condition.text dialect)).bind (SqlTree.truth? b r.parameters.given s)

/-- A condition compiles under the aliases of the indexes, among whatever has
been bound before it. -/
def Expr.CompilesTo (t : Target) (bs : List Binding) (e : Expr) (r : CompiledCondition) : Prop :=
  ∃ c d, c.bindings = bs ∧ c.parameters.Numbered t.dialect.parameter ∧
    Compile.Gives (Compile.condition t e) c r.condition d ∧ r.parameters = d.parameters

theorem Compile.compilesTo_of_compileCondition {t : Target} {index : String} {e : Expr}
    {r : CompiledCondition} (h : compileCondition t index e = .ok r) :
    e.CompilesTo t [⟨index, index⟩] r := by
  simp only [compileCondition] at h
  split at h
  · next sql d ran =>
    cases h
    obtain ⟨_, c, bound, gives⟩ := gives_bind_iff.1 ran
    obtain rfl := gives_bindIndex_iff.1 bound
    exact ⟨_, d, rfl, Parameters.numbered_empty _, gives, rfl⟩
  · cases h

/-- The values of the slots stand under the names of their placeholders. -/
theorem SqlTree.names_pushAll {t : Target} (dialect : t.dialect = .standard ∨ t.dialect = .sqlite)
    {ps : Parameters} (numbered : ps.Numbered t.dialect.parameter) (slots : List Slot) :
    Names (Slot.value t.arguments)
      (ps.pushAll t.dialect.parameter (slots.map (Slot.value t.arguments))).given
      t.dialect.parameter ps.size slots := by
  intro i slot hi
  rw [Parameters.given, numbered.get?_pushAll (Dialect.injective_parameter dialect)
    (v := slot.value t.arguments)]
  · rfl
  · rw [List.getElem?_map, hi, Option.map_some]

/-- A backend finds a compiled condition true where its image is. -/
theorem Expr.CompilesTo.truth?_eq {t : Target}
    (dialect : t.dialect = .standard ∨ t.dialect = .sqlite) {bs : List Binding} {e : Expr}
    {r : CompiledCondition} (h : e.CompilesTo t bs r) (b : Backend) (s : Scope) :
    r.truth? t.dialect b s = (e.image t bs .condition).truth? b (Slot.value t.arguments) s := by
  obtain ⟨c, d, rfl, numbered, gives, parameters⟩ := h
  have rendered : Compile.Gives (Compile.rendering t .condition e) c r.condition d := gives
  obtain ⟨reads, bound⟩ := Compile.read_rendering dialect rendered
  rw [CompiledCondition.truth?, reads, Option.bind_some, parameters, bound, SqlTree.truth?,
    SqlTree.value_named b s _ _ (SqlTree.names_pushAll dialect numbered _), SqlTree.truth?]

end DocStore

import DocStore.Proofs.Sharing
import DocStore.Proofs.StoredKeys
import Mathlib.Data.List.Perm.Subperm

/-!
# Values and queries that count as one

Values agree if they are equal, or if one is an integer and the other the double
that it is rounded to. A double may agree with several integers, which do not
agree with each other; this is the only way in which agreement fails to be an
equivalence, and the only way in which a table of values depends on the order in
which they were put in. It does not happen among integers of up to fifty-three
bits. Queries count as identical if their parameters agree one by one.
-/

set_option autoImplicit false

namespace DocStore

namespace Value

/-! ## Values that agree -/

/-- The first value is an integer, and the second the double that it is rounded to. -/
def RoundsTo (v w : Value) : Prop := ∃ i : Int64, v = .int i ∧ w = .float (Double.ofInt i.toInt)

/-- The first value is a double, and the others are different integers that are rounded to it. -/
def Conflates (k v w : Value) : Prop :=
  ∃ a b : Int64, v = .int a ∧ w = .int b ∧ a ≠ b ∧ k = .float (Double.ofInt a.toInt) ∧
    Double.ofInt a.toInt = Double.ofInt b.toInt

theorem agrees_iff {v w : Value} : v.agrees w = true ↔ v = w ∨ v.RoundsTo w ∨ w.RoundsTo v := by
  cases v <;> cases w <;> simp [agrees, RoundsTo, eq_comm]

theorem not_roundsTo_self (v : Value) : ¬v.RoundsTo v := by
  rintro ⟨i, rfl, same⟩
  cases same

/-- Values that agree are the same to a hash table. -/
theorem widened_eq_of_agrees {v w : Value} (h : v.agrees w = true) : v.widened = w.widened := by
  rcases agrees_iff.1 h with rfl | ⟨i, rfl, rfl⟩ | ⟨i, rfl, rfl⟩ <;> rfl

/-- An integer of up to fifty-three bits is the same number as the double that it is rounded to. -/
theorem scaled?_eq_of_roundsTo {v w : Value} (h : v.RoundsTo w)
    (range : ∀ i : Int64, v = .int i → i.toInt.natAbs ≤ 2 ^ 53) : v.scaled? = w.scaled? := by
  obtain ⟨i, rfl, rfl⟩ := h
  have exact := Double.scaled_ofInt (range i rfl)
  have number : (Double.ofInt i.toInt).isNaN = false :=
    Double.isNaN_of_isFinite (Double.isFinite_ofInt (Nat.lt_of_le_of_lt (range i rfl) (by decide)))
  simp only [scaled?, number, exact, Bool.false_eq_true, if_false]

namespace Conflates

variable {k u v w : Value}

theorem agrees (h : k.Conflates v w) :
    k.agrees v = true ∧ k.agrees w = true ∧ v.agrees w = false := by
  obtain ⟨a, b, rfl, rfl, other, rfl, same⟩ := h
  simp [Value.agrees, other, same]

theorem ne (h : k.Conflates v w) : v ≠ w ∧ k ≠ v ∧ k ≠ w := by
  obtain ⟨a, b, rfl, rfl, other, rfl, -⟩ := h
  simp [other]

theorem agrees_of_widened_eq (h : k.Conflates v w) (same : u.widened = k.widened) :
    k.agrees u = true := by
  obtain ⟨a, b, rfl, rfl, other, rfl, -⟩ := h
  cases u <;> simp_all [Value.agrees, widened]

theorem eq_or_eq (h : k.Conflates v w) (agrees : u.agrees w = true) : u = w ∨ u = k := by
  obtain ⟨a, b, rfl, rfl, other, rfl, same⟩ := h
  cases u <;> simp_all [Value.agrees]

/-- Integers that are conflated are not both of up to fifty-three bits. -/
theorem beyond {a b : Int64} (h : k.Conflates (.int a) (.int b)) :
    2 ^ 53 < a.toInt.natAbs ∨ 2 ^ 53 < b.toInt.natAbs := by
  obtain ⟨a', b', ha, hb, other, -, same⟩ := h
  cases ha
  cases hb
  by_contra within
  rw [not_or, Nat.not_lt, Nat.not_lt] at within
  exact other (Int64.toInt_inj.1 (Double.ofInt_inj within.1 within.2 same))

end Conflates

/-- Values that agree with one value agree with each other, unless it conflates them. -/
theorem agrees_or_conflates {k v w : Value} (hv : k.agrees v = true) (hw : k.agrees w = true) :
    v.agrees w = true ∨ k.Conflates v w := by
  rcases agrees_iff.1 hv with rfl | ⟨a, rfl, rfl⟩ | ⟨a, rfl, rfl⟩
  · exact .inl hw
  · rcases agrees_iff.1 hw with rfl | ⟨b, same, rfl⟩ | ⟨b, rfl, absurd⟩
    · exact .inl (agrees_comm .. ▸ hv)
    · exact .inl (Value.int.inj same ▸ agrees_self _)
    · cases absurd
  · rcases agrees_iff.1 hw with rfl | ⟨b, absurd, _⟩ | ⟨b, rfl, same⟩
    · exact .inl (agrees_comm .. ▸ hv)
    · cases absurd
    · by_cases equal : a = b
      · exact .inl (equal ▸ agrees_self _)
      · exact .inr ⟨a, b, rfl, rfl, equal, rfl, Value.float.inj same⟩

theorem agrees_trans_iff {u v w : Value} (h : u.agrees v = true) (h' : v.agrees w = true) :
    u.agrees w = true ↔ ¬v.Conflates u w := by
  refine ⟨fun agrees conflates => ?_, (agrees_or_conflates (agrees_comm u v ▸ h) h').resolve_right⟩
  rw [conflates.agrees.2.2] at agrees
  cases agrees

/-! ## Tables of values -/

/-- Whether a hash table holds a value that agrees with this one. -/
def isFound (hash : Value → UInt64) (kept : List Value) (v : Value) : Bool :=
  kept.any fun k => hash k.widened == hash v.widened && k.agrees v

/-- The hash table into which the values of a list were put one after the other. -/
def collected (hash : Value → UInt64) (vs : List Value) : List Value :=
  vs.foldl (fun kept v => if isFound hash kept v then kept else kept ++ [v]) []

/-- Two hash tables have as many values, and what one holds is found in the other. -/
def SameSet (hash : Value → UInt64) (kept kept' : List Value) : Prop :=
  kept.length = kept'.length ∧ ∀ k ∈ kept, isFound hash kept' k = true

variable {vs vs' : List Value}

theorem isFound_eq (hash : Value → UInt64) (kept : List Value) (v : Value) :
    isFound hash kept v = kept.any fun k => k.agrees v := by
  refine List.any_congr rfl fun k => ?_
  cases h : k.agrees v
  · exact Bool.and_false _
  · rw [widened_eq_of_agrees h, beq_self_eq_true, Bool.true_and]

theorem collected_eq (hash : Value → UInt64) (vs : List Value) :
    collected hash vs = distinct vs := by
  simp only [collected, distinct, isFound_eq]

theorem distinct_starts (vs ws : List Value) : distinct vs <+: distinct (vs ++ ws) := by
  induction ws using List.reverseRecOn with
  | nil => rw [List.append_nil]
  | append_singleton ws w ih =>
    rw [← List.append_assoc, distinct_append_singleton]
    split
    · exact ih
    · exact ih.trans (List.prefix_append _ _)

/-- What is put in first is kept. -/
theorem mem_distinct_cons (v : Value) (vs : List Value) : v ∈ distinct (v :: vs) :=
  (distinct_starts [v] vs).subset (List.mem_singleton_self v)

theorem distinct_cons_of_agrees {k : Value} (all : ∀ v ∈ vs, k.agrees v = true) :
    distinct (k :: vs) = [k] := by
  induction vs using List.reverseRecOn with
  | nil => rfl
  | append_singleton vs v ih =>
    rw [← List.cons_append, distinct_append_singleton,
      ih fun v hv => all v (List.mem_append_left _ hv)]
    exact if_pos (by simpa using all v (by simp))

/-- Values of which agreement knows nothing else are kept or left out among themselves. -/
theorem distinct_filter {p : Value → Bool} (respects : ∀ k v : Value, k.agrees v = true → p k = p v)
    (vs : List Value) : (distinct vs).filter p = distinct (vs.filter p) := by
  induction vs using List.reverseRecOn with
  | nil => rfl
  | append_singleton vs v ih =>
    rw [distinct_append_singleton, List.filter_append]
    by_cases hv : p v = true
    · have same : ((distinct vs).filter p).any (fun k => k.agrees v) =
          (distinct vs).any fun k => k.agrees v := by
        rw [List.any_filter]
        refine List.any_congr rfl fun k => ?_
        cases h : k.agrees v
        · exact Bool.and_false _
        · rw [respects k v h, hv, Bool.true_and]
      rw [List.filter_singleton, hv, cond_true, distinct_append_singleton, ← ih, same,
        apply_ite (List.filter p), List.filter_append, List.filter_singleton, hv, cond_true]
    · rw [List.filter_singleton, Bool.eq_false_iff.2 hv, cond_false, List.append_nil, ← ih,
        apply_ite (List.filter p), List.filter_append, List.filter_singleton,
        Bool.eq_false_iff.2 hv, cond_false, List.append_nil, ite_self]

theorem nodup_distinct (vs : List Value) : (distinct vs).Nodup :=
  (pairwise_distinct vs).imp fun apart same => by
    rw [same, agrees_self] at apart
    cases apart

/-- A value that is kept agrees with no other that is. -/
theorem eq_of_agrees_distinct {k k' : Value} (hk : k ∈ distinct vs) (hk' : k' ∈ distinct vs)
    (h : k.agrees k' = true) : k = k' := by
  by_contra other
  have : Std.Symm fun k k' : Value => k.agrees k' = false :=
    ⟨fun v w apart => agrees_comm v w ▸ apart⟩
  have apart := (pairwise_distinct vs).forall hk hk' other
  rw [h] at apart
  cases apart

/-- Where agreement is transitive, more values are no fewer distinct ones. -/
theorem length_distinct_le (sub : vs ⊆ vs')
    (transitive : ∀ u ∈ vs, ∀ v ∈ vs', ∀ w ∈ vs, u.agrees v = true →
      v.agrees w = true → u.agrees w = true) :
    (distinct vs).length ≤ (distinct vs').length := by
  have partner : ∀ k, ∃ k', k ∈ distinct vs → k' ∈ distinct vs' ∧ k'.agrees k = true := fun k => by
    by_cases hk : k ∈ distinct vs
    · obtain ⟨k', hk', agrees⟩ := exists_mem_distinct (sub (mem_of_mem_distinct hk))
      exact ⟨k', fun _ => ⟨hk', agrees⟩⟩
    · exact ⟨k, fun h => absurd h hk⟩
  choose f hf using partner
  -- Two values with one partner agree by way of it, and so they are one.
  have nodup : ((distinct vs).map f).Nodup := (nodup_distinct vs).map_on fun k hk l hl same => by
    obtain ⟨kept, left⟩ := hf k hk
    have right := (hf l hl).2
    refine eq_of_agrees_distinct hk hl ?_
    exact transitive k (mem_of_mem_distinct hk) (f k) (mem_of_mem_distinct kept) l
      (mem_of_mem_distinct hl) (agrees_comm .. ▸ left) (same ▸ right)
  have kept : (distinct vs).map f ⊆ distinct vs' := by
    intro k' hk'
    obtain ⟨k, hk, rfl⟩ := List.mem_map.1 hk'
    exact (hf k hk).1
  exact List.length_map f ▸ (nodup.subperm kept).length_le

/-! ## The order of insertion -/

/-- Among the values of a list is a double that conflates two others. -/
def Conflated (vs : List Value) : Prop := ∃ k ∈ vs, ∃ v ∈ vs, ∃ w ∈ vs, k.Conflates v w

/-- Among the values of a list is a double that conflates another one with this value,
which is not among them. -/
def Ambiguous (vs : List Value) (w : Value) : Prop := w ∉ vs ∧ ∃ k ∈ vs, ∃ v ∈ vs, k.Conflates v w

/-- The values of a list, in an order that starts with some of them. -/
theorem exists_perm_append {first : List Value} (nodup : first.Nodup) (sub : first ⊆ vs) :
    ∃ rest, vs.Perm (first ++ rest) := by
  obtain ⟨l, same, sub⟩ := nodup.subperm sub
  obtain ⟨rest, perm⟩ := sub.exists_perm_append
  exact ⟨rest, perm.trans (same.append_right rest)⟩

/-- If the double comes first, it stands for the integers that it conflates; if it comes
after them, they are kept. -/
theorem Conflates.length_distinct_lt {k v w : Value} (h : k.Conflates v w) (rest : List Value) :
    (distinct (k :: v :: w :: rest)).length < (distinct (v :: w :: k :: rest)).length := by
  obtain ⟨left, right, apart⟩ := h.agrees
  -- Count apart those that are the same as the double to a hash table.
  let alike : Value → Bool := fun u => decide (u.widened = k.widened)
  have respects (u v : Value) (agrees : u.agrees v = true) : alike u = alike v := by
    simp only [alike, widened_eq_of_agrees agrees]
  have others (u v : Value) (agrees : u.agrees v = true) : (!alike u) = !alike v := by
    rw [respects u v agrees]
  have hk : alike k = true := decide_eq_true rfl
  have hv : alike v = true := respects k v left ▸ hk
  have hw : alike w = true := respects k w right ▸ hk
  have one : distinct (k :: v :: w :: rest.filter alike) = [k] :=
    distinct_cons_of_agrees fun u hu => by
      refine h.agrees_of_widened_eq (of_decide_eq_true (?_ : alike u = true))
      rcases List.mem_cons.1 hu with rfl | hu
      · exact hv
      rcases List.mem_cons.1 hu with rfl | hu
      · exact hw
      · exact (List.mem_filter.1 hu).2
  have two : 2 ≤ (distinct (v :: w :: k :: rest.filter alike)).length := by
    have kept : distinct [v, w] = [v, w] := by simp [distinct, apart]
    have longer := (distinct_starts [v, w] (k :: rest.filter alike)).length_le
    rw [kept] at longer
    exact longer
  rw [List.length_eq_length_filter_add (l := distinct (k :: v :: w :: rest)) alike,
    List.length_eq_length_filter_add (l := distinct (v :: w :: k :: rest)) alike,
    distinct_filter respects, distinct_filter respects, distinct_filter others,
    distinct_filter others]
  simp only [List.filter_cons, hk, hv, hw, if_true, Bool.not_true, Bool.false_eq_true, if_false,
    one, List.length_singleton]
  exact Nat.add_lt_add_right two _

theorem sameSet_iff (hash : Value → UInt64) (vs : List Value) :
    (∀ vs', vs.Perm vs' → SameSet hash (collected hash vs) (collected hash vs')) ↔
    ¬Conflated vs := by
  simp only [SameSet, isFound_eq, collected_eq]
  refine ⟨fun all ⟨k, hk, v, hv, w, hw, conflates⟩ => ?_,
    fun apart vs' perm => ⟨Nat.le_antisymm ?_ ?_, fun k hk => ?_⟩⟩
  · obtain ⟨differ, kv, kw⟩ := conflates.ne
    obtain ⟨rest, perm⟩ : ∃ rest, vs.Perm ([k, v, w] ++ rest) :=
      exists_perm_append (by simp [differ, kv, kw]) (by simp [hk, hv, hw])
    have last : (k :: v :: w :: rest).Perm (v :: w :: k :: rest) :=
      (List.Perm.swap v k _).trans ((List.Perm.swap w k _).cons v)
    have same := (all _ perm).1.symm.trans (all _ (perm.trans last)).1
    exact absurd same (Nat.ne_of_lt (conflates.length_distinct_lt rest))
  · exact length_distinct_le perm.subset fun u hu v hv w hw h h' =>
      (agrees_trans_iff h h').2 fun conflates =>
        apart ⟨v, perm.symm.subset hv, u, hu, w, hw, conflates⟩
  · exact length_distinct_le perm.symm.subset fun u hu v hv w hw h h' =>
      (agrees_trans_iff h h').2 fun conflates =>
        apart ⟨v, hv, u, perm.symm.subset hu, w, perm.symm.subset hw, conflates⟩
  · obtain ⟨k', hk', agrees⟩ := exists_mem_distinct (perm.subset (mem_of_mem_distinct hk))
    exact List.any_eq_true.2 ⟨k', hk', agrees⟩

/-- A value is found if one of the list agrees with it. -/
theorem any_distinct_iff {w : Value} (apart : ¬Ambiguous vs w) :
    ((distinct vs).any fun k => k.agrees w) = true ↔ ∃ v ∈ vs, v.agrees w = true := by
  refine ⟨fun found => ?_, fun ⟨v, hv, agrees⟩ => ?_⟩
  · obtain ⟨k, hk, agrees⟩ := List.any_eq_true.1 found
    exact ⟨k, mem_of_mem_distinct hk, agrees⟩
  · by_cases member : w ∈ vs
    · exact List.any_eq_true.2 (exists_mem_distinct member)
    · obtain ⟨k, hk, agrees'⟩ := exists_mem_distinct hv
      refine List.any_eq_true.2 ⟨k, hk,
        (agrees_trans_iff agrees' agrees).2 fun conflates => apart ?_⟩
      exact ⟨member, v, hv, k, mem_of_mem_distinct hk, conflates⟩

theorem isFound_iff (hash : Value → UInt64) (vs : List Value) (w : Value) :
    (∀ vs', vs.Perm vs' → isFound hash (collected hash vs') w =
      isFound hash (collected hash vs) w) ↔ ¬Ambiguous vs w := by
  simp only [isFound_eq, collected_eq]
  refine ⟨fun all ⟨member, k, hk, v, hv, conflates⟩ => ?_, fun apart vs' perm => ?_⟩
  · obtain ⟨left, right, -⟩ := conflates.agrees
    have kv := conflates.ne.2.1
    obtain ⟨rest, perm⟩ : ∃ rest, vs.Perm ([k, v] ++ rest) :=
      exists_perm_append (by simp [kv]) (by simp [hk, hv])
    have swapped := perm.trans (List.Perm.swap v k rest)
    have found : ((distinct (k :: v :: rest)).any fun u => u.agrees w) = true :=
      List.any_eq_true.2 ⟨k, mem_distinct_cons k _, right⟩
    have missed : ((distinct (v :: k :: rest)).any fun u => u.agrees w) = false :=
      List.any_eq_false.2 fun u hu agrees => by
        rcases conflates.eq_or_eq agrees with rfl | rfl
        · exact member (swapped.symm.subset (mem_of_mem_distinct hu))
        · exact kv (eq_of_agrees_distinct hu (mem_distinct_cons v _) left)
    have same := (all _ perm).trans (all _ swapped).symm
    simp only [List.cons_append, List.nil_append, found, missed, Bool.true_eq_false] at same
  · have apart' : ¬Ambiguous vs' w := fun ⟨member, k, hk, v, hv, conflates⟩ =>
      apart ⟨fun h => member (perm.subset h), k, perm.symm.subset hk, v,
        perm.symm.subset hv, conflates⟩
    rw [Bool.eq_iff_iff, any_distinct_iff apart, any_distinct_iff apart']
    simp only [perm.mem_iff]

/-- Agreement is reflexive and symmetric, and values that agree are the same to a hash table. It is
transitive unless the value in the middle conflates the others. The distinct values of a list are
the same for every order of insertion unless one of them conflates two others, and so is the answer
to whether a value is found unless it is conflated with one of them. Nothing is conflated as long as
all integers have up to fifty-three bits. -/
theorem equivalence_unless_conflated (hash : Value → UInt64) :
    (∀ v : Value, v.agrees v = true) ∧ (∀ v w : Value, v.agrees w = w.agrees v) ∧
      (∀ v w : Value, v.agrees w = true → v.widened = w.widened) ∧
      (∀ u v w : Value, u.agrees v = true → v.agrees w = true →
        (u.agrees w = true ↔ ¬v.Conflates u w)) ∧
      (∀ vs, (∀ vs', vs.Perm vs' → SameSet hash (collected hash vs) (collected hash vs')) ↔
        ¬Conflated vs) ∧
      (∀ vs w,
        (∀ vs', vs.Perm vs' → isFound hash (collected hash vs') w =
          isFound hash (collected hash vs) w) ↔
        ¬Ambiguous vs w) ∧
      ∀ (k : Value) (a b : Int64), k.Conflates (.int a) (.int b) →
        2 ^ 53 < a.toInt.natAbs ∨ 2 ^ 53 < b.toInt.natAbs :=
  ⟨agrees_self, agrees_comm, fun _ _ => widened_eq_of_agrees, fun _ _ _ => agrees_trans_iff,
    sameSet_iff hash, isFound_iff hash, fun _ _ _ => Conflates.beyond⟩

/-- The double 2^53 conflates 2^53 and its successor: with all three the number of distinct values,
and with two of them whether the third is found, depends on the order of insertion. -/
theorem equivalence_unless_conflated_successor :
    let k : Value := .float ⟨0x4340000000000000⟩
    let v : Value := .int 9007199254740992
    let w : Value := .int 9007199254740993
    (v.agrees k = true ∧ k.agrees w = true ∧ v.agrees w = false) ∧ Conflated [v, k, w] ∧
      (¬∀ vs', [v, k, w].Perm vs' →
        SameSet (fun _ => 0) (collected (fun _ => 0) [v, k, w]) (collected (fun _ => 0) vs')) ∧
      ((distinct [v, k, w]).length = 2 ∧ (distinct [k, v, w]).length = 1) ∧
      ¬∀ vs', [v, k].Perm vs' →
        isFound (fun _ => 0) (collected (fun _ => 0) vs') w =
          isFound (fun _ => 0) (collected (fun _ => 0) [v, k]) w := by
  intro k v w
  have conflates : k.Conflates v w :=
    ⟨9007199254740992, 9007199254740993, rfl, rfl, by decide, by decide +kernel, by decide +kernel⟩
  have conflated : Conflated [v, k, w] := ⟨k, by simp, v, by simp, w, by simp, conflates⟩
  have ambiguous : Ambiguous [v, k] w := ⟨by decide +kernel, k, by simp, v, by simp, conflates⟩
  obtain ⟨-, -, -, -, tables, found, -⟩ := equivalence_unless_conflated fun _ => 0
  exact ⟨by decide +kernel, conflated, fun all => (tables [v, k, w]).1 all conflated,
    ⟨by decide +kernel, by decide +kernel⟩, fun all => (found [v, k] w).1 all ambiguous⟩

end Value

/-! ## Queries that count as identical -/

theorem Parameters.agrees_iff {ps qs : Parameters} :
    ps.agrees qs = true ↔
    List.Forall₂ (fun p q => p.1 = q.1 ∧ p.2.agrees q.2 = true) ps.entries qs.entries := by
  rw [agrees, Bool.and_eq_true, decide_eq_true_eq, List.all_eq_true, List.forall₂_iff_zip]
  refine and_congr_right fun _ => ⟨fun h p q hpq => ?_, fun h pq hpq => ?_⟩
  · simpa using h (p, q) hpq
  · simpa using h hpq

namespace BoundSql

/-- What the digest of a query is taken of. -/
def widened (q : BoundSql) : BoundSql :=
  ⟨q.sql, ⟨q.parameters.entries.map fun p => (p.1, p.2.widened)⟩⟩

/-- Whether two queries have one key: the same digest and the same text, and
parameters that agree. -/
def sameKey (digest : BoundSql → UInt64) (a b : BoundSql) : Bool :=
  digest a.widened == digest b.widened && a.agrees b

variable {a b : BoundSql}

theorem agrees_iff : a.agrees b = true ↔
    a.sql = b.sql ∧ List.Forall₂ (fun p q => p.1 = q.1 ∧ p.2.agrees q.2 = true) a.parameters.entries
      b.parameters.entries := by
  rw [agrees, Bool.and_eq_true, decide_eq_true_eq, Parameters.agrees_iff]

theorem widened_eq_of_agrees (h : a.agrees b = true) : a.widened = b.widened := by
  obtain ⟨sql, entries⟩ := agrees_iff.1 h
  have same : a.parameters.entries.map (fun p => (p.1, p.2.widened)) =
      b.parameters.entries.map fun p => (p.1, p.2.widened) := by
    refine List.forall₂_eq_eq_eq ▸
      List.forall₂_map_left_iff.2 (List.forall₂_map_right_iff.2 (entries.imp fun p q h => ?_))
    exact Prod.ext h.1 (Value.widened_eq_of_agrees h.2)
  rw [widened, widened, sql, same]

/-- The digest decides nothing that the text and the parameters do not. -/
theorem sameKey_eq (digest : BoundSql → UInt64) (a b : BoundSql) :
    a.sameKey digest b = a.agrees b := by
  cases h : a.agrees b
  · rw [sameKey, h, Bool.and_false]
  · rw [sameKey, h, widened_eq_of_agrees h, beq_self_eq_true, Bool.true_and]

/-- At one place one query binds an integer, and the other the double that it is rounded to. -/
def Blurs (a b : BoundSql) : Prop :=
  ∃ pq ∈ a.parameters.entries.zip b.parameters.entries, pq.1.2.RoundsTo pq.2.2 ∨
    pq.2.2.RoundsTo pq.1.2

theorem eq_iff_of_agrees (h : a.agrees b = true) : a = b ↔ ¬a.Blurs b := by
  obtain ⟨sql, entries⟩ := agrees_iff.1 h
  refine ⟨?_, fun clear => ?_⟩
  · rintro rfl ⟨pq, member, blurred⟩
    rw [List.zip, List.zipWith_self] at member
    obtain ⟨p, _, rfl⟩ := List.mem_map.1 member
    exact p.2.not_roundsTo_self (or_self_iff.1 blurred)
  · obtain ⟨length, each⟩ := List.forall₂_iff_zip.1 entries
    have same : a.parameters.entries = b.parameters.entries := by
      refine List.forall₂_eq_eq_eq ▸ List.forall₂_iff_zip.2 ⟨length, fun {p q} member => ?_⟩
      obtain ⟨name, value⟩ := each member
      exact Prod.ext name ((Value.agrees_iff.1 value).resolve_right fun blurred =>
        clear ⟨(p, q), member, blurred⟩)
    obtain ⟨sqlA, ⟨entriesA⟩⟩ := a
    obtain ⟨sqlB, ⟨entriesB⟩⟩ := b
    exact congrArg₂ _ sql (congrArg _ same)

/-- The numbers that a query binds, none for what is not a number. -/
def numbers (q : BoundSql) : List (Option Int) := q.parameters.entries.map fun p => p.2.scaled?

/-- All integers that a query binds have up to fifty-three bits. -/
def Narrow (q : BoundSql) : Prop := ∀ p ∈ q.parameters.entries,
  ∀ i : Int64, p.2 = .int i → i.toInt.natAbs ≤ 2 ^ 53

theorem numbers_eq_of_agrees (h : a.agrees b = true) (ha : a.Narrow) (hb : b.Narrow) :
    a.numbers = b.numbers := by
  obtain ⟨length, each⟩ := List.forall₂_iff_zip.1 (agrees_iff.1 h).2
  refine List.forall₂_eq_eq_eq ▸ List.forall₂_map_left_iff.2 (List.forall₂_map_right_iff.2 ?_)
  refine List.forall₂_iff_zip.2 ⟨length, fun {p q} member => ?_⟩
  obtain ⟨left, right⟩ := List.of_mem_zip member
  rcases Value.agrees_iff.1 (each member).2 with same | rounds | rounds
  · rw [same]
  · exact Value.scaled?_eq_of_roundsTo rounds (ha p left)
  · exact (Value.scaled?_eq_of_roundsTo rounds (hb q right)).symm

/-- Queries of one key have the same text and bind the same names in the same order, each to the
same value, or to an integer in one query and to the double that it is rounded to in the other; they
are the same query only if none is bound so. If all integers have up to fifty-three bits, the
numbers that they bind are the same. -/
theorem sameKey_iff (digest : BoundSql → UInt64) (a b : BoundSql) :
    (a.sameKey digest b = true ↔ a.sql = b.sql ∧
      List.Forall₂ (fun p q => p.1 = q.1 ∧ (p.2 = q.2 ∨ p.2.RoundsTo q.2 ∨ q.2.RoundsTo p.2))
        a.parameters.entries b.parameters.entries) ∧
      (a.sameKey digest b = true → (a = b ↔ ¬a.Blurs b)) ∧
      (a.sameKey digest b = true → a.Narrow → b.Narrow → a.numbers = b.numbers) := by
  simp only [sameKey_eq]
  refine ⟨?_, eq_iff_of_agrees, numbers_eq_of_agrees⟩
  simp only [agrees_iff, Value.agrees_iff]

/-- A query for the successor of 2^53 and one for the double 2^53 have one key, and are neither one
query nor for one number. -/
theorem sameKey_iff_successor :
    let a : BoundSql := ⟨"SELECT 1", ⟨[("@p0", .int 9007199254740993)]⟩⟩
    let b : BoundSql := ⟨"SELECT 1", ⟨[("@p0", .float ⟨0x4340000000000000⟩)]⟩⟩
    a.sameKey (fun _ => 0) b = true ∧ a.Blurs b ∧ a ≠ b ∧ a.numbers ≠ b.numbers := by
  intro a b
  have rounds : (Value.int 9007199254740993).RoundsTo (.float ⟨0x4340000000000000⟩) :=
    ⟨9007199254740993, rfl, by decide +kernel⟩
  obtain ⟨same, apart, -⟩ := sameKey_iff (fun _ => 0) a b
  have key : a.sameKey (fun _ => 0) b = true := same.2 ⟨rfl, .cons ⟨rfl, .inr (.inl rounds)⟩ .nil⟩
  have blurs : a.Blurs b := ⟨_, List.mem_singleton_self _, .inl rounds⟩
  exact ⟨key, blurs, fun equal => (apart key).1 equal blurs, by decide +kernel⟩

end BoundSql

end DocStore

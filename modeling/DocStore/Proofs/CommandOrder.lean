import DocStore.Command
import Mathlib.Data.List.Perm.Basic

/-!
# The order of commands

`Command.inOrder` is the stable ordering by priority: it keeps every command,
sorts them, and leaves the commands of one priority as they stand.
-/

set_option autoImplicit false

namespace DocStore

/-- A list that is a permutation of the images of another is the image of a permutation of it. -/
theorem exists_map_of_perm {α β : Type} {f : α → β} {ys : List β} {xs : List α}
    (perm : ys.Perm (xs.map f)) : ∃ zs : List α, zs.map f = ys ∧ zs.Perm xs := by
  have images : List.Forall₂ (fun y x => y = f x) (xs.map f) xs :=
    List.forall₂_map_left_iff.2 (List.forall₂_same.2 fun _ _ => rfl)
  obtain ⟨zs, same, perm⟩ := List.perm_comp_forall₂ perm images
  have equal : List.Forall₂ (· = ·) ys (zs.map f) := List.forall₂_map_right_iff.2 same
  rw [List.forall₂_eq_eq_eq] at equal
  exact ⟨zs, equal.symm, perm⟩

namespace Command

theorem priority_lt (c : Command) : c.priority < 7 := by
  cases c <;> simp [priority]

/-- The commands below a priority, sorted. -/
theorem perm_flatMap_range (n : Nat) (cs : List Command) :
    ((List.range n).flatMap fun p => cs.filter fun c => c.priority = p).Perm
      (cs.filter fun c => c.priority < n) := by
  induction n with
  | zero => simp
  | succ n ih =>
    rw [List.range_succ, List.flatMap_append, List.flatMap_singleton]
    refine (ih.append_right _).trans ?_
    have parts := List.filter_append_perm (fun c : Command => decide (c.priority < n))
      (cs.filter fun c => c.priority < n + 1)
    have below : (cs.filter fun c => decide (c.priority < n) && decide (c.priority < n + 1)) =
        cs.filter fun c => c.priority < n :=
      List.filter_congr fun c _ => by rw [Bool.eq_iff_iff]; simp; omega
    have here : (cs.filter fun c => !decide (c.priority < n) && decide (c.priority < n + 1)) =
        cs.filter fun c => c.priority = n :=
      List.filter_congr fun c _ => by rw [Bool.eq_iff_iff]; simp; omega
    rwa [List.filter_filter, List.filter_filter, below, here] at parts

/-- Nothing is lost and nothing is doubled. -/
theorem inOrder_perm (cs : List Command) : (inOrder cs).Perm cs := by
  have all : (cs.filter fun c => c.priority < 7) = cs :=
    List.filter_eq_self.2 fun c _ => by simp [priority_lt c]
  have perm := perm_flatMap_range 7 cs
  rwa [all] at perm

theorem mem_inOrder_iff {c : Command} {cs : List Command} : c ∈ inOrder cs ↔ c ∈ cs :=
  (inOrder_perm cs).mem_iff

/-- No command stands behind one of higher priority number. -/
theorem pairwise_inOrder (cs : List Command) :
    (inOrder cs).Pairwise fun c c' => c.priority ≤ c'.priority := by
  unfold inOrder
  rw [List.pairwise_flatMap]
  refine ⟨fun p _ => ?_, ?_⟩
  · refine List.pairwise_of_forall_mem_list fun c hc c' hc' => ?_
    simp only [List.mem_filter, decide_eq_true_eq] at hc hc'
    omega
  · refine List.pairwise_lt_range.imp fun {p q} lt c hc c' hc' => ?_
    simp only [List.mem_filter, decide_eq_true_eq] at hc hc'
    omega

theorem filter_flatMap_range (n p : Nat) (cs : List Command) :
    (((List.range n).flatMap fun q => cs.filter fun c => c.priority = q).filter fun c =>
        c.priority = p) =
      if p < n then cs.filter fun c => c.priority = p else [] := by
  induction n with
  | zero => rfl
  | succ n ih =>
    rw [List.range_succ, List.flatMap_append, List.flatMap_singleton, List.filter_append, ih,
      List.filter_filter]
    by_cases here : p = n
    · subst here
      simp
    · have none : (cs.filter fun c => decide (c.priority = p) && decide (c.priority = n)) = [] :=
        List.filter_eq_nil_iff.2 fun c _ => by simp; omega
      rw [none, List.append_nil]
      have : p < n + 1 ↔ p < n := by omega
      simp only [this]

/-- The commands of one priority keep their order. -/
theorem filter_inOrder (cs : List Command) (p : Nat) :
    ((inOrder cs).filter fun c => c.priority = p) = cs.filter fun c => c.priority = p := by
  rw [inOrder, filter_flatMap_range]
  split
  · rfl
  · next high =>
    refine (List.filter_eq_nil_iff.2 fun c _ => ?_).symm
    have low := priority_lt c
    simp only [decide_eq_true_eq]
    omega

end Command

end DocStore

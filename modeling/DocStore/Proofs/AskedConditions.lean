import DocStore.Proofs.Conjunctions

/-!
# Conditions asked one after another

An index that is joined again keeps its place, and its conditions are joined by a
logical and. So a query joins each index once, and all of its conditions are true
where all that have been asked are, though it compiles fewer of them.
-/

set_option autoImplicit false

namespace DocStore

namespace Expr

mutual

/-- What has a value without arguments reads none. -/
theorem captures_of_evaluate : (e : Expr) → ∀ {v : Value}, e.evaluate none = .ok v → e.captures = []
  | .const _, _, _ | .member _, _, _ => by simp only [captures]
  | .capture _, _, h => by cases h
  | .unary _ e, _, h | .convert e _, _, h => by
    simp only [evaluate] at h
    obtain ⟨_, value, _⟩ := bind_eq_ok_iff.1 h
    simp only [captures, captures_of_evaluate e value]
  | .binary _ l r, _, h => by
    simp only [evaluate] at h
    obtain ⟨_, left, h⟩ := bind_eq_ok_iff.1 h
    obtain ⟨_, right, _⟩ := bind_eq_ok_iff.1 h
    simp only [captures, captures_of_evaluate l left, captures_of_evaluate r right, List.append_nil]
  | .call _ es, _, h => by
    simp only [evaluate] at h
    obtain ⟨_, values, _⟩ := bind_eq_ok_iff.1 h
    simp only [captures, capturesOf_of_evaluateAll es values]
  | .inQuery _ _ _ _ _, _, h => by
    simp only [evaluate] at h
    obtain ⟨_, _, h⟩ := bind_eq_ok_iff.1 h
    cases h

theorem capturesOf_of_evaluateAll :
    (es : List Expr) → ∀ {vs : List Value}, evaluateAll none es = .ok vs →
    capturesOf es = []
  | [], _, _ => by simp only [capturesOf]
  | e :: es, _, h => by
    simp only [evaluateAll] at h
    obtain ⟨_, value, h⟩ := bind_eq_ok_iff.1 h
    obtain ⟨_, values, _⟩ := bind_eq_ok_iff.1 h
    simp only [capturesOf, captures_of_evaluate e value, capturesOf_of_evaluateAll es values,
      List.append_nil]

end

variable {t : Target} {bs : List Binding} (b : Backend) (s : Scope)

end Expr

namespace DocumentQuery

/-- The query that asks for conditions on the rows of indexes, one after another. -/
def asking (entity : EntityType) (collection : String) (asks : List (IndexType × Expr)) :
    DocumentQuery :=
  asks.foldl (fun q ask => q.join ask.1 ask.2) (ofEntity entity collection)

section JoinEntry

variable {index : String} {e : Expr} {joins : List (String × Expr)}

theorem mem_names_joinEntry_iff {name : String} :
    name ∈ (joinEntry index e joins).map Prod.fst ↔ name = index ∨ name ∈ joins.map Prod.fst := by
  induction joins with
  | nil => simp [joinEntry]
  | cons j joins ih =>
    simp only [joinEntry]
    split
    · next same => simp [same]
    · rw [List.map_cons, List.mem_cons, ih, List.map_cons, List.mem_cons, or_left_comm]

theorem nodup_joinEntry (nodup : (joins.map Prod.fst).Nodup) :
    ((joinEntry index e joins).map Prod.fst).Nodup := by
  induction joins with
  | nil => simp [joinEntry]
  | cons j joins ih =>
    obtain ⟨fresh, rest⟩ := List.nodup_cons.1 nodup
    simp only [joinEntry]
    split
    · next same =>
      subst same
      exact nodup
    · next other =>
        exact List.nodup_cons.2 ⟨mt mem_names_joinEntry_iff.1 (not_or.2 ⟨other, fresh⟩), ih rest⟩

end JoinEntry

variable {entity : EntityType} {collection : String} {asks : List (IndexType × Expr)}

theorem asking_concat (ask : IndexType × Expr) :
    asking entity collection (asks ++ [ask]) =
    (asking entity collection asks).join ask.1 ask.2 := by
  rw [asking, List.foldl_append]
  rfl

theorem nodup_asking : ((asking entity collection asks).joins.map Prod.fst).Nodup := by
  induction asks using List.reverseRecOn with
  | nil => exact List.nodup_nil
  | append_singleton asks ask ih =>
    rw [asking_concat]
    exact nodup_joinEntry ih

end DocumentQuery

end DocStore

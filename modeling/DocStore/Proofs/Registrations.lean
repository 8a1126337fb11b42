import DocStore.Proofs.Running
import Mathlib.Data.List.Nodup

/-!
# Descriptors that were collected

What is collected for an entity type is checked one by one, whichever descriptors
are turned down in between: all are of the type, no two of one index, and what
reduces has a group column that its index declares.
-/

set_option autoImplicit false

namespace DocStore

/-- A descriptor that reduces has one of the columns of its index as its group column. -/
def Descriptor.Grouped (d : Descriptor) : Prop :=
  d.kind = .reduce → ∃ c ∈ d.index.columns, d.groupColumn = some c.name

/-- Descriptors of an entity type, of which no two are of the same index and none reduces
without a group column. -/
structure Registered (entityType : String) (ds : List Descriptor) : Prop where
  entity : ∀ d ∈ ds, d.entity.name = entityType
  distinct : (ds.map fun d => d.index.name).Nodup
  grouped : ∀ d ∈ ds, d.Grouped

namespace Descriptor

variable {d : Descriptor}

theorem isSome_reduce (h : d.kind = .reduce) : d.reduce.isSome = true := by
  unfold kind at h
  split at h
  · assumption
  · cases h

theorem isSome_column?_iff {column : String} :
    (d.index.column? column).isSome = true ↔ ∃ c ∈ d.index.columns, c.name = column := by
  rw [IndexType.column?, List.isSome_find?, List.any_eq_true]
  simp only [decide_eq_true_eq]

theorem grouped_of_validate (valid : d.validate = .ok ()) : d.Grouped := by
  intro reduces
  unfold validate at valid
  split at valid
  · cases valid
  · next complete =>
    cases grouped : d.groupColumn with
    | none => exact absurd ⟨isSome_reduce reduces, grouped⟩ complete
    | some column =>
      rw [grouped] at valid
      dsimp only at valid
      split at valid
      · next declared =>
        obtain ⟨c, member, rfl⟩ := isSome_column?_iff.1 declared
        exact ⟨c, member, rfl⟩
      · cases valid

end Descriptor

namespace Describing

variable {ctx : Describing} {d : Descriptor} {ds : List Descriptor}

/-- A descriptor of the type that is complete is added, unless its index is described already. -/
theorem add_of_validate (same : d.entity.name = ctx.entityType)
    (valid : d.validate = .ok ()) : ctx.add d =
    if ctx.descriptors.any fun e => e.index.name = d.index.name then
      .error (.invariant (.describedTwice d.index.name d.entity.name))
    else .ok { ctx with descriptors := ctx.descriptors ++ [d] } := by
  unfold add
  rw [if_neg fun other => other same, valid]
  rfl

theorem validate_of_add {ctx' : Describing} (added : ctx.add d = .ok ctx')
    (same : d.entity.name = ctx.entityType) : d.validate = .ok () := by
  unfold add at added
  rw [if_neg fun other => other same] at added
  obtain ⟨_, valid, _⟩ := bind_eq_ok_iff.1 added
  exact valid

/-- Adds a descriptor, or leaves all as it is if that is turned down. -/
def tryAdd (ctx : Describing) (d : Descriptor) : Describing := (ctx.add d).toOption.getD ctx

/-- Adds descriptors one after another, whichever are turned down. -/
def addEach (ctx : Describing) (ds : List Descriptor) : Describing := ds.foldl tryAdd ctx

/-- A descriptor that passes the checks is added, and any other changes nothing. -/
theorem cases_of_tryAdd (ctx : Describing) (d : Descriptor) :
    (ctx.tryAdd d = { ctx with descriptors := ctx.descriptors ++ [d] } ∧
      d.entity.name = ctx.entityType ∧ d.validate = .ok () ∧
      ∀ e ∈ ctx.descriptors, e.index.name ≠ d.index.name) ∨
    ctx.tryAdd d = ctx ∧ (d.entity.name = ctx.entityType → d.validate = .ok () →
      ∃ e ∈ ctx.descriptors, e.index.name = d.index.name) := by
  unfold tryAdd
  by_cases same : d.entity.name = ctx.entityType
  · cases valid : d.validate with
    | error err =>
      refine .inr ⟨?_, fun _ impossible => by cases impossible⟩
      cases added : ctx.add d with
      | error err' => rfl
      | ok ctx' => cases valid.symm.trans (validate_of_add added same)
    | ok u =>
      rw [add_of_validate same valid]
      split
      · next known => exact .inr ⟨rfl, fun _ _ => by simpa using known⟩
      · next unknown => exact .inl ⟨rfl, same, rfl, by simpa using unknown⟩
  · refine .inr ⟨?_, fun impossible => absurd impossible same⟩
    rw [add, if_pos same]
    rfl

theorem entityType_tryAdd (ctx : Describing) (d : Descriptor) :
    (ctx.tryAdd d).entityType = ctx.entityType := by
  rcases cases_of_tryAdd ctx d with ⟨added, _⟩ | ⟨kept, _⟩
  · rw [added]
  · rw [kept]

/-- One descriptor more is checked against those before it. -/
theorem registered_tryAdd (h : Registered ctx.entityType ctx.descriptors) (d : Descriptor) :
    Registered ctx.entityType (ctx.tryAdd d).descriptors := by
  rcases cases_of_tryAdd ctx d with ⟨added, same, valid, unknown⟩ | ⟨kept, _⟩
  · rw [added]
    refine ⟨?_, ?_, ?_⟩
    · exact List.forall_mem_append.2 ⟨h.entity, List.forall_mem_singleton.2 same⟩
    · rw [List.map_append, List.nodup_append]
      refine ⟨h.distinct, List.nodup_singleton _, ?_⟩
      rintro _ known _ new rfl
      obtain ⟨e, he, names⟩ := List.mem_map.1 known
      exact unknown e he (names.trans (List.mem_singleton.1 new))
    · exact List.forall_mem_append.2 ⟨h.grouped,
        List.forall_mem_singleton.2 (Descriptor.grouped_of_validate valid)⟩
  · rwa [kept]

theorem subset_tryAdd (ctx : Describing) (d : Descriptor) :
    ctx.descriptors ⊆ (ctx.tryAdd d).descriptors := by
  rcases cases_of_tryAdd ctx d with ⟨added, _⟩ | ⟨kept, _⟩
  · rw [added]
    exact List.subset_append_left _ _
  · rw [kept]
    exact List.Subset.refl _

theorem described_tryAdd (same : d.entity.name = ctx.entityType) (valid : d.validate = .ok ()) :
    ∃ e ∈ (ctx.tryAdd d).descriptors, e.index.name = d.index.name := by
  rcases cases_of_tryAdd ctx d with ⟨added, _⟩ | ⟨kept, known⟩
  · rw [added]
    exact ⟨d, List.mem_append_right _ (List.mem_singleton_self d), rfl⟩
  · rw [kept]
    exact known same valid

theorem registered_addEach (h : Registered ctx.entityType ctx.descriptors) (ds : List Descriptor) :
    Registered ctx.entityType (ctx.addEach ds).descriptors := by
  induction ds generalizing ctx with
  | nil => exact h
  | cons d ds ih =>
    have next : Registered (ctx.tryAdd d).entityType (ctx.tryAdd d).descriptors := by
      rw [entityType_tryAdd]
      exact registered_tryAdd h d
    have rest := ih next
    rwa [entityType_tryAdd] at rest

theorem subset_addEach (ctx : Describing) (ds : List Descriptor) :
    ctx.descriptors ⊆ (ctx.addEach ds).descriptors := by
  induction ds generalizing ctx with
  | nil => exact List.Subset.refl _
  | cons d ds ih => exact List.Subset.trans (subset_tryAdd ctx d) (ih (ctx.tryAdd d))

/-- Every complete descriptor of the type has its index described in the end. -/
theorem described_addEach (ctx : Describing) (ds : List Descriptor) :
    ∀ d ∈ ds, d.entity.name = ctx.entityType →
    d.validate = .ok () → ∃ e ∈ (ctx.addEach ds).descriptors, e.index.name = d.index.name := by
  induction ds generalizing ctx with
  | nil =>
    intro d none
    cases none
  | cons first ds ih =>
    intro d member same valid
    rcases List.mem_cons.1 member with rfl | later
    · obtain ⟨e, he, names⟩ := described_tryAdd same valid
      exact ⟨e, subset_addEach (ctx.tryAdd d) ds he, names⟩
    · exact ih (ctx.tryAdd first) d later (by rwa [entityType_tryAdd]) valid

theorem registered_start (entityType collection : String) :
    Registered entityType (start entityType collection).descriptors := by
  constructor
  · intro d none
    cases none
  · exact List.nodup_nil
  · intro d none
    cases none

end Describing

end DocStore

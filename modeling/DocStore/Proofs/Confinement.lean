import DocStore.Proofs.Sendings

/-!
# Errors of a kind

What an operation can fail with is told from its parts. `Confined` is a result of
which an error is of a kind, and an answer as well. It goes through sequences,
lists and folds, and so do its forms for actions and operations of a session, of
which only events of a kind are considered.
-/

set_option autoImplicit false

namespace DocStore

variable {α β : Type} {S : Error → Prop} {Q : α → Prop} {R : β → Prop}

/-- The answer is of a kind, or the error is. -/
def Confined (S : Error → Prop) (Q : α → Prop) : Except Error α → Prop
  | .ok x => Q x
  | .error err => S err

namespace Confined

theorem bind {x : Except Error α} {f : α → Except Error β} (hx : Confined S Q x)
    (hf : ∀ a, Q a → Confined S R (f a)) : Confined S R (x >>= f) := by
  cases x with
  | ok a => exact hf a hx
  | error err => exact hx

theorem map {x : Except Error α} {f : α → β} (hx : Confined S Q x) (hf : ∀ a, Q a → R (f a)) :
    Confined S R (x.map f) := by
  cases x with
  | ok a => exact hf a hx
  | error err => exact hx

/-- A computation over a list fails as one of its steps does. -/
theorem mapM {f : β → Except Error α} (each : ∀ b, Confined S (fun _ => True) (f b)) (l : List β) :
    Confined S (fun _ => True) (l.mapM f) := by
  induction l with
  | nil => trivial
  | cons b l ih =>
    rw [List.mapM_cons]
    exact (each b).bind fun _ _ => ih.bind fun _ _ => trivial

/-- What each step of a fold keeps, the fold keeps. -/
theorem foldlM {f : α → β → Except Error α} {l : List β}
    (each : ∀ b ∈ l, ∀ a, Q a → Confined S Q (f a b)) {a : α} (h : Q a) :
    Confined S Q (l.foldlM f a) := by
  induction l generalizing a with
  | nil => exact h
  | cons b l ih =>
    obtain ⟨first, rest⟩ := List.forall_mem_cons.1 each
    rw [List.foldlM_cons]
    exact (first a h).bind fun a' h' => ih rest h'

end Confined

namespace Action

/-- Whatever is answered, if only events of a kind happen, the action ends with an answer
or an error of a kind. -/
def Confined (E : Event → Prop) (S : Error → Prop) (Q : α → Prop) (a : Action α) : Prop :=
  ∀ ⦃events : List Event⦄ ⦃result : Except Error α⦄, a.Emits events result →
    (∀ e ∈ events, E e) → DocStore.Confined S Q result

variable {E : Event → Prop}

theorem confined_ofExcept {e : Except Error α} (h : DocStore.Confined S Q e) :
    (ofExcept e).Confined E S Q := by
  intro events result emits _
  obtain ⟨_, rfl⟩ := Program.emits_done_iff.1 emits
  exact h

theorem confined_pure {x : α} (h : Q x) : (pure x : Action α).Confined E S Q :=
  confined_ofExcept (e := .ok x) h

theorem confined_throw {err : Error} (h : S err) : (throw err : Action α).Confined E S Q :=
  confined_ofExcept (e := .error err) h

theorem Confined.bind {a : Action α} {f : α → Action β} (ha : a.Confined E S Q)
    (hf : ∀ x, Q x → (f x).Confined E S R) : (a >>= f).Confined E S R := by
  intro events result emits all
  rcases emits_bind_iff.1 emits with ⟨err, rfl, failed⟩ | ⟨x, first, rest, rfl, asked, next⟩
  · exact ha failed all
  · obtain ⟨before, after⟩ := List.forall_mem_append.1 all
    exact hf x (ha asked before) next after

end Action

namespace Work

/-- On a session with certain settings, which stay, the operation ends with an answer
or an error of a kind. -/
def Confined (settings : Settings) (E : Event → Prop) (S : Error → Prop) (Q : α → Prop)
    (w : Work α) : Prop :=
  ∀ ⦃session events result session'⦄, w.Emits session events result session' →
    session.settings = settings →
    (∀ e ∈ events, E e) → session'.settings = settings ∧ DocStore.Confined S Q result

variable {settings : Settings} {E : Event → Prop}

theorem confined_ofAction {a : Action α} (h : a.Confined E S Q) :
    (ofAction a).Confined settings E S Q := by
  intro session events result session' emits same all
  obtain ⟨rfl, ran⟩ := emits_ofAction_iff.1 emits
  exact ⟨same, h ran all⟩

theorem confined_ofExcept {e : Except Error α} (h : DocStore.Confined S Q e) :
    (ofExcept e).Confined settings E S Q :=
  confined_ofAction (Action.confined_ofExcept h)

theorem confined_pure {x : α} (h : Q x) : (pure x : Work α).Confined settings E S Q := by
  intro session events result session' emits same _
  obtain ⟨_, rfl, rfl⟩ := emits_pure_iff.1 emits
  exact ⟨same, h⟩

theorem confined_modify {f : Session → Session}
    (keeps : ∀ session, (f session).settings = session.settings) :
    (modify f : Work Unit).Confined settings E S fun _ => True := by
  intro session events result session' emits same _
  obtain ⟨_, rfl, rfl⟩ := emits_modify_iff.1 emits
  exact ⟨(keeps session).trans same, trivial⟩

theorem Confined.bind {w : Work α} {f : α → Work β} (hw : w.Confined settings E S Q)
    (hf : ∀ x, Q x → (f x).Confined settings E S R) : (w >>= f).Confined settings E S R := by
  intro session events result session' emits same all
  rcases emits_bind_iff.1 emits with ⟨err, rfl, failed⟩ | ⟨x, middle, first, rest, rfl, asked, next⟩
  · exact hw failed same all
  · obtain ⟨before, after⟩ := List.forall_mem_append.1 all
    obtain ⟨same', holds⟩ := hw asked same before
    exact hf x holds next same' after

theorem confined_get_bind {f : Session → Work β}
    (h : ∀ session, session.settings = settings → (f session).Confined settings E S R) :
    (get >>= f).Confined settings E S R := by
  intro session events result session' emits same all
  exact h session same (emits_get_bind_iff.1 emits) same all

end Work

end DocStore

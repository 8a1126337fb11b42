import DocStore.Session

/-!
# Runs of programs

What a program does against given surroundings, said about its steps: `Yields`
is a successful run of an action with its answer, `Throughout` a property of the
surroundings at every request of a run. Both go through `bind` once and for all,
so no other proof opens `Program.run`.
-/

set_option autoImplicit false

namespace DocStore

section Results

variable {ε α β γ : Type}

theorem bind_eq_ok_iff {x : Except ε α} {f : α → Except ε β} {b : β} :
    (x >>= f) = .ok b ↔ ∃ a, x = .ok a ∧ f a = .ok b := by
  cases x with
  | error e => exact ⟨(fun h => nomatch h), (fun ⟨_, h, _⟩ => nomatch h)⟩
  | ok a =>
    constructor
    · exact fun h => ⟨a, rfl, h⟩
    · rintro ⟨_, h, h'⟩
      cases h
      exact h'

theorem bind_eq_error_iff {x : Except ε α} {f : α → Except ε β} {e : ε} :
    (x >>= f) = .error e ↔ x = .error e ∨ ∃ a, x = .ok a ∧ f a = .error e := by
  cases x with
  | error e' =>
    constructor
    · intro h
      cases h
      exact .inl rfl
    · rintro (h | ⟨_, impossible, _⟩)
      · cases h
        rfl
      · cases impossible
  | ok a =>
    constructor
    · exact fun h => .inr ⟨a, rfl, h⟩
    · rintro (impossible | ⟨_, same, h⟩)
      · cases impossible
      · cases same
        exact h

theorem map_eq_ok_iff {x : Except ε α} {f : α → β} {b : β} :
    x.map f = .ok b ↔ ∃ a, x = .ok a ∧ f a = b := by
  cases x <;> simp [Except.map]

theorem toOption_eq_some_iff {x : Except ε α} {a : α} : x.toOption = some a ↔ x = .ok a := by
  cases x <;> simp [Except.toOption]

/-- A computation over a list that succeeds has all its results. -/
theorem mapM_eq_ok {f : α → Except ε β} {l : List α} {ys : List β} (h : l.mapM f = .ok ys) :
    (l.filterMap fun a => (f a).toOption) = ys ∧ ∀ a ∈ l, ∃ b, f a = .ok b := by
  induction l generalizing ys with
  | nil => cases h; simp
  | cons a l ih =>
    rw [List.mapM_cons, bind_eq_ok_iff] at h
    obtain ⟨b, hb, h⟩ := h
    obtain ⟨bs, hbs, h⟩ := bind_eq_ok_iff.1 h
    cases h
    obtain ⟨tail, all⟩ := ih hbs
    refine ⟨?_, List.forall_mem_cons.2 ⟨⟨b, hb⟩, all⟩⟩
    rw [List.filterMap_cons, hb, tail]
    rfl

/-- What every step adds to a measure of the state, a fold over a list adds in order. -/
theorem foldlM_adds {f : β → α → Except ε β} (measure : β → List γ) {adds : α → List γ}
    {l : List α} {b b' : β} (h : l.foldlM f b = .ok b')
    (step : ∀ a b b', f b a = .ok b' → measure b' = measure b ++ adds a) :
    measure b' = measure b ++ l.flatMap adds := by
  induction l generalizing b with
  | nil => cases h; simp
  | cons a l ih =>
    rw [List.foldlM_cons] at h
    obtain ⟨b₁, h₁, h⟩ := bind_eq_ok_iff.1 h
    rw [ih h, step a b b₁ h₁, List.flatMap_cons, List.append_assoc]

/-- What every step keeps, a fold over a list keeps. -/
theorem foldlM_keeps {f : β → α → Except ε β} (P : β → Prop) {l : List α} {b b' : β}
    (h : l.foldlM f b = .ok b') (hb : P b)
    (step : ∀ a ∈ l, ∀ b b', P b → f b a = .ok b' → P b') : P b' := by
  induction l generalizing b with
  | nil => cases h; exact hb
  | cons a l ih =>
    rw [List.foldlM_cons] at h
    obtain ⟨b₁, h₁, h⟩ := bind_eq_ok_iff.1 h
    exact ih h (step a (by simp) b b₁ hb h₁) fun x hx => step x (List.mem_cons_of_mem a hx)

/-- A fold that succeeds has taken a step for every element. -/
theorem exists_step_of_foldlM {f : β → α → Except ε β} {l : List α} {b b' : β}
    (h : l.foldlM f b = .ok b') : ∀ a ∈ l, ∃ b₁ b₂, f b₁ a = .ok b₂ := by
  induction l generalizing b with
  | nil => exact fun _ h => by cases h
  | cons a l ih =>
    rw [List.foldlM_cons] at h
    obtain ⟨b₁, h₁, h⟩ := bind_eq_ok_iff.1 h
    exact List.forall_mem_cons.2 ⟨⟨b, b₁, h₁⟩, ih h⟩

end Results

/-- Surroundings that answer requests from a state. -/
abbrev Answerer (σ : Type) := (r : Request) → σ → r.Outcome × σ

variable {σ α β : Type} {answer : Answerer σ}

namespace Program

theorem run_pure (a : α) (s : σ) : Program.run answer (pure a) s = (a, s) := rfl

theorem run_bind (p : Program α) (f : α → Program β) (s : σ) :
    Program.run answer (p >>= f) s =
      Program.run answer (f (Program.run answer p s).1) (Program.run answer p s).2 := by
  induction p generalizing s with
  | done a => rfl
  | ask r next ih => exact ih (answer r s).1 (answer r s).2

/-- A property of the surroundings before the first request and after each one. -/
def Throughout (answer : Answerer σ) (I : σ → Prop) : Program α → σ → Prop
  | .done _, s => I s
  | .ask r next, s => I s ∧ Throughout answer I (next (answer r s).1) (answer r s).2

theorem Throughout.first {I : σ → Prop} {p : Program α} {s : σ}
    (h : Throughout answer I p s) : I s := by
  cases p with
  | done a => exact h
  | ask r next => exact h.1

theorem Throughout.last {I : σ → Prop} {p : Program α} {s : σ} (h : Throughout answer I p s) :
    I (Program.run answer p s).2 := by
  induction p generalizing s with
  | done a => exact h
  | ask r next ih => exact ih (answer r s).1 h.2

theorem throughout_bind_iff {I : σ → Prop} {p : Program α} {f : α → Program β} {s : σ} :
    Throughout answer I (p >>= f) s ↔
      Throughout answer I p s ∧
        Throughout answer I (f (Program.run answer p s).1) (Program.run answer p s).2 := by
  induction p generalizing s with
  | done a => exact ⟨fun h => ⟨Throughout.first h, h⟩, fun h => h.2⟩
  | ask r next ih =>
    constructor
    · intro h
      obtain ⟨here, rest⟩ := ih (answer r s).1 |>.1 h.2
      exact ⟨⟨h.1, here⟩, rest⟩
    · intro h
      exact ⟨h.1.1, ih (answer r s).1 |>.2 ⟨h.1.2, h.2⟩⟩

/-- Every request that a program can come to ask is of a kind. -/
def Asks (P : Request → Prop) : Program α → Prop
  | .done _ => True
  | .ask r next => P r ∧ ∀ o, Asks P (next o)

variable {P : Request → Prop}

theorem Asks.bind {p : Program α} {f : α → Program β} (hp : Asks P p) (hf : ∀ a, Asks P (f a)) :
    Asks P (p >>= f) := by
  induction p with
  | done a => exact hf a
  | ask r next ih => exact ⟨hp.1, fun o => ih o (hp.2 o)⟩

theorem asks_request {r : Request} (h : P r) : Asks P (request r) := ⟨h, fun _ => trivial⟩

/-- What no request of the kind changes, a program that asks only such requests leaves. -/
theorem Asks.run_eq {γ : Type} {p : Program α} (asks : Asks P p) (f : σ → γ)
    (keeps : ∀ r s, P r → f (answer r s).2 = f s) (s : σ) : f (run answer p s).2 = f s := by
  induction p generalizing s with
  | done a => rfl
  | ask r next ih =>
    rw [← keeps r s asks.1]
    exact ih (answer r s).1 (asks.2 _) (answer r s).2

end Program

namespace Action

/-- The run of an action from a state succeeds with an answer and leaves a state. -/
def Yields (answer : Answerer σ) (a : Action α) (s : σ) (x : α) (s' : σ) : Prop :=
  Program.run answer a.run s = (.ok x, s')

theorem yields_pure_iff {x y : α} {s s' : σ} : Yields answer (pure x) s y s' ↔ y = x ∧ s' = s := by
  change (Except.ok x, s) = (Except.ok y, s') ↔ _
  simp [eq_comm]

theorem run_bind (a : Action α) (f : α → Action β) (s : σ) :
    Program.run answer (a >>= f).run s =
      match Program.run answer a.run s with
      | (.ok x, s') => Program.run answer (f x).run s'
      | (.error e, s') => (.error e, s') := by
  rw [ExceptT.run_bind, Program.run_bind]
  rcases Program.run answer a.run s with ⟨_ | _, _⟩ <;> rfl

theorem run_ok_bind (x : α) (f : α → Action β) (s : σ) :
    Program.run answer (ofExcept (.ok x) >>= f).run s = Program.run answer (f x).run s := rfl

theorem run_error_bind (e : Error) (f : α → Action β) (s : σ) :
    Program.run answer (ofExcept (.error e) >>= f).run s = (.error e, s) := rfl

theorem yields_bind_iff {a : Action α} {f : α → Action β} {s s'' : σ} {y : β} :
    Yields answer (a >>= f) s y s'' ↔
      ∃ x s', Yields answer a s x s' ∧ Yields answer (f x) s' y s'' := by
  unfold Yields
  rw [run_bind]
  constructor
  · intro h
    rcases hr : Program.run answer a.run s with ⟨e | x, s'⟩
    · rw [hr] at h; cases h
    · rw [hr] at h; exact ⟨x, s', rfl, h⟩
  · rintro ⟨x, s', ha, hf⟩
    rw [ha]; exact hf

theorem yields_ofExcept_iff {e : Except Error α} {s s' : σ} {x : α} :
    Yields answer (ofExcept e) s x s' ↔ e = .ok x ∧ s' = s := by
  change (e, s) = (Except.ok x, s') ↔ _
  simp [eq_comm]

theorem not_yields_throw {e : Error} {s s' : σ} {x : α} :
    ¬Yields answer (throw e : Action α) s x s' := by
  intro h
  cases h

theorem yields_execute_iff {c : Connection} {st : Statement} {s s' : σ} {n : Nat} :
    Yields answer (execute c st) s n s' ↔ answer (.execute c st) s = (.ok n, s') := Iff.rfl

theorem yields_scalar_iff {c : Connection} {st : Statement} {s s' : σ} {v : Option Value} :
    Yields answer (scalar c st) s v s' ↔ answer (.scalar c st) s = (.ok v, s') := Iff.rfl

theorem yields_query_iff {c : Connection} {st : Statement} {s s' : σ} {rows : List Row} :
    Yields answer (query c st) s rows s' ↔ answer (.query c st) s = (.ok rows, s') := Iff.rfl

theorem yields_request_iff {r : Request} {x : r.Outcome} {s s' : σ} :
    Yields answer (ofProgram (.request r)) s x s' ↔ answer r s = (x, s') := by
  change (Except.ok (answer r s).1, (answer r s).2) = (Except.ok x, s') ↔ _
  rw [Prod.mk.injEq, Except.ok.injEq, Prod.ext_iff]

/-- A property of the surroundings before the first request of an action and after each one. -/
def Throughout (answer : Answerer σ) (I : σ → Prop) (a : Action α) (s : σ) : Prop :=
  Program.Throughout answer I a.run s

variable {I : σ → Prop}

theorem throughout_pure {x : α} {s : σ} (h : I s) : Throughout answer I (pure x) s := h

theorem throughout_throw {e : Error} {s : σ} (h : I s) :
    Throughout answer I (throw e : Action α) s := h

/-- The second action runs only where the first succeeds. -/
theorem Throughout.bind {a : Action α} {f : α → Action β} {s : σ} (first : Throughout answer I a s)
    (next : ∀ x s', Yields answer a s x s' → Throughout answer I (f x) s') :
    Throughout answer I (a >>= f) s := by
  unfold Throughout
  rw [ExceptT.run_bind, Program.throughout_bind_iff]
  refine ⟨first, ?_⟩
  have last := Program.Throughout.last first
  rcases hr : Program.run answer a.run s with ⟨e | x, s'⟩
  · rw [hr] at last; exact last
  · exact next x s' hr

/-- Every request that an action can come to ask is of a kind. -/
def Asks (P : Request → Prop) (a : Action α) : Prop := a.run.Asks P

variable {P : Request → Prop}

theorem asks_pure (x : α) : Asks P (pure x : Action α) := trivial

theorem asks_throw (e : Error) : Asks P (throw e : Action α) := trivial

theorem asks_ofExcept (e : Except Error α) : Asks P (ofExcept e) := trivial

theorem Asks.bind {a : Action α} {f : α → Action β} (ha : Asks P a) (hf : ∀ x, Asks P (f x)) :
    Asks P (a >>= f) := by
  unfold Asks
  rw [ExceptT.run_bind]
  refine Program.Asks.bind ha fun r => ?_
  cases r with
  | error e => trivial
  | ok x => exact hf x

end Action

namespace Work

/-- The run of an operation on a session comes to a result, and leaves a session and a state. -/
def Comes (answer : Answerer σ) (w : Work α) (session : Session) (s : σ) (result : Except Error α)
    (session' : Session) (s' : σ) :
    Prop := Program.run answer (w.run.run session) s = ((result, session'), s')

/-- The run of an operation on a session succeeds with an answer, and leaves
a session and a state. -/
def Yields (answer : Answerer σ) (w : Work α) (session : Session) (s : σ) (x : α)
    (session' : Session) (s' : σ) : Prop :=
  Program.run answer (w.run.run session) s = ((.ok x, session'), s')

variable {session session' session'' : Session} {s s' s'' : σ}

theorem yields_pure_iff {x y : α} :
    Yields answer (pure x) session s y session' s' ↔ y = x ∧ session' = session ∧ s' = s := by
  change ((Except.ok x, session), s) = ((Except.ok y, session'), s') ↔ _
  simp [eq_comm, and_assoc]

theorem run_bind (w : Work α) (f : α → Work β) (session : Session) (s : σ) :
    Program.run answer ((w >>= f).run.run session) s =
      match Program.run answer (w.run.run session) s with
      | ((.ok x, session'), s') => Program.run answer ((f x).run.run session') s'
      | ((.error e, session'), s') => ((.error e, session'), s') := by
  rw [ExceptT.run_bind, StateT.run_bind, Program.run_bind]
  rcases Program.run answer (w.run.run session) s with ⟨⟨_ | _, _⟩, _⟩ <;> rfl

theorem yields_bind_iff {w : Work α} {f : α → Work β} {y : β} :
    Yields answer (w >>= f) session s y session'' s'' ↔
      ∃ x session' s', Yields answer w session s x session' s' ∧
        Yields answer (f x) session' s' y session'' s'' := by
  unfold Yields
  rw [run_bind]
  constructor
  · intro h
    rcases hr : Program.run answer (w.run.run session) s with ⟨⟨e | x, session'⟩, s'⟩
    · rw [hr] at h; cases h
    · rw [hr] at h; exact ⟨x, session', s', rfl, h⟩
  · rintro ⟨x, session', s', hw, hf⟩
    rw [hw]; exact hf

/-- Operations one after the other fail in the first or in the second. -/
theorem cases_of_comes_bind {w : Work α} {f : α → Work β} {e : Error}
    (h : Comes answer (w >>= f) session s (.error e) session'' s'') :
    Comes answer w session s (.error e) session'' s'' ∨
      ∃ x session' s', Yields answer w session s x session' s' ∧
        Comes answer (f x) session' s' (.error e) session'' s'' := by
  unfold Comes at h ⊢
  rw [run_bind] at h
  rcases hr : Program.run answer (w.run.run session) s with ⟨⟨e' | x, session'⟩, s'⟩
  · rw [hr] at h
    cases h
    exact .inl rfl
  · rw [hr] at h
    exact .inr ⟨x, session', s', hr, h⟩

theorem yields_get_iff {x : Session} :
    Yields answer get session s x session' s' ↔ x = session ∧ session' = session ∧ s' = s := by
  change ((Except.ok session, session), s) = ((Except.ok x, session'), s') ↔ _
  simp [eq_comm, and_assoc]

theorem yields_modify_iff {f : Session → Session} {x : Unit} :
    Yields answer (modify f) session s x session' s' ↔ session' = f session ∧ s' = s := by
  change ((Except.ok (), f session), s) = ((Except.ok x, session'), s') ↔ _
  simp [eq_comm]

theorem comes_ofAction_iff {a : Action α} {result : Except Error α} :
    Comes answer (ofAction a) session s result session' s' ↔
    session' = session ∧ Program.run answer a.run s = (result, s') := by
  have run : Program.run answer ((ofAction a).run.run session) s =
      (((Program.run answer a.run s).1, session), (Program.run answer a.run s).2) := by
    change Program.run answer (a.run >>= fun e => pure (e, session)) s = _
    rw [Program.run_bind]
    rfl
  rw [Comes, run]
  rcases Program.run answer a.run s with ⟨e, s₁⟩
  rw [Prod.mk.injEq, Prod.mk.injEq, Prod.mk.injEq, eq_comm (a := session),
    and_comm (a := e = _), and_assoc]

theorem yields_ofAction_iff {a : Action α} {x : α} :
    Yields answer (ofAction a) session s x session' s' ↔
    session' = session ∧ Action.Yields answer a s x s' := comes_ofAction_iff

theorem yields_ofExcept_iff {e : Except Error α} {x : α} :
    Yields answer (ofExcept e) session s x session' s' ↔
    e = .ok x ∧ session' = session ∧ s' = s := by
  rw [ofExcept, yields_ofAction_iff, Action.yields_ofExcept_iff, and_left_comm]

/-! Steps whose answer, or whose effect on the session, is known. -/

theorem comes_get_bind_iff {f : Session → Work β} {result : Except Error β} :
    Comes answer (get >>= f) session s result session' s' ↔
    Comes answer (f session) session s result session' s' := Iff.rfl

theorem yields_get_bind_iff {f : Session → Work β} {y : β} :
    Yields answer (get >>= f) session s y session' s' ↔
    Yields answer (f session) session s y session' s' := by
  rw [yields_bind_iff]
  constructor
  · rintro ⟨x, _, _, hget, h⟩
    obtain ⟨rfl, rfl, rfl⟩ := yields_get_iff.1 hget
    exact h
  · exact fun h => ⟨session, session, s, yields_get_iff.2 ⟨rfl, rfl, rfl⟩, h⟩

theorem yields_modify_bind_iff {g : Session → Session} {f : Unit → Work β} {y : β} :
    Yields answer (modify g >>= f) session s y session' s' ↔
    Yields answer (f ()) (g session) s y session' s' := by
  rw [yields_bind_iff]
  constructor
  · rintro ⟨x, _, _, hmodify, h⟩
    obtain ⟨rfl, rfl⟩ := yields_modify_iff.1 hmodify
    exact h
  · exact fun h => ⟨(), g session, s, yields_modify_iff.2 ⟨rfl, rfl⟩, h⟩

theorem yields_ofAction_bind_iff {a : Action α} {f : α → Work β} {y : β} :
    Yields answer (ofAction a >>= f) session s y session' s' ↔
      ∃ x s₁, Action.Yields answer a s x s₁ ∧ Yields answer (f x) session s₁ y session' s' := by
  rw [yields_bind_iff]
  refine exists_congr fun x => ⟨?_, ?_⟩
  · rintro ⟨_, s₁, hx, h⟩
    obtain ⟨rfl, ha⟩ := yields_ofAction_iff.1 hx
    exact ⟨s₁, ha, h⟩
  · rintro ⟨s₁, ha, h⟩
    exact ⟨session, s₁, yields_ofAction_iff.2 ⟨rfl, ha⟩, h⟩

theorem yields_ofExcept_bind_iff {e : Except Error α} {f : α → Work β} {y : β} :
    Yields answer (ofExcept e >>= f) session s y session' s' ↔
      ∃ x, e = .ok x ∧ Yields answer (f x) session s y session' s' := by
  rw [ofExcept, yields_ofAction_bind_iff]
  refine exists_congr fun x => ⟨?_, ?_⟩
  · rintro ⟨_, hx, h⟩
    obtain ⟨he, rfl⟩ := Action.yields_ofExcept_iff.1 hx
    exact ⟨he, h⟩
  · rintro ⟨he, h⟩
    exact ⟨s, Action.yields_ofExcept_iff.2 ⟨he, rfl⟩, h⟩

theorem yields_query_bind_iff {q : Statement} {f : List Row → Work β} {y : β} :
    Yields answer (query q >>= f) session s y session' s' ↔
      ∃ rows s₁, answer (.query session.connection q) s = (.ok rows, s₁) ∧
        Yields answer (f rows) session s₁ y session' s' := by
  have assoc : query q >>= f = get >>= fun session =>
      ofAction (Action.query session.connection q) >>= f :=
    bind_assoc _ _ _
  rw [assoc, yields_get_bind_iff, yields_ofAction_bind_iff]
  rfl

/-- Every request that an operation can come to ask, on whatever session, is of a kind. -/
def Asks (P : Request → Prop) (w : Work α) : Prop := ∀ session, (w.run.run session).Asks P

section Asks

variable {P : Request → Prop}

theorem asks_pure (x : α) : Asks P (pure x : Work α) := fun _ => trivial

theorem asks_get : Asks P (get : Work Session) := fun _ => trivial

theorem asks_modify (f : Session → Session) : Asks P (modify f : Work Unit) := fun _ => trivial

theorem asks_throw (e : Error) : Asks P (throw e : Work α) := fun _ => trivial

theorem asks_ofAction {a : Action α} (h : a.Asks P) : Asks P (ofAction a) :=
  fun _ => Program.Asks.bind h fun _ => trivial

theorem asks_ofExcept (e : Except Error α) : Asks P (ofExcept e) :=
  asks_ofAction (Action.asks_ofExcept e)

theorem Asks.bind {w : Work α} {f : α → Work β} (hw : Asks P w) (hf : ∀ x, Asks P (f x)) :
    Asks P (w >>= f) := by
  intro session
  rw [ExceptT.run_bind, StateT.run_bind]
  refine (hw session).bind fun r => ?_
  obtain ⟨e | x, session'⟩ := r
  · trivial
  · exact hf x session'

theorem Asks.tryCatch {w : Work α} {handle : Error → Work α} (hw : Asks P w)
    (hhandle : ∀ e, Asks P (handle e)) : Asks P (tryCatch w handle) := by
  intro session
  change ((w.run.run session).bind fun r => _).Asks P
  refine Program.Asks.bind (hw session) fun r => ?_
  obtain ⟨e | x, session'⟩ := r
  · exact hhandle e session'
  · trivial

/-- What no request of the kind changes, an operation that asks only such requests leaves. -/
theorem Asks.eq_of_yields {γ : Type} {w : Work α} (asks : Asks P w) (f : σ → γ)
    (keeps : ∀ r s, P r → f (answer r s).2 = f s) {x : α}
    (h : Yields answer w session s x session' s') : f s' = f s := by
  have same := (asks session).run_eq f keeps s
  rw [h] at same
  exact same

end Asks

theorem not_yields_throw {e : Error} {x : α} :
    ¬Yields answer (throw e : Work α) session s x session' s' := by
  intro h
  cases h

/-- A run that succeeds yields what it answers. -/
theorem yields_of_isSome {w : Work α} {r : (Except Error α × Session) × σ}
    (hr : Program.run answer (w.run.run session) s = r) (h : r.1.1.toOption.isSome = true) (x : α) :
    Yields answer w session s (r.1.1.toOption.getD x) r.1.2 r.2 := by
  unfold Yields
  rw [hr]
  obtain ⟨⟨outcome, after⟩, t⟩ := r
  cases outcome with
  | error e => cases h
  | ok y => rfl

/-- There is nothing to compute of what work answers that answers nothing. -/
theorem yields_unit_of_isSome {w : Work Unit} {r : (Except Error Unit × Session) × σ}
    (hr : Program.run answer (w.run.run session) s = r) (h : r.1.1.toOption.isSome = true) :
    Yields answer w session s () r.1.2 r.2 := yields_of_isSome hr h ()

theorem run_tryCatch (w : Work α) (handle : Error → Work α) (session : Session) (s : σ) :
    Program.run answer ((tryCatch w handle).run.run session) s =
      match Program.run answer (w.run.run session) s with
      | ((.ok x, session'), s') => ((.ok x, session'), s')
      | ((.error e, session'), s') => Program.run answer ((handle e).run.run session') s' := by
  change Program.run answer ((w.run.run session).bind fun r => _) s = _
  refine (Program.run_bind _ _ _).trans ?_
  rcases Program.run answer (w.run.run session) s with ⟨⟨_ | _, _⟩, _⟩ <;> rfl

/-- A handler that fails as well is not what an operation that succeeds went through. -/
theorem yields_of_tryCatch {w : Work α} {handle : Error → Work α} {x : α}
    (fails : ∀ e session₁ s₁, ¬Yields answer (handle e) session₁ s₁ x session' s')
    (h : Yields answer (tryCatch w handle) session s x session' s') :
    Yields answer w session s x session' s' := by
  unfold Yields at h ⊢
  rw [run_tryCatch] at h
  rcases hr : Program.run answer (w.run.run session) s with ⟨⟨e | y, session₁⟩, s₁⟩
  · rw [hr] at h
    exact absurd h (fails e session₁ s₁)
  · rw [hr] at h
    exact h

/-- An operation fails in the handler of its error. -/
theorem cases_of_comes_tryCatch {w : Work α} {handle : Error → Work α} {e : Error}
    (h : Comes answer (tryCatch w handle) session s (.error e) session'' s'') :
    ∃ e' session' s', Comes answer w session s (.error e') session' s' ∧
      Comes answer (handle e') session' s' (.error e) session'' s'' := by
  unfold Comes at h ⊢
  rw [run_tryCatch] at h
  rcases hr : Program.run answer (w.run.run session) s with ⟨⟨e' | y, session'⟩, s'⟩
  · rw [hr] at h
    exact ⟨e', session', s', rfl, h⟩
  · rw [hr] at h
    cases h

end Work

end DocStore

import DocStore.Proofs.Running

/-!
# Requests and what came of them

`Emits` is a run of a program against surroundings of which nothing is known:
any answer to any request, a failure too, makes a run of its own. `Ensures` says
of every such run what is asked in it and what it ends with.
-/

set_option autoImplicit false

namespace DocStore

/-- A request and what came of it. -/
structure Event where
  request : Request
  outcome : request.Outcome

variable {α β γ : Type}

namespace Program

/-- A run of a program, with all that it asked and was answered. -/
inductive Emits : Program α → List Event → α → Prop where
  | done (a : α) : Emits (.done a) [] a
  | ask {r : Request} {next : r.Outcome → Program α} {o : r.Outcome} {events : List Event} {a : α} :
    Emits (next o) events a → Emits (.ask r next) (⟨r, o⟩ :: events) a

theorem emits_done_iff {a b : α} {events : List Event} :
    Emits (.done a) events b ↔ events = [] ∧ b = a := by
  constructor
  · rintro ⟨⟩
    exact ⟨rfl, rfl⟩
  · rintro ⟨rfl, rfl⟩
    exact .done _

theorem emits_ask_iff {r : Request} {next : r.Outcome → Program α} {events : List Event} {a : α} :
    Emits (.ask r next) events a ↔ ∃ o rest, events = ⟨r, o⟩ :: rest ∧ Emits (next o) rest a := by
  constructor
  · intro h
    cases h with
    | ask h => exact ⟨_, _, rfl, h⟩
  · rintro ⟨o, rest, rfl, h⟩
    exact .ask h

theorem emits_request_iff {r : Request} {events : List Event} {o : r.Outcome} :
    Emits (request r) events o ↔ events = [⟨r, o⟩] := by
  rw [request, emits_ask_iff]
  constructor
  · rintro ⟨o', rest, rfl, h⟩
    obtain ⟨rfl, rfl⟩ := emits_done_iff.1 h
    rfl
  · rintro rfl
    exact ⟨o, [], rfl, .done o⟩

theorem emits_bind_iff {p : Program α} {f : α → Program β} {events : List Event} {b : β} :
    Emits (p >>= f) events b ↔ ∃ a first rest, events = first ++ rest ∧
    Emits p first a ∧ Emits (f a) rest b := by
  induction p generalizing events with
  | done a =>
    constructor
    · exact fun h => ⟨a, [], events, rfl, .done a, h⟩
    · rintro ⟨a', first, rest, rfl, hp, hf⟩
      obtain ⟨rfl, rfl⟩ := emits_done_iff.1 hp
      exact hf
  | ask r next ih =>
    constructor
    · intro h
      obtain ⟨o, tail, rfl, htail⟩ := emits_ask_iff.1 h
      obtain ⟨a, first, rest, rfl, hp, hf⟩ := (ih o).1 htail
      exact ⟨a, ⟨r, o⟩ :: first, rest, rfl, .ask hp, hf⟩
    · rintro ⟨a, first, rest, rfl, hp, hf⟩
      obtain ⟨o, tail, rfl, htail⟩ := emits_ask_iff.1 hp
      exact .ask ((ih o).2 ⟨a, tail, rest, rfl, htail, hf⟩)

/-- Every request in every run is of a kind, and so is what every run ends with. -/
def Ensures (P : Request → Prop) (Q : α → Prop) : Program α → Prop
  | .done a => Q a
  | .ask r next => P r ∧ ∀ o, Ensures P Q (next o)

variable {P : Request → Prop} {Q : α → Prop} {R : β → Prop}

theorem Ensures.bind {p : Program α} {f : α → Program β} (hp : Ensures P Q p)
    (hf : ∀ a, Q a → Ensures P R (f a)) : Ensures P R (p >>= f) := by
  induction p with
  | done a => exact hf a hp
  | ask r next ih => exact ⟨hp.1, fun o => ih o (hp.2 o)⟩

theorem Ensures.mono {Q' : α → Prop} {p : Program α} (hp : Ensures P Q p)
    (weaker : ∀ a, Q a → Q' a) : Ensures P Q' p := by
  induction p with
  | done a => exact weaker a hp
  | ask r next ih => exact ⟨hp.1, fun o => ih o (hp.2 o)⟩

theorem Ensures.asks {p : Program α} (hp : Ensures P Q p) : p.Asks P := by
  induction p with
  | done a => trivial
  | ask r next ih => exact ⟨hp.1, fun o => ih o (hp.2 o)⟩

theorem Asks.ensures {p : Program α} (hp : p.Asks P) : Ensures P (fun _ => True) p := by
  induction p with
  | done a => trivial
  | ask r next ih => exact ⟨hp.1, fun o => ih o (hp.2 o)⟩

theorem Ensures.of_emits {p : Program α} (hp : Ensures P Q p) {events : List Event} {a : α}
    (h : Emits p events a) : (∀ e ∈ events, P e.request) ∧ Q a := by
  induction h with
  | done a => exact ⟨fun _ h => (by cases h), hp⟩
  | ask h ih =>
    obtain ⟨rest, last⟩ := ih (hp.2 _)
    exact ⟨List.forall_mem_cons.2 ⟨hp.1, rest⟩, last⟩

/-- The run against given surroundings, with all that is asked and answered. -/
def record {σ : Type} (answer : Answerer σ) : Program α → σ → List Event × α × σ
  | .done a, s => ([], a, s)
  | .ask r next, s =>
    let after := record answer (next (answer r s).1) (answer r s).2
    (⟨r, (answer r s).1⟩ :: after.1, after.2)

theorem emits_record {σ : Type} (answer : Answerer σ) (p : Program α) (s : σ) :
    Emits p (record answer p s).1 (record answer p s).2.1 := by
  induction p generalizing s with
  | done a => exact .done a
  | ask r next ih => exact .ask (ih _ _)

/-- All that is answered is answered by the surroundings, in one of their states. -/
theorem answered_of_record {σ : Type} (answer : Answerer σ) (p : Program α) (s : σ) :
    ∀ e ∈ (record answer p s).1, ∃ s', e.outcome = (answer e.request s').1 := by
  induction p generalizing s with
  | done a => exact fun _ none => by cases none
  | ask r next ih => exact List.forall_mem_cons.2 ⟨⟨s, rfl⟩, ih _ _⟩

end Program

namespace Action

/-- A run of an action, which may have failed. -/
def Emits (a : Action α) (events : List Event) (result : Except Error α) : Prop :=
  a.run.Emits events result

/-- Every request in every run is of a kind, and so is the answer of every run that succeeds. -/
def Ensures (P : Request → Prop) (Q : α → Prop) (a : Action α) : Prop :=
  a.run.Ensures P fun result => ∀ x, result = .ok x → Q x

variable {P : Request → Prop} {Q : α → Prop} {R : β → Prop}

theorem ensures_pure {x : α} (h : Q x) : Ensures P Q (pure x : Action α) := fun _ same => by
  cases same
  exact h

theorem ensures_throw (e : Error) : Ensures P Q (throw e : Action α) := fun _ same => by cases same

theorem Ensures.bind {a : Action α} {f : α → Action β} (ha : Ensures P Q a)
    (hf : ∀ x, Q x → Ensures P R (f x)) : Ensures P R (a >>= f) := by
  unfold Ensures
  rw [ExceptT.run_bind]
  refine Program.Ensures.bind ha fun result h => ?_
  cases result with
  | error e => exact fun _ same => by cases same
  | ok x => exact hf x (h x rfl)

/-- Of an action that asks requests of a kind nothing else need be known. -/
theorem Asks.ensures {a : Action α} (h : Asks P a) : Ensures P (fun _ => True) a :=
  (Program.Asks.ensures h).mono fun _ _ _ _ => trivial

theorem Asks.bind_ensures {a : Action α} {f : α → Action β} (ha : Asks P a)
    (hf : ∀ x, Ensures P R (f x)) : Ensures P R (a >>= f) := ha.ensures.bind fun x _ => hf x

theorem ensures_ofExcept {e : Except Error α} (h : ∀ x, e = .ok x → Q x) :
    Ensures P Q (ofExcept e) := h

theorem ensures_ofExcept_bind {e : Except Error α} {f : α → Action β}
    (h : ∀ x, e = .ok x → Ensures P R (f x)) :
    Ensures P R (ofExcept e >>= f) := (ensures_ofExcept h).bind fun _ hx => hx

theorem Ensures.asks {a : Action α} (h : Ensures P Q a) : Asks P a := Program.Ensures.asks h

end Action

namespace Work

/-- A run of an operation on a session, which may have failed, and the session that it leaves. -/
def Emits (w : Work α) (session : Session) (events : List Event) (result : Except Error α)
    (session' : Session) : Prop :=
  (w.run.run session).Emits events (result, session')

variable {session session' : Session} {events : List Event}

theorem emits_pure_iff {x : α} {result : Except Error α} :
    Emits (pure x) session events result session' ↔
    events = [] ∧ result = .ok x ∧ session' = session :=
  Program.emits_done_iff.trans (and_congr_right fun _ => Iff.of_eq (Prod.mk.injEq ..))

theorem emits_throw_iff {e : Error} {result : Except Error α} :
    Emits (throw e) session events result session' ↔
    events = [] ∧ result = .error e ∧ session' = session :=
  Program.emits_done_iff.trans (and_congr_right fun _ => Iff.of_eq (Prod.mk.injEq ..))

theorem emits_modify_iff {f : Session → Session} {result : Except Error Unit} :
    Emits (modify f) session events result session' ↔
    events = [] ∧ result = .ok () ∧ session' = f session :=
  Program.emits_done_iff.trans (and_congr_right fun _ => Iff.of_eq (Prod.mk.injEq ..))

theorem emits_ofAction_iff {a : Action α} {result : Except Error α} :
    Emits (ofAction a) session events result session' ↔
    session' = session ∧ a.Emits events result := by
  unfold Emits
  change Program.Emits (a.run >>= fun e => Program.done (e, session)) events (result, session') ↔ _
  rw [Program.emits_bind_iff]
  constructor
  · rintro ⟨e, first, rest, rfl, ha, h⟩
    obtain ⟨rfl, same⟩ := Program.emits_done_iff.1 h
    rw [Prod.mk.injEq] at same
    obtain ⟨rfl, rfl⟩ := same
    rw [List.append_nil]
    exact ⟨rfl, ha⟩
  · rintro ⟨rfl, ha⟩
    exact ⟨result, events, [], (List.append_nil events).symm, ha, .done _⟩

/-- A sequence fails where its first part does, or goes on with what that answers. -/
theorem emits_bind_iff {w : Work α} {f : α → Work β} {result : Except Error β} :
    Emits (w >>= f) session events result session' ↔
      (∃ e, result = .error e ∧ Emits w session events (.error e) session') ∨
        ∃ x middle first rest, events = first ++ rest ∧ Emits w session first (.ok x) middle ∧
          Emits (f x) middle rest result session' := by
  unfold Emits
  rw [ExceptT.run_bind, StateT.run_bind, Program.emits_bind_iff]
  constructor
  · rintro ⟨⟨outcome, middle⟩, first, rest, rfl, hw, h⟩
    cases outcome with
    | error e =>
      obtain ⟨rfl, same⟩ := Program.emits_done_iff.1 h
      rw [Prod.mk.injEq] at same
      obtain ⟨rfl, rfl⟩ := same
      rw [List.append_nil]
      exact .inl ⟨e, rfl, hw⟩
    | ok x => exact .inr ⟨x, middle, first, rest, rfl, hw, h⟩
  · rintro (⟨e, rfl, hw⟩ | ⟨x, middle, first, rest, rfl, hw, h⟩)
    · exact ⟨(.error e, session'), events, [], (List.append_nil events).symm, hw, .done _⟩
    · exact ⟨(.ok x, middle), first, rest, rfl, hw, h⟩

theorem emits_get_bind_iff {f : Session → Work β} {result : Except Error β} :
    Emits (get >>= f) session events result session' ↔
    Emits (f session) session events result session' := Iff.rfl

theorem emits_modify_bind_iff {g : Session → Session} {f : Unit → Work β}
    {result : Except Error β} :
    Emits (modify g >>= f) session events result session' ↔
    Emits (f ()) (g session) events result session' := Iff.rfl

theorem emits_tryCatch_iff {w : Work α} {handle : Error → Work α} {result : Except Error α} :
    Emits (tryCatch w handle) session events result session' ↔
      (∃ x, result = .ok x ∧ Emits w session events result session') ∨
        ∃ e middle first rest, events = first ++ rest ∧ Emits w session first (.error e) middle ∧
          Emits (handle e) middle rest result session' := by
  unfold Emits
  change Program.Emits (w.run.run session >>= fun r => _) events (result, session') ↔ _
  rw [Program.emits_bind_iff]
  constructor
  · rintro ⟨⟨outcome, middle⟩, first, rest, rfl, hw, h⟩
    cases outcome with
    | error e => exact .inr ⟨e, middle, first, rest, rfl, hw, h⟩
    | ok x =>
      obtain ⟨rfl, same⟩ := Program.emits_done_iff.1 h
      rw [Prod.mk.injEq] at same
      obtain ⟨rfl, rfl⟩ := same
      rw [List.append_nil]
      exact .inl ⟨x, rfl, hw⟩
  · rintro (⟨x, rfl, hw⟩ | ⟨e, middle, first, rest, rfl, hw, h⟩)
    · exact ⟨(.ok x, session'), events, [], (List.append_nil events).symm, hw, .done _⟩
    · exact ⟨(.error e, middle), first, rest, rfl, hw, h⟩

/-- What an operation can come to ask at all, it asks in every run. -/
theorem Asks.of_emits {P : Request → Prop} {w : Work α} (hw : Asks P w) {result : Except Error α}
    (h : Emits w session events result session') : ∀ e ∈ events, P e.request :=
  (Program.Ensures.of_emits (hw session).ensures h).1

section Ensures

/-- Every request in every run is of a kind, something about the session stays, and the
answer of every run that succeeds is of a kind too. -/
def Ensures (P : Request → Prop) (view : Session → γ) (Q : α → Prop) (w : Work α) : Prop :=
  ∀ session, (w.run.run session).Ensures P fun r => view r.2 = view session ∧ ∀ x, r.1 = .ok x → Q x

variable {P : Request → Prop} {view : Session → γ} {Q : α → Prop} {R : β → Prop}

theorem ensures_pure {x : α} (h : Q x) : Ensures P view Q (pure x : Work α) := by
  refine fun session => ⟨rfl, fun y same => ?_⟩
  cases same
  exact h

theorem ensures_throw (e : Error) : Ensures P view Q (throw e : Work α) :=
  fun _ => ⟨rfl, fun _ same => by cases same⟩

theorem ensures_get : Ensures P view (fun _ => True) (get : Work Session) :=
  fun _ => ⟨rfl, fun _ _ => trivial⟩

theorem ensures_modify {f : Session → Session}
    (keeps : ∀ session, view (f session) = view session) :
    Ensures P view (fun _ => True) (modify f : Work Unit) :=
  fun session => ⟨keeps session, fun _ _ => trivial⟩

theorem ensures_ofAction {a : Action α} (h : a.Ensures P Q) : Ensures P view Q (ofAction a) :=
  fun _ => Program.Ensures.bind h fun _ hq => ⟨rfl, hq⟩

theorem ensures_ofExcept {e : Except Error α} (h : ∀ x, e = .ok x → Q x) :
    Ensures P view Q (ofExcept e) :=
  ensures_ofAction (Action.ensures_ofExcept h)

theorem Ensures.bind {w : Work α} {f : α → Work β} (hw : Ensures P view Q w)
    (hf : ∀ x, Q x → Ensures P view R (f x)) : Ensures P view R (w >>= f) := by
  intro session
  rw [ExceptT.run_bind, StateT.run_bind]
  refine Program.Ensures.bind (hw session) fun r => ?_
  rintro ⟨same, holds⟩
  obtain ⟨e | x, middle⟩ := r
  · exact ⟨same, fun _ h => by cases h⟩
  · exact (hf x (holds x rfl) middle).mono fun _ h => ⟨h.1.trans same, h.2⟩

theorem ensures_get_bind {f : Session → Work β} (h : ∀ session, Ensures P view R (f session)) :
    Ensures P view R (get >>= f) := ensures_get.bind fun session _ => h session

theorem ensures_ofExcept_bind {e : Except Error α} {f : α → Work β}
    (h : ∀ x, e = .ok x → Ensures P view R (f x)) :
    Ensures P view R (ofExcept e >>= f) := (ensures_ofExcept h).bind fun _ hx => hx

theorem ensures_ofAction_bind {a : Action α} {f : α → Work β} (ha : a.Asks P)
    (hf : ∀ x, Ensures P view R (f x)) :
    Ensures P view R (ofAction a >>= f) := (ensures_ofAction ha.ensures).bind fun x _ => hf x

theorem Ensures.asks {w : Work α} (h : Ensures P view Q w) : Asks P w :=
  fun session => (h session).asks

theorem Ensures.mono {Q' : α → Prop} {w : Work α} (hw : Ensures P view Q w)
    (weaker : ∀ x, Q x → Q' x) :
    Ensures P view Q' w :=
  fun session => (hw session).mono fun _ h => ⟨h.1, fun x hx => weaker x (h.2 x hx)⟩

/-- Work whose failure is an answer. -/
theorem Ensures.lift {w : Work α} (hw : Ensures P view Q w) :
    Ensures P view (fun result => ∀ x, result = .ok x → Q x)
      (ExceptT.lift w.run : Work (Except Error α)) := by
  refine fun session => Program.Ensures.bind (hw session) fun r h => ⟨h.1, fun result same => ?_⟩
  cases same
  exact h.2

theorem Ensures.of_emits {w : Work α} (hw : Ensures P view Q w) {result : Except Error α}
    (h : Emits w session events result session') :
    (∀ e ∈ events, P e.request) ∧ view session' = view session ∧ ∀ x, result = .ok x → Q x :=
  Program.Ensures.of_emits (hw session) h

end Ensures

end Work

end DocStore

import DocStore.Proofs.Alternation
import DocStore.Proofs.Waiting

/-!
# Fresh identities

A save takes an id in steps: it asks whether the ids of its collection are seeded,
and if not which is the highest id that is stored, seeds them with that, and only
then asks for the next. Sessions of one store ask in between one another, so that
several may find a collection unseeded, and seed it in any order. The ids taken
do not come down, and whoever takes one does so after a seed. Once the greatest id
is taken, be it that a caller brings it along, ids start again with the least, so
that what is handed out then is below all that were taken.
-/

set_option autoImplicit false

namespace DocStore

/-- The request keeps ids of a collection from being handed out, or hands one out. -/
def Request.NumbersIn (collection : String) : Request → Prop
  | .seedIds c _ | .nextId c => c = collection
  | _ => False

theorem Request.NumbersIn.numbers {collection : String} {r : Request} (h : r.NumbersIn collection) :
    r.Numbers := by
  cases r with
  | seedIds | nextId => trivial
  | _ => exact False.elim h

namespace Event

/-- By then the collection is seeded. -/
def Tells (collection : String) (e : Event) : Prop :=
  e = ⟨.idsSeeded collection, true⟩ ∨ ∃ atLeast, e = ⟨.seedIds collection atLeast, ()⟩

/-- No id of the collection up to this one is handed out any more. -/
def Takes (collection : String) (id : Int64) (e : Event) : Prop :=
  e = ⟨.seedIds collection id, ()⟩ ∨ e = ⟨.nextId collection, id⟩

/-- The id that was handed out in a collection. -/
def handedOut? (collection : String) : Event → Option Int64
  | ⟨.nextId c, id⟩ => if c = collection then some id else none
  | _ => none

theorem handedOut?_eq_some_iff {collection : String} {e : Event} {id : Int64} :
    e.handedOut? collection = some id ↔ e = ⟨.nextId collection, id⟩ := by
  constructor
  · intro h
    unfold handedOut? at h
    split at h
    · split at h
      · next same =>
        cases h
        rw [same]
      · cases h
    · cases h
  · rintro rfl
    exact if_pos rfl

end Event

/-! ## The source of ids -/

namespace IdTable

/-- What a request of some session makes of the ids. -/
inductive Step : IdTable → Event → IdTable → Prop
  | asks {ids : IdTable} {collection : String} :
      Step ids ⟨.idsSeeded collection, ids.isSeeded collection⟩ ids
  | seeds {ids : IdTable} {collection : String} {atLeast : Int64} :
      Step ids ⟨.seedIds collection atLeast, ()⟩ (ids.seed collection atLeast)
  | handsOut {ids : IdTable} {collection : String} :
      Step ids ⟨.nextId collection, (ids.next collection).1⟩ (ids.next collection).2
  | passes {ids : IdTable} {e : Event} : e.request.Plain →
      (∀ collection, e.request ≠ .idsSeeded collection) → Step ids e ids

inductive Steps : IdTable → List Event → IdTable → Prop
  | nil {ids : IdTable} : Steps ids [] ids
  | cons {ids ids₁ ids₂ : IdTable} {e : Event} {events : List Event} :
      Step ids e ids₁ → Steps ids₁ events ids₂ →
      Steps ids (e :: events) ids₂

/-- The greatest id of a collection is taken neither to begin with nor by what happens. -/
structure Suffices (ids : IdTable) (collection : String) (events : List Event) : Prop where
  first : ids.lastId collection ≠ Int64.maxValue
  later : ∀ e ∈ events, ¬e.Takes collection Int64.maxValue

variable {ids ids' : IdTable} {collection : String} {id taken : Int64} {e : Event}
  {events before between after : List Event}

theorem lastId_insert (ids : IdTable) (collection : String) (id : Int64) :
    lastId ⟨ids.last.insert collection id⟩ collection = id :=
  lastId_eq _ _ (by rw [bounds_insert, Function.update_self])

theorem Step.bounds_eq (step : Step ids e ids') (other : ¬e.request.NumbersIn collection) :
    ids'.bounds collection = ids.bounds collection := by
  cases step with
  | asks | passes => rfl
  | @seeds c atLeast =>
    obtain ⟨b, _, _, same⟩ := ids.bounds_seed c atLeast
    rw [same, Function.update_of_ne (Ne.symm other)]
  | handsOut =>
    exact (congrFun (ids.bounds_insert _ _) collection).trans
      (Function.update_of_ne (Ne.symm other) ..)

theorem Step.lastId_eq_of_other (step : Step ids e ids') (other : ¬e.request.NumbersIn collection) :
    ids'.lastId collection = ids.lastId collection :=
  congrArg (Option.getD · 0) (step.bounds_eq other)

/-- A collection that is seeded stays so. -/
theorem Step.isSome_bounds (step : Step ids e ids') (known : (ids.bounds collection).isSome) :
    (ids'.bounds collection).isSome := by
  by_cases here : e.request.NumbersIn collection
  · cases step with
    | asks | passes => exact known
    | seeds | handsOut =>
      obtain rfl := here
      exact Option.isSome_of_mem (congrFun (ids.bounds_insert _ _) _ |>.trans
        (Function.update_self ..))
  · rwa [step.bounds_eq here]

theorem Step.reserves_of_takes (step : Step ids e ids') (takes : e.Takes collection taken) :
    ids'.bounds.Reserves ⟨collection, taken⟩ := by
  rcases takes with rfl | rfl
  · cases step with
    | seeds =>
      obtain ⟨b, _, reaches, same⟩ := ids.bounds_seed collection taken
      exact same ▸ ⟨b, Function.update_self .., reaches⟩
    | passes plain => exact absurd trivial plain
  · cases step with
    | handsOut =>
      exact (ids.bounds_insert collection _).symm ▸ ⟨_, Function.update_self .., Int64.le_refl _⟩
    | passes plain => exact absurd trivial plain

section BeforeTheGreatest

/-! Up to the greatest id the ids of a collection only go up. -/

variable (below : ids.lastId collection ≠ Int64.maxValue)
include below

theorem Step.reserves (step : Step ids e ids')
    (reserves : ids.bounds.Reserves ⟨collection, taken⟩) :
    ids'.bounds.Reserves ⟨collection, taken⟩ := by
  obtain ⟨b, hb, le⟩ := reserves
  by_cases here : e.request.NumbersIn collection
  · cases step with
    | asks | passes => exact ⟨b, hb, le⟩
    | @seeds c atLeast =>
      obtain rfl : c = collection := here
      obtain ⟨b', above, _, same⟩ := ids.bounds_seed c atLeast
      exact same ▸ ⟨b', Function.update_self .., Int64.le_trans le (above b hb)⟩
    | @handsOut c =>
      obtain rfl : c = collection := here
      rw [ids.lastId_eq c hb] at below
      refine (ids.bounds_insert c _).symm ▸ ⟨_, Function.update_self .., Int64.le_trans le ?_⟩
      rw [ids.lastId_eq c hb]
      exact Int64.le_of_lt (lt_add_one_of_ne below)
  · exact ⟨b, (step.bounds_eq here).symm ▸ hb, le⟩

theorem Step.lastId_ne (step : Step ids e ids') (other : ¬e.Takes collection Int64.maxValue) :
    ids'.lastId collection ≠ Int64.maxValue := by
  by_cases here : e.request.NumbersIn collection
  · cases step with
    | asks | passes => exact below
    | @seeds c atLeast =>
      obtain rfl : c = collection := here
      rw [seed, lastId_insert]
      split
      · rintro rfl
        exact other (.inl rfl)
      · exact below
    | @handsOut c =>
      obtain rfl : c = collection := here
      intro greatest
      exact other (.inr (by rw [← greatest, next, lastId_insert]))
  · rwa [step.lastId_eq_of_other here]

/-- What is handed out is above all that was taken. -/
theorem Step.lt_of_reserves (step : Step ids ⟨.nextId collection, id⟩ ids')
    (reserves : ids.bounds.Reserves ⟨collection, taken⟩) : taken < id := by
  cases step with
  | handsOut =>
    obtain ⟨b, hb, le⟩ := reserves
    rw [← ids.lastId_eq collection hb] at le
    exact Int64.lt_of_le_of_lt le (lt_add_one_of_ne below)
  | passes plain => exact absurd trivial plain

end BeforeTheGreatest

section AfterTheGreatest

/-! Seeds leave the greatest id as it is. -/

theorem eq_maxValue_of_le (h : Int64.maxValue ≤ id) : id = Int64.maxValue :=
  Int64.le_antisymm (Int64.le_maxValue id) h

theorem Step.lastId_of_takes (step : Step ids e ids') (takes : e.Takes collection Int64.maxValue) :
    ids'.lastId collection = Int64.maxValue := by
  obtain ⟨b, hb, le⟩ := step.reserves_of_takes takes
  rw [ids'.lastId_eq collection hb, eq_maxValue_of_le le]

theorem Step.lastId_eq_maxValue (step : Step ids e ids')
    (greatest : ids.lastId collection = Int64.maxValue) (none : e.handedOut? collection = none) :
    ids'.lastId collection = Int64.maxValue := by
  by_cases here : e.request.NumbersIn collection
  · cases step with
    | asks | passes => exact greatest
    | @seeds c atLeast =>
      obtain rfl : c = collection := here
      rw [seed, lastId_insert, greatest]
      split
      · next less => exact eq_maxValue_of_le (Int64.le_of_lt less)
      · rfl
    | @handsOut c =>
      obtain rfl : c = collection := here
      rw [Event.handedOut?_eq_some_iff.2 rfl] at none
      cases none
  · rwa [step.lastId_eq_of_other here]

theorem Step.eq_minValue (step : Step ids ⟨.nextId collection, id⟩ ids')
    (greatest : ids.lastId collection = Int64.maxValue) : id = Int64.minValue := by
  cases step with
  | handsOut =>
    rw [next, greatest]
    rfl
  | passes plain => exact absurd trivial plain

end AfterTheGreatest

/-- A collection that is told to be seeded is, from then on. -/
theorem Step.isSeeded_of_tells (step : Step ids e ids') (tells : e.Tells collection) :
    (ids'.bounds collection).isSome := by
  rcases tells with rfl | ⟨atLeast, rfl⟩
  · generalize seeded : true = answer at step
    cases step with
    | asks => rw [← ids.isSeeded_eq, ← seeded]
    | passes _ other => exact absurd rfl (other collection)
  · obtain ⟨b, hb, _⟩ := step.reserves_of_takes (.inl rfl)
    exact Option.isSome_of_mem hb

theorem Steps.of_append (h : Steps ids (before ++ after) ids') :
    ∃ middle, Steps ids before middle ∧ Steps middle after ids' := by
  induction before generalizing ids with
  | nil => exact ⟨ids, .nil, h⟩
  | cons e before ih =>
    cases h with
    | cons step h =>
      obtain ⟨middle, first, rest⟩ := ih h
      exact ⟨middle, .cons step first, rest⟩

theorem Steps.isSome_bounds (h : Steps ids events ids') (known : (ids.bounds collection).isSome) :
    (ids'.bounds collection).isSome := by
  induction h with
  | nil => exact known
  | cons step _ ih => exact ih (step.isSome_bounds known)

/-- What is taken stays so until the greatest is. -/
theorem Steps.reserves (h : Steps ids events ids') (enough : ids.Suffices collection events)
    (reserves : ids.bounds.Reserves ⟨collection, taken⟩) :
    ids'.bounds.Reserves ⟨collection, taken⟩ := by
  induction h with
  | nil => exact reserves
  | cons step _ ih =>
    obtain ⟨below, others⟩ := enough
    obtain ⟨first, rest⟩ := List.forall_mem_cons.1 others
    exact ih ⟨step.lastId_ne below first, rest⟩ (step.reserves below reserves)

theorem Steps.lastId_ne (h : Steps ids events ids') (enough : ids.Suffices collection events) :
    ids'.lastId collection ≠ Int64.maxValue := by
  induction h with
  | nil => exact enough.first
  | cons step _ ih =>
    obtain ⟨below, others⟩ := enough
    obtain ⟨first, rest⟩ := List.forall_mem_cons.1 others
    exact ih ⟨step.lastId_ne below first, rest⟩

theorem Steps.lastId_eq_maxValue (h : Steps ids events ids')
    (greatest : ids.lastId collection = Int64.maxValue)
    (none : ∀ e ∈ events, e.handedOut? collection = none) :
    ids'.lastId collection = Int64.maxValue := by
  induction h with
  | nil => exact greatest
  | cons step _ ih =>
    obtain ⟨first, rest⟩ := List.forall_mem_cons.1 none
    exact ih (step.lastId_eq_maxValue greatest first) rest

theorem Steps.bounds_eq (h : Steps ids events ids')
    (others : ∀ e ∈ events, ¬e.request.NumbersIn collection) :
    ids'.bounds collection = ids.bounds collection := by
  induction h with
  | nil => rfl
  | cons step _ ih =>
    obtain ⟨first, rest⟩ := List.forall_mem_cons.1 others
    exact (ih rest).trans (step.bounds_eq first)

/-- A collection that is seeded once stays so. -/
theorem Steps.isSeeded_of_tells (h : Steps ids events ids') (mem : e ∈ events)
    (tells : e.Tells collection) : (ids'.bounds collection).isSome := by
  obtain ⟨before, after, rfl⟩ := List.append_of_mem mem
  obtain ⟨_, _, rest⟩ := h.of_append
  cases rest with
  | cons step rest =>
    exact rest.isSome_bounds (step.isSeeded_of_tells tells)

/-- An id that is handed out is above all that were taken before, if the
greatest is not among them. -/
theorem Steps.lt_of_takes (h : Steps ids (before ++ ⟨.nextId collection, id⟩ :: after) ids')
    (enough : ids.Suffices collection before) (mem : e ∈ before)
    (takes : e.Takes collection taken) : taken < id := by
  obtain ⟨earlier, between, rfl⟩ := List.append_of_mem mem
  obtain ⟨_, past, rest⟩ := h.of_append
  obtain ⟨_, early, late⟩ := past.of_append
  obtain ⟨before, later⟩ := List.forall_mem_append.1 enough.later
  obtain ⟨here, later⟩ := List.forall_mem_cons.1 later
  have below := early.lastId_ne ⟨enough.first, before⟩
  cases late with
  | cons step late =>
    have below' := step.lastId_ne below here
    cases rest with
    | cons last _ =>
      exact last.lt_of_reserves (late.lastId_ne ⟨below', later⟩)
        (late.reserves ⟨below', later⟩ (step.reserves_of_takes takes))

/-- Once the greatest id is taken, the next that is handed out is the least. -/
theorem Steps.eq_minValue
  (h : Steps ids (before ++ e :: (between ++ ⟨.nextId collection, id⟩ :: after)) ids')
    (takes : e.Takes collection Int64.maxValue)
    (none : ∀ e ∈ between, e.handedOut? collection = none) : id = Int64.minValue := by
  obtain ⟨_, _, h⟩ := h.of_append
  cases h with
  | cons step h =>
    obtain ⟨_, quiet, h⟩ := h.of_append
    cases h with
    | cons last _ =>
      exact last.eq_minValue (quiet.lastId_eq_maxValue (step.lastId_of_takes takes) none)

end IdTable

/-! ## What a save asks for -/

/-- The highest id that is stored in a collection is asked for. -/
def Event.highest (settings : Settings) (conn : Connection) (collection : String)
    (outcome : Except Error (Option Value)) :
    Event := ⟨.scalar conn (.query (.maxId (settings.names collection).document) ∅), outcome⟩

/-- A collection is seeded with the highest id that is stored. -/
def Event.seeded (collection : String) (highest : Option Value) : Event :=
  ⟨.seedIds collection ((highest.bind Value.int64?).getD 0), ()⟩

namespace Action

variable {settings : Settings} {conn : Connection} {collection : String} {events : List Event}

theorem emits_ofProgram_iff {r : Request} {result : Except Error r.Outcome} :
    (ofProgram (.request r)).Emits events result ↔ ∃ o, events = [⟨r, o⟩] ∧ result = .ok o := by
  change Program.Emits (.ask r fun o => .done (.ok o)) events result ↔ _
  rw [Program.emits_ask_iff]
  constructor
  · rintro ⟨o, rest, rfl, h⟩
    obtain ⟨rfl, rfl⟩ := Program.emits_done_iff.1 h
    exact ⟨o, rfl, rfl⟩
  · rintro ⟨o, rfl, rfl⟩
    exact ⟨o, [], rfl, .done _⟩

/-- How it is made sure that a collection is seeded. -/
inductive Seeds (settings : Settings) (conn : Connection) (collection : String) :
    List Event → Except Error Unit → Prop
  | known : Seeds settings conn collection [⟨.idsSeeded collection, true⟩] (.ok ())
  | fails {e : Error} :
      Seeds settings conn collection [⟨.idsSeeded collection, false⟩,
        .highest settings conn collection (.error e)] (.error e)
  | seeds {highest : Option Value} : Seeds settings conn collection
      [⟨.idsSeeded collection, false⟩, .highest settings conn collection (.ok highest),
        .seeded collection highest] (.ok ())

theorem seeds_of_ensureSeeded {result : Except Error Unit}
    (h : (ensureSeeded settings conn collection).Emits events result) :
    Seeds settings conn collection events result := by
  rcases emits_bind_iff.1 h with ⟨e, rfl, failed⟩ | ⟨seeded, first, rest, rfl, told, goesOn⟩
  · obtain ⟨_, _, impossible⟩ := emits_ofProgram_iff.1 failed
    cases impossible
  obtain ⟨_, rfl, same⟩ := emits_ofProgram_iff.1 told
  cases same
  cases seeded with
  | true =>
    obtain ⟨rfl, rfl⟩ := Program.emits_done_iff.1 goesOn
    exact .known
  | false =>
    rcases emits_bind_iff.1 goesOn with
      ⟨e, rfl, failed⟩ | ⟨highest, asked, last, rfl, answered, ends⟩
    · obtain rfl := Program.emits_request_iff.1 failed
      exact .fails
    · obtain rfl := Program.emits_request_iff.1 answered
      obtain ⟨_, rfl, rfl⟩ := emits_ofProgram_iff.1 ends
      exact .seeds

variable {result : Except Error Unit}

theorem Seeds.tells (h : Seeds settings conn collection events result) (ok : result = .ok ()) :
    ∃ e ∈ events, e.Tells collection := by
  cases h with
  | known => exact ⟨_, List.mem_cons_self, .inl rfl⟩
  | fails => cases ok
  | @seeds highest => exact ⟨.seeded collection highest, by simp, .inr ⟨_, rfl⟩⟩

/-- Where the query for the highest id fails, nothing is taken. -/
theorem Seeds.failed (h : Seeds settings conn collection events result) {c : Connection}
    {s : Statement} {e : Error} (mem : ⟨.scalar c s, .error e⟩ ∈ events) :
    result = .error e ∧ ∀ e ∈ events, e.request.Plain := by
  cases h with
  | known => cases List.mem_singleton.1 mem
  | fails =>
    rcases List.mem_cons.1 mem with same | mem
    · cases same
    · cases List.mem_singleton.1 mem
      exact ⟨rfl, List.forall_mem_cons.2 ⟨id, List.forall_mem_singleton.2 id⟩⟩
  | seeds => simp [Event.highest, Event.seeded] at mem

section Taking

variable {r : Request}

/-- What is asked for once a collection is seeded is not asked for if it cannot be. -/
theorem seeds_of_failed {e : Error}
    (h : (ensureSeeded settings conn collection >>= fun _ => ofProgram (.request r)).Emits events
      (.error e)) :
    Seeds settings conn collection events (.error e) := by
  rcases emits_bind_iff.1 h with ⟨_, same, failed⟩ | ⟨_, first, rest, rfl, _, asked⟩
  · cases same
    exact seeds_of_ensureSeeded failed
  · obtain ⟨_, _, impossible⟩ := emits_ofProgram_iff.1 asked
    cases impossible

theorem seeds_of_answered {o : r.Outcome}
    (h : (ensureSeeded settings conn collection >>= fun _ => ofProgram (.request r)).Emits events
      (.ok o)) :
    ∃ first, events = first ++ [⟨r, o⟩] ∧ Seeds settings conn collection first (.ok ()) := by
  obtain ⟨_, first, rest, rfl, seeded, asked⟩ := emits_ok_bind_iff.1 h
  obtain ⟨_, rfl, same⟩ := emits_ofProgram_iff.1 asked
  cases same
  exact ⟨first, rfl, seeds_of_ensureSeeded seeded⟩

end Taking

end Action

namespace Session

variable {entity : EntityType} {collection : String} {content : Json} {session session' : Session}
  {events : List Event} {result : Except Error Json}

/-- The events by which an entity gets its identity: its collection is seeded by then, and it takes
a new id, or its own. -/
def Identified (session : Session) (entity : EntityType) (collection : String) (content : Json)
    (events : List Event) : Prop :=
  ∃ first last, events = first ++ [last] ∧
    Action.Seeds session.settings session.connection collection first (.ok ()) ∧
    (entity.id content = 0 ∧ (∃ id, last = ⟨.nextId collection, id⟩) ∨
      entity.id content ≠ 0 ∧ last = ⟨.seedIds collection (entity.id content), ()⟩)

theorem cases_of_identify
    (h : Work.Emits (identify entity collection content) session events result session') :
    (∃ e, result = .error e ∧ session' = session ∧
        Action.Seeds session.settings session.connection collection events (.error e)) ∨
      (∃ json, result = .ok json) ∧ session.Identified entity collection content events := by
  have run := Work.emits_get_bind_iff.1 h
  dsimp only at run
  split at run
  · next new =>
    rcases Work.emits_bind_iff.1 run with
      ⟨e, rfl, failed⟩ | ⟨id, middle, taking, rest, rfl, taken, named⟩
    · obtain ⟨rfl, failed⟩ := Work.emits_ofAction_iff.1 failed
      exact .inl ⟨e, rfl, rfl, Action.seeds_of_failed failed⟩
    · obtain ⟨rfl, taken⟩ := Work.emits_ofAction_iff.1 taken
      obtain ⟨first, rfl, seeds⟩ := Action.seeds_of_answered taken
      have named := Work.emits_modify_bind_iff.1 named
      obtain ⟨rfl, same, _⟩ := Work.emits_pure_iff.1 named
      exact .inr ⟨⟨_, same⟩, first, _, List.append_nil _, seeds, .inl ⟨new, id, rfl⟩⟩
  · next chosen =>
    rcases Work.emits_bind_iff.1 run with
      ⟨e, rfl, failed⟩ | ⟨_, middle, taking, rest, rfl, taken, named⟩
    · obtain ⟨rfl, failed⟩ := Work.emits_ofAction_iff.1 failed
      exact .inl ⟨e, rfl, rfl, Action.seeds_of_failed failed⟩
    · obtain ⟨rfl, taken⟩ := Work.emits_ofAction_iff.1 taken
      obtain ⟨first, rfl, seeds⟩ := Action.seeds_of_answered taken
      obtain ⟨rfl, same, _⟩ := Work.emits_pure_iff.1 named
      exact .inr ⟨⟨_, same⟩, first, _, List.append_nil _, seeds, .inr ⟨chosen, rfl⟩⟩

/-- A save that fails before its entity has an identity leaves the session as it is. What comes
after asks for nothing. -/
theorem cases_of_save
    (h : Work.Emits (save entity collection content) session events result session') :
    (∃ e, result = .error e ∧ session' = session ∧
        Action.Seeds session.settings session.connection collection events (.error e)) ∨
      session.Identified entity collection content events := by
  rcases Work.emits_bind_iff.1 h with
    ⟨e, rfl, failed⟩ | ⟨json, middle, first, rest, rfl, identified, scheduled⟩
  · rcases cases_of_identify failed with ⟨_, same, left, seeds⟩ | ⟨⟨_, impossible⟩, _⟩
    · cases same
      exact .inl ⟨e, rfl, left, seeds⟩
    · cases impossible
  · have silent : rest = [] := by
      rcases Work.emits_bind_iff.1 (Work.emits_get_bind_iff.1 scheduled) with
        ⟨_, _, failed⟩ | ⟨_, _, none, last, split, written, waits⟩
      · exact (Program.emits_done_iff.1 (Work.emits_ofAction_iff.1 failed).2).1
      · obtain ⟨rfl, _⟩ := Program.emits_done_iff.1 (Work.emits_ofAction_iff.1 written).2
        have waits := Work.emits_modify_bind_iff.1 waits
        exact split.trans (Work.emits_pure_iff.1 waits).1
    rw [silent, List.append_nil]
    rcases cases_of_identify identified with ⟨_, impossible, _⟩ | ⟨_, identified⟩
    · cases impossible
    · exact .inr identified

end Session

/-! ## Whoever takes an id does so after a seed -/

/-- Wherever ids are taken their collection was told to be seeded, or is seeded with the highest id
that was just found stored. -/
def SeedsFirst (settings : Settings) (events : List Event) : Prop :=
  ∀ collection before e after, events = before ++ e :: after → e.request.NumbersIn collection →
    (∃ e' ∈ before, e'.Tells collection) ∨
      ∃ earlier conn highest,
        before = earlier ++ [.highest settings conn collection (.ok highest)] ∧
          e = .seeded collection highest

namespace SeedsFirst

variable {settings : Settings} {events events' : List Event} {collection : String}

theorem of_plain (plain : ∀ e ∈ events, e.request.Plain) : SeedsFirst settings events := by
  intro collection before e after split numbers
  exact absurd numbers.numbers (plain e (by simp [split]))

theorem append (h : SeedsFirst settings events) (h' : SeedsFirst settings events') :
    SeedsFirst settings (events ++ events') := by
  intro collection before e after split numbers
  rcases cases_of_append_eq split with ⟨middle, rfl, _⟩ | ⟨middle, rfl, rfl⟩
  · exact h collection before e middle rfl numbers
  · rcases h' collection middle e after rfl numbers with
      ⟨e', mem, tells⟩ | ⟨earlier, conn, highest, rfl, seeded⟩
    · exact .inl ⟨e', List.mem_append_right _ mem, tells⟩
    · exact .inr ⟨events ++ earlier, conn, highest, (List.append_assoc ..).symm, seeded⟩

theorem concat (h : SeedsFirst settings events) {e' : Event} (mem : e' ∈ events)
    (tells : e'.Tells collection) {e : Event} (only : ∀ c, e.request.NumbersIn c → c = collection) :
    SeedsFirst settings (events ++ [e]) := by
  intro c before e after split numbers
  rcases cases_of_append_eq split with ⟨middle, rfl, _⟩ | ⟨middle, rfl, last⟩
  · exact h c before e middle rfl numbers
  · obtain ⟨rfl, rfl, _⟩ := eq_of_append_singleton last.symm
    exact .inl ⟨e', by simpa using mem, only c numbers ▸ tells⟩

theorem of_seeds {conn : Connection} {result : Except Error Unit}
    (h : Action.Seeds settings conn collection events result) : SeedsFirst settings events := by
  cases h with
  | known => exact of_plain (List.forall_mem_singleton.2 id)
  | fails => exact of_plain (List.forall_mem_cons.2 ⟨id, List.forall_mem_singleton.2 id⟩)
  | @seeds highest =>
    intro c before e after split numbers
    have parts :
        [⟨.idsSeeded collection, false⟩, .highest settings conn collection (.ok highest)] ++
        [.seeded collection highest] =
        before ++ e :: after := split
    rcases cases_of_append_eq parts with ⟨middle, asked, _⟩ | ⟨middle, rfl, last⟩
    · have plain : ∀ e' ∈ before ++ e :: middle, e'.request.Plain := by
        rw [← asked]
        exact List.forall_mem_cons.2 ⟨id, List.forall_mem_singleton.2 id⟩
      exact absurd numbers.numbers (plain e (by simp))
    · obtain ⟨rfl, rfl, _⟩ := eq_of_append_singleton last.symm
      obtain rfl : collection = c := numbers
      exact .inr ⟨[_], conn, highest, rfl, rfl⟩

theorem of_identified {session : Session} {entity : EntityType} {content : Json}
    (h : session.Identified entity collection content events) :
    SeedsFirst session.settings events := by
  obtain ⟨first, last, rfl, seeds, taken⟩ := h
  obtain ⟨e, mem, tells⟩ := seeds.tells rfl
  refine (of_seeds seeds).concat mem tells fun c numbers => ?_
  rcases taken with ⟨_, id, rfl⟩ | ⟨_, rfl⟩
  · exact numbers.symm
  · exact numbers.symm

end SeedsFirst

/-- Nothing but a save takes ids. -/
theorem Call.asks_plain (call : Call)
    (other : ∀ entity collection content, call ≠ .save entity collection content) :
    call.work.Asks Request.Plain := by
  have lookups : Request.HasLookups Request.Plain := Request.hasFlushes_plain.toHasLookups
  have steady : Session.Steady fun _ => () := fun _ _ _ _ => rfl
  cases call with
  | save entity collection content => exact absurd rfl (other entity collection content)
  | delete entity collection content =>
    exact (Session.ensures_delete steady entity collection content).asks
  | read q =>
    exact (Reading.ensures_alone lookups (q.inquires lookups steady.untracked)).asks.bind fun _ =>
      Work.asks_pure _
  | join qs =>
    have inquire : ∀ start ∈ qs.map Read.start, start.Inquires Request.Plain fun _ => () := by
      intro start hstart
      obtain ⟨q, _, rfl⟩ := List.mem_map.1 hstart
      exact q.inquires lookups steady.untracked
    exact (Session.ensures_joinAll lookups inquire).asks.bind fun _ => Work.asks_pure _
  | flush => exact Session.asks_flush Request.hasFlushes_plain
  | saveChanges =>
    exact (Session.asks_flush Request.hasFlushes_plain).bind fun _ =>
      Session.asks_conclude (fun _ => id) fun _ => id
  | cancel => exact Work.asks_modify _
  | close => exact Session.asks_rollback fun _ => id

namespace Session

variable {settings : Settings} {session session' : Session} {calls : List Called}

theorem emits_of_save {entity : EntityType} {collection : String} {content : Json}
    {events : List Event} {result : Except Error Unit}
    (h : Work.Emits (Call.work (.save entity collection content)) session events result session') :
    ∃ saved : Except Error Json, Work.Emits (save entity collection content) session events
        saved session' ∧
      result = saved.map fun _ => () := by
  rcases Work.emits_bind_iff.1 h with
    ⟨e, rfl, failed⟩ | ⟨json, middle, first, rest, rfl, saved, ends⟩
  · exact ⟨.error e, failed, rfl⟩
  · obtain ⟨rfl, rfl, rfl⟩ := Work.emits_pure_iff.1 ends
    exact ⟨.ok json, (List.append_nil first).symm ▸ saved, rfl⟩

section Saved

variable {entity : EntityType} {collection : String} {content : Json} {events : List Event}
  {result : Except Error Unit}
  (h : Work.Emits (Call.work (.save entity collection content)) session events result session')
include h

/-- An id that a caller brings along is taken once its save is over. -/
theorem reserved_of_saved (chosen : entity.id content ≠ 0) (ok : result = .ok ()) :
    ⟨.seedIds collection (entity.id content), ()⟩ ∈ events := by
  obtain ⟨saved, run, same⟩ := emits_of_save h
  rcases cases_of_save run with ⟨e, rfl, _⟩ | ⟨first, last, split, _, taken⟩
  · rw [ok] at same
    cases same
  · rcases taken with ⟨new, _⟩ | ⟨_, rfl⟩
    · exact absurd new chosen
    · simp [split]

/-- A save that cannot find out the highest id that is stored takes none. -/
theorem unidentified_of_failed {c : Connection} {s : Statement} {e : Error}
    (failed : ⟨.scalar c s, .error e⟩ ∈ events) :
    result = .error e ∧ (∀ e ∈ events, e.request.Plain) ∧ session' = session := by
  obtain ⟨saved, run, same⟩ := emits_of_save h
  rcases cases_of_save run with ⟨e', rfl, left, seeds⟩ | ⟨first, last, split, seeds, taken⟩
  · obtain ⟨error, plain⟩ := seeds.failed failed
    cases error
    exact ⟨same, plain, left⟩
  · rw [split] at failed
    rcases List.mem_append.1 failed with failed | failed
    · cases (seeds.failed failed).1
    · rw [← List.mem_singleton.1 failed] at taken
      rcases taken with ⟨_, _, impossible⟩ | ⟨_, impossible⟩ <;>
        cases congrArg Event.request impossible

end Saved

theorem seedsFirst_of_emits {call : Call} {events : List Event} {result : Except Error Unit}
    (same : session.settings = settings) (h : Work.Emits call.work session events result session') :
    SeedsFirst settings events := by
  by_cases saves : ∃ entity collection content, call = .save entity collection content
  · obtain ⟨entity, collection, content, rfl⟩ := saves
    obtain ⟨saved, run, _⟩ := emits_of_save h
    rcases cases_of_save run with ⟨_, _, _, seeds⟩ | identified
    · exact same ▸ .of_seeds seeds
    · exact same ▸ .of_identified identified
  · have other : ∀ entity collection content, call ≠ .save entity collection content :=
      fun entity collection content same => saves ⟨entity, collection, content, same⟩
    exact .of_plain ((call.asks_plain other).of_emits h)

theorem History.seedsFirst (waits : session.Waits settings fun _ => True)
    (h : History session calls session') : SeedsFirst settings (Called.trace calls) := by
  induction h with
  | nil => exact .of_plain fun _ he => by cases he
  | @cons _ _ _ call _ _ _ emits _ ih =>
    have proposes : call.Proposes settings fun _ => True := by
      cases call <;> simp [Call.Proposes]
    obtain ⟨waits', _⟩ := (Call.waits_work proposes).of_emits (E := fun _ => True) waits
      emits fun _ _ => trivial
    exact (seedsFirst_of_emits waits.same emits).append (ih waits')

theorem Run.seedsFirst (r : Run settings) : SeedsFirst settings r.events := by
  obtain ⟨conn, opening, _⟩ := r.eq_of_connects
  have connects : SeedsFirst settings r.opening := by
    rw [opening]
    exact .of_plain (List.forall_mem_singleton.2 id)
  exact connects.append (r.history.seedsFirst (r.waits_first _))

end Session

/-! ## Ids in an interleaving -/

theorem exists_first {α : Type} {P : α → Prop} {l : List α} (h : ∃ a ∈ l, P a) :
    ∃ before a after, l = before ++ a :: after ∧ P a ∧ ∀ b ∈ before, ¬P b := by
  classical
  have some : (l.find? fun a => decide (P a)).isSome := List.find?_isSome.2 (by simpa using h)
  obtain ⟨a, found⟩ := Option.isSome_iff_exists.1 some
  obtain ⟨holds, before, after, split, others⟩ := List.find?_eq_some_iff_append.1 found
  exact ⟨before, a, after, split, of_decide_eq_true holds, by simpa using others⟩

/-- What a session asked last. -/
theorem exists_of_eventsOf_concat {ι : Type} [DecidableEq ι] {trace : List (ι × Event)} {i : ι}
    {past : List Event} {e : Event} (h : eventsOf trace i = past ++ [e]) :
    ∃ before after, trace = before ++ (i, e) :: after ∧ eventsOf after i = [] := by
  obtain ⟨own, last, filtered, _, single⟩ := List.map_eq_append_iff.1 h
  obtain ⟨⟨j, e'⟩, rfl, same⟩ := List.map_eq_singleton_iff.1 single
  obtain ⟨before, rest, rfl, _, filtered⟩ := List.filter_eq_append_iff.1 filtered
  obtain ⟨skipped, after, rfl, _, mine, filtered⟩ := List.filter_eq_cons_iff.1 filtered
  obtain rfl : j = i := by simpa using mine
  obtain rfl : e' = e := same
  exact ⟨before ++ skipped, after, (List.append_assoc ..).symm, by
    rw [eventsOf, filtered, List.map_nil]⟩

theorem mem_of_mem_eventsOf {ι : Type} [DecidableEq ι] {trace : List (ι × Event)} {i : ι}
    {e : Event} (h : e ∈ eventsOf trace i) : e ∈ trace.map Prod.snd := by
  obtain ⟨own, mem, rfl⟩ := List.mem_map.1 h
  exact List.mem_map_of_mem (List.mem_filter.1 mem).1

namespace Interleaving

variable {ι : Type} [DecidableEq ι] {settings : Settings} {catalog : Catalog}

/-- The sessions have one source of ids, and each is told the highest id of
those that it sees stored. -/
structure Numbers (x : Interleaving ι settings catalog) (ids ids' : IdTable) : Prop where
  counts : ids.Steps (x.trace.map Prod.snd) ids'
  highest : ∀ before i conn collection highest after w w',
    x.At before i (.highest settings conn collection (.ok highest)) after w w' →
      ∀ row ∈ w.view i (settings.names collection).document,
        ∀ id, row.value? Column.idName = some (.int id) →
        id ≤ (highest.bind Value.int64?).getD 0

/-- The ids of a collection that were handed out, in order. -/
def handedOut (x : Interleaving ι settings catalog) (collection : String) : List Int64 :=
  (x.trace.map Prod.snd).filterMap (Event.handedOut? collection)

/-- The ids that are handed out in a collection are nobody else's, until the
greatest id is taken. -/
structure FreshIds (x : Interleaving ι settings catalog) (ids : IdTable)
    (collection : String) : Prop where
  /-- Each is above all those that were handed out before, if the greatest was not taken. -/
  ascending : ∀ before i id after, x.trace = before ++ (i, ⟨.nextId collection, id⟩) :: after →
    ids.Suffices collection (before.map Prod.snd) → ∀ j earlier,
      (j, ⟨.nextId collection, earlier⟩) ∈ before → earlier < id
  /-- Once the greatest is taken, the next is the least. -/
  startsAgain : ∀ before j e between i id after,
    x.trace = before ++ (j, e) :: (between ++ (i, ⟨.nextId collection, id⟩) :: after) →
      e.Takes collection Int64.maxValue →
      (∀ e ∈ between, e.2.handedOut? collection = none) → id = Int64.minValue
  /-- Before any is handed out in a collection of which nothing was known, a session has found out
  the highest id that is stored, and has seeded the collection with it, before anybody else did. -/
  seeded : ids.isSeeded collection = false → ∀ before i id after,
    x.trace = before ++ (i, ⟨.nextId collection, id⟩) :: after →
    ∃ earlier j conn highest between later,
      before = earlier ++ (j, .highest settings conn collection (.ok highest)) ::
        (between ++ (j, .seeded collection highest) :: later) ∧
      eventsOf between j = [] ∧ ∀ e ∈ earlier ++ between, ¬e.2.request.NumbersIn collection
  /-- Each is above all ids that a session saw stored that has seeded the collection before, if the
  greatest was not taken. -/
  aboveStored : ∀ before earlier j conn highest between later i id after w w',
    before = earlier ++ (j, .highest settings conn collection (.ok highest)) ::
      (between ++ (j, .seeded collection highest) :: later) →
    x.At earlier j (.highest settings conn collection (.ok highest))
        (between ++ (j, .seeded collection highest) ::
          (later ++ (i, ⟨.nextId collection, id⟩) :: after)) w w' →
      ids.Suffices collection (before.map Prod.snd) →
        ∀ row ∈ w.view j (settings.names collection).document, ∀ stored,
          row.value? Column.idName = some (.int stored) → stored < id
  /-- Each is above all ids that callers brought along in saves that were over before, if the
  greatest was not taken. -/
  aboveChosen : ∀ before i id after, x.trace = before ++ (i, ⟨.nextId collection, id⟩) :: after →
    ids.Suffices collection (before.map Prod.snd) →
      ∀ j done call more entity content, (x.runs j).calls = done ++ call :: more →
        call.call = .save entity collection content →
        entity.id content ≠ 0 → call.result = .ok () →
          (x.runs j).opening ++ Called.trace (done ++ [call]) <+: eventsOf before j →
          entity.id content < id
  /-- A save that cannot find out the highest id that is stored fails with that error. It takes no
  id, and leaves the session. -/
  unidentified : ∀ i done call more entity content, (x.runs i).calls = done ++ call :: more →
    call.call = .save entity collection content → ∀ c s e, ⟨.scalar c s, .error e⟩ ∈ call.events →
      call.result = .error e ∧ (∀ e ∈ call.events, e.request.Plain) ∧
        ∃ session, Session.History (x.runs i).first done session ∧
          Session.History session more (x.runs i).last

variable {x : Interleaving ι settings catalog} {before after : List (ι × Event)} {i : ι} {e : Event}

/-- Whoever takes an id in an interleaving does so after a seed. -/
theorem cases_of_numbersIn {collection : String} (split : x.trace = before ++ (i, e) :: after)
    (numbersIn : e.request.NumbersIn collection) :
    (∃ e' ∈ before.map Prod.snd, e'.Tells collection) ∨
      ∃ earlier conn highest between,
        before = earlier ++ (i, .highest settings conn collection (.ok highest)) :: between ∧
        eventsOf between i = [] ∧ e = .seeded collection highest := by
  obtain ⟨rest, run⟩ := exists_run_eq split
  rcases (x.runs i).seedsFirst collection _ e _ run numbersIn with
    ⟨e', mem, tells⟩ | ⟨past, conn, highest, last, seeded⟩
  · exact .inl ⟨e', mem_of_mem_eventsOf mem, tells⟩
  · obtain ⟨earlier, between, rfl, quiet⟩ := exists_of_eventsOf_concat last
    exact .inr ⟨earlier, conn, highest, between, rfl, quiet, seeded⟩

namespace Numbers

variable {ids ids' : IdTable} {collection : String} (numbers : x.Numbers ids ids')
include numbers

/-- Where nothing is known of a collection yet, whoever takes an id first has found out the
highest that is stored. -/
theorem seeded_of_first (unseeded : ids.isSeeded collection = false)
    (split : x.trace = before ++ (i, e) :: after) (numbersIn : e.request.NumbersIn collection)
    (first : ∀ e ∈ before, ¬e.2.request.NumbersIn collection) :
    ∃ earlier conn highest between,
      before = earlier ++ (i, .highest settings conn collection (.ok highest)) :: between ∧
      eventsOf between i = [] ∧ e = .seeded collection highest := by
  refine (cases_of_numbersIn split numbersIn).resolve_left ?_
  rintro ⟨e', mem, tells⟩
  have counts := numbers.counts
  rw [split, List.map_append] at counts
  obtain ⟨_, counts, _⟩ := counts.of_append
  have known := counts.isSeeded_of_tells mem tells
  rw [counts.bounds_eq (List.forall_mem_map.2 first), ← ids.isSeeded_eq, unseeded] at known
  cases known

theorem lt_of_takes {id taken : Int64}
    (split : x.trace = before ++ (i, ⟨.nextId collection, id⟩) :: after)
    (enough : ids.Suffices collection (before.map Prod.snd)) (mem : e ∈ before.map Prod.snd)
    (takes : e.Takes collection taken) : taken < id := by
  have counts := numbers.counts
  rw [split, List.map_append, List.map_cons] at counts
  exact counts.lt_of_takes enough mem takes

end Numbers

/-- However the saves of sessions alternate, the ids that are handed out are fresh until the
greatest is taken, and start again with the least then. -/
theorem fresh_ids {ids ids' : IdTable} (numbers : x.Numbers ids ids') (collection : String) :
    x.FreshIds ids collection where
  ascending := by
    intro before i id after split enough j earlier mem
    exact numbers.lt_of_takes split enough (List.mem_map_of_mem mem) (.inr rfl)
  startsAgain := by
    intro before j e between i id after split takes none
    have counts := numbers.counts
    rw [split, List.map_append, List.map_cons, List.map_append, List.map_cons] at counts
    exact counts.eq_minValue takes (List.forall_mem_map.2 none)
  seeded := by
    intro unseeded before i id after split
    have taken : ∃ e ∈ before, e.2.request.NumbersIn collection := by
      by_contra none
      push Not at none
      obtain ⟨_, _, _, _, _, _, impossible⟩ := numbers.seeded_of_first unseeded split rfl none
      cases congrArg Event.request impossible
    obtain ⟨first, ⟨j, e⟩, later, rfl, numbersIn, others⟩ := exists_first taken
    have here : x.trace = first ++ (j, e) :: (later ++ (i, ⟨.nextId collection, id⟩) :: after) := by
      rw [split, List.append_assoc, List.cons_append]
    obtain ⟨earlier, conn, highest, between, rfl, quiet, rfl⟩ :=
      numbers.seeded_of_first unseeded here numbersIn others
    refine ⟨earlier, j, conn, highest, between, later, by simp, quiet, fun e he => others e ?_⟩
    exact (List.mem_append.1 he).elim (List.mem_append_left _) fun he => by simp [he]
  aboveStored := by
    intro before earlier j conn highest between later i id after w w' parts here enough row mem
      stored value
    have below := numbers.highest _ _ _ _ _ _ _ _ here row mem stored value
    have split : x.trace = before ++ (i, ⟨.nextId collection, id⟩) :: after := by
      rw [here.split, parts]
      simp
    have seeded : Event.seeded collection highest ∈ before.map Prod.snd := by
      rw [parts]
      simp
    exact Int64.lt_of_le_of_lt below (numbers.lt_of_takes split enough seeded (.inl rfl))
  aboveChosen := by
    intro before i id after split enough j done call more entity content calls saves chosen ok past
    obtain ⟨session, session', _, emits, _⟩ := Session.History.at_call (calls ▸ (x.runs j).history)
    rw [saves] at emits
    have reserved := Session.reserved_of_saved emits chosen ok
    have asked : ⟨.seedIds collection (entity.id content), ()⟩ ∈ eventsOf before j :=
      past.subset (List.mem_append_right _ (List.mem_flatMap.2 ⟨call, by simp, reserved⟩))
    exact numbers.lt_of_takes split enough (mem_of_mem_eventsOf asked) (.inl rfl)
  unidentified := by
    intro i done call more entity content calls saves c s e failed
    obtain ⟨session, session', begun, emits, rest⟩ :=
      Session.History.at_call (calls ▸ (x.runs i).history)
    rw [saves] at emits
    obtain ⟨result, plain, rfl⟩ := Session.unidentified_of_failed emits failed
    exact ⟨result, plain, session', begun, rest⟩

end Interleaving

namespace Counting

/-- What is still to be answered about ids. -/
structure IdAnswers where
  seeded : List Bool
  highest : List (Except Error (Option Value))
  next : List Int64

def IdAnswers.answer : Answerer IdAnswers
  | .connect, s => (.ok 0, s)
  | .idsSeeded _, s => (s.seeded.headD true, { s with seeded := s.seeded.tail })
  | .scalar _ _, s => (s.highest.headD (.ok none), { s with highest := s.highest.tail })
  | .nextId _, s => (s.next.headD 0, { s with next := s.next.tail })
  | .seedIds _ _, s => ((), s)
  | .begin _, s | .commit _, s | .rollback _, s => (.ok (), s)
  | .execute _ _, s => (.ok 1, s)
  | .query _ _, s => (.ok [], s)
  | .descriptors _ _, s => (.ok [], s)
  | .compiledSql _ _ _, s => (.error (.storage "offline"), s)

/-- A session saves four new articles, but at first cannot find out which ids are stored. -/
def newcomer : Session.Run settings :=
  .recorded IdAnswers.answer
    [.save entity "" (dated 0 1), .save entity "" (dated 0 1), .save entity "" (dated 0 2),
      .save entity "" (dated 0 2)] (by simp)
    ⟨[false, false, true, true], [.error (.storage "offline"), .ok (some (.int 2))],
      [3, 9, Int64.minValue]⟩

/-- Another one saves an article under an id of its caller's choice, then a new one, and then one
under the greatest id. -/
def chooser : Session.Run settings :=
  .recorded IdAnswers.answer
    [.save entity "" (dated 7 1), .save entity "" (dated 0 1),
      .save entity "" (dated Int64.maxValue 1)] (by simp)
    ⟨[false, true, true], [.ok (some (.int 2))], [8]⟩

/-- Both find the collection unseeded, and the second seeds it when an id has been handed out
already. In the end it takes the greatest id. -/
def mixed : List (Bool × Event) :=
  [(false, ⟨.connect, .ok 0⟩), (true, ⟨.connect, .ok 0⟩), (false, ⟨.idsSeeded "", false⟩),
    (false, .highest settings 0 "" (.error (.storage "offline"))), (false, ⟨.idsSeeded "", false⟩),
    (true, ⟨.idsSeeded "", false⟩), (true, .highest settings 0 "" (.ok (some (.int 2)))),
    (false, .highest settings 0 "" (.ok (some (.int 2)))), (false, .seeded "" (some (.int 2))),
    (false, ⟨.nextId "", (3 : Int64)⟩), (true, .seeded "" (some (.int 2))),
    (true, ⟨.seedIds "" 7, ()⟩), (true, ⟨.idsSeeded "", true⟩), (true, ⟨.nextId "", (8 : Int64)⟩),
    (false, ⟨.idsSeeded "", true⟩), (false, ⟨.nextId "", (9 : Int64)⟩),
    (true, ⟨.idsSeeded "", true⟩), (true, ⟨.seedIds "" Int64.maxValue, ()⟩),
    (false, ⟨.idsSeeded "", true⟩), (false, ⟨.nextId "", Int64.minValue⟩)]

theorem mixed_quiet : ∀ e ∈ mixed, e.2.isQuiet = true := by
  simp [mixed, Event.highest, Event.seeded, Event.isQuiet]

def newcomers : Interleaving Bool settings catalog where
  runs i := if i then chooser else newcomer
  trace := mixed
  before := ⟨afterPublished.tables, none⟩
  after := ⟨afterPublished.tables, none⟩
  takes i := by cases i <;> exact ⟨[], rfl⟩
  steps := Shared.steps_quiet mixed_quiet
  described := by
    intro e he typeName collection ds same
    have none : ∀ e ∈ mixed, e.2.request ≠ .descriptors typeName collection := by
      simp [mixed, Event.highest, Event.seeded]
    exact absurd (congrArg Event.request same) (none e he)

theorem le_two_of_published {row : Row} {id : Int64} (mem : row ∈ afterPublished.tables "Document")
    (value : row.value? Column.idName = some (.int id)) : id ≤ 2 := by
  rw [documents_afterPublished, List.mem_cons, List.mem_singleton] at mem
  rcases mem with rfl | rfl
  · cases (show some (Value.int 1) = some (.int id) from value)
    decide
  · cases (show some (Value.int 2) = some (.int id) from value)
    decide

theorem newcomers_numbers : newcomers.Numbers ∅ ⟨⟨[("", Int64.minValue)]⟩⟩ where
  counts := by
    have connects : IdTable.Step ∅ ⟨.connect, .ok 0⟩ ∅ := .passes id (by simp)
    have looks (ids : IdTable) (outcome : Except Error (Option Value)) :
        ids.Step (.highest settings 0 "" outcome) ids :=
      .passes id (by simp [Event.highest])
    exact .cons connects <| .cons connects <| .cons .asks <| .cons (looks _ _) <|
      .cons .asks <| .cons .asks <|
      .cons (looks _ _) <| .cons (looks _ _) <| .cons .seeds <|
        .cons .handsOut <| .cons .seeds <| .cons .seeds <|
      .cons .asks <| .cons .handsOut <| .cons .asks <| .cons .handsOut <|
        .cons .asks <| .cons .seeds <| .cons .asks <|
      .cons .handsOut .nil
  highest := by
    intro before i conn collection highest after w w' here row mem id value
    have split : mixed = before ++ (i, .highest settings conn collection (.ok highest)) :: after :=
      here.split
    obtain ⟨rfl, table⟩ : highest = some (.int 2) ∧
        (settings.names collection).document = "Document" := by
      have asked : (i, Event.highest settings conn collection (.ok highest)) ∈ mixed := by
        simp [split]
      simp [mixed, Event.highest, Event.seeded] at asked
      rcases asked with ⟨_, ⟨_, table⟩, found⟩ | ⟨_, ⟨_, table⟩, found⟩ <;> exact ⟨found, table⟩
    have passive : ∀ e ∈ mixed, e.2.request.Passive := by
      simp [mixed, Event.highest, Event.seeded, Request.Passive, Request.Inside, Request.begins,
        Request.ends, Request.writes, Statement.writes]
    have unchanged : w = ⟨afterPublished.tables, none⟩ :=
      here.reaches.eq_of_passive fun e he => passive e (split ▸ List.mem_append_left _ he)
    rw [table, unchanged] at mem
    exact le_two_of_published mem value

/-- Ids are handed out above the two that are stored, and above the one that was chosen, but for the
one after the greatest. -/
theorem fresh_ids_newcomers :
    newcomers.handedOut "" = [3, 8, 9, Int64.minValue] ∧
    ¬(newcomers.handedOut "").Pairwise (· < ·) ∧
      newcomer.calls.map (fun c => c.result.toOption) = [none, some (), some (), some ()] ∧
        chooser.calls.map (fun c => c.result.toOption) = [some (), some (), some ()] ∧
          newcomers.FreshIds ∅ "" := by
  have handed : newcomers.handedOut "" = [3, 8, 9, Int64.minValue] := by decide +kernel
  refine ⟨handed, ?_, by decide +kernel, by decide +kernel, ?_⟩
  · rw [handed]
    decide
  · exact Interleaving.fresh_ids newcomers_numbers ""

end Counting

end DocStore

import DocStore.Store
import Mathlib.Data.List.Nodup

/-!
# Describing once

A store keeps the descriptors of an entity type in a collection, and drops all
that it keeps when a provider is registered. Nobody can tell: a look-up answers
what the providers registered by then tell when they are asked afresh, be it
descriptors or an error. Asked afresh, the providers of the collection add one
after the other to what those before them described, until all have or the first
fails. Until the next provider is registered, a description that is successful is
not repeated, and one that fails leaves nothing behind.
-/

set_option autoImplicit false

namespace DocStore

/-! ## Asking providers -/

namespace Provider

/-- What providers make of a description, each of what those before it made, up to
the first that fails. -/
def tell (ctx : Describing) (providers : List Provider) : Except Error Describing :=
  providers.foldlM (fun ctx p => p.describe ctx) ctx

/-- The providers of a collection, as they were registered. -/
def ofCollection (collection : String) (providers : List Provider) : List Provider :=
  providers.filter fun p => p.collection = collection

/-- What providers tell about an entity type in a collection when they are asked afresh. -/
def describeAfresh (providers : List Provider) (entityType collection : String) :
    Except Error (List Descriptor) :=
  (tell (.start entityType collection) (ofCollection collection providers)).map
    Describing.descriptors

variable {ctx ctx' : Describing} {p : Provider} {ps asked : List Provider} {e : Error}

theorem tell_cons_of_ok (ok : p.describe ctx = .ok ctx') : tell ctx (p :: ps) = tell ctx' ps := by
  rw [tell, List.foldlM_cons, ok]
  rfl

theorem tell_cons_of_error (failed : p.describe ctx = .error e) :
    tell ctx (p :: ps) = .error e := by
  rw [tell, List.foldlM_cons, failed]
  rfl

theorem describeAll_cons_of_ok (ok : p.describe ctx = .ok ctx') :
    describeAll ctx (p :: ps) = ((describeAll ctx' ps).1, p :: (describeAll ctx' ps).2) := by
  rw [describeAll, ok]

theorem describeAll_cons_of_error (failed : p.describe ctx = .error e) :
    describeAll ctx (p :: ps) = (.error e, [p]) := by
  rw [describeAll, failed]

/-- What comes of asking is what the providers tell. -/
theorem fst_describeAll (ctx : Describing) (ps : List Provider) :
    (describeAll ctx ps).1 = tell ctx ps := by
  induction ps generalizing ctx with
  | nil => rfl
  | cons p ps ih =>
    cases told : p.describe ctx with
    | ok ctx' => rw [describeAll_cons_of_ok told, tell_cons_of_ok told, ih]
    | error e => rw [describeAll_cons_of_error told, tell_cons_of_error told]

/-- All are asked when none fails. -/
theorem snd_describeAll_of_ok (told : tell ctx ps = .ok ctx') : (describeAll ctx ps).2 = ps := by
  induction ps generalizing ctx with
  | nil => rfl
  | cons p ps ih =>
    cases first : p.describe ctx with
    | ok ctx₁ =>
      rw [tell_cons_of_ok first] at told
      rw [describeAll_cons_of_ok first, ih told]
    | error e =>
      rw [tell_cons_of_error first] at told
      cases told

/-- If one fails, those before it and itself are asked, and its error is the answer. -/
theorem snd_describeAll_of_error (told : tell ctx ps = .error e) :
    ∃ before p after ctx', ps = before ++ p :: after ∧ tell ctx before = .ok ctx' ∧
      p.describe ctx' = .error e ∧ (describeAll ctx ps).2 = before ++ [p] := by
  induction ps generalizing ctx with
  | nil => cases told
  | cons p ps ih =>
    cases first : p.describe ctx with
    | ok ctx₁ =>
      rw [tell_cons_of_ok first] at told
      obtain ⟨before, q, after, ctx', split, earlier, failed, asked⟩ := ih told
      refine ⟨p :: before, q, after, ctx', congrArg (p :: ·) split, ?_, failed, ?_⟩
      · rwa [tell_cons_of_ok first]
      · rw [describeAll_cons_of_ok first, asked]
        rfl
    | error e' =>
      rw [tell_cons_of_error first] at told
      cases told
      exact ⟨[], p, ps, ctx, rfl, rfl, first, congrArg Prod.snd (describeAll_cons_of_error first)⟩

end Provider

/-! ## Look-ups and registrations -/

/-- What is done to a store that concerns descriptors. -/
inductive StoreCall where
  | register (provider : Provider)
  | lookUp (entityType collection : String)

def StoreCall.registered? : StoreCall → Option Provider
  | .register p => some p
  | .lookUp _ _ => none

namespace Store

variable {store : Store} {registered : List Provider} {entityType collection : String}

def call (store : Store) : StoreCall → Store
  | .register p => store.register p
  | .lookUp entityType collection => (store.descriptors entityType collection).store

def after (store : Store) (calls : List StoreCall) : Store := calls.foldl call store

/-- What a call describes successfully: a look-up does that asks providers of which none fails. -/
def describes (store : Store) : StoreCall → List (String × String)
  | .register _ => []
  | .lookUp entityType collection =>
    match (store.descriptors entityType collection).outcome,
      (store.descriptors entityType collection).asked with
    | .ok _, _ :: _ => [(entityType, collection)]
    | _, _ => []

/-- What calls describe successfully, in order. -/
def describings (store : Store) : List StoreCall → List (String × String)
  | [] => []
  | call :: calls => store.describes call ++ (store.call call).describings calls

/-! ## One look-up -/

/-- A look-up is served from what is kept, or describes and keeps the outcome, or
fails and keeps nothing. -/
theorem descriptors_cases (store : Store) (entityType collection : String) :
    (∃ ds, store.described.get? (entityType, collection) = some ds ∧
      store.descriptors entityType collection = ⟨.ok ds, [], store⟩) ∨
    (∃ ctx asked, store.described.get? (entityType, collection) = none ∧
      store.describe entityType collection = (.ok ctx, asked) ∧
      store.descriptors entityType collection = ⟨.ok ctx.descriptors, asked,
        { store with
          described := store.described.insert (entityType, collection) ctx.descriptors }⟩) ∨
    ∃ e asked, store.described.get? (entityType, collection) = none ∧
      store.describe entityType collection = (.error e, asked) ∧
      store.descriptors entityType collection = ⟨.error e, asked, store⟩ := by
  unfold descriptors
  cases kept : store.described.get? (entityType, collection) with
  | some ds => exact .inl ⟨ds, rfl, rfl⟩
  | none =>
    cases described : store.describe entityType collection with
    | mk outcome asked =>
      cases outcome with
      | ok ctx => exact .inr (.inl ⟨ctx, asked, rfl, rfl, rfl⟩)
      | error e => exact .inr (.inr ⟨e, asked, rfl, rfl, rfl⟩)

theorem descriptors_of_kept {ds : List Descriptor}
    (kept : store.described.get? (entityType, collection) = some ds) :
    store.descriptors entityType collection = ⟨.ok ds, [], store⟩ := by
  rw [descriptors, kept]

theorem kept_of_ok {ds : List Descriptor}
    (ok : (store.descriptors entityType collection).outcome = .ok ds) :
    (store.descriptors entityType collection).store.described.get? (entityType, collection) =
    some ds := by
  rcases store.descriptors_cases entityType collection with
    ⟨ds, kept, found⟩ | ⟨ctx, asked, -, -, found⟩ | ⟨e, asked, -, -, found⟩
  · rw [found] at ok ⊢
    cases ok
    exact kept
  · rw [found] at ok ⊢
    cases ok
    rw [Assoc.get?_insert, if_pos rfl]
  · rw [found] at ok
    cases ok

/-- What is asked for a description that is not kept: the providers of the collection, or those up
to the first that fails. -/
theorem asked_of_ok {ds : List Descriptor}
    (missing : store.described.get? (entityType, collection) = none)
    (ok : (store.descriptors entityType collection).outcome = .ok ds) :
    (store.descriptors entityType collection).asked =
    Provider.ofCollection collection store.providers := by
  rcases store.descriptors_cases entityType collection with
    ⟨ds, kept, -⟩ | ⟨ctx, asked, -, described, found⟩ | ⟨e, asked, -, -, found⟩
  · rw [missing] at kept
    cases kept
  · have told := (Provider.fst_describeAll _ _).symm.trans (congrArg Prod.fst described)
    rw [found]
    exact (congrArg Prod.snd described).symm.trans (Provider.snd_describeAll_of_ok told)
  · rw [found] at ok
    cases ok

theorem unchanged_of_error {e : Error}
    (failed : (store.descriptors entityType collection).outcome = .error e) :
    (store.descriptors entityType collection).store = store ∧ ∃ before p after ctx,
      Provider.ofCollection collection store.providers = before ++ p :: after ∧
        Provider.tell (.start entityType collection) before = .ok ctx ∧ p.describe ctx = .error e ∧
          (store.descriptors entityType collection).asked = before ++ [p] := by
  rcases store.descriptors_cases entityType collection with
    ⟨ds, -, found⟩ | ⟨ctx, asked, -, -, found⟩ | ⟨e', asked, -, described, found⟩
  · rw [found] at failed
    cases failed
  · rw [found] at failed
    cases failed
  · rw [found] at failed ⊢
    cases failed
    have told := (Provider.fst_describeAll _ _).symm.trans (congrArg Prod.fst described)
    obtain ⟨before, p, after, ctx, split, earlier, refused, asks⟩ :=
      Provider.snd_describeAll_of_error told
    exact ⟨rfl, before, p, after, ctx, split, earlier, refused,
      (congrArg Prod.snd described).symm.trans asks⟩

/-- What a store keeps is what its providers tell. -/
structure Tells (store : Store) (registered : List Provider) : Prop where
  providers : store.providers = registered
  kept : ∀ entityType collection ds, store.described.get? (entityType, collection) = some ds →
    Provider.describeAfresh registered entityType collection = .ok ds

namespace Tells

theorem outcome (h : store.Tells registered) (entityType collection : String) :
    (store.descriptors entityType collection).outcome =
    Provider.describeAfresh registered entityType collection := by
  have afresh : Provider.describeAfresh registered entityType collection =
      (store.describe entityType collection).1.map Describing.descriptors := by
    rw [describe, Provider.fst_describeAll, h.providers]
    rfl
  rcases store.descriptors_cases entityType collection with
    ⟨ds, kept, found⟩ | ⟨ctx, asked, -, described, found⟩ | ⟨e, asked, -, described, found⟩
  · rw [found, h.kept entityType collection ds kept]
  · rw [found, afresh, described]
    rfl
  · rw [found, afresh, described]
    rfl

theorem lookUp (h : store.Tells registered) (entityType collection : String) :
    (store.descriptors entityType collection).store.Tells registered := by
  have told := h.outcome entityType collection
  rcases store.descriptors_cases entityType collection with
    ⟨ds, -, found⟩ | ⟨ctx, asked, -, -, found⟩ | ⟨e, asked, -, -, found⟩
  · rwa [found]
  · rw [found] at told ⊢
    refine ⟨h.providers, fun entityType' collection' ds kept => ?_⟩
    rw [Assoc.get?_insert] at kept
    split at kept
    · next same =>
      cases same
      cases kept
      exact told.symm
    · exact h.kept entityType' collection' ds kept
  · rwa [found]

theorem call (h : store.Tells registered) (call : StoreCall) :
    (store.call call).Tells (registered ++ call.registered?.toList) := by
  cases call with
  | register p => exact ⟨congrArg (· ++ [p]) h.providers, fun _ _ _ kept => (by cases kept)⟩
  | lookUp entityType collection =>
    rw [StoreCall.registered?, Option.toList_none, List.append_nil]
    exact h.lookUp entityType collection

theorem after (h : store.Tells registered) (calls : List StoreCall) :
    (store.after calls).Tells (registered ++ calls.filterMap StoreCall.registered?) := by
  induction calls generalizing store registered with
  | nil => rwa [List.filterMap_nil, List.append_nil]
  | cons call calls ih =>
    have next := ih (h.call call)
    rw [List.append_assoc] at next
    cases told : call.registered? <;> simpa [told, Store.after] using next

end Tells

/-! ## Between two registrations -/

variable {key : String × String} {ds : List Descriptor}

theorem kept_call {call : StoreCall} (quiet : call.registered? = none)
    (kept : store.described.get? key = some ds) :
    (store.call call).described.get? key = some ds := by
  cases call with
  | register p => cases quiet
  | lookUp entityType collection =>
    rw [Store.call]
    rcases store.descriptors_cases entityType collection with
      ⟨ds, -, found⟩ | ⟨ctx, asked, missing, -, found⟩ | ⟨e, asked, -, -, found⟩
    · rwa [found]
    · rw [found, Assoc.get?_insert, if_neg, kept]
      rintro rfl
      rw [missing] at kept
      cases kept
    · rwa [found]

theorem kept_after {calls : List StoreCall} (quiet : ∀ call ∈ calls, call.registered? = none)
    (kept : store.described.get? key = some ds) :
    (store.after calls).described.get? key = some ds := by
  induction calls generalizing store with
  | nil => exact kept
  | cons call calls ih =>
    obtain ⟨first, rest⟩ := List.forall_mem_cons.1 quiet
    exact ih rest (kept_call first kept)

/-- What is described successfully was not kept before, and is from then on. -/
theorem mem_describes {call : StoreCall} (h : key ∈ store.describes call) :
    store.described.get? key = none ∧ ∃ ds, (store.call call).described.get? key = some ds := by
  cases call with
  | register p => cases h
  | lookUp entityType collection =>
    rw [describes] at h
    split at h
    · next ds p asked ok asks =>
      obtain rfl := List.mem_singleton.1 h
      refine ⟨?_, ds, kept_of_ok ok⟩
      by_contra present
      obtain ⟨ds', kept⟩ := Option.ne_none_iff_exists'.1 present
      rw [descriptors_of_kept kept] at asks
      cases asks
    · cases h

theorem missing_of_mem_describings {calls : List StoreCall}
    (quiet : ∀ call ∈ calls, call.registered? = none) (h : key ∈ store.describings calls) :
    store.described.get? key = none := by
  induction calls generalizing store with
  | nil => cases h
  | cons call calls ih =>
    obtain ⟨first, rest⟩ := List.forall_mem_cons.1 quiet
    rcases List.mem_append.1 h with now | later
    · exact (mem_describes now).1
    · have missing := ih rest later
      by_contra present
      obtain ⟨ds, kept⟩ := Option.ne_none_iff_exists'.1 present
      rw [kept_call first kept] at missing
      cases missing

/-- While nothing is registered, everything is described successfully once at most. -/
theorem nodup_describings {calls : List StoreCall}
    (quiet : ∀ call ∈ calls, call.registered? = none) : (store.describings calls).Nodup := by
  induction calls generalizing store with
  | nil => exact List.nodup_nil
  | cons call calls ih =>
    obtain ⟨first, rest⟩ := List.forall_mem_cons.1 quiet
    refine List.Nodup.append ?_ (ih rest) fun key now later => ?_
    · cases call with
      | register p => exact List.nodup_nil
      | lookUp entityType collection =>
        rw [describes]
        split
        · exact List.nodup_singleton _
        · exact List.nodup_nil
    · obtain ⟨ds, kept⟩ := (mem_describes now).2
      rw [missing_of_mem_describings rest later] at kept
      cases kept

/-- Whatever is registered and looked up, a look-up answers what the providers registered by then
tell when they are asked afresh. What is kept is what they tell, and nobody is asked for it; for
what is not kept all of the collection are asked, in the order of their registration, up to the
first that fails, whose error is the answer. A failure is not kept, so that the same providers are
asked again. Until the next registration everything is described successfully once at most, and what
has been answered is answered again without asking. -/
theorem descriptors_transparent (settings : Settings) (providers : List Provider)
    (calls : List StoreCall) (entityType collection : String) :
    let store := (create settings providers).after calls
    let registered := providers ++ calls.filterMap StoreCall.registered?
    let answer := store.descriptors entityType collection
    answer.outcome = Provider.describeAfresh registered entityType collection ∧
    (∀ ds, store.described.get? (entityType, collection) = some ds →
      Provider.describeAfresh registered entityType collection = .ok ds ∧ answer.asked = []) ∧
    (∀ ds, store.described.get? (entityType, collection) = none → answer.outcome = .ok ds →
      answer.asked = Provider.ofCollection collection registered) ∧
    (∀ e, answer.outcome = .error e → answer.store = store ∧ ∃ before p after ctx,
      Provider.ofCollection collection registered = before ++ p :: after ∧
        Provider.tell (.start entityType collection) before = .ok ctx ∧ p.describe ctx = .error e ∧
          answer.asked = before ++ [p]) ∧
    ∀ later, (∀ call ∈ later, call.registered? = none) →
      (store.describings later).Nodup ∧
      ∀ ds, answer.outcome = .ok ds →
        (answer.store.after later).descriptors entityType collection =
          ⟨.ok ds, [], answer.store.after later⟩ := by
  intro store registered answer
  have tells : store.Tells registered := by
    have new : (create settings providers).Tells providers :=
      ⟨rfl, fun _ _ _ kept => (by cases kept)⟩
    exact new.after calls
  refine ⟨tells.outcome entityType collection, fun ds kept => ?_, fun ds missing ok => ?_,
    fun e failed => ?_,
    fun later quiet => ⟨nodup_describings quiet, fun ds ok =>
      descriptors_of_kept (kept_after quiet (kept_of_ok ok))⟩⟩
  · exact ⟨tells.kept entityType collection ds kept,
      congrArg Described.asked (descriptors_of_kept kept)⟩
  · rw [← tells.providers]
    exact asked_of_ok missing ok
  · rw [← tells.providers]
    exact unchanged_of_error failed

end Store

/-! ## A provider that fails for one type -/

namespace Faltering

def articles : EntityType := ⟨"Article", some, fun _ => 0, fun _ json => json⟩

def byTitle : IndexType := ⟨"ByTitle", [⟨"title", .text, true⟩], some⟩

def titles : Descriptor := .ofMap articles byTitle fun json => [json]

def describing : Provider := ⟨"titles", "", fun ctx => ctx.add titles⟩

def faltering : Provider :=
  ⟨"authors", "", fun ctx => if ctx.entityType = "Author" then .error (.storage "author")
    else .ok ctx⟩

def elsewhere : Provider := ⟨"elsewhere", "archive", fun _ => .error (.storage "archive")⟩

/-- A look-up, a registration that makes the store forget its outcome, and a look-up that fails. -/
def calls : List StoreCall := [.lookUp "Article" "", .register faltering, .lookUp "Author" ""]

end Faltering

namespace Store

open Faltering in
/-- Articles are described by both providers of their collection, once; authors fail at the
second of them, each time. -/
theorem descriptors_transparent_faltering :
    let store := (create ⟨.default, .sqlite, .json⟩ [describing, elsewhere]).after calls
    let articles := store.descriptors "Article" ""
    let authors := store.descriptors "Author" ""
    articles.outcome = .ok [titles] ∧ articles.asked = [describing, faltering] ∧
      (articles.store.after [.lookUp "Author" ""]).descriptors "Article" "" =
        ⟨.ok [titles], [], articles.store.after [.lookUp "Author" ""]⟩ ∧
      authors.outcome = .error (.storage "author") ∧ authors.asked = [describing, faltering] ∧
      authors.store = store := by
  intro store articles authors
  obtain ⟨described, _, all, _, later⟩ :=
    descriptors_transparent ⟨.default, .sqlite, .json⟩ [describing, elsewhere] calls "Article" ""
  obtain ⟨failed, _, _, kept, _⟩ :=
    descriptors_transparent ⟨.default, .sqlite, .json⟩ [describing, elsewhere] calls "Author" ""
  have found : articles.outcome = .ok [titles] := described
  have fails : authors.outcome = .error (.storage "author") := failed
  obtain ⟨unchanged, before, p, after, ctx, split, earlier, refused, asked⟩ := kept _ fails
  obtain ⟨-, again⟩ := later [.lookUp "Author" ""] (by simp [StoreCall.registered?])
  exact ⟨found, all [titles] rfl found, again _ found, fails, rfl, unchanged⟩

end Store

end DocStore

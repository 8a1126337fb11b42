import DocStore.Proofs.CompiledShapes
import Mathlib.Data.List.Induction

/-!
# What a cached statement was compiled from

Compiled queries are built step by step, and may be run in between. The number that
a query was built under stays with it while it is refined, and the store keeps SQL
under that number: so a statement that the store kept was compiled for the same
query, but as that query was when it was run first.
-/

set_option autoImplicit false

namespace DocStore

/-- A step in which a query is built further. -/
inductive Refinement
  | orderBy (e : Expr) (descending : Bool)
  | skip (n : Nat)
  | take (n : Nat)

namespace Refinement

def apply (q : CompiledQuery) : Refinement → CompiledQuery
  | .orderBy e descending => q.orderBy e descending
  | .skip n => q.skip n
  | .take n => q.take n

def term? : Refinement → Option OrderTerm
  | .orderBy e descending => some ⟨e, descending⟩
  | _ => none

def skip? : Refinement → Option Nat
  | .skip n => some n
  | _ => none

def take? : Refinement → Option Nat
  | .take n => some n
  | _ => none

/-- Refining a query adds order terms and sets the paging anew; the rest of it stays. -/
theorem foldl_apply (q : CompiledQuery) (steps : List Refinement) : steps.foldl apply q =
    { q with
      order := q.order ++ steps.filterMap term?
      paging := ⟨(steps.filterMap skip?).getLast?.or q.paging.skip,
          (steps.filterMap take?).getLast?.or q.paging.take⟩ } := by
  induction steps using List.reverseRecOn with
  | nil => simp
  | append_singleton steps r ih =>
    rw [List.foldl_append, ih]
    cases r <;> simp [apply, CompiledQuery.orderBy, CompiledQuery.skip, CompiledQuery.take, term?,
      skip?, take?]

/-- A query comes out of its refinement as it was just if no order terms were added, and the paging
last set was its own. -/
theorem foldl_apply_same_iff (q : CompiledQuery) (steps : List Refinement) :
    (steps.foldl apply q).order = q.order ∧ (steps.foldl apply q).paging = q.paging ↔
      steps.filterMap term? = [] ∧
        (∀ n, (steps.filterMap skip?).getLast? = some n → q.paging.skip = some n) ∧
        ∀ n, (steps.filterMap take?).getLast? = some n → q.paging.take = some n := by
  have last (found own : Option Nat) : found.or own = own ↔ ∀ n, found = some n → own = some n := by
    cases found <;> simp [eq_comm]
  rw [foldl_apply]
  obtain ⟨shape, index, condition, order, skip, take⟩ := q
  simp only [Paging.mk.injEq, List.append_right_eq_self, last]

theorem built_foldl {q : CompiledQuery} (built : q.Built) (steps : List Refinement) :
    (steps.foldl apply q).Built := by
  induction steps generalizing q with
  | nil => exact built
  | cons r rs ih =>
    refine ih ?_
    cases r with
    | orderBy e descending => exact .orderBy e descending built
    | skip n => exact .skip n built
    | take n => exact .take n built

end Refinement

/-- The queries that were built, with the numbers that are left, and the store that runs them. -/
structure Workshop where
  shapes : Shapes
  queries : List CompiledQuery
  store : Store

namespace Workshop

inductive Move
  | define (index : IndexType) (condition : Expr)
  /-- Builds a query further. -/
  | refine (i : Nat) (step : Refinement)
  | run (i : Nat) (collection : String) (args : Arguments)

def next (w : Workshop) : Move → Workshop
  | .define index condition =>
    match w.shapes.define index condition with
    | (.ok q, shapes) => { w with shapes, queries := w.queries ++ [q] }
    | (.error _, shapes) => { w with shapes }
  | .refine i step => { w with queries := w.queries.modify i fun q => step.apply q }
  | .run i collection args =>
    match w.queries[i]? with
    | some q => { w with store := (w.store.compiledSql q collection args).2 }
    | none => w

def after (w : Workshop) (moves : List Move) : Workshop := moves.foldl next w

/-- A store that has compiled nothing yet. -/
def opening (first : UInt32) (settings : Settings) (providers : List Provider) : Workshop :=
  ⟨⟨first⟩, [], .create settings providers⟩

/-- The steps in which a query is refined. -/
def Move.refinement? (i : Nat) : Move → Option Refinement
  | .refine j step => if j = i then some step else none
  | _ => none

/-! ## Numbers -/

/-- Queries have the numbers from the first one on, in the order in which they were built. -/
structure Numbered (first : UInt32) (w : Workshop) : Prop where
  next : w.shapes.next = first + UInt32.ofNat w.queries.length
  shape : ∀ i q, w.queries[i]? = some q → q.shape = first + UInt32.ofNat i ∧ q.Built

section Numbered

variable {first : UInt32} {w : Workshop}

theorem numbered_opening (first : UInt32) (settings : Settings) (providers : List Provider) :
    (opening first settings providers).Numbered first :=
  ⟨by simp [opening], fun i q hq => by simp [opening] at hq⟩

theorem Numbered.step (numbered : w.Numbered first) (move : Move) :
    (w.next move).Numbered first := by
  cases move with
  | define index condition =>
    simp only [Workshop.next, Shapes.define]
    cases created : CompiledQuery.create w.shapes.next index condition with
    | error e => exact numbered
    | ok q =>
      refine ⟨?_, fun i q' hq => ?_⟩
      · rw [List.length_append, List.length_singleton, UInt32.ofNat_add, numbered.next,
          UInt32.add_assoc]
        rfl
      · rw [List.getElem?_append] at hq
        split at hq
        · exact numbered.shape i q' hq
        · next late =>
          rw [List.getElem?_singleton] at hq
          split at hq
          · next first =>
            cases hq
            have last : i = w.queries.length := by omega
            rw [last, ← numbered.next]
            exact ⟨CompiledQuery.shape_of_create created, .create created⟩
          · cases hq
  | refine j step =>
    refine ⟨by rw [Workshop.next, List.length_modify]; exact numbered.next, fun i q hq => ?_⟩
    rw [Workshop.next, List.getElem?_modify] at hq
    obtain ⟨q', hq', rfl⟩ := Option.map_eq_some_iff.1 hq
    obtain ⟨shape, built⟩ := numbered.shape i q' hq'
    split
    · exact ⟨by cases step <;> exact shape, Refinement.built_foldl built [step]⟩
    · exact ⟨shape, built⟩
  | run j collection args =>
    rw [Workshop.next]
    split
    · exact ⟨numbered.next, numbered.shape⟩
    · exact numbered

theorem Numbered.after (numbered : w.Numbered first) (moves : List Move) :
    (w.after moves).Numbered first := by
  induction moves generalizing w with
  | nil => exact numbered
  | cons move moves ih => exact ih (numbered.step move)

/-- Of fewer queries than there are numbers no two have the same. -/
theorem Numbered.eq_of_shape (numbered : w.Numbered first) (few : w.queries.length ≤ UInt32.size)
    {i j : Nat} {q q' : CompiledQuery} (hq : w.queries[i]? = some q) (hq' : w.queries[j]? = some q')
    (same : q.shape = q'.shape) : i = j := by
  rw [(numbered.shape i q hq).1, (numbered.shape j q' hq').1, UInt32.add_right_inj] at same
  have hi := (List.getElem?_eq_some_iff.1 hq).1
  have hj := (List.getElem?_eq_some_iff.1 hq').1
  have few : w.queries.length ≤ 4294967296 := few
  have same := congrArg UInt32.toNat same
  simp only [UInt32.toNat_ofNat'] at same
  omega

end Numbered

/-! ## Statements -/

/-- A query compiles to some SQL, which is then kept under a key. -/
structure Compiles (w : Workshop) (i : Nat) (key : UInt64 × String) (args : Arguments)
    (q : CompiledQuery) (sql : CompiledSql) : Prop where
  query : w.queries[i]? = some q
  tells : q.discriminator args = .ok key.1
  compiled : q.compile w.store.settings.dialect (w.store.settings.names key.2) args = .ok sql

variable {w : Workshop} {key : UInt64 × String} {sql : CompiledSql}

/-- What is kept after a move was kept before, or the move compiled it. -/
theorem compiled_next {move : Move} (h : (w.next move).store.compiled.get? key = some sql) :
    w.store.compiled.get? key = some sql ∨
    ∃ i args q, move = .run i key.2 args ∧ w.Compiles i key args q sql := by
  cases move with
  | define index condition =>
    rw [Workshop.next] at h
    split at h <;> exact .inl h
  | refine i step => exact .inl h
  | run i collection args =>
    rw [Workshop.next] at h
    split at h
    · next q hq =>
      unfold Store.compiledSql at h
      split at h
      · exact .inl h
      · next d tells =>
        split at h
        · exact .inl h
        · split at h
          · exact .inl h
          · next sql' compiled =>
            rw [Assoc.get?_insert] at h
            split at h
            · next same =>
              cases h
              subst same
              exact .inr ⟨i, args, q, rfl, hq, tells, compiled⟩
            · exact .inl h
    · exact .inl h

/-- Whatever is kept was compiled by some run. -/
theorem exists_of_compiled {first : UInt32} {settings : Settings} {providers : List Provider}
    {moves : List Move}
    (h : ((opening first settings providers).after moves).store.compiled.get? key = some sql) :
    ∃ before i args later q, moves = before ++ .run i key.2 args :: later ∧
      ((opening first settings providers).after before).Compiles i key args q sql := by
  induction moves using List.reverseRecOn with
  | nil => cases h
  | append_singleton moves move ih =>
    rw [after, List.foldl_append] at h
    rcases compiled_next h with kept | ⟨i, args, q, rfl, compiles⟩
    · obtain ⟨before, i, args, later, q, rfl, compiles⟩ := ih kept
      exact ⟨before, i, args, later ++ [move], q, by simp, compiles⟩
    · exact ⟨moves, i, args, [], q, rfl, compiles⟩

/-- A move refines a query or leaves it. -/
theorem getElem?_next {i : Nat} {q : CompiledQuery} (hq : w.queries[i]? = some q) (move : Move) :
    (w.next move).queries[i]? = some ((move.refinement? i).elim q (Refinement.apply q)) := by
  cases move with
  | define index condition =>
    rw [Workshop.next]
    split
    · rw [List.getElem?_append_left (List.getElem?_eq_some_iff.1 hq).1, hq]
      rfl
    · exact hq
  | refine j step =>
    rw [Workshop.next, List.getElem?_modify, hq, Move.refinement?]
    by_cases same : j = i <;> simp [same]
  | run j collection args =>
    rw [Workshop.next]
    split <;> exact hq

/-- What moves make of a query are the steps in which they refine it. -/
theorem getElem?_after {i : Nat} {q : CompiledQuery} (hq : w.queries[i]? = some q)
    (moves : List Move) :
    (w.after moves).queries[i]? =
    some ((moves.filterMap (Move.refinement? i)).foldl Refinement.apply q) := by
  induction moves generalizing w q with
  | nil => exact hq
  | cons move moves ih =>
    refine (ih (getElem?_next hq move)).trans ?_
    rw [List.filterMap_cons]
    cases move.refinement? i <;> rfl

/-- SQL that the store has kept for a query was compiled for the same query, as it was before some
steps that refined it since. -/
theorem exists_refined_of_cached {first : UInt32} {settings : Settings} {providers : List Provider}
    {moves : List Move}
    (few : ((opening first settings providers).after moves).queries.length ≤ UInt32.size) {i : Nat}
    {q : CompiledQuery} (hq : ((opening first settings providers).after moves).queries[i]? = some q)
    {args : Arguments} {d : UInt64} (tells : q.discriminator args = .ok d) {collection : String}
    {sql : CompiledSql}
    (kept : ((opening first settings providers).after moves).store.compiled.get? (d, collection) =
      some sql) :
    ∃ before args₀ later q₀, moves = before ++ .run i collection args₀ :: later ∧
      ((opening first settings providers).after before).Compiles i (d, collection) args₀ q₀ sql ∧
        q = (later.filterMap (Move.refinement? i)).foldl Refinement.apply q₀ := by
  obtain ⟨before, j, args₀, later, q₀, rfl, compiles⟩ := exists_of_compiled kept
  have numbered := numbered_opening first settings providers
  have now :
      ((opening first settings providers).after (before ++ .run j collection args₀ ::
        later)).queries[j]? =
      some ((later.filterMap (Move.refinement? j)).foldl Refinement.apply q₀) := by
    rw [after, List.foldl_append]
    exact getElem?_after compiles.query (.run j collection args₀ :: later)
  have refined : ((later.filterMap (Move.refinement? j)).foldl Refinement.apply q₀).shape =
      q₀.shape := by
    rw [Refinement.foldl_apply]
  have shape : q.shape = q₀.shape :=
    CompiledQuery.shape_eq_of_discriminator ((numbered.after _).shape i q hq).2
    ((numbered.after before).shape j q₀ compiles.query).2 tells compiles.tells
  obtain rfl : i = j := (numbered.after _).eq_of_shape few hq now (shape.trans refined.symm)
  rw [hq, Option.some.injEq] at now
  exact ⟨before, args₀, later, q₀, rfl, compiles, now⟩

/-- However queries are built, refined and run: SQL that the store has kept for a query was
compiled for the same query, with the same condition, in the same collection. It is that of the
query as it is now just if no order terms were added since, and the paging that was last set
since was set already. -/
theorem origin_of_cached {first : UInt32} {settings : Settings} {providers : List Provider}
    {moves : List Move}
    (few : ((opening first settings providers).after moves).queries.length ≤ UInt32.size) {i : Nat}
    {q : CompiledQuery} (hq : ((opening first settings providers).after moves).queries[i]? = some q)
    {args : Arguments} {d : UInt64} (tells : q.discriminator args = .ok d) {collection : String}
    {sql : CompiledSql}
    (kept : ((opening first settings providers).after moves).store.compiled.get? (d, collection) =
      some sql) :
    (((opening first settings providers).after moves).store.compiledSql q collection args).1 =
        .ok sql ∧
      ∃ before args₀ later q₀, moves = before ++ .run i collection args₀ :: later ∧
        ((opening first settings providers).after before).Compiles i (d, collection) args₀ q₀ sql ∧
          q.index = q₀.index ∧ q.condition = q₀.condition ∧
            (q.order = q₀.order ∧ q.paging = q₀.paging ↔
              (later.filterMap (Move.refinement? i)).filterMap Refinement.term? = [] ∧
              (∀ n, ((later.filterMap (Move.refinement? i)).filterMap Refinement.skip?).getLast? =
                some n → q₀.paging.skip = some n) ∧
              ∀ n, ((later.filterMap (Move.refinement? i)).filterMap Refinement.take?).getLast? =
                some n → q₀.paging.take = some n) := by
  refine ⟨by simp only [Store.compiledSql, tells, kept], ?_⟩
  obtain ⟨before, args₀, later, q₀, rfl, compiles, now⟩ :=
    exists_refined_of_cached few hq tells kept
  refine ⟨before, args₀, later, q₀, rfl, compiles, ?_⟩
  rw [← Refinement.foldl_apply_same_iff, ← now]
  exact ⟨by rw [now, Refinement.foldl_apply], by rw [now, Refinement.foldl_apply], Iff.rfl⟩

def allTitles : CompiledQuery := ⟨0, ⟨"ByTitle", [⟨"title", .text, true⟩], some⟩,
  .const (.bool true), [], ⟨none, none⟩⟩

def firstTitle : CompiledQuery := allTitles.take 1

/-- All titles are listed, and then only the first is asked for. -/
def titles : List Move := [.define allTitles.index allTitles.condition, .run 0 "" fun _ => none,
  .refine 0 (.take 1)]

/-- The store goes on to list them all. -/
theorem titles_conflated : ∃ sql sql' : CompiledSql,
    (((opening 0 ⟨.default, .standard, .json⟩ []).after titles).store.compiledSql firstTitle
        "" fun _ => none).1 = .ok sql ∧
      allTitles.compile .standard ⟨"", ""⟩ (fun _ => none) = .ok sql ∧
        ¬(firstTitle.order = allTitles.order ∧ firstTitle.paging = allTitles.paging) ∧
          firstTitle.compile .standard ⟨"", ""⟩ (fun _ => none) = .ok sql' ∧
            sql.query.text .standard ≠ sql'.query.text .standard := by
  obtain ⟨sql, kept⟩ : ∃ sql,
      ((opening 0 ⟨.default, .standard, .json⟩ []).after titles).store.compiled.get? (0, "") =
        some sql :=
    ⟨_, rfl⟩
  have made : ((opening 0 ⟨.default, .standard, .json⟩ []).after titles).queries[0]? =
      some firstTitle := rfl
  have tells : firstTitle.discriminator (fun _ => none) = .ok 0 := rfl
  obtain ⟨sql', compiled⟩ : ∃ sql, firstTitle.compile .standard ⟨"", ""⟩ (fun _ => none) =
    .ok sql := ⟨_, rfl⟩
  obtain ⟨served, before, args₀, later, q₀, moves, compiles, _, _, same⟩ :=
    origin_of_cached (by decide) made tells kept
  -- the titles are run once, before any paging is set
  obtain ⟨rfl, rfl, rfl⟩ : before = [titles.head (by decide)] ∧
      args₀ = (fun _ => none) ∧ later = [.refine 0 (.take 1)] := by
    rcases before with _ | ⟨move, _ | ⟨move', _ | ⟨move'', rest⟩⟩⟩
    · cases moves
    · cases moves
      exact ⟨rfl, rfl, rfl⟩
    · cases moves
    · have lengths := congrArg List.length moves
      simp [titles] at lengths
  obtain rfl : allTitles = q₀ := Option.some.inj compiles.query
  have plain : allTitles.compile .standard ⟨"", ""⟩ (fun _ => none) = .ok sql := compiles.compiled
  have apart : (allTitles.compile .standard ⟨"", ""⟩ fun _ => none).toOption.map
        (fun sql : CompiledSql => sql.query.text .standard) ≠
      (firstTitle.compile .standard ⟨"", ""⟩ fun _ => none).toOption.map fun sql : CompiledSql =>
        sql.query.text .standard := by
    decide +kernel
  rw [plain, compiled] at apart
  refine ⟨sql, sql', served, plain, fun alike => ?_, compiled,
    fun equal => apart (congrArg some equal)⟩
  cases (same.1 alike).2.2 1 rfl

end Workshop

end DocStore

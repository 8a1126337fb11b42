import DocStore.Proofs.Identities
import DocStore.Proofs.Inquiries

/-!
# What a flush asks for

A flush asks for documents, descriptors and groups, and for its commands to run.
It neither hands out ids nor keeps them from being handed out.
-/

set_option autoImplicit false

namespace DocStore

/-- Requests that leave the source of ids. -/
abbrev Request.Plain (r : Request) : Prop := ¬r.Numbers

/-- A kind of requests to which all those of a flush belong. -/
structure Request.HasFlushes (P : Request → Prop) : Prop extends HasLookups P where
  begin : ∀ c, P (.begin c)
  execute : ∀ c s, P (.execute c s)
  scalar : ∀ c s, P (.scalar c s)

theorem Request.hasFlushes_plain : HasFlushes Plain where
  query _ _ _ := fun h => h
  descriptors _ _ := fun h => h
  compiledSql _ _ _ := fun h => h
  begin _ := fun h => h
  execute _ _ := fun h => h
  scalar _ _ := fun h => h

variable {P : Request → Prop}

theorem Action.asks_executeAll {conn : Connection} (executes : ∀ s, P (.execute conn s))
    (ss : List Statement) : (executeAll conn ss).Asks P := by
  induction ss with
  | nil => exact asks_pure ()
  | cons s ss ih => exact Asks.bind (Program.asks_request (executes s)) fun _ => ih

namespace Command

variable {conn : Connection} (executes : ∀ s, P (.execute conn s))
  (inserts : ∀ s, P (.scalar conn s))

include executes inserts

theorem asks_run (c : Command) : (c.run conn).Asks P := by
  cases c with
  | createDocument _ _ _ _ | deleteDocument _ _ | createMapRow _ _ _ _ | deleteMapRows _ _ _
  | deleteReduceRow _ _ _ =>
    exact Action.asks_executeAll executes _
  | updateDocument names id typeName content version expected =>
    refine Action.Asks.bind (Program.asks_request (executes _)) fun affected => ?_
    split
    · exact Action.asks_throw _
    · exact Action.asks_pure ()
  | createReduceRow names index cells link =>
    refine Action.Asks.bind (Program.asks_request (inserts _)) fun answer => ?_
    split
    · exact Action.asks_executeAll executes _
    · exact Action.asks_throw _
  | updateReduceRow names index id cells link unlink =>
    exact Action.Asks.bind (Action.asks_executeAll executes _) fun _ =>
      Action.asks_executeAll executes _

theorem asks_runAll (commands : List Command) : (runAll conn commands).Asks P := by
  induction commands with
  | nil => exact Action.asks_pure ()
  | cons c cs ih => exact Action.Asks.bind (c.asks_run executes inserts) fun _ => ih

end Command

namespace Session

variable (flushes : Request.HasFlushes P)

include flushes

theorem asks_planChanges (plan : FlushPlan) (changes : List Pending) :
    (planChanges plan changes).Asks P := by
  have ensured : (planChanges plan changes).Ensures P (fun _ => ()) fun _ => True :=
    ensures_planChanges flushes.toHasLookups (fun _ _ => rfl) plan changes
  exact ensured.asks

theorem asks_flushPending : flushPending.Asks P := by
  refine Work.asks_get.bind fun session =>
    (asks_planChanges flushes ∅ session.pending).bind fun plan => ?_
  have rest : (do
      let commands ← Work.ofAction (plan.arena.finish session.connection session.settings.dialect)
      Work.ofAction (Command.runAll session.connection commands)
      modify (remember plan.applied) : Work Unit).Asks P :=
    (Work.asks_ofAction (plan.arena.asks_finish flushes.toHasLookups _ _)).bind fun commands =>
      (Work.asks_ofAction
        (Command.asks_runAll (flushes.execute _) (flushes.scalar _) commands)).bind fun _ =>
          Work.asks_modify _
  dsimp only
  split
  · exact rest
  · refine Work.Asks.bind ?_ fun _ => rest
    refine Work.asks_get.bind fun session => ?_
    split
    · exact Work.asks_pure _
    · exact Work.Asks.bind (Work.asks_ofAction (Program.asks_request (flushes.begin _))) fun _ =>
        Work.asks_modify _

theorem asks_flush : flush.Asks P := by
  refine Work.asks_get.bind fun session => ?_
  split
  · exact Work.asks_pure _
  · exact (asks_flushPending flushes).tryCatch fun e =>
      (Work.asks_modify _).bind fun _ => Work.asks_throw e

end Session

end DocStore

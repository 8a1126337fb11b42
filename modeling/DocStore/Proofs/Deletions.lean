import DocStore.Proofs.Versions

/-!
# Deletes of documents that sessions share

A delete names a document by its id alone, and no session looks at how many rows
a delete has met. So it takes away whatever version of the document there is,
also one that the session has never seen, and the session goes on as if it had
met its own.
-/

set_option autoImplicit false

namespace DocStore

/-! ## Answers that are not looked at -/

/-- Deletes of the same that differ in how many rows they met. -/
inductive Event.Recounts : Event → Event → Prop
  | delete {c : Connection} {table : String} {keys : Cells} (n m : Nat) :
      Recounts ⟨.execute c (.delete table keys), .ok n⟩ ⟨.execute c (.delete table keys), .ok m⟩

def Request.deletes : Request → Bool
  | .execute _ (.delete _ _) => true
  | _ => false

/-- The request deletes nothing. -/
abbrev Request.Sparing (r : Request) : Prop := r.deletes = false

theorem Request.hasLookups_sparing : HasLookups Sparing :=
  ⟨fun _ _ _ => rfl, fun _ _ => rfl, fun _ _ _ => rfl⟩

theorem Request.sparing_of_writes {r : Request} (h : r.writes = false) : r.Sparing := by
  cases r with
  | execute c s =>
    cases s with
    | insert _ _ | insertReturning _ _ | update _ _ _ | query _ _ | schema _ => rfl
    | delete _ _ => cases h
  | connect | begin _ | commit _ | rollback _ | scalar _ _ | query _ _ | idsSeeded _
  | seedIds _ _ | nextId _
  | descriptors _ _ | compiledSql _ _ _ => rfl

theorem Event.Recounts.deletes {e e' : Event} (h : e.Recounts e') : e.request.deletes = true := by
  cases h
  rfl

namespace Action

variable {α β : Type}

/-- An action that goes on in the same way however many rows a delete has met. -/
def Heedless (a : Action α) : Prop :=
  ∀ ⦃first : List Event⦄ ⦃e e' : Event⦄ ⦃rest : List Event⦄ ⦃result : Except Error α⦄,
    e.Recounts e' →
    a.Emits (first ++ e :: rest) result → a.Emits (first ++ e' :: rest) result

theorem Asks.heedless {a : Action α} (asks : a.Asks Request.Sparing) : a.Heedless := by
  intro first e e' rest result recounts h
  have sparing := (asks.ensures.of_emits h).1 e (by simp)
  rw [Request.Sparing, recounts.deletes] at sparing
  cases sparing

theorem Heedless.bind {a : Action α} {f : α → Action β} (ha : a.Heedless)
    (hf : ∀ x, (f x).Heedless) : (a >>= f).Heedless := by
  intro first e e' rest result recounts h
  rcases emits_bind_iff.1 h with ⟨error, rfl, failed⟩ | ⟨x, own, others, split, done, next⟩
  · exact emits_bind_iff.2 (.inl ⟨error, rfl, ha recounts failed⟩)
  · rcases cases_of_append_eq split.symm with ⟨middle, rfl, rfl⟩ | ⟨middle, rfl, rfl⟩
    · exact emits_bind_iff.2 (.inr ⟨x, first ++ e' :: middle, others, by simp,
        ha recounts done, next⟩)
    · exact emits_bind_iff.2 (.inr ⟨x, own, middle ++ e' :: rest, by simp, done,
        hf x recounts next⟩)

/-- Of statements that are executed one after the other only failures are looked at. -/
theorem heedless_executeAll (c : Connection) (ss : List Statement) :
    (executeAll c ss).Heedless := by
  induction ss with
  | nil => exact Asks.heedless (asks_pure ())
  | cons s ss ih =>
    intro first e e' rest result recounts h
    rcases emits_bind_iff.1 h with ⟨error, rfl, failed⟩ | ⟨n, own, others, split, done, next⟩
    · obtain ⟨rfl, rfl, rfl⟩ := eq_of_append_singleton (Program.emits_request_iff.1 failed)
      cases recounts
    · obtain rfl := Program.emits_request_iff.1 done
      rcases cases_of_append_eq split.symm with ⟨middle, alone, rfl⟩ | ⟨middle, rfl, rfl⟩
      · obtain ⟨rfl, rfl, rfl⟩ := eq_of_append_singleton alone.symm
        cases recounts with
        | delete _ m =>
          exact emits_bind_iff.2 (.inr ⟨m, _, others, rfl, Program.emits_request_iff.2 rfl, next⟩)
      · exact emits_bind_iff.2 (.inr ⟨n, _, middle ++ e' :: rest, by simp, done, ih recounts next⟩)

end Action

namespace Work

variable {α β : Type}

/-- Work that goes on in the same way however many rows a delete has met. -/
def Heedless (w : Work α) : Prop :=
  ∀ ⦃session session' : Session⦄ ⦃first : List Event⦄ ⦃e e' : Event⦄ ⦃rest : List Event⦄
    ⦃result : Except Error α⦄,
    e.Recounts e' → Emits w session (first ++ e :: rest) result session' →
      Emits w session (first ++ e' :: rest) result session'

theorem heedless_of_emits {w : Work α} (sparing : ∀ {session session' events result},
      Emits w session events result session' → ∀ e ∈ events, e.request.Sparing) : w.Heedless := by
  intro session session' first e e' rest result recounts h
  have spares := sparing h e (by simp)
  rw [Request.Sparing, recounts.deletes] at spares
  cases spares

theorem Asks.heedless {w : Work α} (asks : w.Asks Request.Sparing) : w.Heedless :=
  heedless_of_emits asks.of_emits

theorem Passive.heedless {w : Work α} (passive : w.Passive) : w.Heedless :=
  heedless_of_emits fun h e he => Request.sparing_of_writes ((passive.of_emits h).1 e he).2

theorem heedless_ofAction {a : Action α} (ha : a.Heedless) : (ofAction a).Heedless := by
  intro session session' first e e' rest result recounts h
  obtain ⟨same, ran⟩ := emits_ofAction_iff.1 h
  exact emits_ofAction_iff.2 ⟨same, ha recounts ran⟩

theorem Heedless.bind {w : Work α} {f : α → Work β} (hw : w.Heedless) (hf : ∀ x, (f x).Heedless) :
    (w >>= f).Heedless := by
  intro session session' first e e' rest result recounts h
  rcases emits_bind_iff.1 h with ⟨error, rfl, failed⟩ | ⟨x, middle, own, others, split, done, next⟩
  · exact emits_bind_iff.2 (.inl ⟨error, rfl, hw recounts failed⟩)
  · rcases cases_of_append_eq split.symm with ⟨between, rfl, rfl⟩ | ⟨between, rfl, rfl⟩
    · exact emits_bind_iff.2 (.inr ⟨x, middle, first ++ e' :: between, others, by simp,
        hw recounts done, next⟩)
    · exact emits_bind_iff.2 (.inr ⟨x, middle, own, between ++ e' :: rest, by simp, done,
        hf x recounts next⟩)

theorem Heedless.tryCatch {w : Work α} {handle : Error → Work α} (hw : w.Heedless)
    (hhandle : ∀ error, (handle error).Heedless) : (tryCatch w handle).Heedless := by
  intro session session' first e e' rest result recounts h
  rcases emits_tryCatch_iff.1 h with
    ⟨x, rfl, done⟩ | ⟨error, middle, own, others, split, failed, handled⟩
  · exact emits_tryCatch_iff.2 (.inl ⟨x, rfl, hw recounts done⟩)
  · rcases cases_of_append_eq split.symm with ⟨between, rfl, rfl⟩ | ⟨between, rfl, rfl⟩
    · exact emits_tryCatch_iff.2
        (.inr ⟨error, middle, first ++ e' :: between, others, by simp, hw recounts failed, handled⟩)
    · exact emits_tryCatch_iff.2
        (.inr ⟨error, middle, own, between ++ e' :: rest, by simp, failed,
          hhandle error recounts handled⟩)

end Work

namespace Command

theorem heedless_run (conn : Connection) (c : Command) : (c.run conn).Heedless := by
  cases c with
  | createDocument _ _ _ _ | deleteDocument _ _ | createMapRow _ _ _ _ | deleteMapRows _ _ _
  | deleteReduceRow _ _ _ =>
    exact Action.heedless_executeAll conn _
  | updateDocument names id typeName content version expected =>
    -- How many rows it has met is looked at here, but this is an update.
    have asks :
        (Action.execute conn
          (statement (.updateDocument names id typeName content version expected))).Asks
        Request.Sparing := Program.asks_request rfl
    refine Action.Asks.heedless (asks.bind fun affected => ?_)
    split
    · exact Action.asks_throw _
    · exact Action.asks_pure ()
  | createReduceRow names index cells link =>
    have asks : (Action.scalar conn (statement (.createReduceRow names index cells link))).Asks
        Request.Sparing :=
      Program.asks_request rfl
    refine asks.heedless.bind fun answer => ?_
    split
    · exact Action.heedless_executeAll conn _
    · exact Action.Asks.heedless (Action.asks_throw _)
  | updateReduceRow names index id cells link unlink =>
    exact Action.Heedless.bind (Action.heedless_executeAll conn _) fun _ =>
      Action.heedless_executeAll conn _

theorem heedless_runAll (conn : Connection) (commands : List Command) :
    (runAll conn commands).Heedless := by
  induction commands with
  | nil => exact Action.Asks.heedless (Action.asks_pure ())
  | cons c cs ih => exact (c.heedless_run conn).bind fun _ => ih

end Command

namespace Session

theorem heedless_runPlan (session : Session) (plan : FlushPlan) :
    (session.runPlan plan).Heedless := by
  refine Work.Heedless.bind ?_ fun commands => Work.Heedless.bind ?_ fun _ => ?_
  · exact Work.Asks.heedless
      (Work.asks_ofAction (plan.arena.asks_finish Request.hasLookups_sparing _ _))
  · exact Work.heedless_ofAction (Command.heedless_runAll _ commands)
  · exact Work.Asks.heedless (Work.asks_modify _)

theorem heedless_flush : flush.Heedless := by
  refine Work.Heedless.bind (Work.Asks.heedless Work.asks_get) fun session => ?_
  split
  · exact Work.Asks.heedless (Work.asks_pure _)
  · refine Work.Heedless.tryCatch ?_ fun e => ?_
    · have begins : begin.Heedless :=
        Work.heedless_of_emits fun h e he => Request.sparing_of_writes ((exists_of_begin h).1 e he)
      rw [flushPending_eq]
      refine Work.Heedless.bind (Work.Asks.heedless Work.asks_get) fun session => ?_
      have plans : (planChanges ∅ session.pending).Asks Request.Sparing :=
        Work.Ensures.asks (ensures_planChanges Request.hasLookups_sparing untracked_flags ∅
          session.pending)
      refine Work.Heedless.bind (Work.Asks.heedless plans) fun plan => ?_
      split
      · exact heedless_runPlan session plan
      · exact Work.Heedless.bind begins fun _ => heedless_runPlan session plan
    · exact Work.Asks.heedless ((Work.asks_modify _).bind fun _ => Work.asks_throw e)

end Session

/-- Whatever is called on a session, it does not look at how many rows a delete has met. -/
theorem Call.heedless_work (call : Call) : call.work.Heedless := by
  cases call with
  | flush => exact Session.heedless_flush
  | saveChanges =>
    exact Session.heedless_flush.bind fun _ =>
      (Session.asks_conclude (fun _ => rfl) fun _ => rfl).heedless
  | cancel => exact (Work.asks_modify _).heedless
  | close => exact (Session.asks_rollback fun _ => rfl).heedless
  | save | delete | read | join => exact (passive_work _ (by simp)).heedless

/-! ## Deletes in an interleaving -/

namespace Interleaving

variable {ι : Type} [DecidableEq ι] {settings : Settings} {catalog : Catalog}
  {x : Interleaving ι settings catalog}

/-- What deletes of a document come to. -/
structure Removals (x : Interleaving ι settings catalog) (key : DocKey)
    (doc : StoredDocument) : Prop where
  /-- A session none of whose commits has failed deletes the document by its id, for an edit that it
  planned from what it tracked. Whatever version of the document is stored, afterwards there is
  none; and what is stored is just what was tracked, or has another version. -/
  removes : ∀ before i c s n after w w', x.At before i ⟨.execute c s, .ok n⟩ after w w' →
    s.deletes (settings.names key.collection).document key.id = true →
      (∀ e ∈ eventsOf before i, ¬e.FailsToCommit) →
      ∃ planned edits call typeName known,
        (x.runs i).Flushing catalog (eventsOf before i) planned edits call ∧
        .delete (settings.names key.collection) key.id typeName known ∈ edits ∧
          planned.tracked.get? key = some known ∧
          s = .delete (settings.names key.collection).document [Command.idCell key.id] ∧
            n = ((w.view i).byId (settings.names key.collection).document key.id).length ∧
              (w'.view i).byId (settings.names key.collection).document key.id = [] ∧
                ((w.view i).byId (settings.names key.collection).document key.id =
                    [Row.document key.id ⟨doc.typeName, known⟩] ∨
                  ∀ row ∈ (w.view i).byId (settings.names key.collection).document key.id,
                    row.value? Column.versionName ≠ some (.int known.version))
  /-- The call that deletes the document would have gone on and ended as it did, whatever number
  of rows had been met. -/
  unheeded : ∀ before i c s n after w w', x.At before i ⟨.execute c s, .ok n⟩ after w w' →
    s.deletes (settings.names key.collection).document key.id = true →
      ∃ done call more first rest session session', (x.runs i).calls = done ++ call :: more ∧
        Session.History (x.runs i).first done session ∧
          call.events = first ++ ⟨.execute c s, .ok n⟩ :: rest ∧
          eventsOf before i = (x.runs i).opening ++ (Called.trace done ++ first) ∧
            ∀ m, Work.Emits call.call.work session (first ++ ⟨.execute c s, .ok m⟩ :: rest)
              call.result session'

/-- Deletes are not guarded by the version, which tells contents apart as long as versions do
not come round again. -/
theorem removals (checks : settings.config.checkConcurrency = true) (distinct : catalog.Distinct)
    {key : DocKey} {doc : StoredDocument} (starts : x.Starts key doc) (keeps : x.Keeps key)
    (short : x.trace.length < 2 ^ 64) : x.Removals key doc := by
  constructor
  case removes =>
    intro before i c s n after w w' here deletes active
    have changes : s.IsChange := Statement.isChange_of_deletes deletes
    obtain ⟨planned, edits, call, edit, hedit, flushing, sent, names, _⟩ :=
      exists_edit checks distinct starts.used here.split changes
        (Statement.table?_of_deletes deletes)
    obtain ⟨met, made, line, stands, length, holds⟩ :=
      exists_line checks distinct starts keeps here changes active
    have known := (flushing.known edit hedit).known
    cases edit with
    | create _ _ _ _ _ | update _ _ _ _ _ _ =>
      rw [sent] at deletes
      cases deletes
    | delete names' id typeName old =>
      obtain rfl : names' = settings.names key.collection := names
      obtain rfl : id = key.id := by
        rw [sent] at deletes
        simpa [Edit.documentCommand, Command.statement, Statement.deletes,
          Command.idCell_inj] using deletes
      have tracked : planned.tracked.get? key = some old := known _ rfl
      have sent : s = .delete (key.origin settings doc).table [Command.idCell key.id] := sent
      refine ⟨planned, edits, call, typeName, old, flushing, hedit, tracked, sent, ?_, ?_, ?_⟩
      · rw [met, sent]
        exact Database.affected_delete _ _ _
      · rw [made, sent]
        exact (Database.byId_delete ..).trans (if_pos rfl)
      · rcases stands.cases_of_holds (by omega) (holds planned edits call old flushing tracked) with
          ⟨_, _, _, rows⟩ | ⟨_, others⟩
        · exact .inl rows
        · exact .inr others
  case unheeded =>
    intro before i c s n after w w' here deletes
    obtain ⟨others, run⟩ := exists_run_eq here.split
    obtain ⟨done, call, more, first, rest, session, session', _, calls, events, past, _, begun, _,
        emits, _⟩ :=
      Session.Run.exists_call (r := x.runs i) run (by rintro ⟨⟩)
    refine ⟨done, call, more, first, rest, session, session', calls, begun, events, past,
      fun m => ?_⟩
    obtain ⟨table, keys, rfl⟩ : ∃ table keys, s = .delete table keys := by
      cases s with
      | delete table keys => exact ⟨table, keys, rfl⟩
      | _ => cases deletes
    exact call.call.heedless_work (.delete n m) emits

end Interleaving

namespace Counting

/-- Two sessions get the article of the shelf; the second changes it, and then
the first deletes it. -/
def belated : List (Bool × Call) :=
  [(false, .read (.get entity "" 7)), (true, .read (.get entity "" 7)),
    (true, .save entity "" (dated 7 2)), (true, .saveChanges),
    (false, .delete entity "" (dated 7 1)), (false, .saveChanges)]

theorem belated_unclosed : ∀ turn ∈ belated, turn.2 ≠ .close := by simp [belated]

/-- Everything succeeds, and the article is gone in a version that was not the one to be deleted. -/
theorem removals_belated :
    ((onShelf belated belated_unclosed).runs true).calls.map (fun c => c.result.toOption) =
        [some (), some (), some ()] ∧
      ((onShelf belated belated_unclosed).runs false).calls.map (fun c => c.result.toOption) =
          [some (), some (), some ()] ∧
        (onShelf belated belated_unclosed).after.committed "Document" = [] ∧
          (onShelf belated belated_unclosed).Removals ⟨"", 7⟩
            ⟨"Article", ⟨(dated 7 1).text, dated 7 1, 3⟩⟩ := by
  refine ⟨by decide +kernel, by decide +kernel, by decide +kernel, ?_⟩
  have keeps := onShelf_keeps belated belated_unclosed (by decide +kernel)
  exact Interleaving.removals rfl uncounted_distinct (onShelf_starts _ _) keeps (by decide +kernel)

end Counting

end DocStore

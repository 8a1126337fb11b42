import DocStore.Proofs.Alternation
import DocStore.Proofs.Lineages

/-!
# The versions of a document that sessions share

While several sessions write to one store, what a session was shown of a document
is a version of its lineage, unless the session's commit failed or it rolled back.
So with guarded updates a version is overwritten only by what was computed from its
own content, as long as no session goes on whose commit failed; a delete is not
guarded and takes away whatever version there is.
-/

set_option autoImplicit false

namespace DocStore

/-! ## Updates that were committed -/

/-- How many updates of a document were committed, and how many wait for the
open transaction to be. -/
structure Tally where
  committed : Nat
  waiting : Nat

namespace Tally

/-- The tally after one more request. What waited is forgotten when the next transaction begins. -/
def next (table : String) (id : Int64) (t : Tally) (e : Event) : Tally :=
  match e with
  | ⟨.begin _, .ok _⟩ => ⟨t.committed, 0⟩
  | ⟨.commit _, .ok _⟩ => ⟨t.committed + t.waiting, 0⟩
  | ⟨.execute _ s, .ok n⟩ =>
    if s.updates table id && n != 0 then ⟨t.committed, t.waiting + 1⟩ else t
  | _ => t

theorem next_le (table : String) (id : Int64) (t : Tally) (e : Event) :
    (t.next table id e).committed + (t.next table id e).waiting ≤ t.committed + t.waiting + 1 := by
  unfold next
  split
  · exact Nat.le_succ_of_le (Nat.le_add_right _ _)
  · exact Nat.le_succ _
  · split
    · exact Nat.le_refl _
    · exact Nat.le_succ _
  · exact Nat.le_succ _

theorem next_of_isQuiet {table : String} {id : Int64} (t : Tally) {e : Event}
    (quiet : e.isQuiet = true) : t.next table id e = t := by
  unfold next
  split
  · cases quiet
  · cases quiet
  · cases quiet
  · rfl

end Tally

namespace Origin

variable {ι : Type} (o : Origin)

/-- The updates of the document in a trace. -/
def tally (trace : List (ι × Event)) : Tally :=
  trace.foldl (fun t e => t.next o.table o.id e.2) ⟨0, 0⟩

theorem tally_concat (trace : List (ι × Event)) (i : ι) (e : Event) :
    o.tally (trace ++ [(i, e)]) = (o.tally trace).next o.table o.id e := List.foldl_concat ..

theorem tally_le (trace : List (ι × Event)) :
    (o.tally trace).committed + (o.tally trace).waiting ≤ trace.length := by
  induction trace using List.reverseRecOn with
  | nil => exact Nat.le_refl 0
  | append_singleton trace last ih =>
    obtain ⟨i, e⟩ := last
    rw [tally_concat, List.length_append, List.length_singleton]
    have := (o.tally trace).next_le o.table o.id e
    omega

end Origin

/-! ## What sessions know of a lineage -/

/-- A session whose transactions were all committed so far was shown only versions of a lineage. -/
def Origin.Knows (o : Origin) (d : Dialect) (events : List Event) (line : Lineage) : Prop :=
  (∀ e ∈ events, ¬e.FailsToCommit ∧ ¬e.RollsBack) →
    ∀ content version, ∀ e ∈ events, e.Shows d o.table o.id content version →
      o.Holds line content version

namespace Origin

variable {ι : Type} [DecidableEq ι] {o : Origin} {d : Dialect} {events : List Event}
  {line line' : Lineage} {e : Event}

theorem Knows.mono (h : o.Knows d events line) (grows : line.contents <:+ line'.contents) :
    o.Knows d events line' :=
  fun active content version e he shows_ => (h active content version e he shows_).mono grows

theorem Knows.concat (h : o.Knows d events line)
    (next : e.FailsToCommit ∨ e.RollsBack ∨ line.contents <:+ line'.contents ∧
      ∀ content version, e.Shows d o.table o.id content version → o.Holds line' content version) :
    o.Knows d (events ++ [e]) line' := by
  intro active
  obtain ⟨before, last⟩ := List.forall_mem_append.1 active
  obtain ⟨commits, keeps⟩ := last e (List.mem_singleton_self e)
  rcases next with fails | rolls | ⟨grows, shown⟩
  · exact absurd fails commits
  · exact absurd rolls keeps
  · intro content version e' he
    rcases List.mem_append.1 he with he | he
    · exact h.mono grows before content version e' he
    · obtain rfl := List.mem_singleton.1 he
      exact shown content version

/-- One session asks, and what the others see only grows. -/
theorem knows_concat {trace : List (ι × Event)} {i : ι} {lines lines' : ι → Lineage}
    (h : ∀ j, o.Knows d (eventsOf trace j) (lines j))
    (others : ∀ j, j ≠ i → (lines j).contents <:+ (lines' j).contents)
    (next : e.FailsToCommit ∨ e.RollsBack ∨ (lines i).contents <:+ (lines' i).contents ∧
      ∀ content version, e.Shows d o.table o.id content version →
        o.Holds (lines' i) content version) :
    ∀ j, o.Knows d (eventsOf (trace ++ [(i, e)]) j) (lines' j) := by
  intro j
  rw [eventsOf_append]
  by_cases same : i = j
  · subst same
    rw [eventsOf_cons_self]
    exact (h i).concat next
  · rw [eventsOf_cons_of_ne [] same]
    exact (List.append_nil (eventsOf trace j)).symm ▸ (h j).mono (others j (Ne.symm same))

end Origin

/-! ## The invariant of an interleaving -/

/-- No request of a trace has deleted the document. -/
def Origin.Spared {ι : Type} (o : Origin) (trace : List (ι × Event)) : Prop :=
  ∀ e ∈ trace, ∀ c s n, e.2 = ⟨.execute c s, .ok n⟩ → s.deletes o.table o.id = false

/-- A database holds the document as a number of updates have left it. -/
structure Origin.Updated (o : Origin) (n : Nat) (spared : Prop) (line : Lineage)
    (db : Database) : Prop where
  stands : o.Stands line db
  counted : line.contents.length = n + 1
  present : spared → line.present = true

/-- After a trace a shared database holds the document as updates have left it: what is committed
those that were committed, and an open transaction those that wait besides. What sessions know of
the document are versions of these. -/
inductive Origin.Follows {ι : Type} [DecidableEq ι] (o : Origin) (d : Dialect)
    (trace : List (ι × Event)) : Shared ι → Prop
  | idle {db : Database}
      (line : Lineage) : o.Updated (o.tally trace).committed (o.Spared trace) line db →
      (∀ i, o.Knows d (eventsOf trace i) line) → Follows o d trace ⟨db, none⟩
  | busy {db own : Database} (line mine : Lineage) {j : ι} :
      o.Updated (o.tally trace).committed (o.Spared trace) line db →
        o.Updated ((o.tally trace).committed + (o.tally trace).waiting) (o.Spared trace) mine own →
          line.contents <:+ mine.contents →
            (∀ i, o.Knows d (eventsOf trace i) (if j = i then mine else line)) →
            Follows o d trace ⟨db, some (j, own)⟩

/-- What an event writes it writes for an edit of a document of a collection in use, or to another
table of the catalog. -/
def Event.Proper (catalog : Catalog) (e : Event) : Prop :=
  e.request.writes = true →
    (∃ conn, ∃ edit : Edit, catalog.collections edit.names ∧
        e.request = .execute conn (edit.documentCommand true).statement) ∨
      ∃ conn s, ∃ t : Table, (e.request = .execute conn s ∨ e.request = .scalar conn s) ∧
        s.table? = some t.name ∧ catalog.Has t ∧ ∀ names, t ≠ .documents names

namespace Origin

variable {ι : Type} [DecidableEq ι] {o : Origin} {d : Dialect} {trace : List (ι × Event)} {i : ι}
  {e : Event} {w w' : Shared ι}

omit [DecidableEq ι] in
theorem Spared.of_concat (h : o.Spared (trace ++ [(i, e)])) : o.Spared trace :=
  fun e' he => h e' (List.mem_append_left _ he)

theorem Updated.mono {n : Nat} {spared spared' : Prop} {line : Lineage} {db : Database}
    (h : o.Updated n spared line db) (weaker : spared' → spared) : o.Updated n spared' line db :=
  ⟨h.stands, h.counted, fun hs => h.present (weaker hs)⟩

/-- A request that leaves the database, and shows only what stands there. -/
theorem Follows.unchanged (h : o.Follows d trace w)
    (same : (o.tally trace).next o.table o.id e = o.tally trace)
    (shown : ∀ line, o.Stands line (w.view i) → ∀ content version,
      e.Shows d o.table o.id content version → o.Holds line content version) :
    o.Follows d (trace ++ [(i, e)]) w := by
  cases h with
  | @idle db line here known =>
    refine .idle line ?_ (knows_concat known (fun _ _ => List.suffix_rfl)
      (.inr (.inr ⟨List.suffix_rfl, ?_⟩)))
    · rw [tally_concat, same]
      exact here.mono Spared.of_concat
    · exact shown line here.stands
  | @busy db own line mine j here inside grows known =>
    refine .busy line mine ?_ ?_ grows
      (knows_concat known (fun _ _ => List.suffix_rfl) (.inr (.inr ⟨List.suffix_rfl, ?_⟩)))
    · rw [tally_concat, same]
      exact here.mono Spared.of_concat
    · rw [tally_concat, same]
      exact inside.mono Spared.of_concat
    · refine shown _ ?_
      by_cases mineToo : j = i
      · simpa [Shared.view, mineToo] using inside.stands
      · simpa [Shared.view, mineToo] using here.stands

theorem Follows.quiet (h : o.Follows d trace w) (quiet : e.isQuiet = true) :
    o.Follows d (trace ++ [(i, e)]) w := by
  refine h.unchanged (Tally.next_of_isQuiet _ quiet) fun line _ content version shows_ => ?_
  cases shows_ <;> cases quiet

theorem Follows.answers (h : o.Follows d trace w) {c : Connection} {s : Statement} {rows : List Row}
    (answers : (w.view i).MayAnswer d s rows) :
    o.Follows d (trace ++ [(i, ⟨.query c s, .ok rows⟩)]) w := by
  refine h.unchanged rfl fun line stands content version shows_ => ?_
  cases shows_ with
  | found text table hrow read =>
    obtain ⟨stored, there, same⟩ := answers _ _ text table _ hrow
    exact stands.holds_of_found there same read

variable {db own : Database} {c : Connection}

theorem Follows.begins (h : o.Follows d trace ⟨db, none⟩) :
    o.Follows d (trace ++ [(i, ⟨.begin c, .ok ()⟩)]) ⟨db, some (i, db)⟩ := by
  cases h with
  | @idle _ line here known =>
    refine .busy line line ?_ ?_ List.suffix_rfl
      (knows_concat known (fun j _ => ?_) (.inr (.inr ⟨?_, ?_⟩)))
    · rw [tally_concat]
      exact here.mono Spared.of_concat
    · rw [tally_concat]
      exact here.mono Spared.of_concat
    · rw [ite_self]
    · rw [ite_self]
    · rintro _ _ ⟨⟩

theorem Follows.commits (h : o.Follows d trace ⟨db, some (i, own)⟩) :
    o.Follows d (trace ++ [(i, ⟨.commit c, .ok ()⟩)]) ⟨own, none⟩ := by
  cases h with
  | @busy _ _ line mine _ here inside grows known =>
    refine .idle mine ?_ (knows_concat known (fun j other => ?_) (.inr (.inr ⟨?_, ?_⟩)))
    · rw [tally_concat]
      exact inside.mono Spared.of_concat
    · rw [if_neg (Ne.symm other)]
      exact grows
    · rw [if_pos rfl]
    · rintro _ _ ⟨⟩

/-- What a transaction that is lost has written is lost. -/
theorem Follows.loses (h : o.Follows d trace ⟨db, some (i, own)⟩)
    (loses : e.RollsBack ∨ e.FailsToCommit) : o.Follows d (trace ++ [(i, e)]) ⟨db, none⟩ := by
  cases h with
  | @busy _ _ line mine _ here inside grows known =>
    refine .idle line ?_ (knows_concat known (fun j other => ?_) (loses.elim (.inr ∘ .inl) .inl))
    · have same : (o.tally trace).next o.table o.id e = o.tally trace := by
        obtain ⟨request, outcome⟩ := e
        rcases loses with ⟨conn, rolls⟩ | ⟨conn, error, fails⟩
        · cases rolls
          rfl
        · cases fails
          rfl
      rw [tally_concat, same]
      exact here.mono Spared.of_concat
    · rw [if_neg (Ne.symm other)]

/-- A change in an open transaction, with what it makes of the lineage there. -/
theorem Follows.executes (h : o.Follows d trace ⟨db, some (i, own)⟩) {s : Statement}
    (kept : s.inserts o.table o.id = false)
    (revises : ∀ line, o.Stands line own → ∃ line', o.Stands line' (own.execute s) ∧
      o.Revises s (s.affected own) line line') :
    o.Follows d (trace ++ [(i, ⟨.execute c s, .ok (s.affected own)⟩)])
      ⟨db, some (i, own.execute s)⟩ := by
  cases h with
  | @busy _ _ line mine _ here inside grows known =>
    obtain ⟨mine', stands', revised⟩ := revises mine inside.stands
    have next : (o.tally trace).next o.table o.id ⟨.execute c s, .ok (s.affected own)⟩ =
        ⟨(o.tally trace).committed, (o.tally trace).waiting +
          if s.updates o.table o.id && s.affected own != 0 then 1 else 0⟩ := by
      dsimp only [Tally.next]
      split <;> rfl
    refine .busy line mine' ?_ ⟨stands', ?_, fun spared => ?_⟩ (grows.trans revised.grows)
      (knows_concat known (fun j other => ?_) (.inr (.inr ⟨?_, fun content version shows_ => ?_⟩)))
    · rw [tally_concat, next]
      exact here.mono Spared.of_concat
    · rw [tally_concat, next, revised.counted, inside.counted]
      dsimp only
      omega
    · rw [revised.stays (spared _ (List.mem_append_right _ (List.mem_singleton_self _)) _ _ _ rfl)]
      exact inside.present spared.of_concat
    · rw [if_neg (Ne.symm other), if_neg (Ne.symm other)]
    · rw [if_pos rfl, if_pos rfl]
      exact revised.grows
    · rw [if_pos rfl]
      rcases Event.cases_of_shows_execute shows_ with inserted | ⟨met, keys, updated⟩
      · rw [kept] at inserted
        cases inserted
      · exact revised.holds content version keys updated met

/-- An insertion that answers an id, into another table. -/
theorem Follows.inserts (h : o.Follows d trace ⟨db, some (i, own)⟩) {table : String} {cells : Cells}
    {v : Option Value} {own' : Database} (same : own' o.table = own o.table) :
    o.Follows d (trace ++ [(i, ⟨.scalar c (.insertReturning table cells), .ok v⟩)])
      ⟨db, some (i, own')⟩ := by
  cases h with
  | @busy _ _ line mine _ here inside grows known =>
    refine .busy line mine ?_ ?_ grows (knows_concat known (fun _ _ => List.suffix_rfl)
      (.inr (.inr ⟨List.suffix_rfl, ?_⟩)))
    · rw [tally_concat]
      exact here.mono Spared.of_concat
    · rw [tally_concat]
      exact ⟨inside.stands.of_eq same, inside.counted, fun spared =>
        inside.present spared.of_concat⟩
    · rintro _ _ ⟨⟩

/-- What is committed holds the document as the committed updates have left it. -/
theorem Follows.committed (h : o.Follows d trace w) :
    ∃ line, o.Updated (o.tally trace).committed (o.Spared trace) line w.committed := by
  cases h with
  | idle _ here _ => exact ⟨_, here⟩
  | busy _ _ here _ _ _ => exact ⟨_, here⟩

/-- What a session sees of the document is the end of a lineage that it knows. -/
theorem Follows.view (h : o.Follows d trace w) (i : ι) :
    ∃ line, o.Stands line (w.view i) ∧ o.Knows d (eventsOf trace i) line ∧
      line.contents.length ≤ (o.tally trace).committed + (o.tally trace).waiting + 1 := by
  cases h with
  | @idle db line here known => exact ⟨line, here.stands, known i, here.counted ▸ by omega⟩
  | @busy db own line mine j here inside _ known =>
    have known := known i
    by_cases same : j = i
    · rw [if_pos same] at known
      exact ⟨mine, by simpa [Shared.view, same] using inside.stands, known, inside.counted.le⟩
    · rw [if_neg same] at known
      exact ⟨line, by simpa [Shared.view, same] using here.stands, known, here.counted ▸ by omega⟩

omit [DecidableEq ι] in
/-- The row of the document, after a number of updates. -/
theorem Updated.version {n : Nat} {spared : Prop} {line : Lineage} {db : Database}
    (h : o.Updated n spared line db) :
    (∀ row ∈ db.byId o.table o.id, row.value? Column.versionName = some (.int (o.after n))) ∧
      (spared → db.byId o.table o.id ≠ []) := by
  obtain ⟨contents, present⟩ := line
  obtain ⟨stands, counted, there⟩ := h
  rw [stands.rows]
  cases contents with
  | nil => cases counted
  | cons last older =>
    obtain rfl : older.length = n := Nat.succ.inj counted
    cases present with
    | false =>
      refine ⟨fun _ hrow => ?_, fun spared => ?_⟩
      · cases hrow
      · cases there spared
    | true => exact ⟨List.forall_mem_singleton.2 rfl, fun _ => List.cons_ne_nil _ _⟩

/-- What one request preserves. -/
theorem Follows.step {catalog : Catalog} (distinct : catalog.Distinct) {names : TableNames}
    (used : catalog.collections names) (table : o.table = names.document) (h : o.Follows d trace w)
    (step : Shared.Step d i w e w') (proper : e.Proper catalog)
    (kept : ∀ c s n, e = ⟨.execute c s, .ok n⟩ → s.inserts o.table o.id = false) :
    o.Follows d (trace ++ [(i, e)]) w' := by
  have apart : ∀ t, catalog.Has t → (∀ names, t ≠ .documents names) → t.name ≠ o.table := by
    intro t has other
    rw [table]
    exact distinct.name_ne (u := .documents names) has used (other names)
  cases step with
  | quiet quiet => exact h.quiet quiet
  | answers answers => exact h.answers answers
  | begins => exact h.begins
  | commits => exact h.commits
  | loses loses => exact h.loses loses
  | @executes _ own _ s changes =>
    refine h.executes (kept _ _ _ rfl) fun line stands => ?_
    have untouched (other : s.table? ≠ some o.table) :
        ∃ line', o.Stands line' (own.execute s) ∧ o.Revises s (s.affected own) line line' :=
      ⟨line, stands.of_eq (Database.execute_of_ne own other), .of_table _ other⟩
    rcases proper (changes.writes) with ⟨_, edit, _, sent⟩ | ⟨_, s', t, sent, changed, has, other⟩
    · cases sent
      by_cases mine : edit.names.document = o.table
      · exact stands.execute_edit mine (kept _ _ _ rfl)
      · refine untouched ?_
        rw [edit.table?_documentCommand]
        exact fun same => mine (Option.some.inj same)
    · obtain ⟨-, rfl⟩ : _ ∧ s = s' := by simpa using sent
      refine untouched ?_
      rw [changed]
      exact fun same => apart t has other (Option.some.inj same)
  | @inserts _ own _ table' cells id =>
    refine h.inserts (Database.execute_of_ne own ?_)
    rcases proper rfl with ⟨_, edit, _, sent⟩ | ⟨_, s', t, sent, changed, has, other⟩
    · cases sent
    · obtain ⟨-, rfl⟩ : _ ∧ Statement.insertReturning table' cells = s' := by simpa using sent
      obtain rfl : table' = t.name := by simpa [Statement.table?] using changed
      exact fun same => apart t has other (Option.some.inj same)

end Origin

/-! ## Documents in an interleaving -/

/-- Where a document is stored, and as what at first. -/
def DocKey.origin (settings : Settings) (key : DocKey) (doc : StoredDocument) : Origin :=
  ⟨(settings.names key.collection).document, key.id, doc.typeName, doc.state.version⟩

/-- Stored documents are in tables of documents. -/
theorem Documents.Stored.stands {docs : Documents} {settings : Settings} {catalog : Catalog}
    {db : Database} (stored : docs.Stored settings catalog db) {key : DocKey}
    (used : catalog.collections (settings.names key.collection)) {doc : StoredDocument}
    (here : docs key = some doc) :
    (key.origin settings doc).Stands ⟨[doc.state.content], true⟩ db := by
  refine ⟨fun row hrow => ?_, ?_⟩
  · obtain ⟨id, identity⟩ := stored.identified key.collection used row hrow
    have mine : row ∈ db.byId (settings.names key.collection).document id :=
      Database.mem_byId_iff.2 ⟨hrow, identity⟩
    rw [stored.rows key.collection used id, Option.mem_toList, Option.map_eq_some_iff] at mine
    obtain ⟨doc, _, rfl⟩ := mine
    exact ⟨id, doc, rfl⟩
  · refine (stored.rows key.collection used key.id).trans ?_
    rw [here, Origin.rows, Origin.after, List.length_nil]
    exact congrArg (fun version =>
        [Row.document key.id ⟨doc.typeName, ⟨doc.state.content, .null, version⟩⟩])
      (Int64.add_zero doc.state.version).symm

namespace Interleaving

variable {ι : Type} [DecidableEq ι] {settings : Settings} {catalog : Catalog}

/-- An interleaving starts with nobody in a transaction, and with a document stored
in a collection in use. -/
structure Starts (x : Interleaving ι settings catalog) (key : DocKey)
    (doc : StoredDocument) : Prop where
  used : catalog.collections (settings.names key.collection)
  stored : ∃ docs : Documents, docs.Stored settings catalog x.before.committed ∧ docs key = some doc
  idle : x.before.opened = none

/-- The document is not inserted again. -/
def Keeps (x : Interleaving ι settings catalog) (key : DocKey) : Prop :=
  ∀ e ∈ x.trace, ∀ c s n, e.2 = ⟨.execute c s, .ok n⟩ →
    s.inserts (settings.names key.collection).document key.id = false

variable {x : Interleaving ι settings catalog} {before after : List (ι × Event)} {i : ι} {e : Event}
  {w w' : Shared ι}

section Follows

variable (checks : settings.config.checkConcurrency = true)
include checks

theorem proper (split : x.trace = before ++ (i, e) :: after) : e.Proper catalog := by
  intro writes
  obtain ⟨rest, run⟩ := exists_run_eq split
  rcases Session.Run.cases_of_writes run writes checks (described_eventsOf split) with
    ⟨_, _, _, conn, edit, hedit, flushing, sent, _⟩ | elsewhere
  · exact .inl ⟨conn, edit, (flushing.known edit hedit).used, sent⟩
  · exact .inr elsewhere

variable (distinct : catalog.Distinct) {key : DocKey} {doc : StoredDocument}
  (starts : x.Starts key doc) (keeps : x.Keeps key)
include distinct starts keeps

/-- What a whole interleaving preserves. -/
theorem follows (split : x.trace = before ++ after)
    (reaches : Shared.Steps settings.dialect x.before before w) :
    (key.origin settings doc).Follows settings.dialect before w := by
  induction reaches generalizing after with
  | nil =>
    obtain ⟨docs, stored, here⟩ := starts.stored
    have begins : x.before = ⟨x.before.committed, none⟩ := by rw [← starts.idle]
    rw [begins]
    refine .idle ⟨[doc.state.content], true⟩ ⟨stored.stands starts.used here, rfl, fun _ => rfl⟩
      fun _ _ _ _ e he => ?_
    cases he
  | @concat w₁ w₂ trace i e _ step ih =>
    have split : x.trace = trace ++ (i, e) :: after := by
      rw [split, List.append_assoc, List.singleton_append]
    exact (ih split).step distinct starts.used rfl step (proper checks split) fun c s n same =>
      keeps (i, e) (split ▸ List.mem_append_right _ List.mem_cons_self) c s n same

omit starts keeps in
/-- A change of the documents of a collection is the command of an edit that a flush has planned. An
update that meets no row fails the call, and the session gives up. -/
theorem exists_edit (used : catalog.collections (settings.names key.collection)) {c : Connection}
    {s : Statement} {n : Nat} (split : x.trace = before ++ (i, ⟨.execute c s, .ok n⟩) :: after)
    (changes : s.IsChange) (table : s.table? = some (settings.names key.collection).document) :
    ∃ planned edits call, ∃ edit ∈ edits,
      (x.runs i).Flushing catalog (eventsOf before i) planned edits call ∧
      s = (edit.documentCommand true).statement ∧ edit.names = settings.names key.collection ∧
        ∀ names id typeName json content old, edit = .update names id typeName json content old →
          n = 0 → call.result = .error (.conflict id typeName) ∧
            ∀ e ∈ eventsOf after i, e.request.commits = false ∧ e.request.writes = false := by
  obtain ⟨rest, run⟩ := exists_run_eq split
  rcases Session.Run.cases_of_writes run changes.writes checks (described_eventsOf split) with
    ⟨planned, edits, call, conn, edit, hedit, flushing, sent, guarded⟩ | ⟨conn, s', t, sent,
      changed, has, other⟩
  · obtain ⟨rfl, rfl⟩ : c = conn ∧ s = (edit.documentCommand true).statement := by simpa using sent
    rw [edit.table?_documentCommand] at table
    have same : Table.documents edit.names = .documents (settings.names key.collection) :=
      distinct _ _ (flushing.known edit hedit).used used (Option.some.inj table)
    refine ⟨planned, edits, call, edit, hedit, flushing, rfl, Table.documents.inj same, ?_⟩
    intro names id typeName json content old update none
    obtain ⟨failed, quiet⟩ := guarded names id typeName json content old update (by rw [none])
    exact ⟨failed, fun e he => quiet e (List.mem_append_left _ he)⟩
  · obtain ⟨-, rfl⟩ : _ ∧ s = s' := by simpa using sent
    rw [changed] at table
    exact absurd (Option.some.inj table) (distinct.name_ne (u := .documents _) has used (other _))

/-- What a session changes it sees the end of a lineage of, and has been shown this lineage only,
unless a commit of it failed. -/
theorem exists_line {c : Connection} {s : Statement} {n : Nat}
    (here : x.At before i ⟨.execute c s, .ok n⟩ after w w') (changes : s.IsChange)
    (active : ∀ e ∈ eventsOf before i, ¬e.FailsToCommit) :
    n = s.affected (w.view i) ∧ w'.view i = (w.view i).execute s ∧
      ∃ line, (key.origin settings doc).Stands line (w.view i) ∧
        line.contents.length ≤ x.trace.length ∧
        ∀ planned edits call known,
          (x.runs i).Flushing catalog (eventsOf before i) planned edits call →
          planned.tracked.get? key = some known →
            (key.origin settings doc).Holds line known.content known.version := by
  obtain ⟨rest, run⟩ := exists_run_eq here.split
  have kept : ∀ e ∈ eventsOf before i, ¬e.RollsBack := by
    intro e he rolls
    obtain ⟨past, later, split⟩ := List.append_of_mem he
    have around : (x.runs i).events =
        past ++ e :: (later ++ ⟨.execute c s, .ok n⟩ :: (eventsOf after i ++ rest)) := by
      rw [run, split, List.append_assoc, List.cons_append]
    have quiet := Session.Run.unwritten_of_rollsBack around rolls
    have unwritten : s.writes = false :=
      quiet ⟨.execute c s, .ok n⟩ (List.mem_append_right _ List.mem_cons_self)
    rw [changes.writes] at unwritten
    cases unwritten
  have bound : before.length + 1 ≤ x.trace.length := by
    rw [here.split, List.length_append, List.length_cons]
    omega
  obtain ⟨line, stands, knows, length⟩ :=
    (follows checks distinct starts keeps here.split here.reaches).view i
  have tally := (key.origin settings doc).tally_le before
  have seen : n = s.affected (w.view i) ∧ w'.view i = (w.view i).execute s := by
    cases here.step with
    | quiet quiet => cases quiet
    | loses loses => rcases loses with ⟨_, rolls⟩ | ⟨_, _, fails⟩ <;> cases ‹_›
    | executes => simp [Shared.view]
  refine ⟨seen.1, seen.2, line, stands, by omega, ?_⟩
  intro planned edits call known flushing tracked
  obtain ⟨e, he, shows_⟩ := (flushing.informed checks (described_eventsOf here.split)).sourced key
    known tracked
  exact knows (fun e he => ⟨active e he, kept e he⟩) _ _ e he shows_

end Follows

/-! ## The succession of versions -/

/-- The versions of a document succeed one another. -/
structure Succession (x : Interleaving ι settings catalog) (key : DocKey)
    (doc : StoredDocument) : Prop where
  /-- A session whose commits have not failed so far updates the document for an edit that
  it planned from what it tracked. Just that is what the update overwrites, or a stored
  document has another version, and the call is refused as a conflict, after which the
  session neither commits nor writes. -/
  supersedes : ∀ before i c s n after w w', x.At before i ⟨.execute c s, .ok n⟩ after w w' →
    s.updates (settings.names key.collection).document key.id = true →
      (∀ e ∈ eventsOf before i, ¬e.FailsToCommit) →
      ∃ planned edits call typeName json content known,
        (x.runs i).Flushing catalog (eventsOf before i) planned edits call ∧
        .update (settings.names key.collection) key.id typeName json content known ∈ edits ∧
          planned.tracked.get? key = some known ∧
            ((w.view i).byId (settings.names key.collection).document key.id =
                  [Row.document key.id ⟨doc.typeName, known⟩] ∧ n = 1 ∧
                (w'.view i).byId (settings.names key.collection).document key.id =
                  [Row.document key.id ⟨doc.typeName, ⟨content, json, known.version + 1⟩⟩] ∨
              (∀ row ∈ (w.view i).byId (settings.names key.collection).document key.id,
                  row.value? Column.versionName ≠ some (.int known.version)) ∧
                n = 0 ∧ call.result = .error (.conflict key.id typeName) ∧
                  ∀ e ∈ eventsOf after i, e.request.commits = false ∧ e.request.writes = false)
  /-- The committed version is one more for each update that was committed, as long as
  the document is there. -/
  counts : ∀ before after w, x.trace = before ++ after →
    Shared.Steps settings.dialect x.before before w →
    (∀ row ∈ w.committed.byId (settings.names key.collection).document key.id,
      row.value? Column.versionName =
        some (.int (doc.state.version +
          Int64.ofNat ((key.origin settings doc).tally before).committed))) ∧
      ((key.origin settings doc).Spared before →
        w.committed.byId (settings.names key.collection).document key.id ≠ [])

/-- Whoever writes to it, and in whatever order, no update of a document is lost, as long as there
are not so many that its versions come round again. -/
theorem succession (checks : settings.config.checkConcurrency = true) (distinct : catalog.Distinct)
    {key : DocKey} {doc : StoredDocument} (starts : x.Starts key doc) (keeps : x.Keeps key)
    (short : x.trace.length < 2 ^ 64) : x.Succession key doc := by
  constructor
  case supersedes =>
    intro before i c s n after w w' here updates active
    have changes : s.IsChange := Statement.isChange_of_updates updates
    obtain ⟨planned, edits, call, edit, hedit, flushing, sent, names, refused⟩ :=
      exists_edit checks distinct starts.used here.split changes
        (Statement.table?_of_updates updates)
    obtain ⟨met, made, line, stands, length, holds⟩ :=
      exists_line checks distinct starts keeps here changes active
    have known := (flushing.known edit hedit).known
    cases edit with
    | create _ _ _ _ _ | delete _ _ _ _ =>
      rw [sent] at updates
      cases updates
    | update names' id typeName json content old =>
      obtain rfl : names' = settings.names key.collection := names
      obtain rfl : id = key.id := by
        rw [sent] at updates
        simpa [Edit.documentCommand, Command.statement, Statement.updates,
          Command.idCell_inj] using updates
      have tracked : planned.tracked.get? key = some old := known _ rfl
      refine ⟨planned, edits, call, typeName, json, content, old, flushing, hedit, tracked, ?_⟩
      have sent :
          s = .update (key.origin settings doc).table (Document.written content (old.version + 1))
          [Command.idCell key.id, (Column.versionName, .int old.version)] := sent
      subst sent
      rcases stands.cases_of_holds (by omega) (holds planned edits call old flushing tracked) with
        ⟨older, last, version, rows⟩ | ⟨stale, others⟩
      · obtain ⟨one, overwritten⟩ :=
          stands.update_last last content (old.version + 1) (by rw [version, Origin.after_succ])
        rw [← version] at one overwritten
        refine .inl ⟨rows, met.trans one, ?_⟩
        rw [made]
        refine overwritten.rows.trans ?_
        rw [version, Origin.after_succ]
        rfl
      · have none := met.trans (stands.update_none content (old.version + 1) old.version stale).1
        exact .inr ⟨others, none, refused _ _ _ _ _ _ rfl none⟩
  case counts =>
    intro before after w split reaches
    obtain ⟨line, here⟩ := (follows checks distinct starts keeps split reaches).committed
    exact here.version

end Interleaving

namespace Counting

/-- Articles that nothing counts. -/
def uncounted : Catalog := ⟨fun names => names = main, fun _ _ => []⟩

instance : DecidablePred uncounted.collections :=
  fun names => inferInstanceAs (Decidable (names = main))

theorem uncounted_distinct : uncounted.Distinct := by
  have only : ∀ t, uncounted.Has t → t = .documents main := by
    intro t has
    cases t with
    | documents names => exact congrArg Table.documents has
    | rows kind names index | links names index =>
      obtain ⟨_, _, _, impossible, _⟩ := has
      cases impossible
  intro t t' h h' _
  rw [only t h, only t' h']

/-- Two sessions get the article of the shelf, change it and save their changes, one after the
other; the second tries again. -/
def rivals : List (Bool × Call) :=
  [(false, .read (.get entity "" 7)), (true, .read (.get entity "" 7)),
    (false, .save entity "" (dated 7 2)), (false, .saveChanges),
    (true, .save entity "" (dated 7 3)), (true, .saveChanges), (true, .saveChanges)]

/-- Articles on the shelf, and two sessions in turns. -/
def onShelf (turns : List (Bool × Call)) (unclosed : ∀ turn ∈ turns, turn.2 ≠ .close) :
    Interleaving Bool settings uncounted :=
  .ofTurns settings uncounted rfl turns unclosed ⟨kept.tables, none⟩

theorem onShelf_starts (turns : List (Bool × Call)) (unclosed : ∀ turn ∈ turns, turn.2 ≠ .close) :
    (onShelf turns unclosed).Starts ⟨"", 7⟩ ⟨"Article", ⟨(dated 7 1).text, dated 7 1, 3⟩⟩ where
  used := rfl
  stored := ⟨shelf, ⟨shelf_stored.identified, shelf_stored.rows⟩, rfl⟩
  idle := rfl

theorem onShelf_keeps (turns : List (Bool × Call)) (unclosed : ∀ turn ∈ turns, turn.2 ≠ .close)
    (other : ((onShelf turns unclosed).trace.all fun e => match e.2.request with
      | .execute _ s => !s.inserts "Document" 7
      | _ => true) = true) : (onShelf turns unclosed).Keeps ⟨"", 7⟩ := by
  intro e he c s n same
  have kept := List.all_eq_true.1 other e he
  rw [same] at kept
  have here : s.inserts "Document" 7 = false := by simpa using kept
  exact here

theorem rivals_unclosed : ∀ turn ∈ rivals, turn.2 ≠ .close := by simp [rivals]

/-- The second session is refused and rolls back; what the first has made of the article stands. -/
theorem succession_rivals :
    ((onShelf rivals rivals_unclosed).runs false).calls.map (fun c => c.result.toOption) =
        [some (), some (), some ()] ∧
      ((onShelf rivals rivals_unclosed).runs true).calls.map (fun c => c.result.toOption) =
          [some (), some (), none, some ()] ∧
        (onShelf rivals rivals_unclosed).after.committed "Document" =
            [Row.document 7 ⟨"Article", ⟨(dated 7 2).text, dated 7 2, 4⟩⟩] ∧
          (onShelf rivals rivals_unclosed).Succession ⟨"", 7⟩
            ⟨"Article", ⟨(dated 7 1).text, dated 7 1, 3⟩⟩ := by
  refine ⟨by decide +kernel, by decide +kernel, by decide +kernel, ?_⟩
  have keeps := onShelf_keeps rivals rivals_unclosed (by decide +kernel)
  exact Interleaving.succession rfl uncounted_distinct (onShelf_starts _ _) keeps
    (by decide +kernel)

end Counting

end DocStore

import DocStore.Proofs.Consistency
import DocStore.Proofs.Counting
import DocStore.Proofs.GroupTables

/-!
# Maintained indexes

An index is maintained if it holds, for every group that a document maps to, the
row computed from all mapped rows of the group, linked to the documents that map
to it. A flush looks at touched groups and at the changes only, and leaves the
index maintained: what it does to every group is what computing the groups of
the new documents from nothing would come to.
-/

set_option autoImplicit false

namespace DocStore

/-- A document that stays counts once, and so does one that only joins. -/
theorem unlinked_add_linked {kept old new : Multiset Int64} (before : (kept + old).Nodup)
    (after : (kept + new).Nodup) {link unlink : List Int64}
    (linked : ∀ id, id ∈ link ↔ id ∈ new ∧ id ∉ old)
    (unlinked : ∀ id, id ∈ unlink ↔ id ∈ old ∧ id ∉ new) (nodup : link.Nodup) :
    kept + new = ((kept + old).filter fun id => id ∉ unlink) + (link : Multiset Int64) := by
  obtain ⟨_, _, apart⟩ := Multiset.nodup_add.1 before
  obtain ⟨_, _, apart'⟩ := Multiset.nodup_add.1 after
  have notOld : ∀ id ∈ kept, id ∉ old := fun _ => Multiset.disjoint_left.1 apart
  have notNew : ∀ id ∈ kept, id ∉ new := fun _ => Multiset.disjoint_left.1 apart'
  have sum : (((kept + old).filter fun id => id ∉ unlink) + (link : Multiset Int64)).Nodup := by
    refine Multiset.nodup_add.2 ⟨before.filter _, Multiset.coe_nodup.2 nodup,
      Multiset.disjoint_left.2 fun {id} h h' => ?_⟩
    obtain ⟨joined, stayed⟩ := (linked id).1 h'
    rcases Multiset.mem_add.1 (Multiset.mem_filter.1 h).1 with h | h
    · exact notNew id h joined
    · exact stayed h
  refine (Multiset.Nodup.ext after sum).2 fun id => ?_
  rw [Multiset.mem_add, Multiset.mem_add, Multiset.mem_filter, Multiset.mem_add, Multiset.mem_coe,
    linked, unlinked]
  have first := notOld id
  have second := notNew id
  tauto

namespace Reduction

variable {R : Reduction} {catalog : Catalog}

/-- The mapped rows of documents in a group of the index. -/
def rowsFrom (R : Reduction) (catalog : Catalog) (docs : Multiset LiveDocument) (key : Value) :
    Multiset Json :=
  groupRows docs catalog R.names R.index.name key

/-- The documents that map to a group of the index. -/
def idsFrom (R : Reduction) (catalog : Catalog) (docs : Multiset LiveDocument) (key : Value) :
    Multiset Int64 :=
  groupIds docs catalog R.names R.index.name key

/-- The index holds for every group what is computed from all documents that map to
it, and nothing else. -/
def Maintained (R : Reduction) (catalog : Catalog) (docs : Multiset LiveDocument)
    (db : Database) : Prop :=
  ∃ G, R.Stores G db ∧
    ∀ key, StoredGroup.Holds (G key) (R.rowsFrom catalog docs key) (R.idsFrom catalog docs key)

/-! ## Keys of the index -/

/-- A value that the group column can have. -/
def IsKey (R : Reduction) (key : Value) : Prop :=
  ∃ c, R.index.column? R.column = some c ∧ key.OfKind c.kind

theorem agrees_iff_eq {key key' : Value} (h : R.IsKey key) (h' : R.IsKey key') :
    key.agrees key' = true ↔ key = key' := by
  obtain ⟨c, hc, kind⟩ := h
  obtain ⟨c', hc', kind'⟩ := h'
  rw [hc] at hc'
  cases hc'
  exact Value.agrees_iff_eq kind kind'

theorem exists_feeds {doc : LiveDocument} {row : Json} {key : Value}
    (h : (row, key) ∈ doc.contributes catalog R.names R.index.name) :
    ∃ d, R.Feeds catalog d ∧ (row, key) ∈ d.keyed doc.json := by
  obtain ⟨d, hd, mem⟩ := List.mem_flatMap.1 h
  obtain ⟨hd, described⟩ := List.mem_filter.1 hd
  exact ⟨d, ⟨⟨doc.entity, hd⟩, by simpa using described⟩, mem⟩

/-- Every descriptor of the index has its columns, and groups by the same one. -/
structure Uniform (R : Reduction) (catalog : Catalog) : Prop where
  index : ∀ d, R.Feeds catalog d → d.index = R.index
  column : ∀ d, R.Feeds catalog d → d.groupColumn = some R.column

theorem Lawful.uniform (lawful : R.Lawful catalog) : R.Uniform catalog :=
  ⟨lawful.index, lawful.column⟩

theorem Uniform.isKey (uniform : R.Uniform catalog) {d : Descriptor} (feeds : R.Feeds catalog d)
    {content row : Json} {key : Value} (h : (row, key) ∈ d.keyed content) : R.IsKey key := by
  rw [IsKey, ← uniform.index d feeds]
  exact Descriptor.ofKind_groupKey (uniform.column d feeds) (Descriptor.groupKey_of_mem_keyed h)

theorem shared_rowsFrom {docs : Multiset LiveDocument} {key : Value}
    (some : R.rowsFrom catalog docs key ≠ 0) :
    R.Shared catalog key (R.rowsFrom catalog docs key) := by
  refine ⟨some, fun row h => ?_⟩
  obtain ⟨doc, _, mem⟩ := mem_groupRows_iff.1 h
  obtain ⟨d, feeds, mem⟩ := exists_feeds mem
  exact ⟨d, doc.json, feeds, mem⟩

theorem Lawful.isKey_of_ne (lawful : R.Lawful catalog) {docs : Multiset LiveDocument} {key : Value}
    (some : R.rowsFrom catalog docs key ≠ 0) : R.IsKey key := by
  obtain ⟨row, h⟩ := Multiset.exists_mem_of_ne_zero some
  obtain ⟨d, content, feeds, mem⟩ := (shared_rowsFrom some).2 row h
  exact lawful.uniform.isKey feeds mem

/-- A group that no row is in has no documents either. -/
theorem idsFrom_eq_zero {docs : Multiset LiveDocument} {key : Value}
    (none : R.rowsFrom catalog docs key = 0) : R.idsFrom catalog docs key = 0 := by
  refine Multiset.eq_zero_of_forall_notMem fun id h => ?_
  obtain ⟨doc, hdoc, ⟨row, mem⟩, _⟩ := mem_groupIds_iff.1 h
  have here : row ∈ R.rowsFrom catalog docs key := mem_groupRows_iff.2 ⟨doc, hdoc, mem⟩
  rw [none] at here
  exact Multiset.notMem_zero row here

/-- The rows that a look-up finds are those of the group of the key. -/
theorem Stores.filter_inGroup (lawful : R.Lawful catalog) {G : Value → Option StoredGroup}
    {db : Database} (stores : R.Stores G db) {docs : Multiset LiveDocument}
    (holds : ∀ key, StoredGroup.Holds (G key) (R.rowsFrom catalog docs key)
      (R.idsFrom catalog docs key)) {b : Buffer}
    (feeds : R.Feeds catalog b.descriptor) {key : Value} (isKey : R.IsKey key) :
    (db R.table).filter (b.inGroup key) = R.rowsOf db key := by
  refine List.filter_congr fun row h => ?_
  obtain ⟨key', g, _, hG, value, _⟩ := stores.exists_group h
  have some := holds key'
  rw [hG] at some
  rw [Buffer.inGroup, lawful.column _ feeds]
  dsimp only
  rw [value, Option.any_some, Bool.eq_iff_iff, agrees_iff_eq (lawful.isKey_of_ne some.1) isKey,
    decide_eq_true_eq, Option.some.injEq]

theorem Shows.of_perm {g : Option StoredGroup} {found rows : List Row} (shows : R.Shows g rows)
    (perm : found.Perm rows) : R.Shows g found := by
  cases g with
  | none =>
    cases shows
    exact List.perm_nil.1 perm
  | some g =>
    obtain ⟨cells, hcells, rfl⟩ := shows
    exact ⟨cells, hcells, List.perm_singleton.1 perm⟩

/-! ## Decisions of a flush -/

section Flush

variable {check : Bool} {edits : List Edit} {before after : Contents} {p : FlushPlan}
  (planned : Edit.planAll check catalog edits = .ok p) {b : Buffer} (hb : b ∈ p.arena.buffers)
  (isFor : b.IsFor R.names R.index.name)
include planned hb isFor

section Keys

variable (used : ∀ e ∈ edits, catalog.collections e.names)
include used

theorem feeds_of_buffer : R.Feeds catalog b.descriptor := by
  obtain ⟨_, kind, entity, mem⟩ := (Edit.tidy_of_planAll used planned).described b hb
  exact ⟨⟨entity, isFor.1 ▸ mem⟩, kind, isFor.2⟩

theorem isKey_of_entry (uniform : R.Uniform catalog) {r : MappedRow} (h : r ∈ b.entries) :
    R.IsKey r.key := by
  obtain ⟨e, _, here⟩ := (Edit.mem_entries_iff used planned hb).1 h
  obtain ⟨names, d, hd, ⟨kind, index⟩, mapped⟩ := Edit.mem_entriesAt_iff.1 here
  have feeds : R.Feeds catalog d := by
    rw [names, isFor.1] at hd
    exact ⟨⟨e.entity, hd⟩, kind, index.trans isFor.2⟩
  rcases mapped with mapped | mapped
  · obtain ⟨json, _, mem, _⟩ := Edit.mem_mapped_iff.1 mapped
    exact uniform.isKey feeds mem
  · obtain ⟨json, _, mem, _⟩ := Edit.mem_mapped_iff.1 mapped
    exact uniform.isKey feeds mem

theorem isKey_of_mem_keys (uniform : R.Uniform catalog) {key : Value} (h : key ∈ b.keys) :
    R.IsKey key := by
  obtain ⟨r, hr, rfl⟩ := List.mem_map.1 (Value.mem_of_mem_distinct h)
  exact isKey_of_entry planned hb isFor used uniform hr

end Keys

variable (lawful : R.Lawful catalog) (turns : Edit.Turns catalog edits before after)
include lawful turns

/-- The decision on a touched group takes it from the documents before the flush
to those after it, and is taken if every aggregate on the way can be stored. -/
theorem decides (restores : R.Restores catalog) {key : Value} (hkey : key ∈ b.keys)
    {g : Option StoredGroup} {found : List Row} (shows : R.Shows g found)
    (holds : StoredGroup.Holds g (R.rowsFrom catalog (before.documents R.names) key)
      (R.idsFrom catalog (before.documents R.names) key)) :
    (∀ c, b.outcome key found = .ok c →
      R.Decides g (R.rowsFrom catalog (after.documents R.names) key)
      (R.idsFrom catalog (after.documents R.names) key) c) ∧
        ((∀ A, A ≤ R.rowsFrom catalog (before.documents R.names) key +
            R.rowsFrom catalog (after.documents R.names) key →
          A ≠ 0 → R.Storable A) → ∃ c, b.outcome key found = .ok c) := by
  have feeds := feeds_of_buffer planned hb isFor turns.used
  have isKey := isKey_of_mem_keys planned hb isFor turns.used lawful.uniform hkey
  have entries := (Edit.tidy_of_planAll turns.used planned).entries_eq hb
  rw [Edit.entriesAt_of_planAll planned] at entries
  have keys : ∀ r ∈ b.entries, r.key.agrees key = true ↔ r.key = key := fun r hr =>
    agrees_iff_eq (isKey_of_entry planned hb isFor turns.used lawful.uniform hr) isKey
  obtain ⟨names, index⟩ := isFor
  obtain ⟨kept, rest⟩ := turns.rest
  obtain ⟨old, new⟩ := rest R.names
  have joins : ∀ change id, b.joins key change id ↔
      id ∈ groupIds (Edit.moved edits b.names change) catalog b.names b.descriptor.index.name key :=
    fun _ _ => Buffer.joins_iff entries keys
  have rows : ∀ change, ((b.group key change).map MappedRow.row : Multiset Json) =
      groupRows (Edit.moved edits b.names change) catalog b.names b.descriptor.index.name key :=
    fun _ => Buffer.map_row_group entries keys
  rw [names, index] at joins rows
  have nodup := before.distinct R.names
  have nodup' := after.distinct R.names
  rw [old] at holds nodup
  rw [new] at nodup'
  rw [old, new]
  have ids : (groupIds _ catalog R.names R.index.name key).Nodup := nodup_groupIds nodup
  have ids' : (groupIds _ catalog R.names R.index.name key).Nodup := nodup_groupIds nodup'
  rw [groupIds_add] at ids ids'
  have sum : ∀ docs docs', groupRows (docs + docs') catalog R.names R.index.name key =
      groupRows docs catalog R.names R.index.name key +
        groupRows docs' catalog R.names R.index.name key :=
    fun _ _ => groupRows_add
  rw [rowsFrom, sum] at holds
  rw [rowsFrom, rowsFrom, sum, sum]
  refine decides_of_outcome lawful feeds restores names shows holds (rows .removed) (rows .added)
    shared_rowsFrom
    shared_rowsFrom shared_rowsFrom
    (fun none => idsFrom_eq_zero (by rw [rowsFrom, sum]; exact none)) ?_
  rw [idsFrom, idsFrom, groupIds_add, groupIds_add]
  refine unlinked_add_linked ids ids' (fun id => ?_) (fun id => ?_) ?_
  · rw [Buffer.mem_links_iff.1, joins, joins]
  · rw [Buffer.mem_links_iff.2, joins, joins]
  · exact (nodup_sortedIds _).filter _

omit hb isFor in
/-- A group that is not touched stays as it is. -/
theorem rowsFrom_of_untouched {key : Value}
    (untouched : ∀ b ∈ p.arena.buffers, b.IsFor R.names R.index.name → key ∉ b.keys) :
    R.rowsFrom catalog (after.documents R.names) key =
        R.rowsFrom catalog (before.documents R.names) key ∧
      R.idsFrom catalog (after.documents R.names) key =
        R.idsFrom catalog (before.documents R.names) key := by
  have none : ∀ change,
      R.rowsFrom catalog (Edit.moved edits R.names change : Multiset LiveDocument) key = 0 := by
    refine fun change => Multiset.eq_zero_of_forall_notMem fun row h => ?_
    obtain ⟨doc, hdoc, mem⟩ := mem_groupRows_iff.1 h
    obtain ⟨e, he, hdoc⟩ := List.mem_filterMap.1 (Multiset.mem_coe.1 hdoc)
    obtain ⟨he, names⟩ := List.mem_filter.1 he
    rw [decide_eq_true_eq] at names
    have entry := Edit.mem_entriesAt_of_contributes hdoc (names ▸ mem)
    have buffered : ⟨row, key, e.id, change⟩ ∈ p.arena.entriesAt e.names R.index.name := by
      rw [Edit.entriesAt_of_planAll planned]
      exact List.mem_flatMap.2 ⟨e, he, entry⟩
    rw [names] at entry buffered
    obtain ⟨b, hb, isFor⟩ := Arena.exists_buffer buffered
    have here := (Edit.mem_entries_iff turns.used planned hb).2 ⟨e,
      he, by rw [isFor.1, isFor.2]; exact entry⟩
    obtain ⟨key', hkey', agrees⟩ := Buffer.exists_key here
    have isKey := isKey_of_entry planned hb isFor turns.used lawful.uniform here
    have isKey' := isKey_of_mem_keys planned hb isFor turns.used lawful.uniform hkey'
    obtain rfl : key = key' := (agrees_iff_eq isKey isKey').1 agrees
    exact untouched b hb isFor hkey'
  obtain ⟨kept, rest⟩ := turns.rest
  obtain ⟨old, new⟩ := rest R.names
  have rows : ∀ change,
      groupRows (Edit.moved edits R.names change) catalog R.names R.index.name key = 0 := none
  have ids :
      ∀ change, groupIds (Edit.moved edits R.names change) catalog R.names R.index.name key = 0 :=
    fun change => idsFrom_eq_zero (none change)
  rw [old, new, rowsFrom, rowsFrom, idsFrom, idsFrom, groupRows_add, groupRows_add, groupIds_add,
    groupIds_add, rows, rows, ids, ids]
  exact ⟨rfl, rfl⟩

end Flush

/-! ## Commands by the group that they are for -/

/-- The key of a touched group, if the group is one of the index. -/
def label (R : Reduction) (g : Buffer × Value) : Option Value :=
  if g.1.IsFor R.names R.index.name then some g.2 else none

theorem label_eq_some_iff {g : Buffer × Value} {key : Value} :
    R.label g = some key ↔ g.1.IsFor R.names R.index.name ∧ g.2 = key := by
  unfold label
  split
  · next isFor => simp [isFor]
  · next other => simp [other]

/-- Every group of the index is touched once, in the one buffer that is for it. -/
theorem nodup_labels {buffers : List Buffer}
    (distinct : buffers.Pairwise fun b b' => ¬b.IsFor b'.names b'.descriptor.index.name) :
    ((Arena.touched buffers).filterMap R.label).Nodup := by
  induction buffers with
  | nil => exact List.nodup_nil
  | cons b bs ih =>
    obtain ⟨head, tail⟩ := List.pairwise_cons.1 distinct
    rw [Arena.touched, List.flatMap_cons, List.filterMap_append, List.filterMap_map,
      ← Arena.touched]
    by_cases isFor : b.IsFor R.names R.index.name
    · have keys : b.keys.filterMap (R.label ∘ fun key => (b, key)) = b.keys := by
        have all : (R.label ∘ fun key => (b, key)) = some :=
          funext fun key => label_eq_some_iff.2 ⟨isFor, rfl⟩
        rw [all, List.filterMap_some]
      have none : (Arena.touched bs).filterMap R.label = [] := by
        refine List.filterMap_eq_nil_iff.2 fun g hg => ?_
        obtain ⟨b', hb', hg⟩ := List.mem_flatMap.1 hg
        obtain ⟨key, _, rfl⟩ := List.mem_map.1 hg
        refine if_neg fun isFor' => head b' hb' ?_
        exact ⟨isFor.1.trans isFor'.1.symm, isFor.2.trans isFor'.2.symm⟩
      rw [keys, none, List.append_nil]
      refine (Value.pairwise_distinct _).imp fun {k k'} apart same => ?_
      rw [same, Value.agrees_self] at apart
      cases apart
    · have none : b.keys.filterMap (R.label ∘ fun key => (b, key)) = [] :=
        List.filterMap_eq_nil_iff.2 fun key _ => if_neg isFor
      rw [none, List.nil_append]
      exact ih tail

/-- The commands decided on, each with the key of its group. -/
theorem exists_labelled (R : Reduction) {db : Database} {groups : List (Buffer × Value)}
    {commands : List Command} (decided : Decided db groups commands) :
    ∃ labelled : List (Option Value × Command),
      labelled.map Prod.snd = commands ∧
      (∀ l ∈ labelled, ∃ g ∈ groups, g.1.Emits db g.2 (some l.2) ∧ R.label g = l.1) ∧
      (labelled.filterMap Prod.fst).Sublist (groups.filterMap R.label) ∧
      ∀ g ∈ groups, ∀ key, R.label g = some key → key ∉ labelled.filterMap Prod.fst →
        g.1.Emits db g.2 none := by
  obtain ⟨cs, each, rfl⟩ := decided
  induction each with
  | nil => exact ⟨[], rfl, (fun _ h => nomatch h), List.Sublist.refl _, fun _ h => nomatch h⟩
  | @cons g c groups cs emits _ ih =>
    obtain ⟨labelled, commands, from_, sub, rest⟩ := ih
    cases c with
    | none =>
      refine ⟨labelled, commands, fun l hl => ?_, ?_, fun g' hg' key hkey out => ?_⟩
      · obtain ⟨g', hg', here⟩ := from_ l hl
        exact ⟨g', List.mem_cons_of_mem g hg', here⟩
      · cases hlabel : R.label g with
        | none => rwa [List.filterMap_cons_none hlabel]
        | some key => rw [List.filterMap_cons_some hlabel]; exact sub.cons key
      · rcases List.mem_cons.1 hg' with rfl | hg'
        · exact emits
        · exact rest g' hg' key hkey out
    | some c =>
      refine ⟨(R.label g, c) :: labelled, ?_, fun l hl => ?_, ?_, fun g' hg' key hkey out => ?_⟩
      · rw [List.map_cons, commands]
        rfl
      · rcases List.mem_cons.1 hl with rfl | hl
        · exact ⟨g, List.mem_cons_self, emits, rfl⟩
        · obtain ⟨g', hg', here⟩ := from_ l hl
          exact ⟨g', List.mem_cons_of_mem g hg', here⟩
      · cases hlabel : R.label g with
        | none => rwa [List.filterMap_cons_none hlabel, List.filterMap_cons_none rfl]
        | some key =>
          rw [List.filterMap_cons_some hlabel,
            List.filterMap_cons_some (show (some key, c).1 = some key from rfl)]
          exact sub.cons_cons key
      · rcases List.mem_cons.1 hg' with rfl | hg'
        · rw [hkey, List.filterMap_cons_some (show (some key, c).1 = some key from rfl)] at out
          exact absurd List.mem_cons_self out
        · refine rest g' hg' key hkey fun mem => out ?_
          obtain ⟨l, hl, hkey'⟩ := List.mem_filterMap.1 mem
          exact List.mem_filterMap.2 ⟨l, List.mem_cons_of_mem _ hl, hkey'⟩

/-- The commands of a flush as they run, each with the key of its group, if it is one that was
decided on for the index. -/
theorem exists_ordered (R : Reduction) (pushed : List Command) {db : Database}
    {groups : List (Buffer × Value)} {emitted : List Command} (decided : Decided db groups emitted)
    (once : (groups.filterMap R.label).Nodup) :
    ∃ ordered : List (Option Value × Command),
      ordered.map Prod.snd = Command.inOrder (pushed ++ emitted) ∧
      (∀ l ∈ ordered, l.1 = none ∧ l.2 ∈ pushed ∨
        ∃ g ∈ groups, g.1.Emits db g.2 (some l.2) ∧ R.label g = l.1) ∧
      (ordered.filterMap Prod.fst).Nodup ∧
      ∀ g ∈ groups, ∀ key, R.label g = some key → key ∉ ordered.filterMap Prod.fst →
        g.1.Emits db g.2 none := by
  obtain ⟨labelled, rfl, sources, sub, rest⟩ := R.exists_labelled decided
  have commands : pushed ++ labelled.map Prod.snd =
      (pushed.map (fun c => ((none : Option Value), c)) ++ labelled).map Prod.snd := by
    rw [List.map_append, List.map_map]
    simp [Function.comp_def]
  obtain ⟨ordered, hordered, perm⟩ :=
    exists_map_of_perm ((Command.inOrder_perm _).trans (List.Perm.of_eq commands))
  have labels : (ordered.filterMap Prod.fst).Perm (labelled.filterMap Prod.fst) := by
    have all := perm.filterMap Prod.fst
    have none : (pushed.map fun c => ((none : Option Value), c)).filterMap Prod.fst = [] :=
      List.filterMap_eq_nil_iff.2 fun l hl => by
        obtain ⟨c, _, rfl⟩ := List.mem_map.1 hl
        rfl
    rwa [List.filterMap_append, none, List.nil_append] at all
  refine ⟨ordered, hordered, fun l hl => ?_, labels.nodup_iff.2 (once.sublist sub),
    fun g hg key hkey out => ?_⟩
  · rcases List.mem_append.1 (perm.mem_iff.1 hl) with hl | hl
    · obtain ⟨c, hc, rfl⟩ := List.mem_map.1 hl
      exact .inl ⟨rfl, hc⟩
    · exact .inr (sources l hl)
  · exact rest g hg key hkey fun h => out (labels.mem_iff.2 h)

/-- What is pushed is not about aggregate rows. -/
theorem apart_of_pushed {check : Bool} {edits : List Edit} {p : FlushPlan}
    (planned : Edit.planAll check catalog edits = .ok p) {c : Command} (h : c ∈ p.arena.commands) :
    .rows .reduce R.names R.index.name ∉ c.tables ∧ .links R.names R.index.name ∉ c.tables := by
  obtain ⟨e, _, h⟩ := (Edit.mem_pushed_iff planned).1 h
  rcases Edit.mem_commands_iff.1 h with rfl | ⟨d, _, h⟩
  · cases e <;> simp [Edit.documentCommand, Command.tables]
  · obtain ⟨_, rfl | ⟨_, cells, rfl⟩⟩ := Edit.cases_of_mem_mapCommands h <;> simp [Command.tables]

/-- What is emitted for a group of another index is not about this one. -/
theorem apart_of_emits {db : Database} {g : Buffer × Value} {c : Command}
    (emits : g.1.Emits db g.2 (some c)) (other : R.label g = none) :
    .rows .reduce R.names R.index.name ∉ c.tables ∧ .links R.names R.index.name ∉ c.tables := by
  have notFor : ¬(R.names = g.1.names ∧ R.index.name = g.1.descriptor.index.name) := by
    rintro ⟨names, index⟩
    rw [label, if_pos ⟨names.symm, index.symm⟩] at other
    cases other
  rcases Edit.cases_of_emits emits with ⟨cells, rfl⟩ | ⟨row, _, id, _, rfl | ⟨cells, rfl⟩⟩ <;>
    simpa [Command.tables] using notFor

/-! ## Flushes -/

section Flushes

variable {σ : Type} {S : Storage σ} (faithful : S.Faithful fun _ => True) {dialect : Dialect}
  (looks : S.LooksUp dialect) (distinct : catalog.Distinct) (lawful : R.Lawful catalog)
  (restores : R.Restores catalog) {d : Descriptor} (feeds : R.Feeds catalog d)
  (used : catalog.collections R.names)
include faithful looks distinct lawful restores feeds used

omit faithful looks distinct feeds used in
/-- What is decided on for a touched group of the index takes it to where its
documents are to have it. -/
theorem decides_of_emits {check : Bool} {edits : List Edit} {before after : Contents}
    {p : FlushPlan} (turns : Edit.Turns catalog edits before after)
    (planned : Edit.planAll check catalog edits = .ok p) {db : Database}
    {G : Value → Option StoredGroup} (stores : R.Stores G db)
    (holds : ∀ key, StoredGroup.Holds (G key) (R.rowsFrom catalog (before.documents R.names) key)
      (R.idsFrom catalog (before.documents R.names) key)) {g : Buffer × Value}
    (hg : g ∈ Arena.touched p.arena.buffers) (hlabel : R.label g = some g.2) {c : Option Command}
    (emits : g.1.Emits db g.2 c) :
    R.Decides (G g.2) (R.rowsFrom catalog (after.documents R.names) g.2)
      (R.idsFrom catalog (after.documents R.names) g.2) c := by
  obtain ⟨b, hb, hg⟩ := List.mem_flatMap.1 hg
  obtain ⟨key, hkey, rfl⟩ := List.mem_map.1 hg
  have isFor := (label_eq_some_iff.1 hlabel).1
  obtain ⟨found, perm, outcome⟩ := emits
  have isKey := isKey_of_mem_keys planned hb isFor turns.used lawful.uniform hkey
  have feeds' := feeds_of_buffer planned hb isFor turns.used
  obtain ⟨names, index⟩ := isFor
  rw [names, index, ← table, stores.filter_inGroup lawful holds feeds' isKey] at perm
  exact (decides planned hb ⟨names, index⟩ lawful turns restores hkey
    ((stores.shows key).of_perm perm) (holds key)).1 c outcome

/-- A flush leaves the index maintained. -/
theorem Maintained.flush {check : Bool} {edits : List Edit} {before after : Contents}
    {p : FlushPlan} (turns : Edit.Turns catalog edits before after)
    (planned : Edit.planAll check catalog edits = .ok p) {conn : Connection} {st st₁ st₂ : σ}
    {commands : List Command}
    (maintained : R.Maintained catalog (before.documents R.names) (S.tables st))
    (finished : Action.Yields S.answer (p.arena.finish conn dialect) st commands st₁)
    (ran : Action.Yields S.answer (Command.runAll conn commands) st₁ () st₂) :
    R.Maintained catalog (after.documents R.names) (S.tables st₂) := by
  obtain ⟨same, emitted, decided, rfl⟩ := decided_of_finish faithful looks finished
  obtain ⟨G, stores, holds⟩ := maintained
  have tidy := Edit.tidy_of_planAll turns.used planned
  obtain ⟨ordered, hordered, sources, once, rest⟩ :=
    R.exists_ordered p.arena.commands decided (nodup_labels tidy.distinct)
  have has : ∀ l ∈ ordered, ∀ t ∈ l.2.tables, catalog.Has t := fun l hl =>
    Edit.has_of_mem turns.used planned decided (hordered ▸ List.mem_map_of_mem hl)
  have others : ∀ l ∈ ordered, l.1 = none → .rows .reduce R.names R.index.name ∉ l.2.tables ∧
      .links R.names R.index.name ∉ l.2.tables := by
    intro l hl hnone
    rcases sources l hl with ⟨_, hc⟩ | ⟨g, _, emits, hlabel⟩
    · exact apart_of_pushed planned hc
    · exact apart_of_emits emits (hlabel.trans hnone)
  have takes : ∀ l ∈ ordered, ∀ key ∈ l.1,
      R.Takes (G key) (R.rowsFrom catalog (after.documents R.names) key)
      (R.idsFrom catalog (after.documents R.names) key) l.2 := by
    intro l hl key hkey
    rcases sources l hl with ⟨hnone, _⟩ | ⟨g, hg, emits, hlabel⟩
    · rw [hnone] at hkey
      cases hkey
    · rw [hkey] at hlabel
      obtain rfl := (label_eq_some_iff.1 hlabel).2
      exact decides_of_emits lawful restores turns planned stores holds hg hlabel emits
  rw [← hordered] at ran
  obtain ⟨G', stores', each⟩ := Stores.run distinct lawful restores feeds used faithful
    (A := fun key => R.rowsFrom catalog (after.documents R.names) key) (fun key => shared_rowsFrom)
    (same ▸ stores) has others takes once ran
  refine ⟨G', stores', fun key => ?_⟩
  by_cases mem : key ∈ ordered.filterMap Prod.fst
  · exact (each key).1 mem
  · rw [(each key).2 mem]
    by_cases touched : ∃ g ∈ Arena.touched p.arena.buffers, R.label g = some key
    · obtain ⟨g, hg, hlabel⟩ := touched
      obtain rfl := (label_eq_some_iff.1 hlabel).2
      obtain ⟨none, empty⟩ :=
        decides_of_emits lawful restores turns planned stores holds hg hlabel
          (rest g hg _ hlabel mem)
      rw [none]
      exact empty
    · obtain ⟨rows, ids⟩ := rowsFrom_of_untouched planned lawful turns fun b hb isFor hkey =>
        touched ⟨(b, key), List.mem_flatMap.2 ⟨b, hb, List.mem_map_of_mem hkey⟩,
          label_eq_some_iff.2 ⟨isFor, rfl⟩⟩
      rw [rows, ids]
      exact holds key

omit distinct feeds used in
/-- Where the index is maintained, look-ups are answered and aggregates can be
stored, reducing the touched groups of the index does not fail. -/
theorem Maintained.exists_reduceGroups (answers : S.Answers dialect) {check : Bool}
    {edits : List Edit} {before after : Contents} {p : FlushPlan}
    (turns : Edit.Turns catalog edits before after)
    (planned : Edit.planAll check catalog edits = .ok p) {b : Buffer} (hb : b ∈ p.arena.buffers)
    (isFor : b.IsFor R.names R.index.name) (conn : Connection) {keys : List Value}
    (sub : ∀ key ∈ keys, key ∈ b.keys)
    (storable : ∀ key A, A ≤ R.rowsFrom catalog (before.documents R.names) key +
      R.rowsFrom catalog (after.documents R.names) key → A ≠ 0 → R.Storable A)
    {st : σ} (maintained : R.Maintained catalog (before.documents R.names) (S.tables st)) :
    ∃ commands st', Action.Yields S.answer (b.reduceGroups conn dialect keys) st commands st' := by
  induction keys generalizing st with
  | nil => exact ⟨[], st, Action.yields_pure_iff.2 ⟨rfl, rfl⟩⟩
  | cons key keys ih =>
    obtain ⟨G, stores, holds⟩ := maintained
    have hkey := sub key List.mem_cons_self
    have isKey := isKey_of_mem_keys planned hb isFor turns.used lawful.uniform hkey
    have feeds' := feeds_of_buffer planned hb isFor turns.used
    have declared : (b.descriptor.index.column? R.column).isSome := by
      obtain ⟨c, hc, _⟩ := isKey
      rw [lawful.index _ feeds', hc]
      rfl
    obtain ⟨q, hq⟩ := Buffer.exists_lookup dialect key (lawful.column _ feeds') declared
    obtain ⟨found, st₁, hfound⟩ : ∃ found st₁, S.answer (.query conn q) st = (.ok found, st₁) :=
      answers hq
    have perm := looks hq hfound
    have same := S.tables_of_quiet faithful (r := .query conn q) st trivial
    rw [hfound] at same
    have names : b.names.index b.descriptor.index.name = R.table := by rw [isFor.1, isFor.2, table]
    rw [names, stores.filter_inGroup lawful holds feeds' isKey] at perm
    obtain ⟨c, outcome⟩ :=
      (decides planned hb isFor lawful turns restores hkey ((stores.shows key).of_perm perm)
      (holds key)).2 (storable key)
    have here := Buffer.yields_reduceGroup_iff.2 ⟨q, found, c, hq, hfound, outcome, rfl⟩
    have maintained₁ : R.Maintained catalog (before.documents R.names) (S.tables st₁) :=
      ⟨G, same ▸ stores, holds⟩
    obtain ⟨commands, st', later⟩ :=
      ih (fun k hk => sub k (List.mem_cons_of_mem key hk)) maintained₁
    refine ⟨c.toList ++ commands, st', ?_⟩
    rw [Buffer.reduceGroups, Action.yields_bind_iff]
    exact ⟨_, _, here, Action.yields_bind_iff.2 ⟨_, _, later, Action.yields_pure_iff.2 ⟨rfl, rfl⟩⟩⟩

end Flushes

end Reduction

/-- Flushes one after the other, each of edits of the documents that the last one
left. What happens in between leaves the tables. -/
inductive Flushes {σ : Type} (S : Storage σ) (catalog : Catalog) (dialect : Dialect)
    (before : Contents) (st : σ) : Contents → σ → Prop where
  | none : Flushes S catalog dialect before st before st
  | between {after : Contents} {st₁ st₂ : σ} : Flushes S catalog dialect before st after st₁ →
    S.tables st₂ = S.tables st₁ → Flushes S catalog dialect before st after st₂
  | flush {contents after : Contents} {st₁ st₂ st₃ : σ} {check : Bool} {edits : List Edit}
      {p : FlushPlan} {conn : Connection} {commands : List Command} :
      Flushes S catalog dialect before st contents st₁ →
    Edit.Turns catalog edits contents after → Edit.planAll check catalog edits = .ok p →
    Action.Yields S.answer (p.arena.finish conn dialect) st₁ commands st₂ →
    Action.Yields S.answer (Command.runAll conn commands) st₂ () st₃ →
      Flushes S catalog dialect before st after st₃

/-- Any sequence of flushes leaves a lawful index maintained. The next flush can
then reduce the groups of the index, where the look-ups are answered and the
aggregates of the rows before and after it can be stored. -/
theorem Reduction.Maintained.flushes {σ : Type} {S : Storage σ}
    (faithful : S.Faithful fun _ => True) {dialect : Dialect} (looks : S.LooksUp dialect)
    {catalog : Catalog} (distinct : catalog.Distinct) {R : Reduction} (lawful : R.Lawful catalog)
    (restores : R.Restores catalog) {d : Descriptor} (feeds : R.Feeds catalog d)
    (used : catalog.collections R.names) {before after : Contents} {st st' : σ}
    (maintained : R.Maintained catalog (before.documents R.names) (S.tables st))
    (flushes : Flushes S catalog dialect before st after st') :
    R.Maintained catalog (after.documents R.names) (S.tables st') ∧
      (S.Answers dialect → ∀ {check : Bool} {edits : List Edit} {contents : Contents}
        {p : FlushPlan} {b : Buffer}
        (conn : Connection), Edit.Turns catalog edits after contents →
          Edit.planAll check catalog edits = .ok p →
          b ∈ p.arena.buffers → b.IsFor R.names R.index.name →
          (∀ key A, A ≤ R.rowsFrom catalog (after.documents R.names) key +
            R.rowsFrom catalog (contents.documents R.names) key → A ≠ 0 → R.Storable A) →
            ∃ commands st'', Action.Yields S.answer (b.reduceGroups conn dialect b.keys) st'
              commands st'') := by
  have kept : R.Maintained catalog (after.documents R.names) (S.tables st') := by
    induction flushes with
    | none => exact maintained
    | between _ same ih => rwa [same]
    | flush _ turns planned finished ran ih =>
      exact ih.flush faithful looks distinct lawful restores feeds used turns planned finished ran
  refine ⟨kept, fun answers check edits contents p b conn turns planned hb isFor storable => ?_⟩
  exact kept.exists_reduceGroups faithful looks lawful restores answers turns planned hb isFor conn
    (fun _ h => h) storable

/-- A flush against the memory is one more flush. -/
theorem Flushes.of_memory {settings : Settings} {catalog : Catalog}
    {before contents after : Contents} {m m₁ m₂ : Memory}
    (flushes : Flushes (Memory.storage settings catalog) catalog .sqlite before m contents m₁)
    {edits : List Edit} (turns : Edit.Turns catalog edits contents after)
    (h : Memory.flush settings catalog m₁ edits = .ok m₂) :
    Flushes (Memory.storage settings catalog) catalog .sqlite before m after m₂ := by
  obtain ⟨p, commands, m', planned, finished, ran⟩ := Memory.flush_eq_ok h
  exact .flush flushes turns planned finished ran

/-- An index of a store without documents is maintained if it is empty. -/
theorem Reduction.maintained_of_empty {R : Reduction} {catalog : Catalog} {db : Database}
    (rows : db R.table = []) (links : db R.bridge = []) : R.Maintained catalog 0 db := by
  refine ⟨fun _ => none, ⟨?_, ?_, ?_, ?_, ?_⟩, fun key => ?_⟩
  · rw [rows]
    exact fun _ h => by cases h
  · intro key
    rw [rowsOf, rows]
    rfl
  · rw [links]
    exact fun _ h => by cases h
  · exact fun _ _ h => by cases h
  · exact fun _ _ _ _ h => by cases h
  · exact rfl

/-- Articles counted by day while one moves, one goes and one comes. -/
theorem Counting.maintained_revised :
    Flushes store catalog .sqlite (contents [] (by decide)) ∅
        (contents [(1, 2), (3, 1)] (by decide)) afterRevised ∧
      afterRevised.tables "ByDay" = [⟨[Command.idCell 1, ("Day", .int 1), ("Units", .int 1)]⟩,
        ⟨[Command.idCell 2, ("Day", .int 2), ("Units", .int 1)]⟩] ∧
      (reduction main).Maintained catalog ((contents [(1, 2), (3, 1)] (by decide)).documents main)
        afterRevised.tables := by
  have flushes := (Flushes.none.of_memory turns_published flush_published).of_memory turns_revised
    flush_revised
  have feeds : (reduction main).Feeds catalog articles :=
    ⟨⟨"Article", List.mem_singleton_self _⟩, rfl, rfl⟩
  exact ⟨flushes, rows_afterRevised,
    (Reduction.Maintained.flushes Memory.faithful (Memory.looksUp .sqlite) catalog_distinct
    (lawful catalog_counts) (restores catalog_counts) feeds rfl
    (Reduction.maintained_of_empty rfl rfl) flushes).1⟩

end DocStore

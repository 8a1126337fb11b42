import DocStore.Proofs.Edits

/-!
# What planning collects

Planning a list of edits pushes the commands of each edit and buffers its rows,
in order. One step of planning is the index work of an edit for one descriptor;
what it adds does not depend on what was collected before.
-/

set_option autoImplicit false

namespace DocStore

theorem flatMap_filter {α β : Type} (p : α → Prop) [DecidablePred p] (f : α → List β) (l : List α) :
    (l.filter fun a => p a).flatMap f = l.flatMap fun a => if p a then f a else [] := by
  induction l with
  | nil => rfl
  | cons a l ih =>
    rw [List.flatMap_cons, ← ih, List.filter_cons]
    by_cases h : p a <;> simp [h]

theorem toOption_map {ε α β : Type} (x : Except ε α) (f : α → β) :
    (x.map f).toOption = x.toOption.map f := by
  cases x <;> rfl

namespace Arena

/-- What the index work of an edit for one descriptor adds to what was collected. -/
structure Adds (e : Edit) (d : Descriptor) (arena arena' : Arena) : Prop where
  commands : arena'.commands = arena.commands ++ e.mapCommands d
  entries : ∀ names index, arena'.entriesAt names index = arena.entriesAt names index ++
    if d.kind = .reduce ∧ e.names = names ∧ d.index.name = index then e.entries d else []

theorem entriesAt_appendTo (names names' : TableNames) (d : Descriptor) (index : String)
    (es : List MappedRow) (bs : List Buffer) (commands commands' : List Command) :
    entriesAt ⟨appendTo names' d es bs, commands'⟩ names index =
      entriesAt ⟨bs, commands⟩ names index ++ if names' = names ∧ d.index.name = index then es
        else [] := by
  unfold entriesAt
  induction bs with
  | nil =>
    by_cases h : names' = names ∧ d.index.name = index
    · simp [appendTo, Buffer.IsFor, h]
    · simp [appendTo, Buffer.IsFor, h]
  | cons b bs ih =>
    unfold appendTo
    split
    · next here =>
      by_cases h : names' = names ∧ d.index.name = index
      · obtain ⟨rfl, rfl⟩ := h
        simp [Buffer.IsFor, here]
      · rw [if_neg h]
        simp [Buffer.IsFor, here, h]
    · next other =>
      by_cases h : b.IsFor names index
      · have apart : ¬(names' = names ∧ d.index.name = index) := by
          rintro ⟨rfl, rfl⟩
          exact other h
        simp [h, apart]
      · simpa [List.find?_cons, h] using ih

/-- The buffers of an arena with more rows collected for a descriptor. -/
theorem mem_appendTo {names : TableNames} {d : Descriptor} {es : List MappedRow} {b : Buffer}
    {bs : List Buffer} (h : b ∈ appendTo names d es bs) :
    b.names = names ∧ b.descriptor = d ∨
    ∃ b' ∈ bs, b.names = b'.names ∧ b.descriptor = b'.descriptor := by
  induction bs with
  | nil =>
    obtain rfl := List.mem_singleton.1 h
    exact .inl ⟨rfl, rfl⟩
  | cons b' bs ih =>
    unfold appendTo at h
    split at h
    · rcases List.mem_cons.1 h with rfl | h
      · exact .inr ⟨b', by simp, rfl, rfl⟩
      · exact .inr ⟨b, List.mem_cons_of_mem _ h, rfl, rfl⟩
    · rcases List.mem_cons.1 h with rfl | h
      · exact .inr ⟨b, by simp, rfl, rfl⟩
      · rcases ih h with h | ⟨b'', h, same⟩
        · exact .inl h
        · exact .inr ⟨b'', List.mem_cons_of_mem _ h, same⟩

theorem pairwise_appendTo {names : TableNames} {d : Descriptor} {es : List MappedRow}
    {bs : List Buffer} (h : bs.Pairwise fun b b' => ¬b.IsFor b'.names b'.descriptor.index.name) :
    (appendTo names d es bs).Pairwise fun b b' => ¬b.IsFor b'.names b'.descriptor.index.name := by
  induction bs with
  | nil => exact List.pairwise_singleton _ _
  | cons b bs ih =>
    obtain ⟨head, tail⟩ := List.pairwise_cons.1 h
    unfold appendTo
    split
    · exact List.pairwise_cons.2 ⟨head, tail⟩
    · next other =>
      refine List.pairwise_cons.2 ⟨fun b' hb' => ?_, ih tail⟩
      rcases mem_appendTo hb' with ⟨hn, hd⟩ | ⟨b'', hb'', hn, hd⟩
      · rw [hn, hd]; exact other
      · rw [hn, hd]; exact head b'' hb''

/-- Collecting rows appends them to the buffer of their index. -/
theorem collect_eq_ok {arena arena' : Arena} {names : TableNames} {d : Descriptor}
    {document : Int64} {change : Change} {rows : List Json}
    (h : arena.collect names d document change rows = .ok arena') : arena' = ⟨appendTo names d
      ((rows.filterMap fun row => (d.groupKey row).toOption.map fun key => (row, key)).map fun r =>
        ⟨r.1, r.2, document, change⟩) arena.buffers, arena.commands⟩ := by
  obtain ⟨entries, hentries, h⟩ := bind_eq_ok_iff.1 h
  cases h
  obtain ⟨same, _⟩ := mapM_eq_ok hentries
  simp only [← same, List.map_filterMap, toOption_map, Option.map_map]
  rfl

theorem createMapRows_eq_ok {arena arena' : Arena} {names : TableNames} {d : Descriptor}
    {document : Int64} {rows : List Json}
    (h : arena.createMapRows names d document rows = .ok arena') :
    arena' = ⟨arena.buffers,
      arena.commands ++ (rows.filterMap fun row => (d.index.cells row).toOption).map fun cells =>
        .createMapRow names d.index.name document cells⟩ := by
  obtain ⟨commands, hcommands, h⟩ := bind_eq_ok_iff.1 h
  cases h
  obtain ⟨same, _⟩ := mapM_eq_ok hcommands
  simp only [← same, List.map_filterMap, toOption_map]

/-- Collecting the rows of a mapped content. -/
theorem entriesAt_collect {arena arena' : Arena} {e : Edit} {d : Descriptor} {change : Change}
    {content : Json} {rows : List Json} (hrows : d.mapContent content = .ok rows)
    (h : arena.collect e.names d e.id change rows = .ok arena') :
    arena'.commands = arena.commands ∧
    ∀ names index, arena'.entriesAt names index = arena.entriesAt names index ++
      if e.names = names ∧ d.index.name = index then e.mapped d change (some content) else [] := by
  have mapped : e.mapped d change (some content) =
      (rows.filterMap fun row => (d.groupKey row).toOption.map fun key => (row, key)).map fun r =>
        ⟨r.1, r.2, e.id, change⟩ := by
    simp only [Edit.mapped, Descriptor.keyed, hrows, Option.elim]
  rw [collect_eq_ok h, ← mapped]
  exact ⟨rfl, fun names index => entriesAt_appendTo names e.names d index _ _ _ _⟩

/-- Index work for a map index only adds commands. -/
theorem adds_of_map {e : Edit} {d : Descriptor} (kind : d.kind = .map) {arena arena' : Arena}
    (commands : arena'.commands = arena.commands ++ e.mapCommands d)
    (buffers : arena'.buffers = arena.buffers) : Adds e d arena arena' := by
  refine ⟨commands, fun names index => ?_⟩
  simp [entriesAt, buffers, kind]

theorem adds_of_work {e : Edit} {d : Descriptor} {arena arena' : Arena}
    (h : e.work arena d = .ok arena') : Adds e d arena arena' := by
  cases kind : d.kind with
  | map =>
    cases e with
    | create names id entity json content =>
      simp only [Edit.work, created, kind] at h
      obtain ⟨rows, hrows, h⟩ := bind_eq_ok_iff.1 h
      rw [createMapRows_eq_ok h]
      refine adds_of_map kind ?_ rfl
      simp [Edit.mapCommands, kind, Edit.before, Edit.after, Edit.names, Edit.id,
        Descriptor.cellRows, hrows]
    | update names id entity json content old =>
      simp only [Edit.work, updated, kind] at h
      obtain ⟨rows, hrows, h⟩ := bind_eq_ok_iff.1 h
      rw [createMapRows_eq_ok h]
      refine adds_of_map kind ?_ rfl
      simp [Edit.mapCommands, kind, Edit.before, Edit.after, Edit.names, Edit.id,
        Descriptor.cellRows, hrows, push]
    | delete names id entity old =>
      simp only [Edit.work, deleted, kind] at h
      cases h
      refine adds_of_map kind ?_ rfl
      simp [Edit.mapCommands, kind, Edit.before, Edit.after, Edit.names, Edit.id, push]
  | reduce =>
    have none : e.mapCommands d = [] := by simp [Edit.mapCommands, kind]
    cases e with
    | create names id entity json content =>
      simp only [Edit.work, created, kind] at h
      obtain ⟨rows, hrows, h⟩ := bind_eq_ok_iff.1 h
      obtain ⟨commands, entries⟩ :=
        entriesAt_collect (e := .create names id entity json content) hrows h
      refine ⟨by rw [commands, none, List.append_nil], fun names' index => ?_⟩
      rw [entries]
      simp [kind, Edit.entries, Edit.before, Edit.after, Edit.mapped]
    | update names id entity json content old =>
      simp only [Edit.work, updated, kind] at h
      obtain ⟨oldRows, holdRows, h⟩ := bind_eq_ok_iff.1 h
      obtain ⟨newRows, hnewRows, h⟩ := bind_eq_ok_iff.1 h
      obtain ⟨between, hbetween, h⟩ := bind_eq_ok_iff.1 h
      obtain ⟨commands, entries⟩ :=
        entriesAt_collect (e := .update names id entity json content old) holdRows hbetween
      obtain ⟨commands', entries'⟩ :=
        entriesAt_collect (e := .update names id entity json content old) hnewRows h
      refine ⟨by rw [commands', commands, none, List.append_nil], fun names' index => ?_⟩
      rw [entries', entries, List.append_assoc]
      simp only [kind, true_and, Edit.entries, Edit.before, Edit.after]
      split
      · rfl
      · rfl
    | delete names id entity old =>
      simp only [Edit.work, deleted, kind] at h
      obtain ⟨rows, hrows, h⟩ := bind_eq_ok_iff.1 h
      obtain ⟨commands, entries⟩ := entriesAt_collect (e := .delete names id entity old) hrows h
      refine ⟨by rw [commands, none, List.append_nil], fun names' index => ?_⟩
      rw [entries]
      simp [kind, Edit.entries, Edit.before, Edit.after, Edit.mapped]

/-! ## Tidy buffers -/

variable {catalog : Catalog} {arena arena' : Arena}

theorem tidy_empty : Tidy catalog ∅ := ⟨(fun _ h => nomatch h), List.Pairwise.nil⟩

theorem Tidy.push (h : Tidy catalog arena) (c : Command) : Tidy catalog (arena.push c) :=
  ⟨h.described, h.distinct⟩

theorem Tidy.collect (tidy : Tidy catalog arena) {names : TableNames} {d : Descriptor}
    {entity : String} (used : catalog.collections names)
    (mem : d ∈ catalog.descriptors names entity) (kind : d.kind = .reduce) {document : Int64}
    {change : Change} {rows : List Json}
    (h : arena.collect names d document change rows = .ok arena') : Tidy catalog arena' := by
  rw [collect_eq_ok h]
  refine ⟨fun b hb => ?_, pairwise_appendTo tidy.distinct⟩
  rcases mem_appendTo hb with ⟨hn, hd⟩ | ⟨b', hb', hn, hd⟩
  · rw [hn, hd]; exact ⟨used, kind, entity, mem⟩
  · rw [hn, hd]; exact tidy.described b' hb'

theorem Tidy.work {e : Edit} {d : Descriptor} (tidy : Tidy catalog arena)
    (used : catalog.collections e.names) (mem : d ∈ catalog.descriptors e.names e.entity)
    (h : e.work arena d = .ok arena') : Tidy catalog arena' := by
  cases kind : d.kind with
  | map =>
    have same : arena'.buffers = arena.buffers := by
      cases e with
      | create names id entity json content =>
        simp only [Edit.work, created, kind] at h
        obtain ⟨_, _, h⟩ := bind_eq_ok_iff.1 h
        rw [createMapRows_eq_ok h]
      | update names id entity json content old =>
        simp only [Edit.work, updated, kind] at h
        obtain ⟨_, _, h⟩ := bind_eq_ok_iff.1 h
        rw [createMapRows_eq_ok h]
        rfl
      | delete names id entity old =>
        simp only [Edit.work, deleted, kind] at h
        cases h
        rfl
    exact ⟨by rw [same]; exact tidy.described, by rw [same]; exact tidy.distinct⟩
  | reduce =>
    cases e with
    | create names id entity json content =>
      simp only [Edit.work, created, kind] at h
      obtain ⟨_, _, h⟩ := bind_eq_ok_iff.1 h
      exact tidy.collect used mem kind h
    | update names id entity json content old =>
      simp only [Edit.work, updated, kind] at h
      obtain ⟨_, _, h⟩ := bind_eq_ok_iff.1 h
      obtain ⟨_, _, h⟩ := bind_eq_ok_iff.1 h
      obtain ⟨_, hbetween, h⟩ := bind_eq_ok_iff.1 h
      exact (tidy.collect used mem kind hbetween).collect used mem kind h
    | delete names id entity old =>
      simp only [Edit.work, deleted, kind] at h
      obtain ⟨_, _, h⟩ := bind_eq_ok_iff.1 h
      exact tidy.collect used mem kind h

/-- The rows buffered for an index are in the one buffer that is for it. -/
theorem Tidy.entries_eq (tidy : Tidy catalog arena) {b : Buffer} (hb : b ∈ arena.buffers) :
    b.entries = arena.entriesAt b.names b.descriptor.index.name := by
  obtain ⟨bs, commands⟩ := arena
  have distinct := tidy.distinct
  unfold entriesAt
  clear tidy
  induction bs with
  | nil => cases hb
  | cons b' bs ih =>
    obtain ⟨head, tail⟩ := List.pairwise_cons.1 distinct
    rcases List.mem_cons.1 hb with rfl | hb
    · simp [Buffer.IsFor]
    · rw [List.find?_cons_of_neg (by simpa using head b hb)]
      exact ih hb tail

theorem exists_buffer {names : TableNames} {index : String} {r : MappedRow}
    (h : r ∈ arena.entriesAt names index) : ∃ b ∈ arena.buffers, b.IsFor names index := by
  unfold entriesAt at h
  cases hb : arena.buffers.find? fun b => b.IsFor names index with
  | none => rw [hb] at h; cases h
  | some b => exact ⟨b, List.mem_of_find?_eq_some hb, by simpa using List.find?_some hb⟩

end Arena

namespace Edit

variable {check : Bool} {catalog : Catalog} {p p' : FlushPlan}

/-- Planning an edit pushes the command on its document and does the index
work of every descriptor. -/
theorem work_of_plan {e : Edit} (h : e.plan check catalog p = .ok p') :
    (catalog.descriptors e.names e.entity).foldlM e.work (p.arena.push (e.documentCommand check)) =
    .ok p'.arena := by
  cases e with
  | create names id entity json content =>
    obtain ⟨arena, harena, h⟩ := bind_eq_ok_iff.1 h
    cases h
    exact harena
  | update names id entity json content old =>
    obtain ⟨arena, harena, h⟩ := bind_eq_ok_iff.1 h
    cases h
    exact harena
  | delete names id entity old =>
    obtain ⟨arena, harena, h⟩ := bind_eq_ok_iff.1 h
    cases h
    exact harena

theorem commands_of_plan {e : Edit} (h : e.plan check catalog p = .ok p') :
    p'.arena.commands = p.arena.commands ++ e.commands check catalog := by
  have work := work_of_plan h
  rw [foldlM_adds Arena.commands work fun _ _ _ h => (Arena.adds_of_work h).commands]
  simp [Arena.push, commands]

theorem flatMap_entries (e : Edit) (ds : List Descriptor) (names : TableNames) (index : String) :
    (ds.flatMap fun d => if d.kind = .reduce ∧ e.names = names ∧ d.index.name = index then
        e.entries d else []) =
      if e.names = names then (ds.filter fun d => d.kind = .reduce ∧ d.index.name = index).flatMap
        e.entries else [] := by
  by_cases here : e.names = names
  · simp only [here, true_and, if_true, flatMap_filter]
  · simp [here]

theorem entriesAt_of_plan {e : Edit} (h : e.plan check catalog p = .ok p') (names : TableNames)
    (index : String) :
    p'.arena.entriesAt names index = p.arena.entriesAt names index ++
    e.entriesAt catalog names index := by
  have work := work_of_plan h
  rw [foldlM_adds (fun a => a.entriesAt names index) work fun _ _ _ h =>
      (Arena.adds_of_work h).entries names index,
    flatMap_entries]
  rfl

theorem tidy_of_plan {e : Edit} (tidy : p.arena.Tidy catalog) (used : catalog.collections e.names)
    (h : e.plan check catalog p = .ok p') : p'.arena.Tidy catalog :=
  foldlM_keeps (Arena.Tidy catalog) (work_of_plan h) (tidy.push _) fun _ mem _ _ tidy h =>
    Arena.Tidy.work tidy used mem h

/-- The commands that planning pushes. -/
theorem commands_of_planAll {edits : List Edit} (h : planAll check catalog edits = .ok p) :
    p.arena.commands = edits.flatMap (commands check catalog) :=
  foldlM_adds (fun p : FlushPlan => p.arena.commands) h fun _ _ _ h => commands_of_plan h

/-- The rows that planning buffers. -/
theorem entriesAt_of_planAll {edits : List Edit} (h : planAll check catalog edits = .ok p)
    (names : TableNames) (index : String) :
    p.arena.entriesAt names index = edits.flatMap fun e => e.entriesAt catalog names index :=
  foldlM_adds (fun p : FlushPlan => p.arena.entriesAt names index) h fun _ _ _ h =>
    entriesAt_of_plan h names index

theorem tidy_of_planAll {edits : List Edit} (used : ∀ e ∈ edits, catalog.collections e.names)
    (h : planAll check catalog edits = .ok p) : p.arena.Tidy catalog :=
  foldlM_keeps (fun p : FlushPlan => p.arena.Tidy catalog) h Arena.tidy_empty
    fun e he _ _ tidy h => tidy_of_plan tidy (used e he) h

end Edit

end DocStore

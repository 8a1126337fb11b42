import DocStore.Proofs.DocumentTables

/-!
# Identities of documents

Where ids come from. A source of ids knows, for every collection that is seeded,
a bound below which no id is handed out until the ids start again with the least.
A store seeds a collection with the highest id that is stored before it asks for
one, and with every id that a caller brings along; so an id that is handed out is
that of no stored document, unless it is the least.
-/

set_option autoImplicit false

namespace DocStore

/-- The requests after which a source of ids hands out others. -/
def Request.Numbers : Request → Prop
  | .seedIds _ _ | .nextId _ => True
  | _ => False

/-- How far the ids of each collection have come; nothing is known of a
collection that is not seeded. -/
abbrev Bounds := String → Option Int64

/-- Surroundings with a source of ids. An id that is handed out is above the bound
of its collection, or the least with which the ids start again. -/
structure Storage.Identifies {σ : Type} (S : Storage σ) (bounds : σ → Bounds) : Prop where
  seeded : ∀ collection st, (S.answer (.idsSeeded collection) st).1 = (bounds st collection).isSome
  seeds : ∀ collection atLeast st, ∃ b, (∀ b' ∈ bounds st collection, b' ≤ b) ∧ atLeast ≤ b ∧
    bounds (S.answer (.seedIds collection atLeast) st).2 =
      Function.update (bounds st) collection (some b)
  next : ∀ collection st b, bounds st collection = some b → ∃ b',
    ((S.answer (.nextId collection) st).1 = Int64.minValue ∨
      b < (S.answer (.nextId collection) st).1 ∧ (S.answer (.nextId collection) st).1 ≤ b') ∧
      bounds (S.answer (.nextId collection) st).2 = Function.update (bounds st) collection (some b')
  keeps : ∀ r st, ¬r.Numbers → bounds (S.answer r st).2 = bounds st

/-- The highest id of a document table is looked up as it is stored. -/
def Storage.FindsHighest {σ : Type} (S : Storage σ) (catalog : Catalog) : Prop :=
  ∀ {conn table st v st'}, catalog.IsDocuments table →
    S.answer (.scalar conn (.query (.maxId table) ∅)) st = (.ok v, st') →
      ∀ row ∈ S.tables st table, ∀ id, row.value? Column.idName = some (.int id) →
        id ≤ (v.bind Value.int64?).getD 0

namespace Bounds

/-- No stored document has an id above the bound of its collection. -/
def Covers (bounds : Bounds) (docs : Documents) : Prop :=
  ∀ key, (docs key).isSome → ∀ b ∈ bounds key.collection, key.id ≤ b

/-- The document's id is never handed out again. -/
def Reserves (bounds : Bounds) (key : DocKey) : Prop := ∃ b ∈ bounds key.collection, key.id ≤ b

/-- What is never handed out stays so. -/
def Grows (bounds bounds' : Bounds) : Prop :=
  ∀ collection, ∀ b ∈ bounds collection, ∃ b' ∈ bounds' collection, b ≤ b'

variable {bounds bounds' bounds'' : Bounds} {docs : Documents} {collection : String} {b : Int64}

theorem Grows.refl (bounds : Bounds) : bounds.Grows bounds := fun _ b hb => ⟨b, hb, Int64.le_refl b⟩

theorem Grows.trans (h : bounds.Grows bounds') (h' : bounds'.Grows bounds'') :
    bounds.Grows bounds'' := by
  intro collection b hb
  obtain ⟨b', hb', le⟩ := h collection b hb
  obtain ⟨b'', hb'', le'⟩ := h' collection b' hb'
  exact ⟨b'', hb'', Int64.le_trans le le'⟩

theorem Grows.reserves (h : bounds.Grows bounds') {key : DocKey} (reserves : bounds.Reserves key) :
    bounds'.Reserves key := by
  obtain ⟨b, hb, le⟩ := reserves
  obtain ⟨b', hb', le'⟩ := h _ b hb
  exact ⟨b', hb', Int64.le_trans le le'⟩

theorem grows_update (above : ∀ b' ∈ bounds collection, b' ≤ b) :
    bounds.Grows (Function.update bounds collection (some b)) := by
  intro collection' b' hb'
  by_cases same : collection' = collection
  · subst same
    exact ⟨b, Function.update_self .., above b' hb'⟩
  · exact ⟨b', by rwa [Function.update_of_ne same], Int64.le_refl b'⟩

/-- A bound that goes up still covers, and a first one covers if it is high enough. -/
theorem Covers.update (covers : bounds.Covers docs) (above : ∀ b' ∈ bounds collection, b' ≤ b)
    (first : bounds collection = none → ∀ id, (docs ⟨collection, id⟩).isSome → id ≤ b) :
    Covers (Function.update bounds collection (some b)) docs := by
  rintro ⟨collection', id⟩ some b' hb'
  by_cases same : collection' = collection
  · subst same
    rw [Function.update_self] at hb'
    obtain rfl := Option.mem_some_iff.1 hb'
    cases known : bounds collection' with
    | none => exact first known id some
    | some b'' => exact Int64.le_trans (covers ⟨collection', id⟩ some b'' known) (above b'' known)
  · rw [Function.update_of_ne same] at hb'
    exact covers ⟨collection', id⟩ some b' hb'

end Bounds

namespace Storage.Identifies

variable {σ : Type} {S : Storage σ} {bounds : σ → Bounds} (identifies : S.Identifies bounds)
  {settings : Settings} {catalog : Catalog} (faithful : S.Faithful catalog.IsDocuments)
  (highest : S.FindsHighest catalog) {docs : Documents} {collection : String}
  (used : catalog.collections (settings.names collection)) {conn : Connection} {st st' : σ}
  (stored : docs.Stored settings catalog (S.tables st)) (covers : (bounds st).Covers docs)
include identifies faithful highest used stored covers

/-- A collection is seeded above the ids that are stored. -/
theorem of_ensureSeeded
  (h : Action.Yields S.answer (Action.ensureSeeded settings conn collection) st () st') :
    (∀ t, catalog.IsDocuments t → S.tables st' t = S.tables st t) ∧ (bounds st').Covers docs ∧
      (bounds st).Grows (bounds st') ∧ ∃ b, bounds st' collection = some b := by
  obtain ⟨seeded, st₁, hseeded, h⟩ := Action.yields_bind_iff.1 h
  have tables₁ := faithful.quiet (r := .idsSeeded collection) (s := st) trivial
  have bounds₁ := identifies.keeps (.idsSeeded collection) st (fun h => h)
  have known := identifies.seeded collection st
  rw [Action.yields_request_iff.1 hseeded] at tables₁ bounds₁ known
  split at h
  · next yes =>
    obtain ⟨_, rfl⟩ := Action.yields_pure_iff.1 h
    rw [bounds₁]
    refine ⟨tables₁, covers, Bounds.Grows.refl _, Option.isSome_iff_exists.1 ?_⟩
    rw [← known]
    exact yes
  · next no =>
    obtain ⟨v, st₂, hv, h⟩ := Action.yields_bind_iff.1 h
    have tables₂ :=
      faithful.quiet (r := .scalar conn (.query (.maxId (settings.names collection).document) ∅))
        (s := st₁) trivial
    have bounds₂ :=
      identifies.keeps (.scalar conn (.query (.maxId (settings.names collection).document) ∅)) st₁
        (fun h => h)
    have above := highest ⟨_, used, rfl⟩ (Action.yields_scalar_iff.1 hv)
    rw [Action.yields_scalar_iff.1 hv] at tables₂ bounds₂
    have tables₃ := faithful.quiet (r := .seedIds collection ((v.bind Value.int64?).getD 0))
      (s := st₂) trivial
    obtain ⟨b, grows, reaches, bounds₃⟩ :=
      identifies.seeds collection ((v.bind Value.int64?).getD 0) st₂
    rw [Action.yields_request_iff.1 h] at tables₃ bounds₃
    rw [bounds₂, bounds₁] at grows bounds₃
    have first : ∀ id, (docs ⟨collection, id⟩).isSome → id ≤ b := by
      intro id some
      obtain ⟨doc, hdoc⟩ := Option.isSome_iff_exists.1 some
      have row := stored.exists_row used hdoc
      rw [← tables₁ _ ⟨_, used, rfl⟩] at row
      exact Int64.le_trans (above _ row id (Row.value?_document id doc)) reaches
    rw [bounds₃]
    exact ⟨fun t ht => by rw [tables₃ t ht, tables₂ t ht, tables₁ t ht],
      covers.update grows fun _ => first, Bounds.grows_update grows, b, Function.update_self ..⟩

/-- A new id is that of no stored document, and is not handed out again. -/
theorem of_newId {id : Int64}
    (h : Action.Yields S.answer (Action.newId settings conn collection) st id st')
    (last : id ≠ Int64.minValue) :
    (∀ t, catalog.IsDocuments t → S.tables st' t = S.tables st t) ∧ (bounds st').Covers docs ∧
      (bounds st).Grows (bounds st') ∧ (bounds st').Reserves ⟨collection, id⟩ ∧
        docs ⟨collection, id⟩ = none := by
  obtain ⟨_, st₁, hseeded, h⟩ := Action.yields_bind_iff.1 h
  obtain ⟨tables₁, covers₁, grows₁, b, hb⟩ :=
    identifies.of_ensureSeeded faithful highest used stored covers hseeded
  have tables₂ := faithful.quiet (r := .nextId collection) (s := st₁) trivial
  obtain ⟨b', new, bounds₂⟩ := identifies.next collection st₁ b hb
  rw [Action.yields_request_iff.1 h] at tables₂ bounds₂ new
  obtain ⟨above, within⟩ := new.resolve_left last
  have le : ∀ b'' ∈ bounds st₁ collection, b'' ≤ b' := by
    intro b'' hb''
    rw [hb] at hb''
    obtain rfl := Option.mem_some_iff.1 hb''
    exact Int64.le_trans (Int64.le_of_lt above) within
  rw [bounds₂]
  refine ⟨fun t ht => by rw [tables₂ t ht, tables₁ t ht],
    covers₁.update le (fun none => by rw [hb] at none; cases none),
    grows₁.trans (Bounds.grows_update le), ⟨b', Function.update_self .., within⟩, ?_⟩
  rw [Option.eq_none_iff_forall_ne_some]
  intro doc stored'
  have below := covers₁ ⟨collection, id⟩ (by rw [stored']; rfl) b hb
  exact absurd below (Int64.not_le.2 above)

/-- An id that a caller brings along is not handed out any more. -/
theorem of_reserveId {id : Int64}
    (h : Action.Yields S.answer (Action.reserveId settings conn collection id) st () st') :
    (∀ t, catalog.IsDocuments t → S.tables st' t = S.tables st t) ∧ (bounds st').Covers docs ∧
      (bounds st).Grows (bounds st') ∧ (bounds st').Reserves ⟨collection, id⟩ := by
  obtain ⟨_, st₁, hseeded, h⟩ := Action.yields_bind_iff.1 h
  obtain ⟨tables₁, covers₁, grows₁, b, hb⟩ :=
    identifies.of_ensureSeeded faithful highest used stored covers hseeded
  have tables₂ := faithful.quiet (r := .seedIds collection id) (s := st₁) trivial
  obtain ⟨b', grows, reaches, bounds₂⟩ := identifies.seeds collection id st₁
  rw [Action.yields_request_iff.1 h] at tables₂ bounds₂
  rw [bounds₂]
  exact ⟨fun t ht => by rw [tables₂ t ht, tables₁ t ht],
    covers₁.update grows (fun none => by rw [hb] at none; cases none),
    grows₁.trans (Bounds.grows_update grows), b', Function.update_self .., reaches⟩

end Storage.Identifies

/-! ## The default source of ids -/

namespace IdTable

/-- The last id of each collection is its bound. -/
def bounds (ids : IdTable) : Bounds := ids.last.get?

variable (ids : IdTable) (collection : String)

theorem isSeeded_eq : ids.isSeeded collection = (ids.bounds collection).isSome :=
  Assoc.contains_eq_isSome_get? ..

theorem bounds_insert (id : Int64) :
    bounds ⟨ids.last.insert collection id⟩ = Function.update ids.bounds collection (some id) := by
  funext collection'
  rw [bounds, Assoc.get?_insert]
  by_cases same : collection = collection'
  · rw [if_pos same, same, Function.update_self]
  · rw [if_neg same, Function.update_of_ne (Ne.symm same)]
    rfl

theorem lastId_eq {b : Int64} (h : ids.bounds collection = some b) : ids.lastId collection = b := by
  rw [lastId, show ids.last.get? collection = some b from h]
  rfl

theorem bounds_seed (atLeast : Int64) : ∃ b, (∀ b' ∈ ids.bounds collection, b' ≤ b) ∧ atLeast ≤ b ∧
    (ids.seed collection atLeast).bounds = Function.update ids.bounds collection (some b) := by
  refine ⟨_, fun b' hb' => ?_, ?_, ids.bounds_insert collection _⟩
  · rw [ids.lastId_eq collection hb']
    split
    · next less => exact Int64.le_of_lt less
    · exact Int64.le_refl b'
  · split
    · exact Int64.le_refl atLeast
    · next notLess => exact Int64.not_lt.1 notLess

theorem lt_add_one_of_ne {b : Int64} (last : b ≠ Int64.maxValue) : b < b + 1 := by
  have greatest : Int64.maxValue.toInt = 9223372036854775807 := by decide
  have least : Int64.minValue.toInt = -9223372036854775808 := by decide
  have one : (1 : Int64).toInt = 1 := by decide
  have below : b.toInt ≠ Int64.maxValue.toInt := fun same => last (Int64.toInt_inj.1 same)
  have upper := Int64.toInt_le b
  have lower := Int64.minValue_le_toInt b
  rw [Int64.lt_iff_toInt_lt, Int64.toInt_add, one, Int.bmod_eq_of_le] <;> omega

/-- The next id is greater, or the least. -/
theorem lt_add_one (b : Int64) : b + 1 = Int64.minValue ∨ b < b + 1 := by
  by_cases last : b = Int64.maxValue
  · subst last
    exact .inl (by decide)
  · exact .inr (lt_add_one_of_ne last)

theorem bounds_next {b : Int64} (h : ids.bounds collection = some b) :
    ∃ b', ((ids.next collection).1 = Int64.minValue ∨
        b < (ids.next collection).1 ∧ (ids.next collection).1 ≤ b') ∧
      (ids.next collection).2.bounds = Function.update ids.bounds collection (some b') := by
  refine ⟨_, ?_, ids.bounds_insert collection _⟩
  simp only [next, ids.lastId_eq collection h]
  exact (lt_add_one b).imp_right fun less => ⟨less, Int64.le_refl _⟩

end IdTable

end DocStore

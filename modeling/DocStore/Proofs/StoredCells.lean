import DocStore.Proofs.Contributions
import DocStore.Proofs.Rounding

/-!
# Index rows that storage gives back

The cells of an index row are written, and the row is assembled again from what
is read. It has the same cells if the storage returns each of them under its
name, in whatever order and letter case, and flags it may be as integers.
-/

set_option autoImplicit false

namespace DocStore

section Lists

variable {α β ε : Type} {R : α → β → Prop}

theorem exists_of_forall₂ {as : List α} {bs : List β} (h : List.Forall₂ R as bs) {a : α}
    (ha : a ∈ as) : ∃ b ∈ bs, R a b := by
  induction h with
  | nil => cases ha
  | cons first _ ih =>
    rcases List.mem_cons.1 ha with rfl | ha
    · exact ⟨_, List.mem_cons_self, first⟩
    · obtain ⟨b, hb, related⟩ := ih ha
      exact ⟨b, List.mem_cons_of_mem _ hb, related⟩

theorem mapM_eq_ok_iff {f : α → Except ε β} {as : List α} {bs : List β} :
    as.mapM f = .ok bs ↔ List.Forall₂ (fun a b => f a = .ok b) as bs := by
  induction as generalizing bs with
  | nil =>
    rw [List.forall₂_nil_left_iff]
    exact ⟨fun h => by cases h; rfl, fun h => h ▸ rfl⟩
  | cons a as ih =>
    rw [List.mapM_cons, bind_eq_ok_iff, List.forall₂_cons_left_iff]
    refine ⟨fun ⟨b, hb, h⟩ => ?_, fun ⟨b, bs, hb, hbs, same⟩ =>
      ⟨b, hb, bind_eq_ok_iff.2 ⟨bs, ih.2 hbs, same ▸ rfl⟩⟩⟩
    obtain ⟨bs, hbs, h⟩ := bind_eq_ok_iff.1 h
    cases h
    exact ⟨b, bs, hb, ih.1 hbs, rfl⟩

end Lists

/-! ## Members of objects -/

namespace Json

theorem lookup_cons (key key' : String) (value : Json) (fields : List (String × Json)) :
    ((key, value) :: fields).lookup key' = if key' = key then some value
      else fields.lookup key' := by
  rw [List.lookup_cons]
  split
  · next same => rw [if_pos (eq_of_beq same)]
  · next other => rw [if_neg (beq_eq_false_iff_ne.1 other)]

/-- A member that is set has its value, and the others keep theirs. -/
theorem lookup_insertField (key key' : String) (value : Json) (fields : List (String × Json)) :
    (insertField key value fields).lookup key' = if key' = key then some value
      else fields.lookup key' := by
  induction fields with
  | nil => exact lookup_cons ..
  | cons f fields ih =>
    obtain ⟨name, member⟩ := f
    simp only [insertField, apply_ite (List.lookup key'), lookup_cons, ih]
    split_ifs <;> simp_all

/-- Of members that are all of other keys, each has its value. -/
theorem field?_ofFields {fields : List (String × Json)} (apart : (fields.map Prod.fst).Nodup)
    {key : String} {value : Json} (h : (key, value) ∈ fields) :
    (ofFields fields).field? key = some value := by
  rw [ofFields, field?]
  induction fields using List.reverseRecOn with
  | nil => cases h
  | append_singleton fields f ih =>
    rw [List.foldl_append, List.foldl_cons, List.foldl_nil, lookup_insertField]
    rw [List.map_append, List.nodup_append] at apart
    obtain ⟨before, -, last⟩ := apart
    rcases List.mem_append.1 h with h | h
    · rw [if_neg (last key (List.mem_map_of_mem h) f.1 (by simp)), ih before h]
    · rw [← List.mem_singleton.1 h, if_pos rfl]

theorem int64?_ofInt64 (i : Int64) : (ofInt64 i).int64? = some i := by
  have least := Int64.minValue_le_toInt i
  have greatest := Int64.toInt_le i
  rw [ofInt64, int64?, if_pos ⟨least, greatest⟩, Int64.ofInt_toInt]

/-- JSON as it can be written: an integer is of sixty-four bits, signed or not, and no
number is infinite or none. -/
def Writable : Json → Prop
  | .int i => Int64.minValue.toInt ≤ i ∧ i < 2 ^ 64
  | .real x => x.isFinite = true
  | _ => True

theorem isFinite_of_double? {j : Json} (writable : j.Writable) {x : Double}
    (h : j.double? = some x) : x.isFinite = true := by
  cases j with
  | int i =>
    cases h
    obtain ⟨low, high⟩ := writable
    have least : Int64.minValue.toInt = -2 ^ 63 := by decide
    exact Double.isFinite_ofInt (by omega)
  | real y =>
    cases h
    exact writable
  | null | bool | str | arr | obj => cases h

end Json

/-! ## Cells of a row -/

/-- How a storage may give back a value: a flag may be an integer. -/
def Value.StoredAs (v w : Value) : Prop :=
  w = v ∨ ∃ flag : Bool, v = .bool flag ∧ w = .int (if flag then 1 else 0)

namespace IndexType

variable {column : Column} {v w : Value}

theorem isFinite_of_cell {j : Option Json} (writable : ∀ json, j = some json → json.Writable)
    {x : Double} (h : cellOfJson column j = .ok (.float x)) : x.isFinite = true := by
  obtain ⟨name, kind, nullable⟩ := column
  have real : ColumnKind.real = kind := (ofKind_cell h).symm
  subst real
  cases j with
  | none => cases h
  | some json =>
    have number : json.double? = some x := by cases json <;> cases h <;> rfl
    exact Json.isFinite_of_double? (writable json rfl) number

/-- A column takes a value back from the member that the stored value stands for. -/
theorem cellOfJson_cellToJson (kind : v.OfKind column.kind)
    (finite : ∀ x, v = .float x → x.isFinite = true) (stored : v.StoredAs w) :
    cellOfJson column (some (cellToJson column.kind w)) = .ok v := by
  obtain ⟨name, columnKind, nullable⟩ := column
  rcases stored with rfl | ⟨flag, rfl, rfl⟩
  · cases w with
    | null => cases columnKind <;> rfl
    | bool flag =>
      cases kind
      rfl
    | int i =>
      cases kind
      change (Json.ofInt64 i).int64?.elim _ _ = _
      rw [Json.int64?_ofInt64]
      rfl
    | float x =>
      cases kind
      change cellOfJson _ (some (Json.ofDouble x)) = _
      rw [Json.ofDouble, if_pos (finite x rfl)]
      rfl
    | text s =>
      cases kind
      rfl
  · cases kind
    cases flag <;> rfl

end IndexType

/-! ## Result rows -/

namespace Row

theorem sameName_iff {a b : String} :
    sameName a b = true ↔ a.toList.map Char.toLower = b.toList.map Char.toLower :=
  decide_eq_true_iff

/-- A row has cells under their names, in any order and letter case, beside
columns of other names. -/
def Stores (row : Row) (cells : Cells) : Prop :=
  ∃ stored extra, row.columns.Perm (stored ++ extra) ∧
    List.Forall₂ (fun cell column => sameName column.1 cell.1 = true ∧ cell.2.StoredAs column.2)
      cells stored ∧
    ∀ column ∈ extra, ∀ cell ∈ cells, sameName column.1 cell.1 = false

theorem exists_get?_of_stores {row : Row} {cells : Cells}
    (apart : cells.Pairwise fun c d => sameName c.1 d.1 = false) (stores : row.Stores cells)
    {cell : String × Value} (h : cell ∈ cells) :
    ∃ w, row.get? cell.1 = some w ∧ cell.2.StoredAs w := by
  obtain ⟨stored, extra, perm, each, others⟩ := stores
  obtain ⟨column, hcolumn, named, _⟩ := exists_of_forall₂ each h
  have member : column ∈ row.columns := perm.mem_iff.2 (List.mem_append_left _ hcolumn)
  have some : (row.columns.find? fun c => sameName c.1 cell.1).isSome = true :=
    List.find?_isSome.2 ⟨column, member, named⟩
  obtain ⟨found, hfound⟩ := Option.isSome_iff_exists.1 some
  have named := List.find?_some hfound
  refine ⟨found.2, by rw [get?, hfound, Option.map_some], ?_⟩
  -- The first column of the name is that of a cell of the name, and only this cell has it.
  rcases List.mem_append.1 (perm.mem_iff.1 (List.mem_of_find?_eq_some hfound)) with hstored | hextra
  · obtain ⟨cell', hcell', named', storedAs⟩ := exists_of_forall₂ each.flip hstored
    have : Std.Symm fun c d : String × Value => sameName c.1 d.1 = false :=
      ⟨fun c d apart => by
        rw [Bool.eq_false_iff, ne_eq, sameName_iff] at apart ⊢; exact fun same => apart same.symm⟩
    by_cases same : cell = cell'
    · exact same ▸ storedAs
    · have differ := apart.forall h hcell' same
      rw [Bool.eq_false_iff, ne_eq, sameName_iff] at differ
      exact absurd ((sameName_iff.1 named).symm.trans (sameName_iff.1 named')) differ
  · rw [others found hextra cell h] at named
    cases named

end Row

namespace IndexType

/-- A row that is assembled has a member for each column. -/
theorem field?_assemble {index : IndexType}
    (apart : index.columns.Pairwise fun c d => Row.sameName c.name d.name = false) (row : Row)
    {column : Column} (h : column ∈ index.columns) :
    (index.assemble row).field? column.name =
    some (cellToJson column.kind ((row.get? column.name).getD .null)) := by
  refine Json.field?_ofFields ?_ (List.mem_map_of_mem h)
  rw [List.map_map]
  refine List.pairwise_map.2 (apart.imp fun {c d} differ (same : c.name = d.name) => ?_)
  rw [Row.sameName_iff.2 (congrArg (fun name => name.toList.map Char.toLower) same)] at differ
  cases differ

/-- The cells of an index row are those of the row that is assembled from what a
storage gives back of them. -/
theorem cells_assemble_stored {index : IndexType}
    (apart : index.columns.Pairwise fun c d => Row.sameName c.name d.name = false) {json : Json}
    (writable : ∀ name member, json.field? name = some member → member.Writable) {vs : Cells}
    (values : index.cells json = .ok vs) {row : Row} (stores : row.Stores vs) :
    index.cells (index.assemble row) = .ok vs := by
  have names : vs.Pairwise fun c d => Row.sameName c.1 d.1 = false := by
    rw [← List.pairwise_map (f := Prod.fst) (R := fun a b => Row.sameName a b = false),
      names_cells values]
    exact List.pairwise_map.2 apart
  rw [cells] at values
  split at values
  · rw [cells, assemble, Json.ofFields, Json.isObject, if_pos rfl, ← Json.ofFields, ← assemble]
    rw [mapM_eq_ok_iff, List.forall₂_iff_zip] at values ⊢
    refine ⟨values.1, fun {column cell} paired => ?_⟩
    obtain ⟨hcolumn, hcell⟩ := List.of_mem_zip paired
    obtain ⟨v, value, rfl⟩ := map_eq_ok_iff.1 (values.2 paired)
    obtain ⟨w, found, storedAs⟩ := Row.exists_get?_of_stores names stores hcell
    have finite : ∀ x, v = .float x → x.isFinite = true :=
      fun x same => isFinite_of_cell (writable column.name) (same ▸ value)
    rw [field?_assemble apart row hcolumn, found, Option.getD_some,
      cellOfJson_cellToJson (ofKind_cell value) finite storedAs]
    rfl
  · cases values

/-- Tags with a weight and it may be a note. -/
def tags : IndexType :=
  ⟨"ByTag", [⟨"tag", .text, false⟩, ⟨"weight", .real, false⟩, ⟨"hidden", .boolean, false⟩,
    ⟨"note", .text, true⟩], some⟩

/-- A row comes back in another order and in other letters, beside its id, with a flag that
has become an integer. -/
theorem cells_assemble_stored_tags :
    let json : Json := .obj [("hidden", .bool true), ("tag", .str "db"), ("weight", .int 2)]
    let vs : Cells := [("tag", .text "db"), ("weight", .float (Double.ofInt 2)),
      ("hidden", .bool true), ("note", .null)]
    let row : Row :=
      ⟨[("Id", .int 4), ("NOTE", .null), ("Hidden", .int 1), ("weight", .float (Double.ofInt 2)),
        ("TAG", .text "db")]⟩
    tags.columns.Pairwise (fun c d => Row.sameName c.name d.name = false) ∧
      (∀ name member, json.field? name = some member → member.Writable) ∧
        tags.cells json = .ok vs ∧ row.Stores vs ∧ tags.cells (tags.assemble row) = .ok vs := by
  intro json vs row
  have apart : tags.columns.Pairwise fun c d => Row.sameName c.name d.name = false := by decide
  have writable : ∀ name member, json.field? name = some member → member.Writable := by
    intro name member h
    simp only [json, Json.field?, Json.lookup_cons, List.lookup_nil] at h
    split_ifs at h <;> cases h
    · trivial
    · trivial
    · exact ⟨by decide, by decide⟩
  have values : tags.cells json = .ok vs := rfl
  have stores : row.Stores vs := by
    refine ⟨[("TAG", .text "db"), ("weight", .float (Double.ofInt 2)), ("Hidden", .int 1),
        ("NOTE", .null)], [("Id", .int 4)],
      ?_, ?_, by decide⟩
    · exact List.isPerm_iff.1 (by decide +kernel)
    · exact .cons ⟨by decide, .inl rfl⟩ (.cons ⟨by decide, .inl rfl⟩
        (.cons ⟨by decide, .inr ⟨true, rfl, rfl⟩⟩ (.cons ⟨by decide, .inl rfl⟩ .nil)))
  exact ⟨apart, writable, values, stores, cells_assemble_stored apart writable values stores⟩

end IndexType

end DocStore

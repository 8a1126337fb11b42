import DocStore.Proofs.Database
import Mathlib.Data.List.Basic

/-!
# Names of tables

A collection has a table of documents, one for the rows of each index, and one for
the links of each aggregate index. What these are called is put together from
the prefix of the store, the name of the collection and that of the index, with
underscores in between that may stand in the names as well. So tables of two
collections can have one name: just where the one collection is the other with
something more behind an underscore, and a table of the shorter starts with that.
-/

set_option autoImplicit false

namespace DocStore

/-- A table of a collection, whichever collection that is. -/
inductive LogicalTable where
  | documents
  | rows (index : String)
  | links (index : String)
deriving DecidableEq

/-- The name of a table in the default collection, without the prefix. -/
def LogicalTable.name : LogicalTable → String
  | .documents => "Document"
  | .rows index => index
  | .links index => TableNames.bridgeName index

/-- The name of a table in storage. -/
def TableNames.table (names : TableNames) (t : LogicalTable) : String := names.qualify t.name

namespace Table

def names : Table → TableNames
  | .documents names | .rows _ names _ | .links names _ => names

def logical : Table → LogicalTable
  | .documents _ => .documents
  | .rows _ _ index => .rows index
  | .links _ index => .links index

theorem name_eq (t : Table) : t.name = t.names.table t.logical := by
  cases t <;> rfl

end Table

/-! ## Names of collections in names of tables -/

/-- What the name of a table starts with in a collection. -/
def stem (collection : String) : String := if collection = "" then "" else collection ++ "_"

/-- The collection that has the name of another, and something behind it. -/
def within (collection part : String) : String :=
  if collection = "" then part else collection ++ "_" ++ part

/-- A collection is another one with something behind it, with which the name of a
table of that one starts. -/
def Nests (collection name collection' name' : String) : Prop :=
  ∃ part, collection' = within collection part ∧ collection' ≠ "" ∧ name = part ++ "_" ++ name'

theorem qualify_eq (names : TableNames) (name : String) :
    names.qualify name = names.tablePrefix ++ (stem names.collection ++ name) := by
  unfold TableNames.qualify stem
  split
  · rw [String.empty_append]
  · rw [String.append_assoc, String.append_assoc, String.append_assoc]

theorem append_ne_empty (s : String) : s ++ "_" ≠ "" := by
  intro same
  have lengths := congrArg String.length same
  simp at lengths

theorem eq_empty_or_append (s : String) : s = "" ∨ ∃ t c, s = t ++ String.singleton c := by
  rcases List.eq_nil_or_concat s.toList with nil | ⟨cs, c, split⟩
  · exact .inl (String.toList_inj.1 nil)
  · refine .inr ⟨String.ofList cs, c, String.toList_inj.1 ?_⟩
    simp [split]

/-- A stem that starts with another one is the same, or that of a collection within. -/
theorem cases_of_stem_eq_append {collection collection' rest : String}
    (h : stem collection' = stem collection ++ rest) : collection = collection' ∧ rest = "" ∨
      ∃ part, collection' = within collection part ∧ collection' ≠ "" ∧ rest = part ++ "_" := by
  unfold stem at h
  by_cases default' : collection' = ""
  · subst default'
    rw [if_pos rfl] at h
    obtain ⟨same, rfl⟩ := String.append_eq_empty_iff.1 h.symm
    refine .inl ⟨?_, rfl⟩
    split at same
    · assumption
    · exact absurd same (append_ne_empty collection)
  · rw [if_neg default'] at h
    by_cases default : collection = ""
    · subst default
      rw [if_pos rfl, String.empty_append] at h
      exact .inr ⟨collection', rfl, default', h.symm⟩
    · rw [if_neg default] at h
      rcases eq_empty_or_append rest with rfl | ⟨part, c, rfl⟩
      · rw [String.append_empty] at h
        exact .inl ⟨((String.append_left_inj _).1 h).symm, rfl⟩
      · have lists : collection'.toList ++ ['_'] = (collection ++ "_" ++ part).toList ++ [c] := by
          simpa [String.append_assoc] using congrArg String.toList h
        obtain ⟨same, last⟩ := List.append_inj' lists rfl
        obtain rfl : '_' = c := by simpa using last
        refine .inr ⟨part, ?_, default', rfl⟩
        rw [within, if_neg default, String.toList_inj.1 same]

theorem Nests.stem_eq {collection name collection' name' : String}
    (h : Nests collection name collection' name') :
    stem collection ++ name = stem collection' ++ name' := by
  obtain ⟨part, same, used, rfl⟩ := h
  unfold stem within at *
  rw [if_neg used, same]
  split <;> simp [String.append_assoc]

theorem exists_of_append_eq {s t s' t' : String} (h : s ++ t = s' ++ t') :
    (∃ rest, s' = s ++ rest ∧ t = rest ++ t') ∨ ∃ rest, s = s' ++ rest ∧ t' = rest ++ t := by
  have lists := congrArg String.toList h
  rw [String.toList_append, String.toList_append] at lists
  rcases List.append_eq_append_iff.1 lists with ⟨rest, first, last⟩ | ⟨rest, first, last⟩
  · exact .inl ⟨String.ofList rest, String.toList_inj.1 (by simpa using first),
      String.toList_inj.1 (by simpa using last)⟩
  · exact .inr ⟨String.ofList rest, String.toList_inj.1 (by simpa using first),
      String.toList_inj.1 (by simpa using last)⟩

theorem stem_append_eq_iff {collection name collection' name' : String} :
    stem collection ++ name = stem collection' ++ name' ↔
      collection = collection' ∧ name = name' ∨ Nests collection name collection' name' ∨
        Nests collection' name' collection name := by
  constructor
  · intro h
    rcases exists_of_append_eq h with ⟨rest, longer, rfl⟩ | ⟨rest, longer, rfl⟩
    · rcases cases_of_stem_eq_append longer with ⟨rfl, rfl⟩ | ⟨part, inside, used, rfl⟩
      · exact .inl ⟨rfl, String.empty_append⟩
      · exact .inr (.inl ⟨part, inside, used, rfl⟩)
    · rcases cases_of_stem_eq_append longer with ⟨rfl, rfl⟩ | ⟨part, inside, used, rfl⟩
      · exact .inl ⟨rfl, String.empty_append.symm⟩
      · exact .inr (.inr ⟨part, inside, used, rfl⟩)
  · rintro (⟨rfl, rfl⟩ | nests | nests)
    · rfl
    · exact nests.stem_eq
    · exact nests.stem_eq.symm

/-! ## Tables that share a name -/

/-- Tables of two collections that are called the same: one and the same by name, or one of a
collection within the other. -/
def LogicalTable.Coincides (t : LogicalTable) (collection : String) (t' : LogicalTable)
    (collection' : String) : Prop :=
  collection = collection' ∧ t.name = t'.name ∨ Nests collection t.name collection' t'.name ∨
  Nests collection' t'.name collection t.name

theorem TableNames.table_eq_iff (tablePrefix collection collection' : String)
    (t t' : LogicalTable) :
    table ⟨tablePrefix, collection⟩ t = table ⟨tablePrefix, collection'⟩ t' ↔
    t.Coincides collection t' collection' := by
  rw [table, table, qualify_eq, qualify_eq, String.append_right_inj]
  exact stem_append_eq_iff

/-- Names that are kept apart: without underscores, with no index called like the table of
documents, and no collection like an index. -/
structure PlainNames (collections indexes : String → Prop) : Prop where
  collection : ∀ c, collections c → '_' ∉ c.toList
  index : ∀ i, indexes i → '_' ∉ i.toList
  document : ¬indexes "Document"
  apart : ∀ i, indexes i → ¬collections i

/-- A table of documents or of one of the indexes. -/
def LogicalTable.Over (indexes : String → Prop) : LogicalTable → Prop
  | .documents => True
  | .rows index | .links index => indexes index

namespace PlainNames

variable {collections indexes : String → Prop} (plain : PlainNames collections indexes)
  {c c' : String} {t t' : LogicalTable}
include plain

theorem mem_name_iff (known : t.Over indexes) :
    '_' ∈ t.name.toList ↔ ∃ index, t = .links index := by
  cases t with
  | documents => exact ⟨fun h => absurd h (by decide), fun ⟨_, impossible⟩ => by cases impossible⟩
  | rows i =>
    exact ⟨fun h => absurd h (plain.index i known), fun ⟨_, impossible⟩ => by cases impossible⟩
  | links i =>
    exact ⟨fun _ => ⟨i, rfl⟩, fun _ => by simp [LogicalTable.name, TableNames.bridgeName]⟩

theorem eq_of_name (known : t.Over indexes) (known' : t'.Over indexes) (same : t.name = t'.name) :
    t = t' := by
  have links : (∃ index, t = .links index) ↔ ∃ index, t' = .links index := by
    rw [← plain.mem_name_iff known, ← plain.mem_name_iff known', same]
  cases t with
  | documents =>
    cases t' with
    | documents => rfl
    | rows i => exact absurd ((show i = "Document" from same.symm) ▸ known') plain.document
    | links i => simp at links
  | rows i =>
    cases t' with
    | documents => exact absurd ((show i = "Document" from same) ▸ known) plain.document
    | rows i' => exact congrArg LogicalTable.rows same
    | links i' => simp at links
  | links i =>
    cases t' with
    | documents | rows i' => simp at links
    | links i' => exact congrArg LogicalTable.links ((String.append_left_inj _).1 same)

theorem not_nests (collection' : collections c') (known : t.Over indexes) :
    ¬Nests c t.name c' t'.name := by
  rintro ⟨part, inside, used, name⟩
  unfold within at inside
  split at inside
  · subst inside
    obtain ⟨i, rfl⟩ := (plain.mem_name_iff known).1 (by simp [name])
    -- The index and the collection are what stands before the first underscore.
    have lists : i.toList ++ '_' :: "Document".toList = c'.toList ++ '_' :: t'.name.toList := by
      simpa [LogicalTable.name, TableNames.bridgeName] using congrArg String.toList name
    obtain ⟨same, _⟩ := (List.append_cons_inj_of_notMem (plain.index i known) (by decide)).1 lists
    exact plain.apart i known (String.toList_inj.1 same ▸ collection')
  · exact absurd (by simp [inside]) (plain.collection c' collection')

/-- Of plain names no two tables are called the same. -/
theorem eq_of_coincides (collection : collections c) (collection' : collections c')
    (known : t.Over indexes) (known' : t'.Over indexes) (same : t.Coincides c t' c') :
    c = c' ∧ t = t' := by
  rcases same with ⟨rfl, same⟩ | nests | nests
  · exact ⟨rfl, plain.eq_of_name known known' same⟩
  · exact absurd nests (plain.not_nests collection' known)
  · exact absurd nests (plain.not_nests collection known')

end PlainNames

end DocStore

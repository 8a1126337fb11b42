/-!
# Association lists

A finite map as a list of pairs in the order in which the keys were first
inserted. `insert` replaces the value of a key in place, so a list built by
`insert` holds each key once.
-/

set_option autoImplicit false

namespace DocStore

/-- A finite map from `κ` to `α` that remembers the order of insertion. -/
structure Assoc (κ α : Type) where
  entries : List (κ × α)

namespace Assoc

variable {κ α : Type} [DecidableEq κ]

def empty : Assoc κ α := ⟨[]⟩

instance : EmptyCollection (Assoc κ α) := ⟨empty⟩

instance : Inhabited (Assoc κ α) := ⟨empty⟩

def get? (m : Assoc κ α) (k : κ) : Option α := (m.entries.find? fun e => e.1 = k).map Prod.snd

def contains (m : Assoc κ α) (k : κ) : Bool := m.entries.any fun e => e.1 = k

/-- Replaces the value of `k` in place, or appends the pair. -/
def insertEntry (k : κ) (a : α) : List (κ × α) → List (κ × α)
  | [] => [(k, a)]
  | e :: rest => if e.1 = k then (k, a) :: rest else e :: insertEntry k a rest

def insert (m : Assoc κ α) (k : κ) (a : α) : Assoc κ α := ⟨insertEntry k a m.entries⟩

def erase (m : Assoc κ α) (k : κ) : Assoc κ α := ⟨m.entries.filter fun e => e.1 ≠ k⟩

@[simp] theorem get?_empty (k : κ) : (∅ : Assoc κ α).get? k = none := rfl

theorem find?_insertEntry (k k' : κ) (a : α) (l : List (κ × α)) :
    (insertEntry k a l).find? (fun e => e.1 = k') =
      if k = k' then some (k, a) else l.find? (fun e => e.1 = k') := by
  induction l with
  | nil => by_cases h : k = k' <;> simp [insertEntry, h]
  | cons e rest ih =>
    by_cases he : e.1 = k
    · by_cases h : k = k' <;> simp [insertEntry, he, h]
    · by_cases h : k = k'
      · subst h; simp [insertEntry, he, ih]
      · have hk : ¬k' = k := fun hk => h hk.symm
        by_cases h' : e.1 = k' <;> simp_all [insertEntry]

/-- A look-up sees the last value inserted. -/
@[simp] theorem get?_insert (m : Assoc κ α) (k k' : κ) (a : α) :
    (m.insert k a).get? k' = if k = k' then some a else m.get? k' := by
  simp only [get?, insert, find?_insertEntry]
  split <;> rfl

@[simp] theorem get?_erase (m : Assoc κ α) (k k' : κ) :
    (m.erase k).get? k' = if k = k' then none else m.get? k' := by
  simp only [get?, erase, List.find?_filter]
  split
  · next h => subst h; rw [List.find?_eq_none.2 (by simp)]; rfl
  · next h =>
    congr 2
    funext e
    by_cases he : e.1 = k'
    · have hk : ¬k' = k := fun hk => h hk.symm
      simp [he, hk]
    · simp [he]

theorem contains_eq_isSome_get? (m : Assoc κ α) (k : κ) : m.contains k = (m.get? k).isSome := by
  rw [contains, get?, Option.isSome_map, List.isSome_find?]

end Assoc

end DocStore

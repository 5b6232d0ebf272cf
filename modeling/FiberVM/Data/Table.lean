/-!
# Tables

A table is a finite map kept as a list of entries, the most recent insertion first. No two entries
have one key. Its operations are described by what they do to `Table.find?`.
-/

namespace FiberVM

/-- A finite map from keys to values. -/
structure Table (κ α : Type) where
  /-- The entries, the most recent insertion first. -/
  entries : List (κ × α)
  /-- Each key has at most one entry. -/
  distinct : (entries.map (·.1)).Nodup
  deriving Repr, DecidableEq

namespace Table

/-- The table without entries. -/
def empty {κ α : Type} : Table κ α := ⟨[], List.nodup_nil⟩

variable {κ α : Type} [DecidableEq κ]

instance : Inhabited (Table κ α) := ⟨empty⟩

/-- The value stored under a key. -/
def find? (t : Table κ α) (k : κ) : Option α := t.entries.lookup k

/-- Whether a key has a value. -/
def contains (t : Table κ α) (k : κ) : Bool := (t.find? k).isSome

/-- Forgets a key. -/
def erase (t : Table κ α) (k : κ) : Table κ α where
  entries := t.entries.filter (·.1 ≠ k)
  distinct := t.distinct.sublist (List.filter_sublist.map _)

/-- Stores a value under a key, in place of the value it had. -/
def insert (t : Table κ α) (k : κ) (x : α) : Table κ α where
  entries := (k, x) :: (t.erase k).entries
  distinct := by
    refine List.nodup_cons.2 ⟨fun h => ?_, (t.erase k).distinct⟩
    obtain ⟨e, he, hk⟩ := List.mem_map.1 h
    exact of_decide_eq_true (List.mem_filter.1 he).2 hk

/-- The number of entries. -/
def size (t : Table κ α) : Nat := t.entries.length

/-- The stored values, the most recent insertion first. -/
def values (t : Table κ α) : List α := t.entries.map (·.2)

/-- The table with the given entries; of two with one key the later one counts. -/
def ofList (entries : List (κ × α)) : Table κ α :=
  entries.foldl (fun t e => t.insert e.1 e.2) empty

@[simp] theorem find?_empty (k : κ) : (empty : Table κ α).find? k = none := rfl

/-- Taking a key out leaves what is found under the others. -/
private theorem lookup_filter_ne (l : List (κ × α)) (k k' : κ) :
    (l.filter (·.1 ≠ k)).lookup k' = if k' = k then none else l.lookup k' := by
  induction l with
  | nil => simp
  | cons e l ih =>
    obtain ⟨a, x⟩ := e
    simp only [ne_eq, decide_not] at ih ⊢
    by_cases ha : a = k
    · subst ha
      by_cases hk : k' = a
      · subst hk; simpa using ih
      · have hb : (k' == a) = false := by simpa using hk
        simpa [List.lookup_cons, hb, hk] using ih
    · by_cases hk : k' = a
      · subst hk; simp [ha]
      · have hb : (k' == a) = false := by simpa using hk
        simpa [ha, List.lookup_cons, hb] using ih

/-- Erasing forgets that key alone. -/
theorem find?_erase (t : Table κ α) (k k' : κ) :
    (t.erase k).find? k' = if k' = k then none else t.find? k' :=
  lookup_filter_ne t.entries k k'

/-- An insertion changes the value of that key alone. -/
theorem find?_insert (t : Table κ α) (k : κ) (x : α) (k' : κ) :
    (t.insert k x).find? k' = if k' = k then some x else t.find? k' := by
  by_cases e : k' = k
  · subst e; simp [find?, insert]
  · have hb : (k' == k) = false := by simpa using e
    have h := t.find?_erase k k'
    simp only [find?, e, if_false] at h
    simp [find?, insert, List.lookup_cons, hb, e, h]

end Table

end FiberVM

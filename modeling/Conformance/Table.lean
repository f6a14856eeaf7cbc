/-!
# Tables keyed by text

A small association list.  Inserting under a key replaces what was there.
-/

namespace Conformance

/-- Values under text keys. -/
abbrev Table (α : Type) := List (String × α)

namespace Table

variable {α : Type}

/-- The value under a key. -/
def find? (t : Table α) (key : String) : Option α := (List.find? (·.1 == key) t).map (·.2)

def erase (t : Table α) (key : String) : Table α := t.filter (·.1 != key)

def insert (t : Table α) (key : String) (value : α) : Table α := (key, value) :: erase t key

@[simp]
theorem find?_insert_self (t : Table α) (key : String) (value : α) :
    (t.insert key value).find? key = some value := by
  simp [insert, find?]

@[simp]
theorem find?_erase_self (t : Table α) (key : String) : (t.erase key).find? key = none := by
  simp [erase, find?]

theorem find?_erase_of_ne (t : Table α) {key other : String} (h : other ≠ key) :
    (t.erase key).find? other = t.find? other := by
  have same (e : String × α) :
      decide ((e.1 != key) = true ∧ (e.1 == other) = true) = (e.1 == other) := by
    by_cases he : e.1 = other
    · simp [he, h]
    · simp [he]
  simp only [erase, find?, List.find?_filter, same]

theorem find?_insert_of_ne (t : Table α) {key other : String} (value : α) (h : other ≠ key) :
    (t.insert key value).find? other = t.find? other := by
  have hne : (key == other) = false := by simpa using Ne.symm h
  rw [← find?_erase_of_ne t h]
  simp [insert, find?, hne]

end Table

end Conformance

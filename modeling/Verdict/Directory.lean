/-
  Directories — things under their names.

  1. **Data** — entries in ascending order of their names, each name once.  The order makes a
     directory a SET of entries: how it came about leaves no trace in it.

  2. **View** — `get?`.  `get?_insert` is all that the rest of the library needs of `insert`.

  Core only.
-/

namespace Verdict

/-- Entries under their names. -/
structure Directory (α : Type) where
  entries : List (String × α)

namespace Directory

variable {α : Type}

/-- The directory without entries. -/
def empty : Directory α := ⟨[]⟩

/-- The entry under a name. -/
def get? (d : Directory α) (name : String) : Option α :=
  (d.entries.find? (·.1 == name)).map (·.2)

/-- Puts an entry in its place, over an entry of the same name. -/
def insertIn (name : String) (x : α) : List (String × α) → List (String × α)
  | [] => [(name, x)]
  | (n, y) :: rest =>
      if name < n then (name, x) :: (n, y) :: rest
      else if name = n then (name, x) :: rest
      else (n, y) :: insertIn name x rest

/-- The directory with one entry more, or with one replaced. -/
def insert (d : Directory α) (name : String) (x : α) : Directory α :=
  ⟨insertIn name x d.entries⟩

theorem find?_insertIn (name : String) (x : α) (es : List (String × α)) (key : String) :
    ((insertIn name x es).find? (·.1 == key)).map (·.2)
      = if name = key then some x else (es.find? (·.1 == key)).map (·.2) := by
  induction es with
  | nil => by_cases h : name = key <;> simp [insertIn, h]
  | cons e es ih =>
      obtain ⟨n, y⟩ := e
      unfold insertIn
      split
      · by_cases h : name = key <;> simp [h]
      · split
        · rename_i h
          subst h
          by_cases h : name = key <;> simp [h]
        · rename_i h
          by_cases hn : n = key
          · subst hn
            simp [h]
          · simpa [List.find?_cons, hn] using ih

/-- An inserted entry is found under its name, and nothing else changes. -/
theorem get?_insert (d : Directory α) (name : String) (x : α) (key : String) :
    (d.insert name x).get? key = if name = key then some x else d.get? key :=
  find?_insertIn name x d.entries key

end Directory

end Verdict

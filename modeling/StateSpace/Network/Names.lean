/-!
# Name tables

Names are numbered densely in the order of their declaration, and no name is declared twice. A table
keeps both directions; each is the inverse of the other.
-/

namespace StateSpace

theorem NameTable.inverse_empty (name : String) (id : Nat) :
    ([] : List (String × Nat)).lookup name = some id ↔ (#[] : Array String)[id]? = some name := by
  simp

/-- Names by number and numbers by name. -/
structure NameTable where
  names : Array String := #[]
  ids : List (String × Nat) := []
  /-- A name has a number exactly if it stands there. -/
  inverse : ∀ name id, ids.lookup name = some id ↔ names[id]? = some name := by
    exact NameTable.inverse_empty
deriving Repr

namespace NameTable

/-- The number of names. -/
def size (t : NameTable) : Nat := t.names.size

/-- The number of a name. -/
def find? (t : NameTable) (name : String) : Option Nat := t.ids.lookup name

/-- The name with a number. -/
def get? (t : NameTable) (id : Nat) : Option String := t.names[id]?

/-- A name without a number gets the next one. -/
theorem inverse_push {names : Array String} {ids : List (String × Nat)} {new : String}
    (inverse : ∀ name id, ids.lookup name = some id ↔ names[id]? = some name)
    (fresh : ids.lookup new = none) (name : String) (id : Nat) :
    ((new, names.size) :: ids).lookup name = some id ↔ (names.push new)[id]? = some name := by
  rw [List.lookup_cons, Array.getElem?_push]
  by_cases hid : id = names.size
  · subst hid
    have hnone : ids.lookup name ≠ some names.size := by simp [inverse]
    by_cases hname : name = new
    · simp [hname]
    · simp [beq_eq_false_iff_ne.2 hname, hnone, Ne.symm hname]
  · by_cases hname : name = new
    · subst hname
      have hold : names[id]? ≠ some name := by simp [← inverse, fresh]
      simp [hid, Ne.symm hid, hold]
    · simp [beq_eq_false_iff_ne.2 hname, hid, inverse]

/-- The number of a new name and the table with it; none if the name is there already. -/
def add? (t : NameTable) (name : String) : Option (Nat × NameTable) :=
  match fresh : t.find? name with
  | some _ => none
  | none => some (t.size,
      { names := t.names.push name
        ids := (name, t.size) :: t.ids
        inverse := inverse_push t.inverse fresh })

end NameTable

end StateSpace

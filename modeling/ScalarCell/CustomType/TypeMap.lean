import ScalarCell.CustomType.Catalog

/-!
# The type map

A `TypeMap` registers handles under type names of the server, exactly as the names are written.
Entries stand in the order in which their names were first registered; registering a name again
replaces the handle in its place. `register` is a registration with its answer, and `insert` what it
does to the map (`register_eq`). `get?_insert_self` and `get?_insert_of_ne` say what it does to
look-ups.
-/

namespace ScalarCell

structure TypeMap (τ σ : Type) [Catalog τ] where
  toList : List (String × Handle τ σ)

namespace TypeMap

variable {τ σ : Type} [Catalog τ]

def empty : TypeMap τ σ := ⟨[]⟩

def get? (m : TypeMap τ σ) (name : String) : Option (Handle τ σ) := m.toList.lookup name

def contains (m : TypeMap τ σ) (name : String) : Bool := m.toList.any fun entry => entry.1 == name

def size (m : TypeMap τ σ) : Nat := m.toList.length

def isEmpty (m : TypeMap τ σ) : Bool := m.toList.isEmpty

/-- The entries with the one of this name replaced, or with a new one behind them. -/
def put (name : String) (h : Handle τ σ) : List (String × Handle τ σ) → List (String × Handle τ σ)
  | [] => [(name, h)]
  | entry :: rest => if entry.1 = name then (name, h) :: rest else entry :: put name h rest

def insert (m : TypeMap τ σ) (name : String) (h : Handle τ σ) : TypeMap τ σ :=
  ⟨put name h m.toList⟩

/-- Answers with the handle that was replaced. -/
def register (m : TypeMap τ σ) (name : String) (h : Handle τ σ) :
    Option (Handle τ σ) × TypeMap τ σ :=
  match m.toList.findIdx? fun entry => entry.1 == name with
  | some i => (m.toList[i]?.map Prod.snd, ⟨m.toList.set i (name, h)⟩)
  | none => (none, ⟨m.toList ++ [(name, h)]⟩)

/-! ## Laws of registration -/

theorem lookup_put_self (name : String) (h : Handle τ σ) (entries : List (String × Handle τ σ)) :
    (put name h entries).lookup name = some h := by
  induction entries with
  | nil => exact List.lookup_cons_self
  | cons entry rest ih =>
    unfold put
    split
    · exact List.lookup_cons_self
    · next ne =>
      rw [List.lookup_cons, beq_eq_false_iff_ne.mpr (Ne.symm ne)]
      exact ih

theorem lookup_put_of_ne {name other : String} (ne : other ≠ name) (h : Handle τ σ)
    (entries : List (String × Handle τ σ)) :
    (put name h entries).lookup other = entries.lookup other := by
  induction entries with
  | nil =>
    rw [put, List.lookup_cons, beq_eq_false_iff_ne.mpr ne]
  | cons entry rest ih =>
    unfold put
    split
    · next e => rw [List.lookup_cons, List.lookup_cons, e, beq_eq_false_iff_ne.mpr ne]
    · rw [List.lookup_cons, List.lookup_cons, ih]

@[simp]
theorem get?_insert_self (m : TypeMap τ σ) (name : String) (h : Handle τ σ) :
    (m.insert name h).get? name = some h :=
  lookup_put_self name h m.toList

theorem get?_insert_of_ne (m : TypeMap τ σ) {name other : String} (ne : other ≠ name)
    (h : Handle τ σ) : (m.insert name h).get? other = m.get? other :=
  lookup_put_of_ne ne h m.toList

/-! ## The place of an entry -/

theorem put_of_findIdx? {name : String} {entries : List (String × Handle τ σ)} {i : Nat}
    (hPlace : (entries.findIdx? fun entry => entry.1 == name) = some i) (h : Handle τ σ) :
    put name h entries = entries.set i (name, h) ∧
      entries.lookup name = entries[i]?.map Prod.snd := by
  induction entries generalizing i with
  | nil => cases hPlace
  | cons entry rest ih =>
    rw [List.findIdx?_cons] at hPlace
    rw [List.lookup_cons]
    unfold put
    split at hPlace
    · next e =>
      cases hPlace
      rw [if_pos (beq_iff_eq.mp e), BEq.comm, e]
      exact ⟨rfl, rfl⟩
    · next ne =>
      obtain ⟨j, hRest, rfl⟩ := Option.map_eq_some_iff.mp hPlace
      obtain ⟨hPut, hLookup⟩ := ih hRest
      rw [if_neg (mt beq_iff_eq.mpr ne), BEq.comm, eq_false_of_ne_true ne, hPut, hLookup]
      exact ⟨rfl, rfl⟩

theorem put_of_findIdx?_eq_none {name : String} {entries : List (String × Handle τ σ)}
    (hPlace : (entries.findIdx? fun entry => entry.1 == name) = none) (h : Handle τ σ) :
    put name h entries = entries ++ [(name, h)] ∧ entries.lookup name = none := by
  induction entries with
  | nil => exact ⟨rfl, rfl⟩
  | cons entry rest ih =>
    rw [List.findIdx?_cons] at hPlace
    rw [List.lookup_cons]
    unfold put
    split at hPlace
    · cases hPlace
    · next ne =>
      obtain ⟨hPut, hLookup⟩ := ih (Option.map_eq_none_iff.mp hPlace)
      rw [if_neg (mt beq_iff_eq.mpr ne), BEq.comm, eq_false_of_ne_true ne, hPut, hLookup]
      exact ⟨rfl, rfl⟩

theorem register_eq (m : TypeMap τ σ) (name : String) (h : Handle τ σ) :
    m.register name h = (m.get? name, m.insert name h) := by
  unfold register get? insert
  split
  · next i hPlace =>
    obtain ⟨hPut, hLookup⟩ := put_of_findIdx? hPlace h
    rw [hPut, hLookup]
  · next hPlace =>
    obtain ⟨hPut, hLookup⟩ := put_of_findIdx?_eq_none hPlace h
    rw [hPut, hLookup]

end TypeMap

end ScalarCell

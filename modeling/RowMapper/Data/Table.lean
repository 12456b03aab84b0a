/-
Tables from keys to values in insertion order, as lists of pairs: a key that is put again keeps
its place and takes the new value.
-/
namespace RowMapper.Table

variable {κ α β : Type} [BEq κ]

/-- Sets the value of `key` in place, or adds the pair at the end. -/
def put (key : κ) (value : α) : List (κ × α) → List (κ × α)
  | [] => [(key, value)]
  | (k, v) :: rest => if k == key then (k, value) :: rest else (k, v) :: put key value rest

/-- The value of `key`. -/
def get? (key : κ) : List (κ × α) → Option α
  | [] => none
  | (k, v) :: rest => if k == key then some v else get? key rest

/-- The position of `key`. -/
def indexOf? (key : κ) (table : List (κ × α)) : Option Nat :=
  table.findIdx? fun entry => entry.1 == key

def contains (key : κ) (table : List (κ × α)) : Bool := (get? key table).isSome

/-- The table of a list of pairs, put one after the other. -/
def ofList (pairs : List (κ × α)) : List (κ × α) :=
  pairs.foldl (fun table pair => put pair.1 pair.2 table) []

theorem get?_put_self [LawfulBEq κ] (key : κ) (value : α) (table : List (κ × α)) :
    get? key (put key value table) = some value := by
  induction table with
  | nil => simp [put, get?]
  | cons entry rest ih =>
    obtain ⟨k, v⟩ := entry
    by_cases h : k = key <;> simp [put, get?, h, ih]

theorem get?_put_of_ne [LawfulBEq κ] {key other : κ} (h : other ≠ key) (value : α)
    (table : List (κ × α)) : get? other (put key value table) = get? other table := by
  induction table with
  | nil => simp [put, get?, Ne.symm h]
  | cons entry rest ih =>
    obtain ⟨k, v⟩ := entry
    by_cases hk : k = key
    · subst hk
      simp [put, get?, Ne.symm h]
    · have hb : (k == key) = false := by simpa using hk
      simp [put, get?, hb, ih]

end RowMapper.Table

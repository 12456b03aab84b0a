/-
Output parameters by position, behind any writes (`OutParams.read_setAll`). A write beyond the end fills
the gap with nulls, so that a position before the end reads as what was written there last, else as what
stood there at the start, else as null. Reading does not fill gaps: a position beyond the end is refused.
-/
import Mathlib.Data.List.Induction
import RowMapper.Rows.OutParams

namespace RowMapper

/-! ## Lists that grow -/

section

variable {α : Type} (filler item : α) (items : List α) (index other : Nat)

theorem length_setAt : (setAt filler index item items).length = max items.length (index + 1) := by
  rw [setAt, List.length_set, List.length_append, List.length_replicate]
  omega

/-- With the filler for whatever is not there, a write changes its own position and no other. -/
theorem getD_setAt : (setAt filler index item items)[other]?.getD filler =
    if other = index then item else items[other]?.getD filler := by
  have hinside : index < (items ++ List.replicate (index + 1 - items.length) filler).length := by
    rw [List.length_append, List.length_replicate]
    omega
  rw [setAt]
  split
  next hsame => rw [hsame, List.getElem?_set_self hinside, Option.getD_some]
  next hother =>
    rw [List.getElem?_set_ne (Ne.symm hother)]
    rcases Nat.lt_or_ge other items.length with hlt | hge
    · rw [List.getElem?_append_left hlt]
    · -- what is not there reads as the filler, and so does the gap if it reaches that far
      rw [List.getElem?_append_right hge, List.getElem?_eq_none hge, List.getElem?_replicate]
      split <;> rfl

end

namespace OutParams

variable (out : OutParams) (writes : List (Nat × Value)) {index : Nat}

/-- What a position holds; null beyond the end. -/
def held (out : OutParams) (index : Nat) : Value := out.values[index]?.getD .null

/-- The outputs with values written to positions, one after the other. -/
def setAll (out : OutParams) (writes : List (Nat × Value)) : OutParams :=
  writes.foldl (fun out write => out.set write.1 write.2) out

/-! ## Writing -/

theorem length_set (index : Nat) (v : Value) : (out.set index v).length = max out.length (index + 1) :=
  length_setAt ..

theorem held_set (index other : Nat) (v : Value) :
    (out.set index v).held other = if other = index then v else out.held other :=
  getD_setAt ..

theorem setAll_concat (write : Nat × Value) :
    out.setAll (writes ++ [write]) = (out.setAll writes).set write.1 write.2 := by
  rw [setAll, List.foldl_append]
  rfl

/-- The end lies behind all positions that were written to. -/
theorem lt_length_setAll_iff :
    index < (out.setAll writes).length ↔ index < out.length ∨ ∃ write ∈ writes, index ≤ write.1 := by
  induction writes using List.reverseRecOn with
  | nil => simp [setAll]
  | append_singleton writes write ih =>
    have hend : index < max (out.setAll writes).length (write.1 + 1) ↔
        index < (out.setAll writes).length ∨ index ≤ write.1 := by omega
    rw [setAll_concat, length_set, hend, ih, or_assoc]
    simp only [List.mem_append, List.mem_singleton, or_and_right, exists_or, exists_eq_left]

/-- A position holds what was written there last. -/
theorem held_setAll :
    (out.setAll writes).held index = (writes.reverse.lookup index).getD (out.held index) := by
  induction writes using List.reverseRecOn with
  | nil => rfl
  | append_singleton writes write ih =>
    -- the last write is the first that is looked up
    rw [setAll_concat, held_set, ih, List.reverse_concat, List.lookup_cons]
    by_cases hsame : index = write.1
    · rw [if_pos hsame, beq_iff_eq.2 hsame]
      rfl
    · rw [if_neg hsame, beq_eq_false_iff_ne.2 hsame]

/-! ## Reading -/

theorem value_of_lt (h : index < out.length) : out.value index = .ok (out.held index) := by
  rw [value, held, List.getElem?_eq_getElem h]
  rfl

theorem value_of_length_le (h : out.length ≤ index) :
    out.value index = .error (.database (.noOutput index)) := by
  rw [value, List.getElem?_eq_none h]

/-- Reading behind any writes. Up to the last position that was there at the start or was written to, it
gives what was written last, else what was there at the start, else null, and notes whether that is null.
Beyond that nothing was ever stored; reading is refused there, and notes nothing. -/
theorem read_setAll (index : Nat) :
    let after := out.setAll writes
    let stored := (writes.reverse.lookup index).getD (out.values[index]?.getD .null)
    ((index < out.length ∨ ∃ write ∈ writes, index ≤ write.1) →
        after.read index = (.ok stored, { after with wasNull := stored.isNull })) ∧
      ((out.length ≤ index ∧ ∀ write ∈ writes, write.1 < index) → stored = .null ∧
        after.read index = (.error (.database (.noOutput index)), after)) := by
  intro after stored
  have hstored : after.held index = stored := held_setAll out writes
  constructor
  · intro hreached
    have hlt : index < after.length := (lt_length_setAll_iff out writes).2 hreached
    rw [read, value_of_lt after hlt, hstored]
  · rintro ⟨hlength, hwrites⟩
    have hbeyond : after.length ≤ index := by
      refine Nat.le_of_not_lt fun hlt => ?_
      rcases (lt_length_setAll_iff out writes).1 hlt with hlt | ⟨write, hmem, hle⟩
      · exact Nat.not_lt.2 hlength hlt
      · exact Nat.not_lt.2 hle (hwrites write hmem)
    rw [read, value_of_length_le after hbeyond, ← hstored, held, List.getElem?_eq_none hbeyond]
    exact ⟨rfl, rfl⟩

end OutParams

end RowMapper

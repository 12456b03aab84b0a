/-
What a group key tells of the values it is made of. Every text is followed by a dash and may hold dashes
itself, so that two rows with one key need not have the same texts; but then dashes have gone from one
text to another (`ResultMap.sameButForDashes_of_uniqueKey`).
-/
import Mathlib.Data.List.Count
import RowMapper.Mapping.ResultMap

namespace RowMapper

/-! ## Texts with dashes -/

namespace Text

/-- The number of dashes in a text. -/
def dashes (text : String) : Nat := text.toList.count '-'

/-- Texts one after the other, each with a dash behind it. -/
def dashed (texts : List String) : String := String.join (texts.map (· ++ "-"))

@[simp] theorem toList_dashed_cons (text : String) (texts : List String) :
    (dashed (text :: texts)).toList = text.toList ++ '-' :: (dashed texts).toList := by
  simp [dashed]

theorem dashes_dashed_cons (text : String) (texts : List String) :
    dashes (dashed (text :: texts)) = dashes text + 1 + dashes (dashed texts) := by
  unfold dashes
  rw [toList_dashed_cons, List.count_append, List.count_cons_self]
  omega

theorem dashes_dashed_congr {texts : List (String × String)} (h : ∀ p ∈ texts, dashes p.1 = dashes p.2) :
    dashes (dashed (texts.map (·.1))) = dashes (dashed (texts.map (·.2))) := by
  induction texts with
  | nil => rfl
  | cons p texts ih =>
    rw [List.forall_mem_cons] at h
    rw [List.map_cons, List.map_cons, dashes_dashed_cons, dashes_dashed_cons, h.1, ih h.2]

/-- As many dashes in front tell where the next one is. -/
theorem append_dash_inj : ∀ {a b : List Char} {x y : List Char}, a.count '-' = b.count '-' →
    a ++ '-' :: x = b ++ '-' :: y → a = b ∧ x = y
  | [], [], _, _, _, h => ⟨rfl, (List.cons.inj h).2⟩
  | [], d :: b, _, _, hcount, h => by
    obtain ⟨rfl, -⟩ := List.cons.inj h
    simp at hcount
  | c :: a, [], _, _, hcount, h => by
    obtain ⟨rfl, -⟩ := List.cons.inj h
    simp at hcount
  | c :: a, d :: b, x, y, hcount, h => by
    obtain ⟨rfl, htail⟩ := List.cons.inj h
    have hrest : a.count '-' = b.count '-' := by
      simpa [List.count_cons] using hcount
    obtain ⟨rfl, rfl⟩ := append_dash_inj hrest htail
    exact ⟨rfl, rfl⟩

/-- Pairs of texts that are the same, or of which two at least differ in the number of their dashes. -/
def SameButForDashes (texts : List (String × String)) : Prop :=
  (∀ p ∈ texts, p.1 = p.2) ∨ 2 ≤ texts.countP fun p => dashes p.1 != dashes p.2

/-- Dashes that are missing from one text are in another. -/
theorem dashes_eq_of_dashed {texts : List (String × String)}
    (hall : dashes (dashed (texts.map (·.1))) = dashes (dashed (texts.map (·.2))))
    (hone : (texts.countP fun p => dashes p.1 != dashes p.2) ≤ 1) :
    ∀ p ∈ texts, dashes p.1 = dashes p.2 := by
  induction texts with
  | nil => exact List.forall_mem_nil _
  | cons p texts ih =>
    rw [List.map_cons, List.map_cons, dashes_dashed_cons, dashes_dashed_cons] at hall
    rw [List.countP_cons] at hone
    have hp : dashes p.1 = dashes p.2 := by
      -- otherwise it is the one pair that differs, and the others cannot make up for it
      by_contra hne
      rw [if_pos (by simpa using hne)] at hone
      have hnone : (texts.countP fun p => dashes p.1 != dashes p.2) = 0 := by omega
      have hsame : ∀ q ∈ texts, dashes q.1 = dashes q.2 := by
        simpa using List.countP_eq_zero.1 hnone
      have hrest := dashes_dashed_congr hsame
      omega
    exact List.forall_mem_cons.2 ⟨hp, ih (by omega) (by omega)⟩

theorem eq_of_dashed_eq {texts : List (String × String)}
    (h : dashed (texts.map (·.1)) = dashed (texts.map (·.2)))
    (hdashes : ∀ p ∈ texts, dashes p.1 = dashes p.2) : ∀ p ∈ texts, p.1 = p.2 := by
  induction texts with
  | nil => exact List.forall_mem_nil _
  | cons p texts ih =>
    rw [List.forall_mem_cons] at hdashes
    have hchars := congrArg String.toList h
    rw [List.map_cons, List.map_cons, toList_dashed_cons, toList_dashed_cons] at hchars
    obtain ⟨hp, hrest⟩ := append_dash_inj hdashes.1 hchars
    exact List.forall_mem_cons.2 ⟨String.toList_inj.1 hp, ih (String.toList_inj.1 hrest) hdashes.2⟩

/-- Texts with dashes behind them that make one text are the same but for dashes. -/
theorem sameButForDashes_of_dashed_eq {texts : List (String × String)}
    (h : dashed (texts.map (·.1)) = dashed (texts.map (·.2))) : SameButForDashes texts :=
  or_iff_not_imp_right.2 fun hone =>
    eq_of_dashed_eq h (dashes_eq_of_dashed (congrArg dashes h) (by omega))

end Text

/-! ## Keys -/

namespace ResultMap

variable (m : ResultMap) (mappings : List ResultMapping)

/-- The texts of the group-by values of two rows, mapping by mapping. -/
def groupTexts (s : Store) (values : List Value) (t : Store) (values' : List Value) :
    List (String × String) :=
  ((mappings.zip (values.zip values')).filter fun e => m.groupBy.contains e.1.property).map fun e =>
    (s.text e.2.1, t.text e.2.2)

variable {m} {s t : Store}

/-- The parts of two keys are the texts of the group-by values, each with a dash behind it. -/
theorem keyParts_eq : ∀ (mappings : List ResultMapping) {values values' : List Value},
    values.length = values'.length →
    (mappings.zip values).filterMap (m.keyPart s) =
        ((m.groupTexts mappings s values t values').map (·.1)).map (· ++ "-") ∧
      (mappings.zip values').filterMap (m.keyPart t) =
        ((m.groupTexts mappings s values t values').map (·.2)).map (· ++ "-")
  | [], _, _, _ => ⟨rfl, rfl⟩
  | _ :: _, [], [], _ => ⟨rfl, rfl⟩
  | mapping :: mappings, v :: values, v' :: values', hlen => by
    have hlen : values.length = values'.length := Nat.succ.inj hlen
    obtain ⟨h, h'⟩ := keyParts_eq mappings hlen
    unfold groupTexts at h h' ⊢
    simp only [List.zip_cons_cons, List.filterMap_cons, List.filter_cons, h, h', keyPart]
    cases m.groupBy.contains mapping.property <;> exact ⟨rfl, rfl⟩

/-- Rows with one key have the same texts at their group-by values, but for dashes. -/
theorem sameButForDashes_of_uniqueKey {mappings : List ResultMapping} {values values' : List Value}
    (hlen : values.length = values'.length)
    (hkey : m.uniqueKey s mappings values = m.uniqueKey t mappings values') :
    Text.SameButForDashes (m.groupTexts mappings s values t values') := by
  obtain ⟨h, h'⟩ := keyParts_eq (m := m) (s := s) (t := t) mappings hlen
  unfold uniqueKey at hkey
  split at hkey
  · rename_i hnone
    have hempty : m.groupTexts mappings s values t values' = [] := by
      simp [groupTexts, List.isEmpty_iff.1 hnone]
    exact .inl (hempty ▸ List.forall_mem_nil _)
  · rw [h, h'] at hkey
    cases htexts : m.groupTexts mappings s values t values' with
    | nil => exact .inl (List.forall_mem_nil _)
    | cons p texts =>
      rw [htexts] at hkey
      exact Text.sameButForDashes_of_dashed_eq (Option.some.inj hkey)

end ResultMap

end RowMapper

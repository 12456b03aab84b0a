/-
The text of a null sentinel and the same text in a column or in an output parameter mean the same. For
timestamps a column takes two more patterns than a sentinel, and tries them first: they differ from the
one pattern of sentinels in what separates the year from the month, so no text reads by both.
-/
import RowMapper.Proofs.Coercer.Reading

namespace RowMapper

/-! ## Patterns and their separators -/

namespace Calendar

variable {c d : Char} {items others : List Item} {f g : Fields} {cs : List Char}
  {r q : Fields × List Char} {pattern : List Item} {text : String} {t : Timestamp}

/-- What stands behind the year of a text that reads by a pattern is the separator of the pattern. -/
theorem readYear_of_readItems (h : readItems (.year :: .literal c :: items) f cs = .ok r) :
    ∃ year rest, readYear cs = .ok (year, c :: rest) := by
  simp only [readItems, readItem, Except.bind_eq_ok_iff, Prod.exists] at h
  obtain ⟨_, behind, ⟨year, rest, hyear, hrest⟩, _, _, ⟨_, _, hliteral, -⟩, -⟩ := h
  cases hrest
  unfold readLiteral at hliteral
  split at hliteral
  · cases hliteral
  · split at hliteral
    · next hc =>
      subst hc
      exact ⟨year, _, hyear⟩
    · cases hliteral

/-- Patterns that both read one text separate the year in the same way, whatever follows. -/
theorem separator_unique (h : readItems (.year :: .literal c :: items) f cs = .ok r)
    (h' : readItems (.year :: .literal d :: others) g cs = .ok q) : c = d := by
  obtain ⟨year, rest, hc⟩ := readYear_of_readItems h
  obtain ⟨_, _, hd⟩ := readYear_of_readItems h'
  rw [hc] at hd
  cases hd
  rfl

theorem Timestamp.readItems_of_read (h : Timestamp.read pattern text = .ok t) :
    ∃ r, readItems pattern {} text.toList = .ok r := by
  obtain ⟨r, hr, -⟩ := Except.bind_eq_ok_iff.1 h
  exact ⟨r, hr⟩

theorem Timestamp.not_read_of_separator (hcd : c ≠ d)
    (h : Timestamp.read (.year :: .literal c :: items) text = .ok t) :
    (Timestamp.read (.year :: .literal d :: others) text).toOption = none := by
  cases hread : Timestamp.read (.year :: .literal d :: others) text with
  | error fault => rfl
  | ok u =>
    obtain ⟨r, hr⟩ := readItems_of_read h
    obtain ⟨q, hq⟩ := readItems_of_read hread
    exact absurd (separator_unique hr hq) hcd

/-- A text with slashes in its date reads as a stored timestamp by the pattern with slashes, though that
is tried last. -/
theorem Timestamp.readStored_of_slash (h : Timestamp.read slashPattern text = .ok t) :
    Timestamp.readStored text = some t := by
  have hdash : (Timestamp.read dashPattern text).toOption = none :=
    not_read_of_separator (by decide) h
  have hletter : (Timestamp.read letterPattern text).toOption = none :=
    not_read_of_separator (by decide) h
  have hslash : (Timestamp.read slashPattern text).toOption = some t := by
    rw [h]
    rfl
  simp only [readStored, storedPatterns, List.findSome?_cons, hdash, hletter, hslash]

end Calendar

/-! ## Texts as sentinels and as stored values -/

namespace Coercer

variable {c : Coercer} {text : String} {v : Value} {rs : RowSet} {column : Column} {out : OutParams}
  {index : Nat}

/-- The text of a sentinel reads as the same value where it is stored. -/
theorem readDefault_of_valueOf (h : c.valueOf text = .ok v) : c.readDefault (.string text) = .ok v := by
  unfold valueOf at h
  cases c with
  | bool | string | bytes | object => exact h
  | i32 | i64 | f64 =>
    obtain ⟨a, ha, rfl⟩ := Except.map_eq_ok_iff.1 (Except.mapError_eq_ok_iff.1 h)
    exact Except.map_eq_ok_iff.2 ⟨a, Except.mapError_eq_ok_iff.2 ha, rfl⟩
  | timestamp =>
    obtain ⟨t, ht, rfl⟩ := Except.map_eq_ok_iff.1 (Except.mapError_eq_ok_iff.1 h)
    simp [readDefault, Value.readTimestamp, Calendar.Timestamp.readStored_of_slash ht, Except.map]

/-- A stored text reads as the same value as a sentinel; only timestamps are stored in more patterns. -/
theorem valueOf_of_readDefault (hc : c ≠ .timestamp) (h : c.readDefault (.string text) = .ok v) :
    c.valueOf text = .ok v := by
  unfold readDefault at h
  cases c with
  | bool | string | bytes | object => exact h
  | i32 | i64 | f64 =>
    obtain ⟨a, ha, rfl⟩ := Except.map_eq_ok_iff.1 h
    exact Except.mapError_eq_ok_iff.2 (Except.map_eq_ok_iff.2 ⟨a, Except.mapError_eq_ok_iff.1 ha, rfl⟩)
  | timestamp => exact absurd rfl hc

/-- Reading a column that holds a text is reading the text, which is never null. -/
theorem readColumn_text (h : rs.value column = .ok (.string text)) :
    (c.readColumn rs column).1 = c.readDefault (.string text) := by
  simp [readColumn, RowSet.read, h, ofStored, Value.isNull, Except.bind]

theorem readOutput_text (h : out.value index = .ok (.string text)) :
    (c.readOutput out index).1 = c.readDefault (.string text) := by
  simp [readOutput, OutParams.read, h, ofStored, Value.isNull, Except.bind]

/-- What a text means as a null sentinel it means in a column and in an output parameter. All but
timestamps also mean as a sentinel what they mean there. -/
theorem valueOf_iff_read (hcolumn : rs.value column = .ok (.string text))
    (hout : out.value index = .ok (.string text)) :
    (c.valueOf text = .ok v →
      (c.readColumn rs column).1 = .ok v ∧ (c.readOutput out index).1 = .ok v) ∧
    (c ≠ .timestamp →
      (c.readColumn rs column).1 = .ok v ∨ (c.readOutput out index).1 = .ok v →
        c.valueOf text = .ok v) := by
  rw [readColumn_text hcolumn, readOutput_text hout]
  refine ⟨fun h => ⟨readDefault_of_valueOf h, readDefault_of_valueOf h⟩, fun hc h => ?_⟩
  rcases h with h | h <;> exact valueOf_of_readDefault hc h

/-- The timestamp coercer on a leap second with slashes, a text that two other patterns are tried on
first. -/
theorem valueOf_iff_read_slash :
    let text := "2004/07/01 17:05:60"
    let t : Calendar.Timestamp := ⟨2004, 7, 1, 17, 5, 59, 1000000000, by decide, by decide⟩
    let rs : RowSet := { columns := ["AT"], current := some [.string text] }
    let out : OutParams := { values := [.null, .string text] }
    rs.value (.name "at") = .ok (.string text) ∧ out.value 1 = .ok (.string text) ∧
      Coercer.timestamp.valueOf text = .ok (.timestamp t) ∧
      (Coercer.timestamp.readColumn rs (.name "at")).1 = .ok (.timestamp t) ∧
      (Coercer.timestamp.readOutput out 1).1 = .ok (.timestamp t) := by
  intro text t rs out
  have hcolumn : rs.value (.name "at") = .ok (.string text) := rfl
  have hout : out.value 1 = .ok (.string text) := rfl
  have hread : Calendar.Timestamp.read Calendar.slashPattern text = .ok t := by decide +kernel
  have hv : Coercer.timestamp.valueOf text = .ok (.timestamp t) := by
    rw [valueOf, hread]
    rfl
  exact ⟨hcolumn, hout, hv, (valueOf_iff_read hcolumn hout).1 hv⟩

/-- A stored timestamp may be written with dashes, a sentinel may not. -/
example : Coercer.timestamp.valueOf "2004-07-01 17:05:00" =
    .error (.unreadable "2004-07-01 17:05:00" .nullDate) := by
  rfl

end Coercer

end RowMapper

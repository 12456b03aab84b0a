/-
Scalars survive storage: every scalar value has a storage form, and what is stored reads back as the
same value by the conversion of its own type, for timestamps with every year and every fraction of a
second. Of the leap seconds only those after second 59 do: the stored text of another one is that of
the second that follows.
-/
import RowMapper.Data.Stored
import RowMapper.Database.Sqlite
import RowMapper.Proofs.Calendar.Written

namespace RowMapper

/-- An integer of 32 bits that was made one of 64 bits fits again. -/
theorem Number.narrow?_widen (n : Int32) : narrow? (widen n) = some n := by
  have low := n.le_toInt
  have high := n.toInt_lt
  have same : (widen n).toInt = n.toInt := by
    unfold widen
    apply Int64.toInt_ofInt_of_le <;> omega
  unfold narrow?
  rw [same, if_pos (by simp; omega), Int32.ofInt_toInt]

namespace SqliteValue

/-- What the storage form of a value reads as by a conversion. -/
def Reads {α : Type} (read : Value → Except Error α) (v : Value) (result : α) : Prop :=
  ∃ stored, ofValue v = .ok stored ∧ read stored.toValue = .ok result

/-- The number in storage is that of the integer, wider by 32 bits. -/
theorem reads_i32 (n : Int32) : Reads Value.readI32 (.i32 n) n := by
  refine ⟨.integer (Number.widen n), rfl, ?_⟩
  simp [toValue, Value.readI32, Number.narrow?_widen]

/-- A truth value is stored as one of the integers 0 and 1. -/
theorem reads_bool (b : Bool) : Reads Value.readBool (.bool b) b := by
  refine ⟨.integer (if b then 1 else 0), rfl, ?_⟩
  cases b <;> rfl

/-- A conversion reads one thing only. -/
theorem Reads.unique {α : Type} {read : Value → Except Error α} {v : Value} {a b : α}
    (ha : Reads read v a) (hb : Reads read v b) : a = b := by
  obtain ⟨stored, hstored, hread⟩ := ha
  obtain ⟨other, hother, hread'⟩ := hb
  obtain rfl : stored = other := Except.ok.inj (hstored.symm.trans hother)
  exact Except.ok.inj (hread.symm.trans hread')

/-- A timestamp is stored as its text. -/
theorem reads_timestamp (t : Calendar.Timestamp) :
    Reads Value.readTimestamp (.timestamp t) (some t.named) := by
  refine ⟨.text t.text, rfl, ?_⟩
  simp [toValue, Value.readTimestamp, Calendar.Timestamp.readStored_text]

/-- The timestamps that read back as themselves. -/
theorem reads_timestamp_iff (t : Calendar.Timestamp) :
    Reads Value.readTimestamp (.timestamp t) (some t) ↔ (1000000000 ≤ t.nanos → t.second = 59) := by
  rw [← Calendar.Timestamp.named_eq_self_iff]
  constructor
  · intro h
    exact Option.some.inj ((reads_timestamp t).unique h)
  · intro h
    have hread := reads_timestamp t
    rwa [h] at hread

/-- Every scalar value is stored, and reads back as itself by the conversion of its type; for a
timestamp exactly when it is no leap second, or one after second 59. Any other leap second reads back
as the second that follows. -/
theorem scalar_reads_back :
    (∀ b, Reads Value.readBool (.bool b) b) ∧
    (∀ n, Reads Value.readI32 (.i32 n) n) ∧
    (∀ n, Reads Value.readI64 (.i64 n) n) ∧
    (∀ x, Reads Value.readF64 (.f64 x) x) ∧
    (∀ s, Reads Value.readString (.string s) (some s)) ∧
    (∀ b, Reads Value.readBytes (.bytes b) (some b)) ∧
    ∀ t, Reads Value.readTimestamp (.timestamp t) (some t.named) ∧
      (Reads Value.readTimestamp (.timestamp t) (some t) ↔
        (1000000000 ≤ t.nanos → t.second = 59)) := by
  refine ⟨reads_bool, reads_i32, ?_, ?_, ?_, ?_, fun t => ⟨reads_timestamp t, reads_timestamp_iff t⟩⟩
  -- The other types have a storage class of their own.
  · exact fun n => ⟨.integer n, rfl, rfl⟩
  · exact fun x => ⟨.real x, rfl, rfl⟩
  · exact fun s => ⟨.text s, rfl, rfl⟩
  · exact fun b => ⟨.blob b, rfl, rfl⟩

/-- A third of a second into the leap second after second 4 is stored with second 5, and reads back as
a third of a second after second 5. -/
theorem leap_second_shifts :
    let t : Calendar.Timestamp := ⟨2024, 1, 1, 23, 56, 4, 1333333333, by decide, by decide⟩
    let later : Calendar.Timestamp := ⟨2024, 1, 1, 23, 56, 5, 333333333, by decide, by decide⟩
    t.text = "2024-01-01 23:56:05.333333333" ∧
      Reads Value.readTimestamp (.timestamp t) (some later) ∧
      ¬ Reads Value.readTimestamp (.timestamp t) (some t) := by
  intro t later
  have hnamed : t.named = later := by decide +kernel
  refine ⟨by decide +kernel, hnamed ▸ reads_timestamp t, fun h => ?_⟩
  have hsecond : (4 : Nat) = 59 := (reads_timestamp_iff t).mp h (by decide)
  omega

end SqliteValue

end RowMapper

/-
Hexadecimal digits: numbers and bytes written in them and read from them. Letters are written in
lower case and read in either.
-/
namespace RowMapper.Text.Hex

/-- The value of a digit. -/
def value? (c : Char) : Option Nat :=
  let n := c.toNat
  if 48 ≤ n ∧ n ≤ 57 then some (n - 48)
  else if 97 ≤ n ∧ n ≤ 102 then some (n - 87)
  else if 65 ≤ n ∧ n ≤ 70 then some (n - 55)
  else none

/-- The digits of a number, at least `width` of them. -/
def digits (width n : Nat) : List Char :=
  let shortest := Nat.toDigits 16 n
  List.replicate (width - shortest.length) '0' ++ shortest

/-- The number that digits stand for. -/
def number? (cs : List Char) : Option Nat :=
  cs.foldlM (fun n c => (value? c).map (n * 16 + ·)) 0

/-- Two digits for every byte. -/
def ofBytes (b : ByteArray) : String :=
  String.ofList (b.toList.flatMap fun byte => digits 2 byte.toNat)

/-- The bytes of pairs of digits. -/
def readBytes : List Char → Option (List UInt8)
  | [] => some []
  | high :: low :: rest => do
    let byte ← number? [high, low]
    (readBytes rest).map (byte.toUInt8 :: ·)
  | [_] => none

/-- The bytes of a text of digits. -/
def toBytes? (s : String) : Option ByteArray :=
  (readBytes s.toList).map fun bytes => ⟨bytes.toArray⟩

end RowMapper.Text.Hex

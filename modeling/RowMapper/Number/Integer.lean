/-
Signed integers of a fixed range as text: an optional sign and ASCII digits, read from the left,
so that the first digit out of place or the first digit too many decides the fault.
-/
namespace RowMapper.Number

/-- Why a text is no integer of the range. -/
inductive IntegerFault where
  | empty
  | invalidDigit
  | tooLarge
  | tooSmall
  deriving DecidableEq, Repr

def IntegerFault.message : IntegerFault → String
  | .empty => "cannot parse integer from empty string"
  | .invalidDigit => "invalid digit found in string"
  | .tooLarge => "number too large to fit in target type"
  | .tooSmall => "number too small to fit in target type"

def isDigit (c : Char) : Bool := 48 ≤ c.toNat && c.toNat ≤ 57

/-- The value of an ASCII digit. -/
def digitValue (c : Char) : Nat := c.toNat - 48

/-- Continues the magnitude `acc` with the digits `cs`, staying at or below `limit`. -/
def readMagnitude (limit : Nat) (excess : IntegerFault) : Nat → List Char → Except IntegerFault Nat
  | acc, [] => .ok acc
  | acc, c :: cs =>
    if isDigit c then
      let next := acc * 10 + digitValue c
      if next ≤ limit then readMagnitude limit excess next cs else .error excess
    else .error .invalidDigit

/-- Reads an integer from `-low` to `high`. -/
def readInteger (low high : Nat) (s : String) : Except IntegerFault Int :=
  match s.toList with
  | [] => .error .empty
  | ['+'] => .error .invalidDigit
  | ['-'] => .error .invalidDigit
  | '+' :: cs => (readMagnitude high .tooLarge 0 cs).map Int.ofNat
  | '-' :: cs => (readMagnitude low .tooSmall 0 cs).map fun n => -(Int.ofNat n)
  | cs => (readMagnitude high .tooLarge 0 cs).map Int.ofNat

/-- Reads an integer of 32 bits. -/
def readInt32 (s : String) : Except IntegerFault Int32 :=
  (readInteger (Nat.pow 2 31) (Nat.pow 2 31 - 1) s).map Int32.ofInt

/-- Reads an integer of 64 bits. -/
def readInt64 (s : String) : Except IntegerFault Int64 :=
  (readInteger (Nat.pow 2 63) (Nat.pow 2 63 - 1) s).map Int64.ofInt

/-- The integer as one of 32 bits, if it fits. -/
def narrow? (n : Int64) : Option Int32 :=
  if -(Nat.pow 2 31) ≤ n.toInt ∧ n.toInt < Nat.pow 2 31 then some (Int32.ofInt n.toInt)
  else none

/-- The same integer in 64 bits. -/
def widen (n : Int32) : Int64 := Int64.ofInt n.toInt

/-- The decimal digits of `n`, at least `width` of them. -/
def paddedDigits (width n : Nat) : String :=
  let digits := Nat.toDigits 10 n
  String.ofList (List.replicate (width - digits.length) '0' ++ digits)

end RowMapper.Number

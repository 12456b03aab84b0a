/-
Binary floating-point numbers of 64 bits, as bit patterns with exact arithmetic on natural
numbers: the fields of a pattern, rounding of a quotient to the nearest number, conversion from
and to integers, and numeric equality.
-/
namespace RowMapper.Number

/-- A floating-point number by its bits: sign, eleven bits of exponent, 52 of fraction. -/
structure Binary64 where
  bits : UInt64
  deriving DecidableEq, Repr

namespace Binary64

/-! ## Fields -/

/-- The bits without the sign. Magnitudes of finite numbers are ordered as the numbers are. -/
def magnitude (x : Binary64) : Nat := x.bits.toNat % Nat.pow 2 63

def negative (x : Binary64) : Bool := Nat.pow 2 63 ≤ x.bits.toNat

/-- The magnitude of the infinities; NaNs lie above it. -/
def infinityMagnitude : Nat := 2047 * Nat.pow 2 52

def isNaN (x : Binary64) : Bool := infinityMagnitude < x.magnitude

def isInfinite (x : Binary64) : Bool := x.magnitude == infinityMagnitude

def isZero (x : Binary64) : Bool := x.magnitude == 0

/-- The number with a given sign and magnitude. -/
def ofMagnitude (negative : Bool) (magnitude : Nat) : Binary64 :=
  ⟨UInt64.ofNat (magnitude + if negative then Nat.pow 2 63 else 0)⟩

def nan : Binary64 := ofMagnitude false (infinityMagnitude + Nat.pow 2 51)

def infinity (negative : Bool) : Binary64 := ofMagnitude negative infinityMagnitude

def zero : Binary64 := ofMagnitude false 0

/-- A finite number is `significand · 2 ^ exponent`, up to its sign. -/
def significand (x : Binary64) : Nat :=
  if x.magnitude / Nat.pow 2 52 = 0 then x.magnitude else Nat.pow 2 52 + x.magnitude % Nat.pow 2 52

/-- The exponent of the unit in the last place of a finite number. -/
def exponent (x : Binary64) : Int :=
  if x.magnitude / Nat.pow 2 52 = 0 then -1074 else (x.magnitude / Nat.pow 2 52 : Nat) - 1075

/-- Numeric equality: the two zeros are equal and a NaN equals nothing. -/
def same (x y : Binary64) : Bool :=
  !x.isNaN && !y.isNaN && (x == y || x.isZero && y.isZero)

/-! ## Rounding -/

/-- The quotient rounded to the nearest natural number, a half to the even neighbour. -/
def roundEven (num den : Nat) : Nat :=
  let quotient := num / den
  let twice := 2 * (num % den)
  if twice < den then quotient
  else if den < twice then quotient + 1
  else quotient + quotient % 2

/-- The integer part of the binary logarithm of a positive quotient. -/
def floorLog2 (num den : Nat) : Int :=
  let guess : Int := (num.log2 : Int) - den.log2
  if den * Nat.pow 2 guess.toNat ≤ num * Nat.pow 2 (-guess).toNat then guess else guess - 1

/-- The number nearest to `num / den`, a half to the even significand; above the largest
finite number, infinity. -/
def ofRatio (negative : Bool) (num den : Nat) : Binary64 :=
  if num = 0 then ofMagnitude negative 0
  else
    let unit := max (floorLog2 num den - 52) (-1074)
    let significand := roundEven (num * Nat.pow 2 (-unit).toNat) (den * Nat.pow 2 unit.toNat)
    ofMagnitude negative (min infinityMagnitude ((unit + 1074).toNat * Nat.pow 2 52 + significand))

/-! ## Integers -/

/-- The number nearest to an integer. -/
def ofInt (n : Int) : Binary64 := ofRatio (n < 0) n.natAbs 1

/-- The integer part toward zero, held within `low` and `high`; zero for a NaN. -/
def truncate (low high : Int) (x : Binary64) : Int :=
  if x.isNaN then 0
  else if x.isInfinite then if x.negative then low else high
  else
    let num := x.significand * Nat.pow 2 x.exponent.toNat
    let whole : Int := (num / Nat.pow 2 (-x.exponent).toNat : Nat)
    max low (min high (if x.negative then -whole else whole))

def toInt32 (x : Binary64) : Int32 := Int32.ofInt (x.truncate (-(Nat.pow 2 31)) (Nat.pow 2 31 - 1))

def toInt64 (x : Binary64) : Int64 := Int64.ofInt (x.truncate (-(Nat.pow 2 63)) (Nat.pow 2 63 - 1))

/-! ## Small laws -/

theorem same_comm (x y : Binary64) : x.same y = y.same x := by
  unfold same
  rw [BEq.comm (a := x)]
  cases x.isNaN <;> cases y.isNaN <;> cases x.isZero <;> cases y.isZero <;> rfl

theorem same_trans {x y z : Binary64} (hxy : x.same y = true) (hyz : y.same z = true) :
    x.same z = true := by
  simp only [same, Bool.and_eq_true, Bool.or_eq_true, beq_iff_eq] at hxy hyz ⊢
  refine ⟨⟨hxy.1.1, hyz.1.2⟩, ?_⟩
  rcases hxy.2 with rfl | hx
  · exact hyz.2
  rcases hyz.2 with rfl | hz
  · exact .inr hx
  · exact .inr ⟨hx.1, hz.2⟩

/-- A number equals itself exactly when it is no NaN. -/
theorem same_self (x : Binary64) : x.same x = !x.isNaN := by
  unfold same
  cases x.isNaN <;> simp

end Binary64

end RowMapper.Number

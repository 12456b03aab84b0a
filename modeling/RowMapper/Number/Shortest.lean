/-
The shortest decimal of a floating-point number: of the decimals that round to the number, one
with the fewest digits, and of those the nearest, upward at a half. It is written without an
exponent.
-/
import RowMapper.Number.Binary64

namespace RowMapper.Number

/-- The decimal `coefficient · 10 ^ exponent`. -/
structure Decimal where
  coefficient : Nat
  exponent : Int
  deriving DecidableEq, Repr

namespace Decimal

/-- The decimal in positional notation; no point when there are no places after it. -/
def text (d : Decimal) : String :=
  let digits := Nat.toDigits 10 d.coefficient
  let places := (-d.exponent).toNat
  if places = 0 then String.ofList (digits ++ List.replicate d.exponent.toNat '0')
  else
    let padded := List.replicate (places + 1 - digits.length) '0' ++ digits
    let whole := padded.length - places
    String.ofList (padded.take whole ++ '.' :: padded.drop whole)

end Decimal

namespace Binary64

/-! ## The rounding interval -/

/-- Compares the decimal with `quarters · 2 ^ (x.exponent - 2)`. -/
def compareQuarters (x : Binary64) (d : Decimal) (quarters : Nat) : Ordering :=
  let unit := x.exponent - 2
  compare (d.coefficient * Nat.pow 10 d.exponent.toNat * Nat.pow 2 (-unit).toNat)
    (quarters * Nat.pow 2 unit.toNat * Nat.pow 10 (-d.exponent).toNat)

/-- Whether a decimal rounds to the positive finite number `x`: it lies between the middles to
the two neighbours, the ends included when the significand is even. -/
def roundsTo (x : Binary64) (d : Decimal) : Bool :=
  let m := x.significand
  let below := if m = Nat.pow 2 52 ∧ -1074 < x.exponent then 4 * m - 1 else 4 * m - 2
  let above := 4 * m + 2
  let closed := m % 2 = 0
  (match x.compareQuarters d below with | .gt => true | .eq => closed | .lt => false) &&
    (match x.compareQuarters d above with | .lt => true | .eq => closed | .gt => false)

/-! ## Candidates -/

def digitCount (n : Nat) : Nat := (Nat.toDigits 10 n).length

/-- The exponent of the leading digit of a positive finite number. -/
def leadingExponent (x : Binary64) : Int :=
  let num := x.significand * Nat.pow 2 x.exponent.toNat
  let den := Nat.pow 2 (-x.exponent).toNat
  if den ≤ num then (digitCount (num / den) : Int) - 1
  else -(digitCount ((den - 1) / num) : Int)

/-- The better decimal with `count` digits that rounds to the number, if there is one. Only the
two decimals around the number can be. -/
def candidate (x : Binary64) (count : Nat) : Option Decimal :=
  let exponent := x.leadingExponent + 1 - count
  let num := x.significand * Nat.pow 2 x.exponent.toNat * Nat.pow 10 (-exponent).toNat
  let den := Nat.pow 2 (-x.exponent).toNat * Nat.pow 10 exponent.toNat
  let below : Decimal := ⟨num / den, exponent⟩
  let above : Decimal :=
    if num / den + 1 = Nat.pow 10 count then ⟨Nat.pow 10 (count - 1), exponent + 1⟩
    else ⟨num / den + 1, exponent⟩
  let lower := x.roundsTo below
  let upper := x.roundsTo above
  if upper && (!lower || den ≤ 2 * (num % den)) then some above
  else if lower then some below
  else none

/-- The shortest decimal of a positive finite number; seventeen digits are always enough. -/
def shortest (x : Binary64) : Decimal :=
  ((List.range 17).findSome? fun count => x.candidate (count + 1)).getD ⟨0, 0⟩

/-- The text of a number: the shortest decimal, `inf`, or `NaN`. -/
def text (x : Binary64) : String :=
  let sign := if x.negative then "-" else ""
  if x.isNaN then "NaN"
  else if x.isInfinite then sign ++ "inf"
  else if x.isZero then sign ++ "0"
  else sign ++ x.shortest.text

end Binary64

end RowMapper.Number

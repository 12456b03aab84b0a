/-
Decimal texts read as floating-point numbers: an optional sign, digits with an optional point and
an optional exponent, or the names of infinity and NaN, rounded to the nearest number.
-/
import RowMapper.Number.Integer
import RowMapper.Number.Shortest
import RowMapper.Text.Basic

namespace RowMapper.Number

/-- Why a text is no decimal. -/
inductive DecimalFault where
  | empty
  | invalid
  deriving DecidableEq, Repr

def DecimalFault.message : DecimalFault → String
  | .empty => "cannot parse float from empty string"
  | .invalid => "invalid float literal"

/-- The value of a run of digits. -/
def digitsValue (cs : List Char) : Nat := cs.foldl (fun acc c => acc * 10 + digitValue c) 0

/-- An exponent after its letter: an optional sign and at least one digit, to the end. -/
def readExponent (cs : List Char) : Option Int :=
  let (negative, digits) : Bool × List Char :=
    match cs with
    | '-' :: rest => (true, rest)
    | '+' :: rest => (false, rest)
    | rest => (false, rest)
  if digits.isEmpty || !digits.all isDigit then none
  else some (if negative then -(digitsValue digits : Int) else digitsValue digits)

/-- An unsigned decimal, to the end of the text. -/
def readUnsigned (cs : List Char) : Option Decimal :=
  let whole := cs.takeWhile isDigit
  let afterWhole := cs.dropWhile isDigit
  let (places, rest) : List Char × List Char :=
    match afterWhole with
    | '.' :: more => (more.takeWhile isDigit, more.dropWhile isDigit)
    | other => ([], other)
  if whole.isEmpty && places.isEmpty then none
  else
    let coefficient := digitsValue (whole ++ places)
    match rest with
    | [] => some ⟨coefficient, -(places.length : Int)⟩
    | c :: more =>
      if c = 'e' ∨ c = 'E' then
        (readExponent more).map fun e => ⟨coefficient, e - places.length⟩
      else none

/-- The number nearest to a decimal. Decimals far outside the range are decided by their size,
so that no huge power is computed. -/
def Binary64.ofDecimal (negative : Bool) (d : Decimal) : Binary64 :=
  let size := d.exponent + Binary64.digitCount d.coefficient
  if d.coefficient = 0 ∨ size < -400 then .ofMagnitude negative 0
  else if 400 < size then .infinity negative
  else
    .ofRatio negative (d.coefficient * Nat.pow 10 d.exponent.toNat)
      (Nat.pow 10 (-d.exponent).toNat)

/-- The names of the numbers that are no decimals, in lower case. -/
def namedNumber (negative : Bool) (name : String) : Option Binary64 :=
  if name = "inf" ∨ name = "infinity" then some (.infinity negative)
  else if name = "nan" then some .nan
  else none

/-- Reads a decimal text. -/
def readBinary64 (s : String) : Except DecimalFault Binary64 :=
  if s.isEmpty then .error .empty
  else
    let (negative, cs) : Bool × List Char :=
      match s.toList with
      | '-' :: rest => (true, rest)
      | '+' :: rest => (false, rest)
      | rest => (false, rest)
    match readUnsigned cs with
    | some d => .ok (.ofDecimal negative d)
    | none =>
      match namedNumber negative (Text.lowerLabel (String.ofList cs)) with
      | some x => .ok x
      | none => .error .invalid

end RowMapper.Number

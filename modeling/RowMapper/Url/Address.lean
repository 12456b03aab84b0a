/-
Numeric addresses of hosts: four numbers between dots, and eight groups between colons.
-/
import RowMapper.Number.Integer
import RowMapper.Text.Basic
import RowMapper.Text.Hex

namespace RowMapper.Url

/-- The number that digits of a base stand for; no digits are zero. -/
def numberIn? (base : Nat) (cs : List Char) : Option Nat :=
  cs.foldlM
    (fun n c => do
      let digit ← Text.Hex.value? c
      if digit < base then some (n * base + digit) else none)
    0

/-! ## Numbers between dots -/

/-- The number of a part: hexadecimal after `0x`, octal after another zero, else decimal. -/
def partNumber? : List Char → Option Nat
  | [] => none
  | '0' :: 'x' :: digits => numberIn? 16 digits
  | '0' :: 'X' :: digits => numberIn? 16 digits
  | '0' :: digits => numberIn? 8 digits
  | digits => numberIn? 10 digits

/-- The parts between dots, without an empty last one. -/
def dottedParts (domain : List Char) : List (List Char) :=
  let parts := Text.split (· == '.') domain
  if 1 < parts.length ∧ parts.getLast? = some [] then parts.dropLast else parts

/-- Whether a domain has to be an address: its last part is made of digits or is a number. -/
def endsInNumber (domain : List Char) : Bool :=
  match (dottedParts domain).getLast? with
  | none | some [] => false
  | some last => last.all Number.isDigit || (partNumber? last).isSome

/-- Whether a domain is an address of at most four numbers, the last of which fills the bytes that
the others leave. -/
def isIpv4 (domain : List Char) : Bool :=
  match ((dottedParts domain).mapM partNumber?).map List.reverse with
  | some (last :: others) =>
    others.length < 4 && others.all (· < 256) && last < Nat.pow 256 (4 - others.length)
  | _ => false

/-! ## Groups between colons -/

/-- Whether a text is one to four hexadecimal digits. -/
def isGroup (cs : List Char) : Bool :=
  !cs.isEmpty && cs.length ≤ 4 && (numberIn? 16 cs).isSome

/-- Whether a text is a decimal number below 256 without a leading zero. -/
def isByte (cs : List Char) : Bool :=
  cs == ['0'] || cs.head?.any (· != '0') && (numberIn? 10 cs).any (· < 256)

/-- Whether a text is four bytes between dots. -/
def isByteQuad (cs : List Char) : Bool :=
  let bytes := Text.split (· == '.') cs
  bytes.length == 4 && bytes.all isByte

/-- The number of groups. Four bytes may stand for the last two groups of an address. -/
def groupCount? (endsAddress : Bool) : List (List Char) → Option Nat
  | [] => some 0
  | [last] =>
    if isGroup last then some 1
    else if endsAddress && isByteQuad last then some 2
    else none
  | group :: rest => if isGroup group then (groupCount? endsAddress rest).map (· + 1) else none

/-- The texts between colons; the empty text has none. -/
def groups (cs : List Char) : List (List Char) :=
  if cs.isEmpty then [] else Text.split (· == ':') cs

/-- What stands before and after the first two colons in a row. -/
def cutGap? : List Char → Option (List Char × List Char)
  | [] => none
  | ':' :: ':' :: rest => some ([], rest)
  | c :: rest => (cutGap? rest).map fun (before, after) => (c :: before, after)

/-- Whether a text is an address of eight groups, or of fewer with two colons for the others. -/
def isIpv6 (cs : List Char) : Bool :=
  match cutGap? cs with
  | none => groupCount? true (groups cs) == some 8
  | some (before, after) =>
    match groupCount? false (groups before), groupCount? true (groups after) with
    | some n, some m => n + m < 8
    | _, _ => false

end RowMapper.Url

/-
Reading timestamps by a pattern of numeric fields, literal characters and optional space.
-/
import RowMapper.Calendar.Timestamp
import RowMapper.Text.Basic

namespace RowMapper.Calendar

/-- Why a text does not read by a pattern. -/
inductive PatternFault where
  | invalid
  | tooShort
  | tooLong
  | outOfRange
  deriving DecidableEq, Repr

def PatternFault.message : PatternFault → String
  | .invalid => "input contains invalid characters"
  | .tooShort => "premature end of input"
  | .tooLong => "trailing input"
  | .outOfRange => "input is out of range"

/-- The parts of a pattern. The fraction of a second is optional in the text; `space` stands for
any white space, also none. -/
inductive Item where
  | year
  | month
  | day
  | hour
  | minute
  | second
  | fraction
  | space
  | literal (c : Char)
  deriving DecidableEq, Repr

/-- The fields read so far. -/
structure Fields where
  year : Int := 0
  month : Nat := 1
  day : Nat := 1
  hour : Nat := 0
  minute : Nat := 0
  second : Nat := 0
  fraction : Nat := 0

/-- Reads at most `width` digits, at least one. -/
def readDigits (width : Nat) (cs : List Char) : Except PatternFault (List Char × List Char) :=
  match cs with
  | [] => .error .tooShort
  | c :: _ =>
    if Number.isDigit c then
      let digits := (cs.take width).takeWhile Number.isDigit
      .ok (digits, cs.drop digits.length)
    else .error .invalid

def valueOf (digits : List Char) : Nat :=
  digits.foldl (fun acc c => acc * 10 + Number.digitValue c) 0

/-- Reads a field of one or two digits between `low` and `high`. -/
def readField (low high : Nat) (cs : List Char) : Except PatternFault (Nat × List Char) := do
  let (digits, rest) ← readDigits 2 (Text.trimStart cs)
  let value := valueOf digits
  if low ≤ value ∧ value ≤ high then .ok (value, rest) else .error .outOfRange

/-- Reads a year: up to four digits, or a sign and any number of digits. -/
def readYear (cs : List Char) : Except PatternFault (Int × List Char) := do
  let (digits, rest, sign) ←
    match Text.trimStart cs with
    | '-' :: signed =>
      (readDigits signed.length signed).map fun (ds, rest) => (ds, rest, (-1 : Int))
    | '+' :: signed => (readDigits signed.length signed).map fun (ds, rest) => (ds, rest, 1)
    | unsigned => (readDigits 4 unsigned).map fun (ds, rest) => (ds, rest, 1)
  let year := sign * valueOf digits
  if -(Nat.pow 2 31) ≤ year ∧ year < Nat.pow 2 31 then .ok (year, rest) else .error .outOfRange

/-- Reads a fraction of a second as nanoseconds, if one is there. Digits after the ninth are
skipped. -/
def readFraction (cs : List Char) : Except PatternFault (Nat × List Char) :=
  match cs with
  | '.' :: more => do
    let (digits, rest) ← readDigits 9 more
    .ok (valueOf digits * Nat.pow 10 (9 - digits.length), rest.dropWhile Number.isDigit)
  | other => .ok (0, other)

def readLiteral (expected : Char) (cs : List Char) : Except PatternFault (Unit × List Char) :=
  match cs with
  | [] => .error .tooShort
  | c :: rest => if c = expected then .ok ((), rest) else .error .invalid

/-- Reads one part of a pattern. -/
def readItem (fields : Fields) (cs : List Char) : Item → Except PatternFault (Fields × List Char)
  | .year => do
    let (year, rest) ← readYear cs
    .ok ({ fields with year }, rest)
  | .month => do
    let (month, rest) ← readField 1 12 cs
    .ok ({ fields with month }, rest)
  | .day => do
    let (day, rest) ← readField 1 31 cs
    .ok ({ fields with day }, rest)
  | .hour => do
    let (hour, rest) ← readField 0 23 cs
    .ok ({ fields with hour }, rest)
  | .minute => do
    let (minute, rest) ← readField 0 59 cs
    .ok ({ fields with minute }, rest)
  | .second => do
    let (second, rest) ← readField 0 60 cs
    .ok ({ fields with second }, rest)
  | .fraction => do
    let (fraction, rest) ← readFraction cs
    .ok ({ fields with fraction }, rest)
  | .space => .ok (fields, Text.trimStart cs)
  | .literal c => do
    let ((), rest) ← readLiteral c cs
    .ok (fields, rest)

/-- Reads the parts of a pattern one after the other. -/
def readItems : List Item → Fields → List Char → Except PatternFault (Fields × List Char)
  | [], fields, cs => .ok (fields, cs)
  | item :: items, fields, cs => do
    let (fields, rest) ← readItem fields cs item
    readItems items fields rest

/-- The timestamp of the fields read. Second 60 is the leap second after second 59. -/
def Fields.timestamp (f : Fields) : Option Timestamp :=
  if f.second = 60 then
    Timestamp.ofFields f.year f.month f.day f.hour f.minute 59 (f.fraction + 1000000000)
  else Timestamp.ofFields f.year f.month f.day f.hour f.minute f.second f.fraction

/-- Reads a whole text by a pattern. -/
def Timestamp.read (pattern : List Item) (s : String) : Except PatternFault Timestamp := do
  let (fields, rest) ← readItems pattern {} s.toList
  if rest.isEmpty then
    match fields.timestamp with
    | some t => .ok t
    | none => .error .outOfRange
  else .error .tooLong

/-! ## Patterns -/

def timeItems : List Item :=
  [.hour, .literal ':', .minute, .literal ':', .second]

/-- Slashes between the date fields and no fraction. -/
def slashPattern : List Item :=
  [.year, .literal '/', .month, .literal '/', .day, .space] ++ timeItems

/-- Dashes between the date fields and a space before the time; what `Timestamp.text` writes. -/
def dashPattern : List Item :=
  [.year, .literal '-', .month, .literal '-', .day, .space] ++ timeItems ++ [.fraction]

/-- Dashes between the date fields and the letter T before the time. -/
def letterPattern : List Item :=
  [.year, .literal '-', .month, .literal '-', .day, .literal 'T'] ++ timeItems ++ [.fraction]

/-- The patterns of a timestamp stored as text, in the order in which they are tried. -/
def storedPatterns : List (List Item) := [dashPattern, letterPattern, slashPattern]

/-- Reads a timestamp stored as text by the first pattern that fits. -/
def Timestamp.readStored (s : String) : Option Timestamp :=
  storedPatterns.findSome? fun pattern => (Timestamp.read pattern s).toOption

end RowMapper.Calendar

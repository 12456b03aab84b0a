/-
The path of a URL. Dot segments are resolved, and characters that a path may not hold are written
in percent form: each byte as a percent sign and two hexadecimal digits.
-/
import RowMapper.Text.Basic
import RowMapper.Text.Hex

namespace RowMapper.Url

/-! ## Percent forms -/

/-- The bytes of a character. -/
def bytesOf (c : Char) : List UInt8 := c.toString.toUTF8.toList

/-- The bytes of a character, each as a percent sign and two digits. -/
def percentForm (c : Char) : List Char :=
  (bytesOf c).flatMap fun byte => '%' :: (Text.Hex.digits 2 byte.toNat).map Char.toUpper

/-- The text with its reserved characters in percent form. -/
def encode (reserved : Char → Bool) (cs : List Char) : List Char :=
  cs.flatMap fun c => if reserved c then percentForm c else [c]

/-- The bytes of a text. A percent sign without two digits after it stands for itself. -/
def decodeBytes : List Char → List UInt8
  | '%' :: high :: low :: rest =>
    match Text.Hex.number? [high, low] with
    | some byte => byte.toUInt8 :: decodeBytes rest
    | none => bytesOf '%' ++ decodeBytes (high :: low :: rest)
  | c :: rest => bytesOf c ++ decodeBytes rest
  | [] => []

/-- The text that is written with percent forms, unless its bytes are no text. -/
def decode? (cs : List Char) : Option (List Char) :=
  (String.fromUTF8? ⟨(decodeBytes cs).toArray⟩).map String.toList

def isControl (c : Char) : Bool := c.toNat < 32 || 126 < c.toNat

/-- Whether a path segment may not hold the character. -/
def isReserved (c : Char) : Bool := isControl c || " \"#<>?\x60\x7b\x7d".toList.contains c

/-! ## Dot segments -/

/-- A segment with its percent forms of a dot as dots. -/
def plainDots : List Char → List Char
  | '%' :: '2' :: 'e' :: rest => '.' :: plainDots rest
  | '%' :: '2' :: 'E' :: rest => '.' :: plainDots rest
  | c :: rest => c :: plainDots rest
  | [] => []

/-- Whether a segment is a drive, a letter and a colon or bar, alone or before a backslash. -/
def isDrive : List Char → Bool
  | [letter, mark] => letter.isAlpha && (mark == ':' || mark == '|')
  | letter :: mark :: next :: _ => letter.isAlpha && (mark == ':' || mark == '|') && next == '\\'
  | _ => false

/-- The segments without the last one, which is given first and stays if it is a drive. -/
def parent : List (List Char) → List (List Char)
  | [] => []
  | last :: done => if isDrive last then last :: done else done

/-- Resolves the dot segments; the segments so far are given last first. -/
def resolveDots : List (List Char) → List (List Char) → List (List Char)
  | done, [] => done.reverse
  | done, segment :: rest =>
    let ends := if rest.isEmpty then [[]] else []
    if plainDots segment = ['.', '.'] then resolveDots (ends ++ parent done) rest
    else if plainDots segment = ['.'] then resolveDots (ends ++ done) rest
    else resolveDots (segment :: done) rest

/-! ## Paths -/

/-- What stands before a query or a fragment. -/
def beforeQuery (cs : List Char) : List Char := cs.takeWhile fun c => c != '?' && c != '#'

/-- The path of a URL whose path begins with a slash, given what follows the slash. -/
def slashPath (cs : List Char) : List Char :=
  let segments := Text.split (· == '/') (encode isReserved (beforeQuery cs))
  (resolveDots [] segments).flatMap fun segment => '/' :: segment

/-- The path of a URL that has neither an authority nor a slash. -/
def opaquePath (cs : List Char) : List Char := encode isControl (beforeQuery cs)

/-- The path of a URL, given what follows the authority. A slash is put before it where one is
missing. -/
def authorityPath (cs : List Char) : List Char :=
  match cs with
  | '/' :: rest => slashPath rest
  | _ => if (beforeQuery cs).isEmpty then [] else slashPath cs

end RowMapper.Url

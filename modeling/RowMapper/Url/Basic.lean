/-
Reading a URL. Web and file URLs are checked as far as their host and port; of any other URL the
path is kept as well as the scheme.
-/
import RowMapper.Url.Authority
import RowMapper.Url.Path

namespace RowMapper

/-- What is kept of a URL. -/
inductive Url where
  /-- A web or file URL. -/
  | special (scheme : String)
  | plain (scheme path : String)
  deriving DecidableEq, Repr

namespace Url

/-! ## The scheme -/

/-- Removes tabs and line ends anywhere, and controls and spaces at both ends. -/
def clean (cs : List Char) : List Char :=
  let isEdge (c : Char) : Bool := c.toNat ≤ 32
  let trimmed := ((cs.dropWhile isEdge).reverse.dropWhile isEdge).reverse
  trimmed.filter fun c => c != '\t' && c != '\n' && c != '\r'

/-- The scheme in lower case, and what follows its colon. -/
def scheme? (cs : List Char) : Option (String × List Char) :=
  let isSchemeChar (c : Char) : Bool := c.isAlphanum || c == '+' || c == '-' || c == '.'
  let name := cs.takeWhile isSchemeChar
  match name, cs.dropWhile isSchemeChar with
  | first :: _, ':' :: rest =>
    if first.isAlpha then some (String.ofList (name.map Char.toLower), rest) else none
  | _, _ => none

/-- The schemes of the web: their URLs have a host, and a backslash in them is a slash. -/
def webSchemes : List String := ["http", "https", "ws", "wss", "ftp"]

def isSlash (c : Char) : Bool := c == '/' || c == '\\'

/-! ## The URL -/

/-- Checks a web URL, given what follows the colon of its scheme. -/
def checkWeb (cs : List Char) : Except UrlFault Unit := do
  discard (afterAuthority true (cs.dropWhile isSlash))

/-- Checks a file URL, given what follows the colon of its scheme. It has a host only after two
slashes, and a drive there is no host. -/
def checkFile : List Char → Except UrlFault Unit
  | c :: d :: rest =>
    let host := rest.takeWhile fun c => !("/\\?#".toList.contains c)
    if isSlash c ∧ isSlash d ∧ !host.isEmpty ∧ !isDrive host then checkDomain host else .ok ()
  | _ => .ok ()

/-- The path of a plain URL, given what follows the colon of its scheme. -/
def path : List Char → Except UrlFault (List Char)
  | '/' :: '/' :: rest => (afterAuthority false rest).map authorityPath
  | '/' :: rest => .ok (slashPath rest)
  | rest => .ok (opaquePath rest)

/-- Reads a URL. -/
def read (url : String) : Except UrlFault Url :=
  match scheme? (clean url.toList) with
  | none => .error .noScheme
  | some (scheme, rest) =>
    if scheme = "file" then (checkFile rest).map fun _ => .special scheme
    else if scheme ∈ webSchemes then (checkWeb rest).map fun _ => .special scheme
    else (path rest).map fun cs => .plain scheme (String.ofList cs)

end Url

end RowMapper

/-
The authority of a URL: a user, a host and a port. It is checked and passed over; none of it is
kept.
-/
import RowMapper.Url.Host

namespace RowMapper.Url

/-- What stands before and after the last mark. -/
def cutLast? (mark : Char) : List Char → Option (List Char × List Char)
  | [] => none
  | c :: cs =>
    match cutLast? mark cs with
    | some (before, after) => some (c :: before, after)
    | none => if c = mark then some ([], cs) else none

/-- The host, and what follows it from the first colon outside of square brackets. -/
def cutHost (bracketed : Bool) : List Char → List Char × List Char
  | [] => ([], [])
  | c :: cs =>
    if c = ':' ∧ !bracketed then ([], c :: cs)
    else
      let (host, rest) := cutHost (c == '[' || bracketed && c != ']') cs
      (c :: host, rest)

/-- What follows a port, given what follows its colon. A port may be empty. -/
def afterPort (cs : List Char) : Except UrlFault (List Char) :=
  let rest := cs.dropWhile Number.isDigit
  let fits := (numberIn? 10 (cs.takeWhile Number.isDigit)).any (· < Nat.pow 2 16)
  if fits ∧ rest.head?.all fun c => "/\\?#".toList.contains c then .ok rest else .error .badPort

/-- What follows the authority, given what follows the two slashes before it. Web URLs need a host,
and others need one if they have a user or a port. -/
def afterAuthority (web : Bool) (cs : List Char) : Except UrlFault (List Char) := do
  let isWithin (c : Char) : Bool := !("/?#".toList.contains c || web && c == '\\')
  let authority := cs.takeWhile isWithin
  let rest := cs.dropWhile isWithin
  let (named, hostAndPort) ←
    match cutLast? '@' authority with
    | none => pure (false, authority)
    | some ([], after) =>
      if after.isEmpty ∧ !rest.isEmpty then throw .emptyHost else pure (false, after)
    | some (user, after) => pure (user != [':'], after)
  let (host, port) := cutHost false hostAndPort
  if host.isEmpty ∧ web then throw .emptyHost
  if web then checkDomain host else checkHost host
  let rest ←
    match port ++ rest with
    | ':' :: portAndRest =>
      if host.isEmpty then throw .emptyHost else afterPort portAndRest
    | rest => pure rest
  if host.isEmpty ∧ named then throw .emptyHost else pure rest

end RowMapper.Url

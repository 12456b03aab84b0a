/-
The host of a URL: a name or a numeric address. Web and file URLs name a domain; the hosts of
other URLs are not interpreted.
-/
import RowMapper.Error.Fault
import RowMapper.Url.Address
import RowMapper.Url.Path

namespace RowMapper.Url

/-- Checks an address in square brackets, given what follows the first one. -/
def checkBracketed (cs : List Char) : Except UrlFault Unit :=
  if cs.getLast? = some ']' ∧ isIpv6 cs.dropLast then .ok () else .error .badIpv6

/-- Whether a host that is not interpreted may not hold the character. -/
def isBarredInHost (c : Char) : Bool := "\x00\t\n\r #/:<>?@[\\]^|".toList.contains c

/-- Checks a host that is not interpreted. It may be empty. -/
def checkHost : List Char → Except UrlFault Unit
  | '[' :: rest => checkBracketed rest
  | host => if host.any isBarredInHost then .error .badHostCharacter else .ok ()

/-- Whether a domain may not hold the character. -/
def isBarredInDomain (c : Char) : Bool :=
  c.toNat ≤ 32 || c.toNat == 127 || "%#/:<>?@[\\]^|".toList.contains c

/-- Checks the host of a web or file URL. -/
def checkDomain : List Char → Except UrlFault Unit
  | '[' :: rest => checkBracketed rest
  | host =>
    match decode? host with
    | none => .error .badDomain
    | some domain =>
      if domain.any isBarredInDomain then .error .badDomain
      else if endsInNumber domain && !isIpv4 domain then .error .badIpv4
      else .ok ()

end RowMapper.Url

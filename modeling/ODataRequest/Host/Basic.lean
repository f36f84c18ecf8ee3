import ODataRequest.Host.Ipv4
import ODataRequest.Host.Ipv6
import ODataRequest.Text.Percent

/-!
# ODataRequest.Host.Basic

Hosts of URLs: domain names in ASCII, which are kept in lower case, and addresses. A name that ends
in a number is read as an IPv4 address and is refused if it is none; an IPv6 address stands between
square brackets.
-/

namespace ODataRequest

/-- A host. -/
inductive Host where
  | domain (name : String)
  | ipv4 (address : Ipv4Address)
  | ipv6 (address : Ipv6Address)
deriving DecidableEq, Repr

namespace Host

/-- A character that a domain name may hold. -/
def standsInDomain (c : Char) : Bool :=
  0x20 < c.toNat && c.toNat < 0x7F &&
    !(['#', '%', '/', ':', '<', '>', '?', '@', '[', '\\', ']', '^', '|'].contains c)

/-- The host of a text without brackets. -/
def ofName? (cs : List Char) : Option Host :=
  if cs.isEmpty || !cs.all standsInDomain then none
  else
    let name := cs.map Char.toLower
    if Ipv4Address.isMeant name then (Ipv4Address.ofText? name).map .ipv4
    else some (.domain (String.ofList name))

/-- Read a host. A name may be percent-encoded. -/
def ofText? (cs : List Char) : Option Host :=
  match cs with
  | '[' :: cs => do return .ipv6 (← Ipv6Address.ofText? (← Text.before? [']'] cs))
  | cs => do ofName? (← Text.percentDecode? (String.ofList cs)).toList

/-- The text of a host. -/
def text : Host → String
  | .domain name => name
  | .ipv4 address => address.text
  | .ipv6 address => "[" ++ address.text ++ "]"

end Host

end ODataRequest

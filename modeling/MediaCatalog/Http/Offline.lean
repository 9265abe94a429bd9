import MediaCatalog.Http.Exchange
import MediaCatalog.Url.Basic

/-! A machine without a network: no address can be reached, and no name has an address. -/

namespace MediaCatalog.Http

/-- The system's words for an address that cannot be reached. -/
def unreachableText : String := "Network is unreachable (os error 101)"

/-- The system's words for a name whose address cannot be found. -/
def unresolvedText : String :=
  "failed to lookup address information: Temporary failure in name resolution"

/-- This machine has a name that needs no lookup. -/
def isKnownHost : Url.Host → Bool
  | .domain name => name == "localhost"
  | .ipv4 _ | .ipv6 _ => true

/-- Why a connection to the host of a URL does not come about. -/
def offlineReason (url : String) : String :=
  match (Url.parse url).toOption.bind Url.host with
  | some host =>
    "client error (Connect): " ++
      if isKnownHost host then "tcp connect error: " ++ unreachableText
      else "dns error: " ++ unresolvedText
  | none => "client error (Connect)"

def Server.offline : Server := fun requests =>
  (0, .unreachable (offlineReason ((requests.getLast?.map Request.url).getD "")))

end MediaCatalog.Http

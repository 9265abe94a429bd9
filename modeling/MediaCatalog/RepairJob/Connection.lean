import MediaCatalog.Http.Offline
import MediaCatalog.RepairJob.Run

/-! Connections to the database of a catalog, which is named by a URL. -/

namespace MediaCatalog.RepairJob

inductive ConnectionFault where
  | invalidUrl (fault : Url.Fault)
  | unreachable (reason : String)
  | refused (reason : String)
  deriving DecidableEq, Repr

namespace ConnectionFault

def reason : ConnectionFault → String
  | .invalidUrl fault => fault.message
  | .unreachable reason | .refused reason => reason

def message (f : ConnectionFault) : String :=
  let kind := match f with
    | .invalidUrl _ => "error with configuration"
    | .unreachable _ => "error communicating with database"
    | .refused _ => "error returned from database"
  kind ++ ": " ++ f.reason

end ConnectionFault

/-- What a connection to a database comes to, given its URL. -/
abbrev Catalog := String → Except ConnectionFault Database

/-- The name that a database has if its URL gives none. -/
def defaultHost : Url.Host := .domain "localhost"

/-- Whether a host needs no lookup; hosts of other schemes than the web's may be numbers, too. -/
def isKnownHost (host : Url.Host) : Bool :=
  match host with
  | .domain name => name.isEmpty || (Url.ipv4? name.toList).isSome || Http.isKnownHost host
  | .ipv4 _ | .ipv6 _ => true

/-- No database can be reached from a machine without a network. -/
def Catalog.offline : Catalog := fun url =>
  match Url.parse url with
  | .error fault => .error (.invalidUrl fault)
  | .ok u =>
    .error (.unreachable
      (if isKnownHost (u.host.getD defaultHost) then Http.unreachableText else Http.unresolvedText))

end MediaCatalog.RepairJob

/-! Why a text is no absolute URL. -/

namespace MediaCatalog.Url

inductive Fault where
  | relative
  | emptyHost
  | internationalName
  | domainCharacter
  | port
  | ipv4
  | ipv6
  deriving DecidableEq, Repr

def Fault.message : Fault → String
  | .relative => "relative URL without a base"
  | .emptyHost => "empty host"
  | .internationalName => "invalid international domain name"
  | .domainCharacter => "invalid domain character"
  | .port => "invalid port number"
  | .ipv4 => "invalid IPv4 address"
  | .ipv6 => "invalid IPv6 address"

end MediaCatalog.Url

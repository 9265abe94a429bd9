import MediaCatalog.Text.Base64
import MediaCatalog.Url.Basic

/-!
Requests. A program gives a client the text of a URL; the client reads it, and what goes out is a
request for the URL that the text stands for.
-/

namespace MediaCatalog.Http

structure Request where
  method : String
  url : String
  /-- One for each login, in their order. -/
  authorization : List String := []
  contentType : Option String := none
  userAgent : Option String := none
  body : String := ""
  deriving DecidableEq, Repr

/-- Why there is no answer to a request, or no good one. -/
inductive Fault where
  | invalidUrl (fault : Url.Fault)
  /-- Only schemes of the web with a host can be asked. -/
  | refusedScheme (url : String)
  /-- What went wrong, from the outer to the inner cause. -/
  | unanswered (url : String) (causes : List String)
  | brokenBody (causes : List String)
  | status (url : String) (code : Nat)
  deriving DecidableEq, Repr

namespace Fault

def message : Fault → String
  | .invalidUrl _ => "builder error"
  | .refusedScheme url => s!"builder error for url ({url})"
  | .unanswered url _ => s!"error sending request for url ({url})"
  | .brokenBody _ => "error decoding response body"
  | .status url code =>
    let side := if code < 500 then "client" else "server"
    s!"HTTP status {side} error ({code}) for url ({url})"

/-- What lies behind the message. -/
def causes : Fault → List String
  | .invalidUrl fault => [fault.message]
  | .refusedScheme _ => ["URL scheme is not allowed"]
  | .unanswered _ causes | .brokenBody causes => causes
  | .status _ _ => []

/-- The status, if the server answered with one that is an error. -/
def status? : Fault → Option Nat
  | .status _ code => some code
  | _ => none

end Fault

/-- The header for a user and a password. -/
def basicLogin (user password : String) : String :=
  "Basic " ++ String.ofList (Text.base64 (user ++ ":" ++ password).toUTF8.data.toList)

/-- What a part of a URL stands for, if that is a text. -/
def decoded? (part : String) : Option String :=
  String.fromUTF8? (Url.percentDecode part.toList).toByteArray

/-- The login in a URL. A user that is no text is none. -/
def login? (u : Url) : Option (String × String) :=
  let password := if u.password.isEmpty then none else decoded? u.password
  match decoded? u.user with
  | none => none
  | some user => if user.isEmpty && password.isNone then none else some (user, password.getD "")

/-- A URL as it is shown: what is no login stays in it. -/
def withoutLogin (u : Url) : Url :=
  if (login? u).isSome then { u with user := "", password := "" } else u

namespace Request

/-- The URL that is asked. -/
def target? (r : Request) : Except Fault Url :=
  match Url.parse r.url with
  | .error fault => .error (.invalidUrl fault)
  | .ok u =>
    if u.host.isNone || !(u.scheme == "http" || u.scheme == "https") then
      .error (.refusedScheme (withoutLogin u).text)
    else .ok u

/-- The request as it goes out: a login in the URL becomes a header, and its fragment is left out. -/
def outgoing (r : Request) (u : Url) : Request :=
  { r with
    url := { withoutLogin u with fragment := none }.text
    authorization :=
      ((login? u).map fun login => basicLogin login.1 login.2).toList ++ r.authorization }

end Request

end MediaCatalog.Http

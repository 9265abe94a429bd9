import MediaCatalog.Url.Host

/-!
Absolute URLs. Blanks at the ends and line breaks anywhere are dropped, the parts are brought to
their standard form, and `text` writes that form.
-/

namespace MediaCatalog

structure Url where
  scheme : String
  user : String
  password : String
  host : Option Url.Host
  /-- Absent where the scheme implies it. -/
  port : Option Nat
  path : String
  query : Option String
  fragment : Option String
  deriving DecidableEq, Repr

namespace Url

/-- The ports that schemes with a host imply; a file has a host but no port. -/
def impliedPort? : String → Option Nat
  | "http" | "ws" => some 80
  | "https" | "wss" => some 443
  | "ftp" => some 21
  | _ => none

/-- Schemes whose URLs have a host by rule and take a backslash for a slash. -/
def isSpecial (scheme : String) : Bool :=
  scheme == "file" || (impliedPort? scheme).isSome

def isSlash (special : Bool) (c : Char) : Bool :=
  c == '/' || (special && c == '\\')

/-- Without the blanks at the ends and without tabs and line breaks. -/
def cleaned (text : String) : List Char :=
  let blank (c : Char) := c.toNat ≤ 0x20
  let chars := ((text.toList.dropWhile blank).reverse.dropWhile blank).reverse
  chars.filter fun c => !(c ∈ ['\t', '\n', '\r'])

/-- A scheme, which starts with a letter, in lower case, and what follows its colon. -/
def splitScheme? (chars : List Char) : Option (String × List Char) :=
  let name := chars.takeWhile fun c => c.isAlphanum || c ∈ ['+', '-', '.']
  match chars.drop name.length with
  | ':' :: rest =>
    if name.head?.any Char.isAlpha then some (String.ofList (name.map Char.toLower), rest)
    else none
  | _ => none

/-! ### Paths -/

/-- A segment that stands for the folder it is in. -/
def isHere (segment : List Char) : Bool :=
  (String.ofList segment).toLower ∈ [".", "%2e"]

/-- A segment that stands for the folder above. -/
def isAbove (segment : List Char) : Bool :=
  (String.ofList segment).toLower ∈ ["..", ".%2e", "%2e.", "%2e%2e"]

def isDriveLetter : List Char → Bool
  | [letter, mark] => letter.isAlpha && (mark == ':' || mark == '|')
  | _ => false

/-- Splits at every slash. -/
def segments (special : Bool) (chars : List Char) : List (List Char) :=
  Text.splitAt '/' (chars.map fun c => if isSlash special c then '/' else c)

/-- Leaves the last folder, but never a drive. -/
def leave (file : Bool) (done : List (List Char)) : List (List Char) :=
  match done with
  | [drive] => if file && isDriveLetter drive then done else []
  | _ => done.dropLast

/-- Takes segments one by one; a dot segment at the end leaves an empty one. -/
def walk (file : Bool) : (done : List (List Char)) → List (List Char) → List (List Char)
  | done, [] => done
  | done, segment :: rest =>
    if isAbove segment then
      walk file (leave file done ++ if rest.isEmpty then [[]] else []) rest
    else if isHere segment then
      walk file (done ++ if rest.isEmpty then [[]] else []) rest
    else
      match file && done.isEmpty && isDriveLetter segment, segment with
      | true, letter :: _ => walk file [[letter, ':']] rest
      | _, _ => walk file (done ++ [percentEncode isEncodedInPath segment]) rest

/-- A path that starts with a slash, from what follows it. -/
def pathText (scheme : String) (chars : List Char) : String :=
  let parts := walk (scheme == "file") [] (segments (isSpecial scheme) chars)
  String.ofList (parts.flatMap ('/' :: ·))

/-- The path after a host. Only a URL with a host by rule always has one. -/
def hostPath (scheme : String) (chars : List Char) : String :=
  match chars with
  | [] => if isSpecial scheme then "/" else ""
  | c :: rest => pathText scheme (if isSlash (isSpecial scheme) c then rest else c :: rest)

/-! ### Queries and fragments -/

/-- Cuts at the first character of a kind, which is dropped. -/
def cut (mark : Char) (chars : List Char) : List Char × Option (List Char) :=
  match chars.dropWhile (· != mark) with
  | [] => (chars, none)
  | _ :: rest => (chars.takeWhile (· != mark), some rest)

/-- What stands before the query, the query and the fragment. -/
def splitTail (scheme : String) (chars : List Char) :
    List Char × Option String × Option String :=
  let (front, fragment) := cut '#' chars
  let (front, query) := cut '?' front
  let encoded := if isSpecial scheme then isEncodedInSpecialQuery else isEncodedInQuery
  (front, query.map fun q => String.ofList (percentEncode encoded q),
    fragment.map fun f => String.ofList (percentEncode isEncodedInFragment f))

/-! ### Users, hosts and ports -/

/-- Cuts at the last `@`. -/
def splitUser (authority : List Char) : Option (List Char) × List Char :=
  let host := (authority.reverse.takeWhile (· != '@')).reverse
  if host.length = authority.length then (none, authority)
  else (some (authority.take (authority.length - host.length - 1)), host)

/-- Cuts at the first colon outside brackets. -/
def splitPort : (inside : Bool) → List Char → List Char × Option (List Char)
  | _, [] => ([], none)
  | inside, c :: rest =>
    if c = ':' ∧ inside = false then ([], some rest)
    else
      let (host, port) := splitPort (if c = '[' then true else if c = ']' then false else inside) rest
      (c :: host, port)

/-- A port, absent where there are no digits or the scheme implies it. -/
def portOf (scheme : String) (digits : List Char) : Except Fault (Option Nat) :=
  match Text.readDigits? 10 0 digits with
  | none => .error .port
  | some n =>
    if 65536 ≤ n then .error .port
    else .ok (if digits.isEmpty || impliedPort? scheme = some n then none else some n)

/-- The host before a port. A scheme with hosts by rule does not do without one. -/
def hostOf (scheme : String) (chars : List Char) (portFollows : Bool) : Except Fault Host :=
  if isSpecial scheme then
    if chars.isEmpty then .error .emptyHost else Host.ofDomain chars
  else if chars.isEmpty && portFollows then .error .emptyHost
  else Host.ofOpaque chars

/-- What follows two slashes. -/
def ofAuthority (scheme : String) (chars : List Char) : Except Fault Url :=
  let (front, query, fragment) := splitTail scheme chars
  let ends := isSlash (isSpecial scheme)
  let authority := front.takeWhile (!ends ·)
  let after := front.dropWhile (!ends ·)
  let (credentials, hostAndPort) := splitUser authority
  let (hostPart, portPart) := splitPort false hostAndPort
  if credentials = some [] ∧ hostPart.isEmpty ∧ portPart.isNone ∧
      !(after.isEmpty && query.isNone && fragment.isNone) then
    .error .emptyHost
  else
    match hostOf scheme hostPart portPart.isSome with
    | .error f => .error f
    | .ok host =>
      match portOf scheme (portPart.getD []) with
      | .error f => .error f
      | .ok port =>
        let (user, password) := cut ':' (credentials.getD [])
        let coded := fun cs => String.ofList (percentEncode isEncodedInUser cs)
        if host = .domain "" ∧ !(user.isEmpty && (password.getD []).isEmpty) then .error .emptyHost
        else .ok ⟨scheme, coded user, coded (password.getD []), some host, port,
          hostPath scheme after, query, fragment⟩

/-- What follows the scheme of a file. A drive is part of the path, and this machine is no host. -/
def ofFile (chars : List Char) : Except Fault Url :=
  let (front, query, fragment) := splitTail "file" chars
  let noHost := fun path => .ok ⟨"file", "", "", none, none, path, query, fragment⟩
  match front with
  | a :: b :: rest =>
    if isSlash true a && isSlash true b then
      let host := rest.takeWhile (!isSlash true ·)
      let after := rest.dropWhile (!isSlash true ·)
      if isDriveLetter host then noHost (pathText "file" rest)
      else if host.isEmpty then noHost (hostPath "file" after)
      else
        match Host.ofDomain host with
        | .error f => .error f
        | .ok (.domain "localhost") => noHost (hostPath "file" after)
        | .ok host => .ok ⟨"file", "", "", some host, none, hostPath "file" after, query, fragment⟩
    else noHost (hostPath "file" front)
  | _ => noHost (hostPath "file" front)

/-- What follows another scheme where there are no two slashes. -/
def ofPath (scheme : String) (chars : List Char) : Url :=
  let (front, query, fragment) := splitTail scheme chars
  let path :=
    match front with
    | '/' :: rest => pathText scheme rest
    | _ => String.ofList (percentEncode isControl front)
  ⟨scheme, "", "", none, none, path, query, fragment⟩

def parse (text : String) : Except Fault Url :=
  match splitScheme? (cleaned text) with
  | none => .error .relative
  | some (scheme, rest) =>
    if scheme == "file" then ofFile rest
    else if isSpecial scheme then ofAuthority scheme (rest.dropWhile (isSlash true))
    else
      match rest with
      | '/' :: '/' :: rest => ofAuthority scheme rest
      | _ => .ok (ofPath scheme rest)

/-- The credentials as they stand before a host. -/
def userText (u : Url) : String :=
  if u.user.isEmpty && u.password.isEmpty then ""
  else u.user ++ (if u.password.isEmpty then "" else ":" ++ u.password) ++ "@"

/-- The host with its credentials and port; a path that could be taken for one is kept apart. -/
def authorityText (u : Url) : String :=
  match u.host with
  | none => if u.scheme == "file" then "//" else if u.path.startsWith "//" then "/." else ""
  | some host =>
    "//" ++ u.userText ++ host.text ++
      match u.port with
      | some port => ":" ++ String.ofList (Text.decimalNumber port)
      | none => ""

def text (u : Url) : String :=
  u.scheme ++ ":" ++ u.authorityText ++ u.path ++
    (match u.query with
    | some q => "?" ++ q
    | none => "") ++
    match u.fragment with
    | some f => "#" ++ f
    | none => ""

/-- A base URL as it was given, without slashes at its end, if it is a URL then. -/
def base (text : String) : Except Fault String :=
  match parse (Text.trimSlashes text) with
  | .ok _ => .ok (Text.trimSlashes text)
  | .error f => .error f

end Url

end MediaCatalog

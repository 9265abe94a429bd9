import MediaCatalog.Url.Domain

/-! Hosts: domain names, the number forms of addresses, and names that stand for themselves. -/

namespace MediaCatalog.Url

/-- An address of four bytes is one number, one of sixteen bytes eight groups. -/
inductive Host where
  | domain (name : String)
  | ipv4 (address : Nat)
  | ipv6 (groups : List Nat)
  deriving DecidableEq, Repr

/-! ### Addresses of four bytes -/

/-- The base that a number is written in, and its digits: `0x` and a leading `0` say so. -/
def numberBase : List Char → Nat × List Char
  | '0' :: 'x' :: digits => (16, digits)
  | '0' :: 'X' :: digits => (16, digits)
  | '0' :: d :: digits => (8, d :: digits)
  | digits => (10, digits)

/-- A number of an address. Nothing at all is no number, but nothing after the base is zero. -/
def number? (part : List Char) : Option Nat :=
  if part.isEmpty then none
  else Text.readDigits? (numberBase part).1 0 (numberBase part).2

/-- The parts between the dots, without an empty one at the end. -/
def dottedParts (name : List Char) : List (List Char) :=
  let parts := Text.splitAt '.' name
  if parts.getLast? = some [] then parts.dropLast else parts

/-- A name whose last part is a number is an address or nothing. -/
def endsInNumber (name : List Char) : Bool :=
  match (dottedParts name).getLast? with
  | none => false
  | some last => (!last.isEmpty && last.all Char.isDigit) || (number? last).isSome

/-- The last number fills the bytes that the numbers before it leave. -/
def ipv4OfNumbers? : (bytesLeft : Nat) → List Nat → Option Nat
  | _, [] => none
  | bytesLeft, [n] => if n < Nat.pow 256 bytesLeft then some n else none
  | bytesLeft, n :: rest =>
    match ipv4OfNumbers? (bytesLeft - 1) rest with
    | some low => if n < 256 then some (n * Nat.pow 256 (bytesLeft - 1) + low) else none
    | none => none

def ipv4? (name : List Char) : Option Nat :=
  let parts := dottedParts name
  if 4 < parts.length then none
  else
    match parts.mapM number? with
    | some numbers => ipv4OfNumbers? 4 numbers
    | none => none

def ipv4Text (address : Nat) : String :=
  ".".intercalate ([3, 2, 1, 0].map fun i =>
    String.ofList (Text.decimalNumber (address / Nat.pow 256 i % 256)))

/-! ### Addresses of sixteen bytes -/

/-- A decimal byte without leading zeros, and what follows. -/
def decimalByte? (chars : List Char) : Option (Nat × List Char) :=
  let digits := chars.takeWhile Char.isDigit
  if digits.isEmpty || (1 < digits.length && digits.head? = some '0') then none
  else
    match Text.readDigits? 10 0 digits with
    | some n => if n < 256 then some (n, chars.dropWhile Char.isDigit) else none
    | none => none

/-- Four bytes with dots, to the end, as two groups. -/
def dottedGroups? (chars : List Char) : Option (List Nat) :=
  match decimalByte? chars with
  | some (a, '.' :: rest) =>
    match decimalByte? rest with
    | some (b, '.' :: rest) =>
      match decimalByte? rest with
      | some (c, '.' :: rest) =>
        match decimalByte? rest with
        | some (d, []) => some [a * 256 + b, c * 256 + d]
        | _ => none
      | _ => none
    | _ => none
  | _ => none

/-- Groups read so far, and whether the gap of zeros has come and after how many groups. -/
structure Groups where
  done : List Nat
  gap : Option Nat

/-- The gap counts as one group. -/
def Groups.size (g : Groups) : Nat :=
  g.done.length + if g.gap.isSome then 1 else 0

/-- All eight groups, the gap filled. -/
def Groups.fill? (g : Groups) : Option (List Nat) :=
  match g.gap with
  | some before =>
    some (g.done.take before ++ List.replicate (8 - g.done.length) 0 ++ g.done.drop before)
  | none => if g.done.length = 8 then some g.done else none

/-- Reads groups. The fuel is more than the number of characters. -/
def ipv6Groups? : (fuel : Nat) → List Char → Groups → Option (List Nat)
  | 0, _, _ => none
  | _ + 1, [], g => g.fill?
  | fuel + 1, c :: rest, g =>
    if 8 ≤ g.size then none
    else if c = ':' then
      if g.gap.isSome then none else ipv6Groups? fuel rest ⟨g.done, some g.done.length⟩
    else
      let chars := c :: rest
      let digits := (chars.take 4).takeWhile fun d => (Text.digitIn? 16 d).isSome
      let after := chars.drop digits.length
      match Text.readDigits? 16 0 digits, after with
      | some _, '.' :: _ =>
        if digits.isEmpty || 6 < g.size then none
        else
          match dottedGroups? chars with
          | some groups => Groups.fill? ⟨g.done ++ groups, g.gap⟩
          | none => none
      | some n, ':' :: after =>
        if after.isEmpty then none else ipv6Groups? fuel after ⟨g.done ++ [n], g.gap⟩
      | some n, [] => Groups.fill? ⟨g.done ++ [n], g.gap⟩
      | _, _ => none

/-- A colon at the start has to be two. -/
def ipv6? (chars : List Char) : Option (List Nat) :=
  match chars with
  | ':' :: ':' :: rest => ipv6Groups? (chars.length + 1) rest ⟨[], some 0⟩
  | ':' :: _ => none
  | _ => ipv6Groups? (chars.length + 1) chars ⟨[], none⟩

/-- Length of the run of zeros at the start. -/
def zeros (groups : List Nat) : Nat :=
  (groups.takeWhile (· == 0)).length

/-- The place and length of the first longest run of zeros, if it has two or more. -/
def longestGap (groups : List Nat) : Option (Nat × Nat) :=
  let runs := (List.range groups.length).map fun i => (i, zeros (groups.drop i))
  let best := runs.foldl (fun best run => if best.2 < run.2 then run else best) (0, 1)
  if 1 < best.2 then some best else none

def groupsText (groups : List Nat) : String :=
  ":".intercalate (groups.map fun g => String.ofList (Text.hexNumber g))

def ipv6Text (groups : List Nat) : String :=
  match longestGap groups with
  | none => groupsText groups
  | some (first, size) =>
    groupsText (groups.take first) ++ "::" ++ groupsText (groups.drop (first + size))

/-! ### Hosts -/

/-- What stands between brackets, if the text starts with one. -/
def bracketed (chars : List Char) : Option (Except Fault Host) :=
  match chars with
  | '[' :: rest =>
    some (if rest.getLast? = some ']' then
      match ipv6? rest.dropLast with
      | some groups => .ok (.ipv6 groups)
      | none => .error .ipv6
    else .error .ipv6)
  | _ => none

/-- A host of a scheme whose hosts are domain names or addresses. -/
def Host.ofDomain (chars : List Char) : Except Fault Host :=
  match bracketed chars with
  | some result => result
  | none =>
    match asciiDomain (percentDecode chars) with
    | .error f => .error f
    | .ok "" => .error .emptyHost
    | .ok name =>
      if endsInNumber name.toList then
        match ipv4? name.toList with
        | some address => .ok (.ipv4 address)
        | none => .error .ipv4
      else .ok (.domain name)

/-- A host of any other scheme; it stands for itself. -/
def Host.ofOpaque (chars : List Char) : Except Fault Host :=
  match bracketed chars with
  | some result => result
  | none =>
    if chars.any (fun c => c.toNat = 0 ||
        c ∈ [' ', '#', '/', ':', '<', '>', '?', '@', '[', '\\', ']', '^', '|']) then
      .error .domainCharacter
    else .ok (.domain (String.ofList (percentEncode isControl chars)))

def Host.text : Host → String
  | .domain name => name
  | .ipv4 address => ipv4Text address
  | .ipv6 groups => "[" ++ ipv6Text groups ++ "]"

end MediaCatalog.Url

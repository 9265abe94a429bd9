import MediaCatalog.Text.Hex

/-!
Punycode: a label of any characters written in ASCII. The basic characters come first, then the
others in ascending order as differences, each a number in base 36 with moving thresholds.
-/

namespace MediaCatalog.Url.Punycode

/-- The digit for a value below 36: letters, then decimal digits. -/
def digit (d : Nat) : Char :=
  if d < 26 then Char.ofNat (97 + d) else Char.ofNat (22 + d)

/-- The value of a digit, letters in either case. -/
def value? (c : Char) : Option Nat :=
  match Text.digitValue? c with
  | some d => some (if d < 10 then d + 26 else d - 10)
  | none => none

/-- The least digit that does not end a number, at the given position. -/
def threshold (position bias : Nat) : Nat :=
  if position ≤ bias then 1 else if bias + 26 ≤ position then 26 else position - bias

theorem one_le_threshold (position bias : Nat) : 1 ≤ threshold position bias := by
  unfold threshold
  split
  · omega
  · split <;> omega

theorem threshold_le (position bias : Nat) : threshold position bias ≤ 26 := by
  unfold threshold
  split
  · omega
  · split <;> omega

def settleBias (position delta : Nat) : Nat :=
  if 455 < delta then settleBias (position + 36) (delta / 35)
  else position + 36 * delta / (delta + 38)
termination_by delta
decreasing_by exact Nat.div_lt_self (by omega) (by omega)

/-- The bias after a difference, given how many characters there are now. -/
def adapt (delta count : Nat) (first : Bool) : Nat :=
  let delta := if first then delta / 700 else delta / 2
  settleBias 0 (delta + delta / count)

/-- A number as digits, the least significant first. -/
def number (bias position n : Nat) : List Char :=
  let t := threshold position bias
  if n < t then [digit n]
  else digit (t + (n - t) % (36 - t)) :: number bias (position + 36) ((n - t) / (36 - t))
termination_by n
decreasing_by
  have := one_le_threshold position bias
  have := threshold_le position bias
  calc (n - threshold position bias) / (36 - threshold position bias)
      ≤ n - threshold position bias := Nat.div_le_self _ _
    _ < n := by omega

structure Writer where
  out : List Char
  delta : Nat
  bias : Nat
  count : Nat

/-- Writes the occurrences of one code point. -/
def Writer.visit (basic point : Nat) (w : Writer) (c : Char) : Writer :=
  if c.toNat < point then { w with delta := w.delta + 1 }
  else if c.toNat = point then
    ⟨w.out ++ number w.bias 36 w.delta, 0, adapt w.delta (w.count + 1) (w.count == basic),
      w.count + 1⟩
  else w

def writeAll (label : List Char) (basic : Nat) : (points : List Nat) → (next : Nat) → Writer → Writer
  | [], _, w => w
  | point :: points, next, w =>
    let w := label.foldl (Writer.visit basic point)
      { w with delta := w.delta + (point - next) * (w.count + 1) }
    writeAll label basic points (point + 1) { w with delta := w.delta + 1 }

def insertPoint (n : Nat) : List Nat → List Nat
  | [] => [n]
  | m :: rest => if n < m then n :: m :: rest else if n = m then m :: rest else m :: insertPoint n rest

/-- The form of a label without its marker. -/
def encode (label : List Char) : List Char :=
  let basic := label.filter (·.toNat < 128)
  let points := (label.filter (128 ≤ ·.toNat)).foldr (fun c => insertPoint c.toNat) []
  (if basic.isEmpty then [] else basic ++ ['-']) ++
    (writeAll label basic.length points 128 ⟨[], 0, 72, basic.length⟩).out

/-- Reads one number, weighted, onto a value; it must end. -/
def readNumber (bias : Nat) :
    (chars : List Char) → (position weight value : Nat) →
      Option (Nat × { rest : List Char // rest.length < chars.length })
  | [], _, _, _ => none
  | c :: rest, position, weight, value =>
    match value? c with
    | none => none
    | some d =>
      let t := threshold position bias
      if d < t then some (value + d * weight, ⟨rest, by simp⟩)
      else
        match readNumber bias rest (position + 36) (weight * (36 - t)) (value + d * weight) with
        | none => none
        | some (value, ⟨rest', h⟩) => some (value, ⟨rest', Nat.lt_succ_of_lt h⟩)

def readAll (bias point index : Nat) (out : List Char) : List Char → Option (List Char)
  | [] => some out
  | c :: rest =>
    match readNumber bias (c :: rest) 36 1 index with
    | none => none
    | some (sum, ⟨rest', _shorter⟩) =>
      let count := out.length + 1
      let point := point + sum / count
      if point.isValidChar then
        readAll (adapt (sum - index) count (index == 0)) point (sum % count + 1)
          (out.insertIdx (sum % count) (Char.ofNat point)) rest'
      else none
termination_by chars => chars.length
decreasing_by exact _shorter

/-- Reads a label without its marker. A dash in front of everything marks nothing off. -/
def decode (label : List Char) : Option (List Char) :=
  let ext := (label.reverse.takeWhile (· != '-')).reverse
  let basic := label.take (label.length - ext.length - 1)
  if label.head? = some '-' && basic.isEmpty then none
  else if basic.all (·.toNat < 128) then readAll 72 128 0 basic ext
  else none

end MediaCatalog.Url.Punycode

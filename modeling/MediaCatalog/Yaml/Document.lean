import MediaCatalog.Yaml.Value

/-! Reading a YAML document. -/

namespace MediaCatalog.Yaml

/-- What the aliases of a document mean, and how many may be followed in reading it. -/
structure Anchors where
  /-- The nodes with an anchor, the last first. -/
  nodes : List (Nat × Node Nat)
  limit : Nat

def Anchors.ofNode (node : Node Nat) : Anchors :=
  ⟨node.anchored.reverse, 100 * node.size⟩

namespace Value

/-- How deep collections may nest. -/
def depthLimit : Nat := 128

/-- A value, and how many aliases were followed up to its end. -/
abbrev Read (α : Type) := Nat → Option (α × Nat)

/-- Reads the items of a sequence. -/
def readItems (read : Node Nat → Read Value) : List (Node Nat) → Read (List Value)
  | [], jumps => some ([], jumps)
  | item :: rest, jumps => do
    let (item, jumps) ← read item jumps
    let (rest, jumps) ← readItems read rest jumps
    return (item :: rest, jumps)

/-- Reads the entries of a mapping; no key may come twice. -/
def readEntries (read : Node Nat → Read Value) :
    (done : List (Value × Value)) → List (Node Nat × Node Nat) → Read (List (Value × Value))
  | done, [], jumps => some (done.reverse, jumps)
  | done, (key, value) :: rest, jumps => do
    let (key, jumps) ← read key jumps
    if done.any (same key ·.1) then none
    let (value, jumps) ← read value jumps
    readEntries read ((key, value) :: done) rest jumps

/-- A value under the tag that its node has of the document's own. -/
def withTag? (tag? : Option TagBytes) (value : Value) : Option Value :=
  match ownTag? tag? with
  | none => some value
  | some "" => none
  | some tag => some (.tagged tag value)

/-- Follows an alias to its node. -/
def target? (anchors : Anchors) : Node Nat → Read (Node Nat)
  | .alias n, jumps =>
    if jumps < anchors.limit then (anchors.nodes.lookup n).map (·, jumps + 1) else none
  | node, jumps => some (node, jumps)

/-- Reads a node; `depth` is one more than the collections that may still open. -/
def readNode (anchors : Anchors) : (depth : Nat) → Node Nat → Read Value
  | 0, _, _ => none
  | depth + 1, node, jumps => do
    match ← target? anchors node jumps with
    | (.alias _, _) => none
    | (.scalar p text plain, jumps) => do
      let value ← if (ownTag? p.tag?).isSome then ofScalar? none text plain
        else ofScalar? p.tag? text plain
      return (← withTag? p.tag? value, jumps)
    | (.sequence p items, jumps) => do
      if depth = 0 then none
      let (items, jumps) ← readItems (readNode anchors depth) items jumps
      return (← withTag? p.tag? (.sequence items), jumps)
    | (.mapping p entries, jumps) => do
      if depth = 0 then none
      let (entries, jumps) ← readEntries (readNode anchors depth) [] entries jumps
      return (← withTag? p.tag? (.mapping entries), jumps)

/-- The value of a text that holds one document. -/
def ofBytes? (bytes : ByteArray) : Option Value := do
  let node ← Node.ofTokens? (← Token.ofText? (← decode? bytes))
  let (node, _) ← node.number? []
  let (value, _) ← readNode (.ofNode node) (depthLimit + 1) node 0
  return value

end Value

end MediaCatalog.Yaml

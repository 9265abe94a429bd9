import MediaCatalog.Yaml.Node

/-! Anchors: which node an alias means. -/

namespace MediaCatalog.Yaml

/--
The names of the anchors met so far, with their numbers. A new anchor gets the count of names as
its number, also where it takes a name again; so two anchors can get the same one.
-/
abbrev AnchorNames := List (String × Nat)

namespace Node

def nameAnchor (name : String) (known : AnchorNames) : AnchorNames :=
  (name, known.length) :: known.filter (·.1 != name)

/-- The properties with the number of the anchor in the place of its name. -/
def numberProperties (p : Properties String) (known : AnchorNames) :
    Properties Nat × AnchorNames :=
  match p.anchor? with
  | some name => (⟨some known.length, p.tag?⟩, nameAnchor name known)
  | none => (⟨none, p.tag?⟩, known)

mutual

/-- Numbers anchors and aliases in the order of the text; an alias needs an anchor before it. -/
def number? : Node String → AnchorNames → Option (Node Nat × AnchorNames)
  | .alias name, known => (known.lookup name).map fun n => (.alias n, known)
  | .scalar p text plain, known =>
    let (p, known) := numberProperties p known
    some (.scalar p text plain, known)
  | .sequence p items, known => do
    let (p, known) := numberProperties p known
    let (items, known) ← numberItems? items known
    return (.sequence p items, known)
  | .mapping p entries, known => do
    let (p, known) := numberProperties p known
    let (entries, known) ← numberEntries? entries known
    return (.mapping p entries, known)

def numberItems? : List (Node String) → AnchorNames → Option (List (Node Nat) × AnchorNames)
  | [], known => some ([], known)
  | item :: rest, known => do
    let (item, known) ← number? item known
    let (rest, known) ← numberItems? rest known
    return (item :: rest, known)

def numberEntries? :
    List (Node String × Node String) → AnchorNames →
      Option (List (Node Nat × Node Nat) × AnchorNames)
  | [], known => some ([], known)
  | (key, value) :: rest, known => do
    let (key, known) ← number? key known
    let (value, known) ← number? value known
    let (rest, known) ← numberEntries? rest known
    return ((key, value) :: rest, known)

end

def anchored? (p : Properties Nat) (node : Node Nat) : List (Nat × Node Nat) :=
  match p.anchor? with
  | some n => [(n, node)]
  | none => []

mutual

/-- The nodes with an anchor, in the order in which they begin. -/
def anchored : Node Nat → List (Nat × Node Nat)
  | .alias _ => []
  | .scalar p text plain => anchored? p (.scalar p text plain)
  | .sequence p items => anchored? p (.sequence p items) ++ anchoredItems items
  | .mapping p entries => anchored? p (.mapping p entries) ++ anchoredEntries entries

def anchoredItems : List (Node Nat) → List (Nat × Node Nat)
  | [] => []
  | item :: rest => anchored item ++ anchoredItems rest

def anchoredEntries : List (Node Nat × Node Nat) → List (Nat × Node Nat)
  | [] => []
  | (key, value) :: rest => anchored key ++ anchored value ++ anchoredEntries rest

end

mutual

/-- The number of events that write a node: two for a collection, one for all else. -/
def size : Node Nat → Nat
  | .alias _ | .scalar .. => 1
  | .sequence _ items => 2 + sizeItems items
  | .mapping _ entries => 2 + sizeEntries entries

def sizeItems : List (Node Nat) → Nat
  | [] => 0
  | item :: rest => item.size + sizeItems rest

def sizeEntries : List (Node Nat × Node Nat) → Nat
  | [] => 0
  | (key, value) :: rest => key.size + value.size + sizeEntries rest

end

end Node

end MediaCatalog.Yaml

import MediaCatalog.Yaml.Token

/-! The nodes of a YAML document, as its tokens nest them. -/

namespace MediaCatalog.Yaml

/-- What may stand before a node. -/
structure Properties (α : Type) where
  anchor? : Option α := none
  tag? : Option TagBytes := none

/-- A node. Its anchors and aliases are labels of type `α`. -/
inductive Node (α : Type) where
  | alias (label : α)
  | scalar (properties : Properties α) (text : String) (plain : Bool)
  | sequence (properties : Properties α) (items : List (Node α))
  | mapping (properties : Properties α) (entries : List (Node α × Node α))

namespace Node

/-- The node where none is written. -/
def empty : Node String :=
  .scalar {} "" true

/-- The tags that handles stand for, the given ones first. -/
abbrev Handles := List (String × TagBytes)

def defaultHandles : Handles :=
  [("!", bytesOf ['!']), ("!!", bytesOf "tag:yaml.org,2002:".toList)]

/-- A tag in full; a handle has to be known. -/
def fullTag? (handles : Handles) (handle : String) (suffix : TagBytes) : Option TagBytes :=
  if handle.isEmpty then some suffix
  else (handles.lookup handle).map (· ++ suffix)

/-- Reads an anchor and a tag, in either order, each at most once. -/
def properties? (handles : Handles) : List Token → Option (Properties String × List Token)
  | .anchor a :: .tag h s :: rest => (fullTag? handles h s).map (⟨some a, some ·⟩, rest)
  | .anchor a :: rest => some (⟨some a, none⟩, rest)
  | .tag h s :: .anchor a :: rest => (fullTag? handles h s).map (⟨some a, some ·⟩, rest)
  | .tag h s :: rest => (fullTag? handles h s).map (⟨none, some ·⟩, rest)
  | rest => some ({}, rest)

/-- A scalar with the tag `!` is read as one without a tag. -/
def ofScalar (properties : Properties String) (text : String) (plain : Bool) : Node String :=
  if properties.tag? = some (bytesOf ['!']) then .scalar { properties with tag? := none } text plain
  else .scalar properties text plain

mutual

/--
Reads a node. Block collections are read where `block` allows them; a sequence may stand at the
indentation of the mapping around it where `inMapping` says so.
-/
def read? (handles : Handles) :
    (fuel : Nat) → (block inMapping : Bool) → List Token → Option (Node String × List Token)
  | 0, _, _, _ => none
  | _ + 1, _, _, .alias a :: rest => some (.alias a, rest)
  | fuel + 1, block, inMapping, tokens => do
    let (properties, tokens) ← properties? handles tokens
    match tokens with
    | .blockEntry :: _ =>
      if inMapping then do
        let (items, rest) ← readEntries? handles fuel true tokens
        return (.sequence properties items, rest)
      else if properties.anchor?.isSome || properties.tag?.isSome then
        return (.scalar properties "" true, tokens)
      else none
    | .scalar text plain :: rest => return (ofScalar properties text plain, rest)
    | .flowSequenceStart :: rest => do
      let (items, rest) ← readFlowItems? handles fuel true rest
      return (.sequence properties items, rest)
    | .flowMappingStart :: rest => do
      let (entries, rest) ← readFlowEntries? handles fuel true rest
      return (.mapping properties entries, rest)
    | .blockSequenceStart :: rest =>
      if block then do
        let (items, rest) ← readEntries? handles fuel false rest
        return (.sequence properties items, rest)
      else if properties.anchor?.isSome || properties.tag?.isSome then
        return (.scalar properties "" true, tokens)
      else none
    | .blockMappingStart :: rest =>
      if block then do
        let (entries, rest) ← readMapping? handles fuel rest
        return (.mapping properties entries, rest)
      else if properties.anchor?.isSome || properties.tag?.isSome then
        return (.scalar properties "" true, tokens)
      else none
    | _ =>
      if properties.anchor?.isSome || properties.tag?.isSome then
        return (.scalar properties "" true, tokens)
      else none

/-- Reads the items of a block sequence. One in a mapping has no end of its own. -/
def readEntries? (handles : Handles) :
    (fuel : Nat) → (inMapping : Bool) → List Token → Option (List (Node String) × List Token)
  | 0, _, _ => none
  | fuel + 1, inMapping, .blockEntry :: rest => do
    let missing := match rest with
      | .blockEntry :: _ | .blockEnd :: _ => true
      | .key :: _ | .value :: _ => inMapping
      | _ => false
    let (item, rest) ← if missing then some (empty, rest) else read? handles fuel true false rest
    let (items, rest) ← readEntries? handles fuel inMapping rest
    return (item :: items, rest)
  | _ + 1, true, rest => some ([], rest)
  | _ + 1, false, .blockEnd :: rest => some ([], rest)
  | _ + 1, false, _ => none

/-- Reads the entries of a block mapping. -/
def readMapping? (handles : Handles) :
    (fuel : Nat) → List Token → Option (List (Node String × Node String) × List Token)
  | 0, _ => none
  | fuel + 1, .key :: rest => do
    let (key, rest) ← readPart? handles fuel rest
    let (value, rest) ← match rest with
      | .value :: rest => readPart? handles fuel rest
      | _ => some (empty, rest)
    let (entries, rest) ← readMapping? handles fuel rest
    return ((key, value) :: entries, rest)
  | _ + 1, .blockEnd :: rest => some ([], rest)
  | _ + 1, _ => none

/-- Reads a key or a value of a block mapping; it may be missing. -/
def readPart? (handles : Handles) :
    (fuel : Nat) → List Token → Option (Node String × List Token)
  | 0, _ => none
  | fuel + 1, tokens =>
    match tokens with
    | .key :: _ | .value :: _ | .blockEnd :: _ => some (empty, tokens)
    | _ => read? handles fuel true true tokens

/-- Reads the items of a flow sequence. A single entry of a mapping may stand for one. -/
def readFlowItems? (handles : Handles) :
    (fuel : Nat) → (first : Bool) → List Token → Option (List (Node String) × List Token)
  | 0, _, _ => none
  | _ + 1, _, .flowSequenceEnd :: rest => some ([], rest)
  | fuel + 1, first, tokens => do
    let tokens ← match first, tokens with
      | true, tokens => some tokens
      | false, .flowEntry :: rest => some rest
      | false, _ => none
    match tokens with
    | .flowSequenceEnd :: rest => return ([], rest)
    | .key :: rest => do
      let (key, rest) ← match rest with
        -- a token that cannot begin a key is passed over
        | .value :: rest | .flowEntry :: rest | .flowSequenceEnd :: rest => some (empty, rest)
        | _ => read? handles fuel false false rest
      let (value, rest) ← match rest with
        | .value :: rest =>
          match rest with
          | .flowEntry :: _ | .flowSequenceEnd :: _ => some (empty, rest)
          | _ => read? handles fuel false false rest
        | _ => some (empty, rest)
      let (items, rest) ← readFlowItems? handles fuel false rest
      return (.mapping {} [(key, value)] :: items, rest)
    | _ => do
      let (item, rest) ← read? handles fuel false false tokens
      let (items, rest) ← readFlowItems? handles fuel false rest
      return (item :: items, rest)

/-- Reads the entries of a flow mapping. -/
def readFlowEntries? (handles : Handles) :
    (fuel : Nat) → (first : Bool) → List Token →
      Option (List (Node String × Node String) × List Token)
  | 0, _, _ => none
  | _ + 1, _, .flowMappingEnd :: rest => some ([], rest)
  | fuel + 1, first, tokens => do
    let tokens ← match first, tokens with
      | true, tokens => some tokens
      | false, .flowEntry :: rest => some rest
      | false, _ => none
    match tokens with
    | .flowMappingEnd :: rest => return ([], rest)
    | .key :: rest => do
      let (key, rest) ← readFlowPart? handles fuel true rest
      let (value, rest) ← match rest with
        | .value :: rest => readFlowPart? handles fuel false rest
        | _ => some (empty, rest)
      let (entries, rest) ← readFlowEntries? handles fuel false rest
      return ((key, value) :: entries, rest)
    | _ => do
      let (key, rest) ← read? handles fuel false false tokens
      let (entries, rest) ← readFlowEntries? handles fuel false rest
      return ((key, empty) :: entries, rest)

/-- Reads a key or a value of a flow mapping; it may be missing. -/
def readFlowPart? (handles : Handles) :
    (fuel : Nat) → (isKey : Bool) → List Token → Option (Node String × List Token)
  | 0, _, _ => none
  | fuel + 1, isKey, tokens =>
    match tokens with
    | .flowEntry :: _ | .flowMappingEnd :: _ => some (empty, tokens)
    | .value :: _ => if isKey then some (empty, tokens) else read? handles fuel false false tokens
    | _ => read? handles fuel false false tokens

end

/-- Reads the directives before a document. A version is given once, and it is 1.1 or 1.2. -/
def directives? : (versioned : Bool) → Handles → List Token → Option (Handles × List Token)
  | versioned, handles, .directive (.version major minor) :: rest =>
    if !versioned && major == 1 && (minor == 1 || minor == 2) then directives? true handles rest
    else none
  | versioned, handles, .directive (.tag handle start) :: rest =>
    if (handles.lookup handle).isSome then none
    else directives? versioned (handles ++ [(handle, start)]) rest
  | _, handles, rest => some (handles, rest)

/-- Whether no document follows. -/
def isEnd (tokens : List Token) : Bool :=
  tokens.all fun t => match t with
    | .documentEnd => true
    | _ => false

/-- The one node of a text that holds one document; the node is empty if nothing is written. -/
def ofTokens? (tokens : List Token) : Option (Node String) :=
  if tokens.isEmpty then some empty
  else do
    let (own, rest) ← directives? false [] tokens
    let handles := own ++ defaultHandles
    let fuel := 3 * tokens.length + 3
    let (node, rest) ← match rest with
      | .documentStart :: rest =>
        match rest with
        | [] | .directive _ :: _ | .documentStart :: _ | .documentEnd :: _ => some (empty, rest)
        | _ => read? handles fuel true false rest
      | _ => if tokens.length = rest.length then read? handles fuel true false rest else none
    if isEnd rest then return node else none

end Node

end MediaCatalog.Yaml

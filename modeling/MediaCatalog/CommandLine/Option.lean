/-!
Reading the words of a command line. A level of the command line takes options; a group ends in the
name of a command, and a command may take operands.
-/

namespace MediaCatalog.CommandLine

/-- What an option takes: nothing, one value, or a value each time that it is given. -/
inductive Arity where
  | flag
  | one
  | many
  deriving DecidableEq, Repr

structure OptionRule where
  /-- The name behind two dashes. -/
  name : String
  /-- The letter behind one dash; only flags have one. -/
  letter : Option Char := none
  arity : Arity := .flag
  /-- Which values are taken. -/
  allows : String → Bool := fun _ => true

/-- The options and operands that have been read. -/
structure Given where
  /-- Names with their values in the order of their places; a flag has an empty value. -/
  options : List (String × String) := []
  operands : List String := []
  deriving DecidableEq, Repr

/-- What the words come to. Help and the version are told as soon as they are asked for. -/
inductive Wish (α : Type) where
  | granted (a : α)
  | help
  | version
  | misuse
  deriving DecidableEq, Repr

namespace Given

def has (name : String) (g : Given) : Bool :=
  g.options.any (·.1 == name)

def values (name : String) (g : Given) : List String :=
  (g.options.filter (·.1 == name)).map Prod.snd

def value? (name : String) (g : Given) : Option String :=
  g.options.lookup name

/-- Adds an option, unless it is one that has been given before. -/
def add? (rule : OptionRule) (value : String) (g : Given) : Option Given :=
  if (rule.arity != .many && g.has rule.name) || !rule.allows value then none
  else some { g with options := g.options ++ [(rule.name, value)] }

end Given

namespace Wish

def bind {α β : Type} (w : Wish α) (f : α → Wish β) : Wish β :=
  match w with
  | .granted a => f a
  | .help => .help
  | .version => .version
  | .misuse => .misuse

def ofOption {α : Type} : Option α → Wish α
  | some a => .granted a
  | none => .misuse

end Wish

/-! ### Words -/

/-- What kind of word a word is. -/
inductive Word where
  /-- Two dashes: what follows are operands. -/
  | separator
  | long (name : String) (value : Option String)
  | letters (chars : List Char)
  | plain

def Word.ofText (text : String) : Word :=
  match text.toList with
  | ['-', '-'] => .separator
  | '-' :: '-' :: rest =>
    let name := rest.takeWhile (· != '=')
    match rest.drop name.length with
    | _ :: value => .long (String.ofList name) (some (String.ofList value))
    | [] => .long (String.ofList name) none
  | '-' :: c :: rest => .letters (c :: rest)
  | _ => .plain

/-- A single dash is no option. -/
def isOptionLike (text : String) : Bool :=
  match Word.ofText text with
  | .plain => false
  | .separator | .long _ _ | .letters _ => true

/-- The name of the option that asks for help. -/
def helpName : String := "help"

/-- The name of the option that asks for the version. -/
def versionName : String := "version"

/-- Takes a flag. -/
def takeFlag (rule : OptionRule) (g : Given) : Wish Given :=
  if rule.name = helpName then .help
  else if rule.name = versionName then .version
  else .ofOption (g.add? rule "")

/-- Takes letters, each the flag of a rule. -/
def takeLetters (rules : List OptionRule) : List Char → Given → Wish Given
  | [], g => .granted g
  | c :: rest, g =>
    match rules.find? (·.letter == some c) with
    | none => .misuse
    | some rule => (takeFlag rule g).bind (takeLetters rules rest)

/-- A group ends in the name of a command; a command has so many operands, none of them empty. -/
inductive Level where
  | group
  | command (operands : Nat)
  deriving DecidableEq, Repr

/-- Adds operands, as many as there is room for. -/
def Given.addOperands? (limit : Nat) (words : List String) (g : Given) : Option Given :=
  if g.operands.length + words.length ≤ limit && words.all (!String.isEmpty ·) then
    some { g with operands := g.operands ++ words }
  else none

/-- Reads the words of a level. For a group the answer has the name of a command and its words. -/
def takeWords (level : Level) (rules : List OptionRule) : List String → Given →
    Wish (Given × Option (String × List String))
  | [], g => .granted (g, none)
  | word :: rest, g =>
    match Word.ofText word with
    | .separator =>
      match level with
      | .group => .misuse
      | .command limit => (Wish.ofOption (g.addOperands? limit rest)).bind fun g => .granted (g, none)
    | .plain =>
      match level with
      | .group => .granted (g, some (word, rest))
      | .command limit =>
        (Wish.ofOption (g.addOperands? limit [word])).bind (takeWords level rules rest)
    | .letters chars => (takeLetters rules chars g).bind (takeWords level rules rest)
    | .long name attached =>
      match rules.find? (·.name == name), attached, rest with
      | none, _, _ => .misuse
      | some rule, none, value :: rest' =>
        if rule.arity = .flag then (takeFlag rule g).bind (takeWords level rules (value :: rest'))
        else if isOptionLike value then .misuse
        else (Wish.ofOption (g.add? rule value)).bind (takeWords level rules rest')
      | some rule, none, [] =>
        if rule.arity = .flag then (takeFlag rule g).bind (takeWords level rules []) else .misuse
      | some rule, some value, rest =>
        if rule.arity = .flag then .misuse
        else (Wish.ofOption (g.add? rule value)).bind (takeWords level rules rest)

end MediaCatalog.CommandLine

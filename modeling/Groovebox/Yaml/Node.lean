import Groovebox.Yaml.Layout

/-! The one document of a YAML text: a tree of nodes, and the nodes that anchors
name. -/

namespace Groovebox.Yaml

inductive Node where
  | scalar (tag : Option String) (style : Style) (text : String)
  | sequence (tag : Option String) (items : List Node)
  | mapping (tag : Option String) (entries : List (Node × Node))
  | alias (number : Nat)
  deriving Inhabited

/-- A document with its anchored nodes by number. Of the nodes with one number the
last to begin comes first. -/
structure Document where
  root : Node
  anchored : List (Nat × Node)

structure Source where
  tokens : List Token
  handles : List (String × String)
  anchors : List (String × Nat) := []
  /-- The number of each anchored node, the last to begin first. -/
  numbers : List Nat := []
  /-- The anchored nodes that were read, by their places in the order of `numbers`. -/
  anchored : List (Nat × Node) := []

abbrev Parse := StateT Source Option

def peek : Parse (Option Token) := do return (← get).tokens.head?

def advance : Parse Unit := modify fun s => { s with tokens := s.tokens.drop 1 }

def takes (t : Token) : Parse Bool := do
  if (← peek) = some t then
    advance
    return true
  else return false

def empty : Node := .scalar none .plain ""

def resolveTag (handle suffix : String) : Parse String := do
  if handle.isEmpty then return suffix
  match (← get).handles.lookup handle with
  | some uri => return uri ++ suffix
  | none => failure

structure Properties where
  tag : Option String := none
  anchor : Option String := none

def anchor? : Parse (Option String) := do
  match ← peek with
  | some (.anchor name) =>
    advance
    return some name
  | _ => return none

def tag? : Parse (Option String) := do
  match ← peek with
  | some (.tag handle suffix) =>
    advance
    return some (← resolveTag handle suffix)
  | _ => return none

def properties : Parse Properties := do
  match ← anchor? with
  | some name => return ⟨← tag?, some name⟩
  | none =>
    match ← tag? with
    | some tag => return ⟨some tag, ← anchor?⟩
    | none => return {}

/-- Number an anchored node where it begins: by the count of the names so far. A name
that comes again does not count again, so nodes of several names may share a number.
The answer is the place of the node among the anchored ones. -/
def declare (name : Option String) : Parse (Option Nat) := do
  match name with
  | none => return none
  | some name =>
    let s ← get
    let number := s.anchors.length
    let others := s.anchors.filter (·.1 ≠ name)
    set { s with anchors := (name, number) :: others, numbers := number :: s.numbers }
    return some s.numbers.length

def define (place : Option Nat) (node : Node) : Parse Node := do
  if let some place := place then
    modify fun s => { s with anchored := (place, node) :: s.anchored }
  return node

def Source.byNumber (s : Source) : List (Nat × Node) :=
  s.numbers.zipIdx.filterMap fun (number, i) =>
    (s.anchored.lookup (s.numbers.length - 1 - i)).map (number, ·)

/-- Properties without a node stand for an empty one. -/
def bare (p : Properties) : Parse Node := do
  if p.tag.isNone && p.anchor.isNone then failure
  define (← declare p.anchor) (.scalar p.tag .plain "")

/-- Take the comma before an entry, which the first does not have. -/
def separator (first : Bool) : Parse Unit := do
  if first then return ()
  if ← takes .flowEntry then return () else failure

def endsNode (ends : List Token) (next : Option Token) : Bool := next.all (· ∈ ends)

mutual

/-- Read a node. Blocks may begin only where `block` says so, and a list without an
indent of its own where `indentless` does. -/
def node : Nat → (block indentless : Bool) → Parse Node
  | 0, _, _ => failure
  | fuel + 1, block, indentless => do
    if let some (.alias name) ← peek then
      advance
      match (← get).anchors.lookup name with
      | some n => return .alias n
      | none => failure
    let p ← properties
    match ← peek with
    | some .blockEntry =>
      if indentless then
        let place ← declare p.anchor
        define place (.sequence p.tag (← listItems fuel true))
      else bare p
    | some (.scalar style text) =>
      advance
      define (← declare p.anchor) (.scalar p.tag style text)
    | some .flowSequence =>
      advance
      let place ← declare p.anchor
      define place (.sequence p.tag (← flowItems fuel true))
    | some .flowMapping =>
      advance
      let place ← declare p.anchor
      define place (.mapping p.tag (← flowEntries fuel true))
    | some .blockSequence =>
      if block then
        advance
        let place ← declare p.anchor
        define place (.sequence p.tag (← listItems fuel false))
      else bare p
    | some .blockMapping =>
      if block then
        advance
        let place ← declare p.anchor
        define place (.mapping p.tag (← blockEntries fuel))
      else bare p
    | _ => bare p

def nodeOrEmpty : Nat → (block indentless : Bool) → List Token → Parse Node
  | 0, _, _, _ => failure
  | fuel + 1, block, indentless, ends => do
    if endsNode ends (← peek) then return empty else node fuel block indentless

/-- Read the items of a block list. Without an indent of its own it ends where no item
follows. -/
def listItems : Nat → (indentless : Bool) → Parse (List Node)
  | 0, _ => failure
  | fuel + 1, indentless => do
    if ← takes .blockEntry then
      let ends := if indentless then [.blockEntry, .key, .value, .blockEnd]
        else [Token.blockEntry, .blockEnd]
      let item ← nodeOrEmpty fuel true false ends
      return item :: (← listItems fuel indentless)
    else if indentless then return []
    else if ← takes .blockEnd then return []
    else failure

def blockEntries : Nat → Parse (List (Node × Node))
  | 0 => failure
  | fuel + 1 => do
    let ends := [Token.key, .value, .blockEnd]
    if ← takes .key then
      let key ← nodeOrEmpty fuel true true ends
      let value ← if ← takes .value then nodeOrEmpty fuel true true ends else pure empty
      return (key, value) :: (← blockEntries fuel)
    else if ← takes .blockEnd then return []
    else failure

/-- Read the items between square brackets. A key there makes a mapping of one entry. -/
def flowItems : Nat → (first : Bool) → Parse (List Node)
  | 0, _ => failure
  | fuel + 1, first => do
    if ← takes .flowSequenceEnd then return []
    separator first
    if ← takes .flowSequenceEnd then return []
    let item ← if ← takes .key then flowPair fuel else node fuel false false
    return item :: (← flowItems fuel false)

def flowPair : Nat → Parse Node
  | 0 => failure
  | fuel + 1 => do
    let ends := [Token.value, .flowEntry, .flowSequenceEnd]
    let key ← do
      if endsNode ends (← peek) then
        advance
        pure empty
      else node fuel false false
    let value ← if ← takes .value then
        nodeOrEmpty fuel false false [.flowEntry, .flowSequenceEnd]
      else pure empty
    return .mapping none [(key, value)]

/-- Read the entries between curly brackets. A node alone is a key without a value. -/
def flowEntries : Nat → (first : Bool) → Parse (List (Node × Node))
  | 0, _ => failure
  | fuel + 1, first => do
    if ← takes .flowMappingEnd then return []
    separator first
    if ← takes .flowMappingEnd then return []
    let entry ← do
      if ← takes .key then
        let key ← nodeOrEmpty fuel false false [.value, .flowEntry, .flowMappingEnd]
        let value ← if ← takes .value then
            nodeOrEmpty fuel false false [.flowEntry, .flowMappingEnd]
          else pure empty
        pure (key, value)
      else pure (← node fuel false false, empty)
    return entry :: (← flowEntries fuel false)

end

/-- Read the directives before a document: at most one version, and each handle once. -/
def directives : List Token → (version : Bool) → List (String × String) →
    Option (List (String × String) × List Token)
  | .version major minor :: rest, version, handles =>
    if version || major ≠ 1 || (minor ≠ 1 && minor ≠ 2) then none
    else directives rest true handles
  | .tagPrefix handle uri :: rest, version, handles =>
    if handles.any (·.1 = handle) then none
    else directives rest version (handles ++ [(handle, uri)])
  | .documentStart :: rest, _, handles => some (handles, rest)
  | _, _, _ => none

def commonHandles : List (String × String) := [("!", "!"), ("!!", "tag:yaml.org,2002:")]

def isDirective : Token → Bool
  | .version .. | .tagPrefix .. => true
  | _ => false

def document? (tokens : List Token) : Option Document := do
  let fuel := 3 * tokens.length + 3
  let (content, s) ← match tokens with
    | [] => failure
    | first :: _ =>
      if isDirective first || first = .documentStart then
        let (handles, rest) ← directives tokens false []
        let source : Source := { tokens := rest, handles := handles ++ commonHandles }
        let isEmpty := rest.head?.all fun t =>
          isDirective t || t = .documentStart || t = .documentEnd
        if isEmpty then some (empty, source) else (node fuel true false).run source
      else (node fuel true false).run { tokens, handles := commonHandles }
  if (s.tokens.dropWhile (· = .documentEnd)).isEmpty then return ⟨content, s.byNumber⟩
  else failure

mutual

/-- The number of places in a node: one for a leaf, two for a bracket of nodes. -/
def Node.size : Node → Nat
  | .scalar .. | .alias _ => 1
  | .sequence _ items => sizes items + 2
  | .mapping _ entries => entrySizes entries + 2

def sizes : List Node → Nat
  | [] => 0
  | n :: rest => n.size + sizes rest

def entrySizes : List (Node × Node) → Nat
  | [] => 0
  | (k, v) :: rest => k.size + v.size + entrySizes rest

end

end Groovebox.Yaml

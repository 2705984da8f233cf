import Groovebox.Song.Shape
import Groovebox.Yaml.Node

/-! Reading typed data from YAML nodes. An alias stands for its node; how often one
may be followed depends on the size of the document. -/

namespace Groovebox.Yaml

/-- Nodes may nest this deep where they are read. -/
def depthLimit : Nat := 128

structure Place where
  anchored : List (Nat × Node)
  depth : Nat
  node : Node

/-- The state counts the aliases that may still be followed. -/
abbrev Read := StateT Nat Option

/-- Follow an alias. Its node is no alias. -/
def follow (p : Place) : Read Place :=
  match p.node with
  | .alias n => do
    match ← get, p.anchored.lookup n with
    | left + 1, some node =>
      set left
      return { p with node }
    | _, _ => failure
  | _ => return p

def enter (p : Place) : Read Nat :=
  if p.depth < depthLimit then return p.depth + 1 else failure

def nullTag : String := "tag:yaml.org,2002:null"
def boolTag : String := "tag:yaml.org,2002:bool"
def intTag : String := "tag:yaml.org,2002:int"
def floatTag : String := "tag:yaml.org,2002:float"

/-- A scalar that may be other than text: a plain one, or a literal with this tag. -/
def isTyped (expected : String) (tag : Option String) (style : Style) : Bool :=
  style = .plain || (style = .literal && tag = some expected)

def readText (p : Place) : Read String := do
  match (← follow p).node with
  | .scalar _ _ text => return text
  | _ => failure

def readNatural (limit : Nat) (p : Place) : Read Nat := do
  match (← follow p).node with
  | .scalar tag style text =>
    if !isTyped intTag tag style then failure
    match natural? text.toList with
    | some n => if n ≤ limit then return n else failure
    | none => failure
  | _ => failure

def readFlag (p : Place) : Read Bool := do
  match (← follow p).node with
  | .scalar tag style text =>
    if !isTyped boolTag tag style then failure
    match bool? text.toList with
    | some b => return b
    | none => failure
  | _ => failure

section

variable {α σ : Type}

/-- Nothing is written as an empty plain scalar or as one of the words for null. -/
def readOptional (read : Place → Read α) (p : Place) : Read (Option α) := do
  let p ← follow p
  match p.node with
  | .scalar tag .plain text =>
    let isNothing := isNull text.toList
    match tag with
    | none => if text.isEmpty || isNothing then return none else return some (← read p)
    | some tag =>
      if tag ≠ nullTag then return some (← read p)
      else if isNothing then return none
      else failure
  | _ => return some (← read p)

/-- The items of a sequence. An empty plain scalar has none. -/
def items (p : Place) : Read (List Place) := do
  let p ← follow p
  match p.node with
  | .sequence _ items =>
    let depth ← enter p
    return items.map fun node => { p with depth, node }
  | .scalar _ .plain "" => return []
  | _ => failure

/-- The entries of a mapping. An empty plain scalar has none. -/
def entries (p : Place) : Read (List (Place × Place)) := do
  let p ← follow p
  match p.node with
  | .mapping _ entries =>
    let depth ← enter p
    return entries.map fun (key, value) => ({ p with depth, node := key }, { p with depth, node := value })
  | .scalar _ .plain "" => return []
  | _ => failure

def readList (read : Place → Read α) (p : Place) : Read (List α) := do (← items p).mapM read

def readVector (n : Nat) (read : Place → Read α) (p : Place) : Read (Vector α n) := do
  let list ← readList read p
  if h : list.toArray.size = n then return ⟨list.toArray, h⟩ else failure

def readTable (read : Place → Read α) (p : Place) : Read (List (String × α)) := do
  (← entries p).mapM fun (key, value) => do
    let key ← readText key
    return (key, ← read value)

/-- Read an entry of a record. Fields of other names are left alone, and none may come
twice. -/
def readField (fields : List (Field Place Read σ)) (s : σ) (e : Place × Place) : Read σ := do
  let key ← readText e.1
  match fields.find? (·.name = key) with
  | none => return s
  | some field => if field.isSet s then failure else field.read e.2 s

def readRecord (fields : List (Field Place Read σ)) (start : σ) (p : Place) : Read σ := do
  (← entries p).foldlM (readField fields) start

end

inductive Worth where
  | natural (n : Nat)
  | negative (n : Nat)
  | text (s : String)
  | other
  deriving DecidableEq

/-- The worth of a scalar. An integer of more than 64 bits has none. -/
def plainWorth? (text : String) : Option Worth :=
  match meaning text.toList with
  | .natural n => some (.natural n)
  | .negative n => some (.negative n)
  | .text => some (.text text)
  | .wide => none
  | _ => some .other

/-- A tag of one's own begins with an exclamation mark. It has one character a byte,
and no meaning where its bytes are no text. -/
def isOwnTag (tag : String) : Bool := tag.startsWith "!"

def isText (bytes : String) : Bool :=
  (String.fromUTF8? ⟨(bytes.toList.map fun c => c.toNat.toUInt8).toArray⟩).isSome

def isForeign (tag : Option String) : Bool := tag.any fun tag => isOwnTag tag && isText tag

/-- The worth of a scalar with a tag. Tags of one's own are not understood. -/
def scalarWorth? (tag : Option String) (style : Style) (text : String) : Option Worth :=
  let chars := text.toList
  let untagged := if style = .plain then plainWorth? text else some (.text text)
  if isForeign tag then none
  else
    match tag with
    | none => untagged
    | some tag =>
      if isOwnTag tag then untagged
      else if tag = boolTag then (bool? chars).map fun _ => .other
      else if tag = intTag then
        match meaning chars with
        | .natural n => some (.natural n)
        | .negative n => some (.negative n)
        | _ => none
      else if tag = floatTag then if isFloat chars then some .other else none
      else if tag = nullTag then if isNull chars then some .other else none
      else some (.text text)

/-- Read a node of any kind, with room for as many nested nodes as the number says. -/
def readAny : Nat → Place → Read Worth
  | 0, _ => failure
  | room + 1, p => do
    let p ← follow p
    match p.node with
    | .scalar tag style text =>
      match scalarWorth? tag style text with
      | some worth => return worth
      | none => failure
    | .sequence tag nodes =>
      if isForeign tag then failure
      let _ ← enter p
      for node in nodes do
        let _ ← readAny room { p with depth := p.depth + 1, node }
      return .other
    | .mapping tag nodes =>
      if isForeign tag then failure
      let _ ← enter p
      for (key, value) in nodes do
        let _ ← readAny room { p with depth := p.depth + 1, node := key }
        let _ ← readAny room { p with depth := p.depth + 1, node := value }
      return .other
    | .alias _ => failure

def worth (p : Place) : Read Worth := readAny (depthLimit + 1) p

def readVariant (variants : List Variant) (p : Place) : Read Variant := do
  let tag ← readText p
  match variants.find? (·.tag = tag) with
  | none => failure
  | some variant => return variant

def payload? : Worth → Payload → Option Item
  | .natural n, .number limit make => if n ≤ limit then some (make n) else none
  | .negative 0, .number _ make => some (make 0)
  | .text s, .text make => some (make s)
  | _, _ => none

structure Tagged where
  variant : Option Variant := none
  fields : List (Worth × Worth) := []

def readTagged (variants : List Variant) (t : Tagged) (e : Place × Place) : Read Tagged := do
  let key ← worth e.1
  if key = .text "type" then
    if t.variant.isSome then failure
    return { t with variant := some (← readVariant variants e.2) }
  else return { t with fields := t.fields ++ [(key, ← worth e.2)] }

/-- The key is a name or a number, as those of fields are. -/
def isFieldKey : Worth → Bool
  | .natural _ | .text _ => true
  | _ => false

/-- The key names the one field beside the tag, by its name or by its number. -/
def namesField (variant : Variant) (key : Worth) : Bool :=
  key = .text variant.field || key = .natural 0

/-- Read an item. All of it is read before the tag says what it has to hold. -/
def readItem (variants : List Variant) (p : Place) : Read Item := do
  let p ← follow p
  match p.node with
  | .mapping tag _ =>
    if isForeign tag then failure
    let t ← (← entries p).foldlM (readTagged variants) {}
    let some variant := t.variant | failure
    if !t.fields.all (isFieldKey ·.1) then failure
    match t.fields.filter fun e => namesField variant e.1 with
    | [(_, value)] => payload? value variant.payload
    | _ => failure
  | .sequence tag _ =>
    if isForeign tag then failure
    match ← items p with
    | first :: rest =>
      let variant ← readVariant variants first
      match ← rest.mapM worth with
      | [value] => payload? value variant.payload
      | _ => failure
    | [] => failure
  | _ => failure

def reader : Reader Place Read where
  text := readText
  number := readNatural
  flag := readFlag
  optional := readOptional
  list := readList
  vector := readVector
  table := readTable
  record := readRecord
  item := readItem
  incomplete := failure

def readSong (text : String) : Option Song := do
  let tokens ← tokens? text
  let d ← document? tokens
  (Song.readSong reader ⟨d.anchored, 0, d.root⟩).run' (100 * d.root.size)

end Groovebox.Yaml

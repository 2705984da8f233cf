import Groovebox.Json.Value
import Groovebox.Song.Shape

/-! Reading typed data from JSON values. The first fault in the order of the text
decides. A record may be written as the list of its fields. -/

namespace Groovebox.Json

/-- Brackets must nest less deep where the values in them are read. -/
def depthLimit : Nat := 128

structure Place where
  depth : Nat
  value : Value

def Number.fault? (n : Number) : Option Fault := if n.isFinite then none else some .malformed

def Value.mismatch : Value → Fault
  | .number n => n.fault?.getD .unfit
  | .string c => c.fault
  | .broken read _ => read
  | _ => .unfit

mutual

def Value.skipFault? : Value → Option Fault
  | .list items fault => (itemsSkipFault? items) <|> fault
  | .object entries fault => (entriesSkipFault? entries) <|> fault
  | .broken _ skipped => some skipped
  | _ => none

def itemsSkipFault? : List Value → Option Fault
  | [] => none
  | v :: rest => v.skipFault? <|> itemsSkipFault? rest

def entriesSkipFault? : List (Content × Value) → Option Fault
  | [] => none
  | (_, v) :: rest => v.skipFault? <|> entriesSkipFault? rest

end

mutual

def Value.readFault? (depth : Nat) : Value → Option Fault
  | .null | .bool _ => none
  | .number n => n.fault?
  | .string (.ok _) => none
  | .string (.error f) => some f
  | .list items fault =>
    if depthLimit ≤ depth + 1 then some .malformed
    else itemsReadFault? (depth + 1) items <|> fault
  | .object entries fault =>
    if depthLimit ≤ depth + 1 then some .malformed
    else entriesReadFault? (depth + 1) entries <|> fault
  | .broken read _ => some read

def itemsReadFault? (depth : Nat) : List Value → Option Fault
  | [] => none
  | v :: rest => v.readFault? depth <|> itemsReadFault? depth rest

def entriesReadFault? (depth : Nat) : List (Content × Value) → Option Fault
  | [] => none
  | (.error f, _) :: _ => some f
  | (.ok _, v) :: rest => v.readFault? depth <|> entriesReadFault? depth rest

end

def check : Option Fault → Except Fault Unit
  | none => .ok ()
  | some f => .error f

def enter (depth : Nat) : Except Fault Nat :=
  if depthLimit ≤ depth + 1 then .error .malformed else .ok (depth + 1)

def readText (p : Place) : Except Fault String :=
  match p.value with
  | .string c => c
  | v => .error v.mismatch

def readNatural (limit : Nat) (p : Place) : Except Fault Nat :=
  match p.value with
  | .number (.natural n) =>
    if n ≤ limit then .ok n else .error (Value.number (.natural n)).mismatch
  | v => .error v.mismatch

def readFlag (p : Place) : Except Fault Bool :=
  match p.value with
  | .bool b => .ok b
  | v => .error v.mismatch

section

variable {α σ : Type}

def readOptional (read : Place → Except Fault α) (p : Place) : Except Fault (Option α) :=
  match p.value with
  | .null => .ok none
  | _ => (read p).map some

def readList (read : Place → Except Fault α) (p : Place) : Except Fault (List α) := do
  match p.value with
  | .list items fault =>
    let depth ← enter p.depth
    let read ← items.mapM fun v => read ⟨depth, v⟩
    check fault
    return read
  | v => throw v.mismatch

/-- What is left behind the items that a list of fixed length takes. -/
def checkEnd (items : List Value) (fault : Option Fault) : Except Fault Unit :=
  if items.isEmpty then check fault else .error .malformed

def readVector (n : Nat) (read : Place → Except Fault α) (p : Place) :
    Except Fault (Vector α n) := do
  match p.value with
  | .list items fault =>
    let depth ← enter p.depth
    let taken ← (items.take n).mapM fun v => read ⟨depth, v⟩
    checkEnd (items.drop n) fault
    if h : taken.toArray.size = n then return ⟨taken.toArray, h⟩ else throw .unfit
  | v => throw v.mismatch

def readEntry (read : Place → Except Fault α) (depth : Nat) (e : Content × Value) :
    Except Fault (String × α) := do
  let key ← e.1
  return (key, ← read ⟨depth, e.2⟩)

def readTable (read : Place → Except Fault α) (p : Place) : Except Fault (List (String × α)) := do
  match p.value with
  | .object entries fault =>
    let depth ← enter p.depth
    let read ← entries.mapM (readEntry read depth)
    check fault
    return read
  | v => throw v.mismatch

/-- Read an entry of a record. Fields of other names are skipped, and none may come
twice. -/
def readField (fields : List (Field Place (Except Fault) σ)) (depth : Nat) (s : σ)
    (e : Content × Value) : Except Fault σ := do
  let key ← e.1
  match fields.find? (·.name = key) with
  | none =>
    check e.2.skipFault?
    return s
  | some field => if field.isSet s then throw .unfit else field.read ⟨depth, e.2⟩ s

/-- Read the fields of a record in their order. The last ones may be left out. -/
def readInOrder (depth : Nat) (fault : Option Fault) :
    List (Field Place (Except Fault) σ) → List Value → σ → Except Fault σ
  | field :: fields, v :: rest, s => do
    readInOrder depth fault fields rest (← field.read ⟨depth, v⟩ s)
  | _, rest, s => do
    checkEnd rest fault
    return s

def readRecord (fields : List (Field Place (Except Fault) σ)) (start : σ) (p : Place) :
    Except Fault σ := do
  match p.value with
  | .object entries fault =>
    let depth ← enter p.depth
    let s ← entries.foldlM (readField fields depth) start
    check fault
    return s
  | .list items fault => readInOrder (← enter p.depth) fault fields items start
  | v => throw v.mismatch

end

def readTag (variants : List Variant) (v : Value) : Except Fault Variant := do
  let tag ← readText ⟨0, v⟩
  match variants.find? (·.tag = tag) with
  | none => throw .unfit
  | some variant => return variant

def readPayload (v : Value) : Payload → Except Fault Item
  | .number limit make => (readNatural limit ⟨0, v⟩).map make
  | .text make => (readText ⟨0, v⟩).map make

structure Tagged where
  variant : Option Variant := none
  fields : List (String × Value) := []

def readTagged (variants : List Variant) (depth : Nat) (t : Tagged) (e : Content × Value) :
    Except Fault Tagged := do
  let key ← e.1
  if key = "type" then
    if t.variant.isSome then throw .unfit
    return { t with variant := some (← readTag variants e.2) }
  else
    check (e.2.readFault? depth)
    return { t with fields := t.fields ++ [(key, e.2)] }

/-- Read an item. All of it is read before the tag says what it has to hold. -/
def readItem (variants : List Variant) (p : Place) : Except Fault Item := do
  match p.value with
  | .object entries fault =>
    let depth ← enter p.depth
    let t ← entries.foldlM (readTagged variants depth) {}
    check fault
    let some variant := t.variant | throw .unfit
    match t.fields.filter (·.1 = variant.field) with
    | [(_, v)] => readPayload v variant.payload
    | _ => throw .unfit
  | .list [] fault =>
    let _ ← enter p.depth
    check fault
    throw .unfit
  | .list (tag :: rest) fault =>
    let depth ← enter p.depth
    let variant ← readTag variants tag
    check (itemsReadFault? depth rest <|> fault)
    match rest with
    | [v] => readPayload v variant.payload
    | _ => throw .unfit
  | v => throw v.mismatch

def reader : Reader Place (Except Fault) where
  text := readText
  number := readNatural
  flag := readFlag
  optional := readOptional
  list := readList
  vector := readVector
  table := readTable
  record := readRecord
  item := readItem
  incomplete := .error .unfit

def readSong (text : String) : Except Fault Song := do
  let (value, rest) := readDocument text
  let song ← Song.readSong reader ⟨0, value⟩
  if rest.any (·.isEmpty) then return song else throw .malformed

end Groovebox.Json

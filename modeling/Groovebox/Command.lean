import Groovebox.Editor
import Groovebox.Folder
import Groovebox.Notation
import Groovebox.Song.Format

/-! Commands and how they are read from words. Tracks are counted from one in what
is typed and from zero everywhere else. -/

namespace Groovebox

open Text

inductive CommandError where
  | edit (fault : EditError)
  | items (fault : NotationError)
  | number (fault : NumberError)
  | reading (path : String) (fault : FileFault)
  | writing (path : String) (fault : FileFault)
  | parsing (path : String) (fault : ReadError)
  | usage (text : String)
  | unbalancedQuotes
  | zeroTempo
  | padOutOfRange
  | badTrack (word : String)
  | noTrack
  | badContainer (word : String)
  | noContainer (track : Nat) (container : Container)
  | badIndex (word : String)
  | unknown (word : String)
  deriving DecidableEq

def CommandError.chain : CommandError → List String
  | .edit fault => [fault.message]
  | .items fault => [fault.message]
  | .number fault => [fault.message]
  | .reading path fault => [s!"reading {path}", fault.message]
  | .writing path fault => [s!"writing {path}", fault.message]
  | .parsing path fault => [s!"parsing {path}", fault.message]
  | .usage text => [s!"usage: {text}"]
  | .unbalancedQuotes => ["unbalanced quotes"]
  | .zeroTempo => ["bpm must be positive"]
  | .padOutOfRange => ["pad must be 0-7"]
  | .badTrack word => ["bad track index '" ++ word ++ "'"]
  | .noTrack => ["no such track index"]
  | .badContainer word => ["bad container '" ++ word ++ "' (use g<n> or s<n>)"]
  | .noContainer track container => [s!"track {track + 1} has no container {container.label}"]
  | .badIndex word => ["bad index '" ++ word ++ "'"]
  | .unknown word => ["unknown command '" ++ word ++ "' (type :help)"]

def CommandError.message (e : CommandError) : String := ": ".intercalate e.chain

structure Address where
  track : Nat
  container : Container
  deriving DecidableEq

inductive Command where
  | nothing
  | setBpm (bpm : UInt32)
  | addTrack (name : String)
  | removeTrack (track : Nat)
  | listTracks
  | showPad (track : Nat) (pad : UInt8)
  | setPad (track : Nat) (pad : UInt8) (steps : Option UInt32)
  | setPads (track : Nat) (steps : UInt32)
  | showItems (address : Address)
  | setItems (address : Address) (items : List Item)
  | showTimeline (address : Address)
  | insert (address : Address) (index : Nat) (item : Item)
  | delete (address : Address) (indices : List Nat)
  | moveItem (address : Address) (source target : Nat)
  | replace (address : Address) (index : Nat) (item : Item)
  /-- The ranges are read one by one, each after the one before was selected. -/
  | select (address : Address) (ranges : List String)
  | deselectAll (address : Address)
  | deselect (address : Address) (indices : List Nat)
  | group (kind : GroupKind) (address : Address)
  | ungroup (address : Address)
  | cut (address : Address)
  /-- The step is read when the drag has begun. -/
  | drag (address : Address) (step : Option String)
  | hover (step : UInt32)
  | drop
  | cancel
  | moveBlock (address : Address) (first last : Nat) (target : UInt32)
  | events (track : Nat)
  | arrangement
  | check (track : Nat)
  | save (path : String)
  | load (path : String)

namespace Command

def indexLimit : Nat := Nat.pow 2 64 - 1

def argument (arguments : List String) (position : Nat) (usage : String) :
    Except CommandError String :=
  match arguments[position]? with
  | none => .error (.usage usage)
  | some word => .ok word

def readNumber (limit : Nat) (word : String) : Except CommandError Nat :=
  (Text.readNumber limit word.toList).mapError .number

def readSteps (word : String) : Except CommandError UInt32 :=
  (readNumber maxStep word).map UInt32.ofNat

def readIndex (word : List Char) : Except CommandError Nat :=
  (Text.readNumber indexLimit word).mapError fun _ => .badIndex (String.ofList word)

def readIndices (words : List String) : Except CommandError (List Nat) :=
  words.mapM fun word => readIndex word.toList

def splitRange? : List Char → Option (List Char × List Char)
  | [] => none
  | '.' :: '.' :: rest => some ([], rest)
  | c :: rest => (splitRange? rest).map fun (first, last) => (c :: first, last)

def readRange (word : String) : Except CommandError (Nat × Nat) :=
  match splitRange? word.toList with
  | none => (readIndex word.toList).map fun index => (index, index)
  | some (first, last) => do
    return (← readIndex first, ← readIndex (last.dropWhile (· = '=')))

def readTrack (tracks : Nat) (word : String) : Except CommandError Nat :=
  match Text.readNumber indexLimit word.toList with
  | .error _ => .error (.badTrack word)
  | .ok number => if number = 0 ∨ tracks < number then .error .noTrack else .ok (number - 1)

def readContainer (name : List Char) : Except CommandError Container :=
  match name with
  | 'g' :: _ :: _ => .ok (.named ⟨.group, String.ofList name⟩)
  | 's' :: _ :: _ => .ok (.named ⟨.super, String.ofList name⟩)
  | _ =>
    if name = "root".toList then .ok .root else .error (.badContainer (String.ofList name))

def readAddress (tracks : Nat) (word : String) : Except CommandError Address := do
  let number := word.toList.takeWhile (· ≠ '.')
  let track ← readTrack tracks (String.ofList number)
  match word.toList.drop number.length with
  | [] => return ⟨track, .root⟩
  | _ :: name => return ⟨track, ← readContainer name⟩

def readItem (word : String) : Except CommandError Item := (parseItem word).mapError .items

def addressArgument (tracks : Nat) (arguments : List String) (usage : String) :
    Except CommandError Address := do
  readAddress tracks (← argument arguments 0 usage)

def indexArgument (arguments : List String) (position : Nat) (usage : String) :
    Except CommandError Nat := do
  readIndex (← argument arguments position usage).toList

def readBpm (arguments : List String) : Except CommandError Command := do
  let bpm ← readSteps (← argument arguments 0 "bpm <number>")
  if bpm = 0 then throw .zeroTempo
  return .setBpm bpm

def readName (arguments : List String) : Except CommandError Command := do
  let usage := "track \"Name\""
  let name ← argument arguments 0 usage
  if name.isEmpty then throw (.usage usage)
  return .addTrack name

def readPad (tracks : Nat) (arguments : List String) : Except CommandError Command := do
  let usage := "pad <track> <pad 0-7> [steps|default]"
  let track ← readTrack tracks (← argument arguments 0 usage)
  let pad ← readNumber 255 (← argument arguments 1 usage)
  if padCount ≤ pad then throw .padOutOfRange
  match arguments[2]? with
  | none => return .showPad track (UInt8.ofNat pad)
  | some word =>
    let steps ← if word = "default" then pure none else (readSteps word).map some
    return .setPad track (UInt8.ofNat pad) steps

def readPads (tracks : Nat) (arguments : List String) : Except CommandError Command := do
  let usage := "padsteps <track> <steps>"
  let track ← readTrack tracks (← argument arguments 0 usage)
  return .setPads track (← readSteps (← argument arguments 1 usage))

def readSequence (tracks : Nat) (arguments : List String) : Except CommandError Command := do
  let address ← addressArgument tracks arguments "seq <addr> \"p0 ~8 [g1]\""
  match arguments.tail with
  | [] => return .showItems address
  | words => return .setItems address (← (parseSequence (" ".intercalate words)).mapError .items)

def readDelete (tracks : Nat) (arguments : List String) : Except CommandError Command := do
  let usage := "del <addr> <index>..."
  let address ← addressArgument tracks arguments usage
  let indices ← readIndices arguments.tail
  if indices.isEmpty then throw (.usage usage)
  return .delete address indices

def readSelect (tracks : Nat) (arguments : List String) : Except CommandError Command := do
  let usage := "select <addr> <index|a..b>..."
  let address ← addressArgument tracks arguments usage
  if arguments.tail.isEmpty then throw (.usage usage)
  return .select address arguments.tail

def readDeselect (tracks : Nat) (arguments : List String) : Except CommandError Command := do
  let address ← addressArgument tracks arguments "deselect <addr> [index...]"
  match arguments.tail with
  | [] => return .deselectAll address
  | words => return .deselect address (← readIndices words)

def readDrag (tracks : Nat) (arguments : List String) : Except CommandError Command := do
  let usage := "drag <addr> [step] | drag to <step>"
  let first ← argument arguments 0 usage
  if first = "to" then return .hover (← readSteps (← argument arguments 1 usage))
  else return .drag (← readAddress tracks first) arguments[1]?

/-- Read the move of a block. The target is the grid line nearest to the step. -/
def readMove (tracks : Nat) (arguments : List String) : Except CommandError Command := do
  let usage := "move <addr> <first> <last> <target_step>"
  let address ← addressArgument tracks arguments usage
  let first ← indexArgument arguments 1 usage
  let last ← indexArgument arguments 2 usage
  let step ← readSteps (← argument arguments 3 usage)
  return .moveBlock address first last (UInt32.ofNat (snap step.toNat))

def readPlacing (tracks : Nat) (arguments : List String) (usage : String)
    (make : Address → Nat → Item → Command) : Except CommandError Command := do
  let address ← addressArgument tracks arguments usage
  let index ← indexArgument arguments 1 usage
  return make address index (← readItem (← argument arguments 2 usage))

def ofWords (tracks : Nat) : List String → Except CommandError Command
  | [] => .ok .nothing
  | name :: arguments => do
    let track (usage : String) := do readTrack tracks (← argument arguments 0 usage)
    let address (usage : String) := addressArgument tracks arguments usage
    match name with
    | "" => return .nothing
    | "bpm" => readBpm arguments
    | "track" => readName arguments
    | "remove" => return .removeTrack (← track "remove <track>")
    | "list" => return .listTracks
    | "pad" => readPad tracks arguments
    | "padsteps" => readPads tracks arguments
    | "seq" => readSequence tracks arguments
    | "show" => return .showTimeline (← address "show <addr>")
    | "insert" => readPlacing tracks arguments "insert <addr> <index> <item>" .insert
    | "replace" => readPlacing tracks arguments "replace <addr> <index> <item>" .replace
    | "del" => readDelete tracks arguments
    | "mv" =>
      let usage := "mv <addr> <from> <to>"
      return .moveItem (← address usage) (← indexArgument arguments 1 usage)
        (← indexArgument arguments 2 usage)
    | "select" => readSelect tracks arguments
    | "deselect" => readDeselect tracks arguments
    | "group" => return .group .group (← address "group <addr>")
    | "supergroup" => return .group .super (← address "supergroup <addr>")
    | "ungroup" => return .ungroup (← address "ungroup <addr>")
    | "cut" => return .cut (← address "cut <addr>")
    | "drag" => readDrag tracks arguments
    | "drop" => return .drop
    | "cancel" => return .cancel
    | "move" => readMove tracks arguments
    | "events" =>
      match arguments with
      | [] => return .arrangement
      | word :: _ => return .events (← readTrack tracks word)
    | "check" => return .check (← track "check <track>")
    | "save" => return .save (← argument arguments 0 "save \"file.yaml\"")
    | "open" => return .load (← argument arguments 0 "open \"file.yaml\"")
    | other => throw (.unknown other)

end Command

end Groovebox

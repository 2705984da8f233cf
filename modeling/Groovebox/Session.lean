import Groovebox.Command
import Groovebox.Command.Help
import Groovebox.Command.Line
import Groovebox.Display

/-! Sessions: an editor in a working folder, which lines of commands act on. A line
stops at the first command that fails, and what the commands before it did stays. -/

namespace Groovebox

open Text

structure Session where
  editor : Editor := {}
  folder : Folder := {}
  log : List LogMessage := []
  deriving Inhabited

inductive Output where
  | silence
  | text (text : String)
  | quit
  deriving DecidableEq, Repr

abbrev Action := ExceptT CommandError (StateM Session)

namespace Session

def query {α : Type} (f : Editor → Except EditError α) : Action α := do
  match f (← get).editor with
  | .error fault => throw (.edit fault)
  | .ok value => return value

def perform {α : Type} (f : Editor → Except EditError (Outcome α)) : Action α := do
  let done ← query f
  modify fun s => { s with editor := done.editor, log := s.log ++ done.log }
  return done.value

def update {α : Type} (f : Editor → Except EditError (α × Editor)) : Action α :=
  perform fun e => (f e).map fun (value, editor) => ⟨value, editor, []⟩

def success (text : String) : Action Output := return .text (Display.success text)

def reportChange (done : Bool) (text : String) : Action Output :=
  if done then success text else return .text (Display.unchanged "no change")

def edit (text : String) (f : Editor → Except EditError (Outcome Bool)) : Action Output := do
  reportChange (← perform f) text

def selectionText (indices : List Nat) (container : Container) : String :=
  if indices.isEmpty then "  [nothing selected]"
  else
    let list := " ".intercalate (indices.map toString)
    s!"  selected {list} in {container.label}"

def reportSelection (address : Address) : Action Output := do
  let e := (← get).editor
  return .text (selectionText (e.selection address.track address.container) address.container)

def save (path : String) : Action Output := do
  let s ← get
  match s.folder.write path (s.editor.song.write (Format.ofPath path)) with
  | .error fault => throw (.writing path fault)
  | .ok folder =>
    set { s with folder }
    return .text (Display.saved path)

def readSong (folder : Folder) (path : String) : Except CommandError Song :=
  match folder.read path with
  | .error fault => .error (.reading path fault)
  | .ok text => (Song.read text (Format.ofPath path)).mapError (.parsing path)

def load (path : String) : Action Output := do
  let song ← readSong (← get).folder path
  modify fun s => { s with editor := s.editor.replaceSong song }
  return .text (Display.opened path)

def drag (address : Address) (step : Option String) : Action Output := do
  let (first, last) ← update (·.beginDrag address.track address.container)
  let begun := Display.success s!"dragging {first}..={last} of {address.container.label}"
  match step with
  | none => return .text begun
  | some word =>
    let step ← Command.readSteps word
    let plan ← update (·.hover step)
    return .text (begun ++ "\n" ++ Display.proposal plan)

def group (kind : GroupKind) (address : Address) : Action Output := do
  match ← perform (·.group address.track address.container kind) with
  | some name => success s!"{kind.label} {name.id} created"
  | none => return .text (Display.unchanged "selection is not one contiguous run")

def showItems (address : Address) : Action Output := do
  let t ← query (·.track address.track)
  match t.pattern.sequence? address.container with
  | none => throw (.noContainer address.track address.container)
  | some items => return .text s!"  {writeSequence items}"

def showTimeline (address : Address) : Action Output := do
  let line ← query (·.timeline address.track address.container true)
  let t ← query (·.track address.track)
  let selected := (← get).editor.selection address.track address.container
  return .text (Display.timeline s!"{t.name} {address.container.label}" line selected)

def selectRanges (address : Address) : List String → Action Unit
  | [] => return ()
  | word :: rest => do
    let (first, last) ← Command.readRange word
    update fun e => (e.select address.track address.container first last).map (((), ·))
    selectRanges address rest

/-- Toggle each index that was selected at the start. -/
def deselect (address : Address) (selected : List Nat) : List Nat → Action Unit
  | [] => return ()
  | index :: rest => do
    if index ∈ selected then
      update fun e => (e.toggle address.track address.container index).map (((), ·))
    deselect address selected rest

def run : Command → Action Output
  | .nothing => return .silence
  | .setBpm bpm => do
    modify fun s => { s with editor := s.editor.setBpm bpm }
    return .text (Display.tempo bpm)
  | .addTrack name => do
    let index ← update fun e => .ok (e.addTrack name)
    success s!"added track {index + 1} {name}"
  | .removeTrack track => do
    let removed ← update (·.removeTrack track)
    success s!"removed track {track + 1} {removed.name}"
  | .listTracks =>
    return .text (String.ofList (trimEnd (← get).editor.song.list.toList))
  | .showPad track pad => do
    let t ← query (·.track track)
    return .text s!"  track {track + 1} p{pad.toNat} = {(t.pads.steps pad).toNat} steps"
  | .setPad track pad steps => do
    update fun e => (e.setPadSteps track pad steps).map (((), ·))
    match steps with
    | none => success s!"p{pad.toNat} uses the track default"
    | some steps => success s!"p{pad.toNat} = {steps.toNat} steps"
  | .setPads track steps => do
    update fun e => (e.setDefaultPadSteps track steps).map (((), ·))
    success s!"track {track + 1} pads default to {steps.toNat} steps"
  | .showItems address => showItems address
  | .setItems ⟨track, container⟩ items => edit "sequence set" (·.setSequence track container items)
  | .showTimeline address => showTimeline address
  | .insert ⟨track, container⟩ index item => edit "inserted" (·.insert track container index item)
  | .delete ⟨track, container⟩ indices => edit "deleted" (·.delete track container indices)
  | .moveItem ⟨track, container⟩ source target =>
    edit "moved" (·.moveItem track container source target)
  | .replace ⟨track, container⟩ index item => edit "replaced" (·.replace track container index item)
  | .select address ranges => do
    selectRanges address ranges
    reportSelection address
  | .deselectAll address => do
    modify fun s => { s with editor := s.editor.deselect address.track address.container }
    reportSelection address
  | .deselect address indices => do
    deselect address ((← get).editor.selection address.track address.container) indices
    reportSelection address
  | .group kind address => group kind address
  | .ungroup ⟨track, container⟩ => edit "ungrouped" (·.ungroup track container)
  | .cut ⟨track, container⟩ => edit "cut" (·.cut track container)
  | .drag address step => drag address step
  | .hover step => do return .text (Display.proposal (← update (·.hover step)))
  | .drop => edit "dropped" (·.dropDrag)
  | .cancel => do
    if ← update fun e => .ok e.cancelDrag then success "drag cancelled"
    else return .text (Display.unchanged "no drag in progress")
  | .moveBlock ⟨track, container⟩ first last target =>
    edit "moved" (·.moveBlock track container first last target)
  | .events track => do return .text (Display.events (← query (·.events track)))
  | .arrangement => do return .text s!"  arrangement: {(← get).editor.song.steps} steps"
  | .check track => do return .text (Display.diagnostics (← query (·.check track)))
  | .save path => save path
  | .load path => load path

/-- What is typed behind a colon is about the session itself. -/
def runMeta (name : String) : Output :=
  if name = "help" ∨ name = "h" then .text Command.help
  else if name = "q" ∨ name = "quit" ∨ name = "exit" then .quit
  else .text "unknown meta command"

def runText (text : List Char) : Action Output :=
  match trim text with
  | ':' :: name => return runMeta (String.ofList (trim name))
  | text => do
    match words? text with
    | none => throw .unbalancedQuotes
    | some words =>
      let tracks := (← get).editor.song.tracks.length
      run (← Command.ofWords tracks (words.map String.ofList))

/-- Run commands until one fails or quits, and collect the texts. None of them is
left when a command quits. -/
def runTexts : List (List Char) → Action (Option (List String))
  | [] => return some []
  | text :: rest => do
    match ← runText text with
    | .quit => return none
    | .silence => runTexts rest
    | .text shown => return (← runTexts rest).map (shown :: ·)

def runLine (line : String) : Action Output := do
  match ← runTexts (Command.splitLine line.toList) with
  | none => return .quit
  | some [] => return .silence
  | some shown => return .text ("\n".intercalate shown)

def enter (s : Session) (line : String) : Except CommandError Output × Session := (runLine line).run s

def takeLog (s : Session) : List LogMessage × Session := (s.log, { s with log := [] })

end Session

end Groovebox

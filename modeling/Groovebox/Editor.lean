import Groovebox.Config
import Groovebox.Diagnostics
import Groovebox.Drag
import Groovebox.Events
import Groovebox.Selections
import Groovebox.Song

/-! The editor: a song with its selections and at most one drag. An operation
fails and leaves all as it was, or answers with the editor after it and the
messages that it gives rise to. -/

namespace Groovebox

/-- The greatest length and the last move target that an operation takes. -/
def stepLimit : Nat := 65536

inductive EditError where
  | noSuchTrack (track : Nat)
  | noSuchContainer (track : Nat) (container : Container)
  | noSuchPad (pad : UInt8)
  | zeroLength
  | tooManySteps (steps : Nat)
  | notABlock (container : Container)
  | noDrag
  deriving DecidableEq

def EditError.message : EditError → String
  | .noSuchTrack track => s!"no such track {track}"
  | .noSuchContainer track container => s!"track {track} has no container {container.label}"
  | .noSuchPad pad => s!"pad {pad.toNat} out of range (pads are 0-7)"
  | .zeroLength => "pad length must be positive"
  | .tooManySteps steps => s!"{steps} steps is beyond the {stepLimit}-step limit"
  | .notABlock container => s!"selection in {container.label} does not form a single block"
  | .noDrag => "no drag in progress"

structure ActiveDrag where
  track : Nat
  drag : Drag

structure Editor where
  song : Song := {}
  selections : Selections := {}
  drag : Option ActiveDrag := none
  padSteps : UInt32 := standardPadSteps
  deriving Inhabited

structure Outcome (α : Type) where
  value : α
  editor : Editor
  log : List LogMessage := []

namespace Editor

def track (e : Editor) (track : Nat) : Except EditError Track :=
  match e.song.tracks[track]? with
  | none => .error (.noSuchTrack track)
  | some t => .ok t

def trackWith (e : Editor) (track : Nat) (container : Container) : Except EditError Track := do
  let t ← e.track track
  if (t.pattern.sequence? container).isNone then throw (.noSuchContainer track container)
  return t

def updateTrack (e : Editor) (track : Nat) (f : Track → Track) : Editor :=
  { e with song.tracks := e.song.tracks.modify track f }

def setPattern (e : Editor) (track : Nat) (p : Pattern) : Editor :=
  e.updateTrack track ({ · with pattern := p })

def warnings (track : Nat) (p : Pattern) : List LogMessage :=
  let found := p.diagnose
  found.cyclic.map (fun name => warning s!"track {track + 1}: {name.id} references itself") ++
    found.dangling.map fun name => warning s!"track {track + 1}: reference to missing {name.id}"

def checkSteps (steps : UInt32) : Except EditError Unit :=
  if steps = 0 then .error .zeroLength
  else if stepLimit < steps.toNat then .error (.tooManySteps steps.toNat)
  else .ok ()

def checkItems : List Item → Except EditError Unit
  | [] => .ok ()
  | .pause steps :: rest =>
    match checkSteps steps with
    | .error e => .error e
    | .ok _ => checkItems rest
  | _ :: rest => checkItems rest

def replaceSong (e : Editor) (song : Song) : Editor :=
  { e with song, selections := {}, drag := none }

def setBpm (e : Editor) (bpm : UInt32) : Editor := { e with song.bpm := bpm }

def addTrack (e : Editor) (name : String) : Nat × Editor :=
  let added : Track := { name, pads.fallback := e.padSteps }
  (e.song.tracks.length, { e with song.tracks := e.song.tracks ++ [added] })

/-- Remove a track. A drag on it ends; one on a later track moves down with it. -/
def removeTrack (e : Editor) (track : Nat) : Except EditError (Track × Editor) := do
  let removed ← e.track track
  let drag := e.drag.bind fun active =>
    if active.track = track then none
    else if track < active.track then some { active with track := active.track - 1 }
    else some active
  return (removed,
    { e with
      song.tracks := e.song.tracks.eraseIdx track
      selections := e.selections.forgetTrack track
      drag })

def setPadSteps (e : Editor) (track : Nat) (pad : UInt8) (steps : Option UInt32) :
    Except EditError Editor := do
  if padCount ≤ pad.toNat then throw (.noSuchPad pad)
  if let some steps := steps then checkSteps steps
  let _ ← e.track track
  return e.updateTrack track fun t => { t with pads := t.pads.setOwn pad steps }

def setDefaultPadSteps (e : Editor) (track : Nat) (steps : UInt32) : Except EditError Editor := do
  checkSteps steps
  let _ ← e.track track
  return e.updateTrack track ({ · with pads.fallback := steps })

def timeline (e : Editor) (track : Nat) (container : Container) (showPauses : Bool) :
    Except EditError Timeline := do
  let t ← e.trackWith track container
  return t.pattern.timeline t.pads container showPauses

/-- Put an edit of a container into effect. The edit gets the track and the
selected indices. -/
def edit (e : Editor) (track : Nat) (container : Container)
    (f : Track → List Nat → Option Pattern) : Except EditError (Outcome Bool) := do
  let t ← e.trackWith track container
  match e.selections.edit track container (f t) with
  | (none, _) => return ⟨false, e, []⟩
  | (some p, selections) =>
    return ⟨true, { e.setPattern track p with selections }, warnings track p⟩

def setSequence (e : Editor) (track : Nat) (container : Container) (items : List Item) :
    Except EditError (Outcome Bool) := do
  checkItems items
  e.edit track container fun t _ => t.pattern.setSequence? container (storedPauses items)

def insert (e : Editor) (track : Nat) (container : Container) (index : Nat) (item : Item) :
    Except EditError (Outcome Bool) := do
  checkItems [item]
  e.edit track container fun t _ => t.pattern.insertItems? container index item.stored

def replace (e : Editor) (track : Nat) (container : Container) (index : Nat) (item : Item) :
    Except EditError (Outcome Bool) := do
  checkItems [item]
  e.edit track container fun t _ => t.pattern.replaceItem? container index item.stored

def delete (e : Editor) (track : Nat) (container : Container) (indices : List Nat) :
    Except EditError (Outcome Bool) :=
  e.edit track container fun t _ => t.pattern.removeItems? container indices

def moveItem (e : Editor) (track : Nat) (container : Container) (source target : Nat) :
    Except EditError (Outcome Bool) :=
  e.edit track container fun t _ => t.pattern.moveItem? container source target

def select (e : Editor) (track : Nat) (container : Container) (first last : Nat) :
    Except EditError Editor := do
  let _ ← e.trackWith track container
  return { e with selections := e.selections.selectRange track container first last }

def toggle (e : Editor) (track : Nat) (container : Container) (index : Nat) :
    Except EditError Editor := do
  let _ ← e.trackWith track container
  return { e with selections := e.selections.toggle track container index }

def deselect (e : Editor) (track : Nat) (container : Container) : Editor :=
  { e with selections := e.selections.clear track container }

def selection (e : Editor) (track : Nat) (container : Container) : List Nat :=
  e.selections.get track container

def canGroup (e : Editor) (track : Nat) (container : Container) : Except EditError Bool := do
  let t ← e.track track
  return e.selections.canGroup t.pattern track container

/-- Group the selection. The answer is the new name, or `none` where the selection
is no single run. -/
def group (e : Editor) (track : Nat) (container : Container) (kind : GroupKind) :
    Except EditError (Outcome (Option GroupName)) := do
  let t ← e.trackWith track container
  let done ← e.edit track container fun t selected => t.pattern.group? container selected kind
  if done.value then return ⟨some (t.pattern.freshName kind), done.editor, done.log⟩
  else return ⟨none, e, [warning s!"cannot {kind.label} selection in {container.label}"]⟩

def ungroup (e : Editor) (track : Nat) (container : Container) :
    Except EditError (Outcome Bool) :=
  e.edit track container fun t selected => t.pattern.ungroup? container selected

def cut (e : Editor) (track : Nat) (container : Container) : Except EditError (Outcome Bool) :=
  e.edit track container fun t selected => t.pattern.removeItems? container selected

/-- Pick up the selected block; a drag before it ends. -/
def beginDrag (e : Editor) (track : Nat) (container : Container) :
    Except EditError ((Nat × Nat) × Editor) := do
  let line ← e.timeline track container true
  match Drag.begin? line.tokens container (e.selection track container) with
  | none => throw (.notABlock container)
  | some drag => return ((drag.first, drag.last), { e with drag := some ⟨track, drag⟩ })

def proposal (e : Editor) : Option MovePlan := e.drag.bind (·.drag.proposal)

def hover (e : Editor) (step : UInt32) : Except EditError (MovePlan × Editor) :=
  match e.drag with
  | none => .error .noDrag
  | some active => do
    if stepLimit < step.toNat then throw (.tooManySteps step.toNat)
    let line ← e.timeline active.track active.drag.container true
    let drag := active.drag.hover line.tokens step.toNat
    match drag.proposal with
    | none => throw .noDrag
    | some plan => return (plan, { e with drag := some { active with drag } })

def dropDrag (e : Editor) : Except EditError (Outcome Bool) :=
  match e.drag with
  | none => .error .noDrag
  | some ⟨track, drag⟩ => do
    let t ← e.track track
    let after := { e with drag := none }
    match drag.drop? t.pattern t.pads with
    | none =>
      let text := match drag.proposal with
        | some plan => s!"move to step {plan.target} rejected in {drag.container.label}"
        | none => "drop without a target; nothing moved"
      return ⟨false, after, [warning text]⟩
    | some p =>
      let selections := e.selections.clear track drag.container
      return ⟨true, { after.setPattern track p with selections }, warnings track p⟩

/-- Let go of the block. The answer says whether one was dragged. -/
def cancelDrag (e : Editor) : Bool × Editor := (e.drag.isSome, { e with drag := none })

def moveBlock (e : Editor) (track : Nat) (container : Container) (first last : Nat)
    (target : UInt32) : Except EditError (Outcome Bool) := do
  if stepLimit < target.toNat then throw (.tooManySteps target.toNat)
  let done ← e.edit track container fun t _ =>
    t.pattern.moveBlock? t.pads container first last target.toNat
  if done.value then return done
  else
    let text := s!"move of {first}..={last} to step {target.toNat} rejected in {container.label}"
    return { done with log := [warning text] }

def events (e : Editor) (track : Nat) : Except EditError (List PadEvent) := do
  let t ← e.track track
  return t.pattern.events t.pads

def check (e : Editor) (track : Nat) : Except EditError Diagnostics := do
  let t ← e.track track
  return t.pattern.diagnose

end Editor

end Groovebox

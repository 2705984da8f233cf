import Groovebox.Timeline

/-! Songs: a tempo and the tracks that play together. -/

namespace Groovebox

structure Track where
  name : String
  pads : PadLengths := {}
  pattern : Pattern := {}
  mute : Bool := false
  deriving DecidableEq, Inhabited

structure Song where
  bpm : UInt32 := 120
  tracks : List Track := []
  deriving DecidableEq, Inhabited

def Track.steps (t : Track) : Nat := t.pattern.containerSteps t.pads .root

def padLeft (width : Nat) (text : String) : String :=
  "".pushn ' ' (width - text.length) ++ text

def padRight (width : Nat) (text : String) : String :=
  text.pushn ' ' (width - text.length)

namespace Song

def steps (song : Song) : Nat := (song.tracks.map Track.steps).foldl max 0

def listLine (t : Track) (index : Nat) : String :=
  let p := t.pattern
  let mute := if t.mute then "  [muted]" else ""
  padLeft 2 (toString (index + 1)) ++ s!" {t.name}  {p.root.length} items  {t.steps} steps  " ++
    s!"groups:{p.groups.size} supers:{p.supers.size}{mute}\n"

def list (song : Song) : String :=
  if song.tracks.isEmpty then "[no tracks]"
  else String.join (song.tracks.zipIdx.map fun (t, i) => listLine t i)

end Song

end Groovebox

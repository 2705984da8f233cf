import Groovebox.Document
import Groovebox.Song

/-! The shape of a song in a document: a record of the tempo and the tracks, and
so on down to the items. It is the same in every format; a format says how it
reads the parts. -/

namespace Groovebox.Song

def itemVariants : List Variant :=
  [⟨"pad", "pad", .number 255 fun n => .pad (UInt8.ofNat n)⟩,
    ⟨"pause", "steps", .number maxStep fun n => .pause (UInt32.ofNat n)⟩,
    ⟨"group", "id", .text fun id => .call ⟨.group, id⟩⟩,
    ⟨"super", "id", .text fun id => .call ⟨.super, id⟩⟩]

structure PatternFields where
  root : Option (List Item) := none
  groups : Option (List (String × List Item)) := none
  supers : Option (List (String × List Item)) := none

structure TrackFields where
  name : Option String := none
  own : Option (Vector (Option UInt32) 8) := none
  fallback : Option UInt32 := none
  pattern : Option Pattern := none
  mute : Option Bool := none

structure SongFields where
  bpm : Option UInt32 := none
  tracks : Option (List Track) := none

section Reading

variable {ν : Type} {m : Type → Type} [Monad m] (r : Reader ν m)

def readSteps (v : ν) : m UInt32 := do return UInt32.ofNat (← r.number maxStep v)

def readItems (v : ν) : m (List Item) := r.list (r.item itemVariants) v

def patternFields : List (Field ν m PatternFields) :=
  [⟨"root", (·.root.isSome), fun v s => do return { s with root := some (← readItems r v) }⟩,
    ⟨"groups", (·.groups.isSome), fun v s => do
      return { s with groups := some (← r.table (readItems r) v) }⟩,
    ⟨"supers", (·.supers.isSome), fun v s => do
      return { s with supers := some (← r.table (readItems r) v) }⟩]

def readPattern (v : ν) : m Pattern := do
  let s ← r.record (patternFields r) {} v
  return {
    root := s.root.getD []
    groups := Table.ofList (s.groups.getD [])
    supers := Table.ofList (s.supers.getD []) }

def trackFields : List (Field ν m TrackFields) :=
  [⟨"name", (·.name.isSome), fun v s => do return { s with name := some (← r.text v) }⟩,
    ⟨"pad_steps", (·.own.isSome), fun v s => do
      return { s with own := some (← r.vector 8 (r.optional (readSteps r)) v) }⟩,
    ⟨"default_pad_steps", (·.fallback.isSome), fun v s => do
      return { s with fallback := some (← readSteps r v) }⟩,
    ⟨"pattern", (·.pattern.isSome), fun v s => do
      return { s with pattern := some (← readPattern r v) }⟩,
    ⟨"mute", (·.mute.isSome), fun v s => do return { s with mute := some (← r.flag v) }⟩]

/-- Read a track. All but the name may be left out. -/
def readTrack (v : ν) : m Track := do
  let s ← r.record (trackFields r) {} v
  let some name := s.name | r.incomplete
  let pads : PadLengths :=
    ⟨s.own.getD (Vector.replicate 8 none), s.fallback.getD standardPadSteps⟩
  return { name, pads, pattern := s.pattern.getD {}, mute := s.mute.getD false }

def songFields : List (Field ν m SongFields) :=
  [⟨"bpm", (·.bpm.isSome), fun v s => do return { s with bpm := some (← readSteps r v) }⟩,
    ⟨"tracks", (·.tracks.isSome), fun v s => do
      return { s with tracks := some (← r.list (readTrack r) v) }⟩]

def readSong (v : ν) : m Song := do
  let s ← r.record (songFields r) {} v
  let some bpm := s.bpm | r.incomplete
  let some tracks := s.tracks | r.incomplete
  return { bpm, tracks }

end Reading

def itemTree : Item → Tree
  | .pad index => .record [("type", .text "pad"), ("pad", .number index.toNat)]
  | .pause steps => .record [("type", .text "pause"), ("steps", .number steps.toNat)]
  | .call ⟨.group, id⟩ => .record [("type", .text "group"), ("id", .text id)]
  | .call ⟨.super, id⟩ => .record [("type", .text "super"), ("id", .text id)]

def itemsTree (items : List Item) : Tree := .list (items.map itemTree)

def tableTree (t : Table (List Item)) : Tree :=
  .record (t.entries.map fun (id, items) => (id, itemsTree items))

def stepsTree : Option UInt32 → Tree
  | none => .null
  | some steps => .number steps.toNat

def patternTree (p : Pattern) : Tree :=
  .record [("root", itemsTree p.root), ("groups", tableTree p.groups),
    ("supers", tableTree p.supers)]

def trackTree (t : Track) : Tree :=
  .record [("name", .text t.name), ("pad_steps", .list (t.pads.own.toList.map stepsTree)),
    ("default_pad_steps", .number t.pads.fallback.toNat), ("pattern", patternTree t.pattern),
    ("mute", .bool t.mute)]

def toTree (song : Song) : Tree :=
  .record [("bpm", .number song.bpm.toNat), ("tracks", .list (song.tracks.map trackTree))]

end Groovebox.Song

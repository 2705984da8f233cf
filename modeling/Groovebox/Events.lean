import Groovebox.Duration

/-! The pads that the root of a pattern triggers, on the steps of its timeline.
Called containers play in place; a container that is playing already is silent
when it is called again, for as long as its layout says. -/

namespace Groovebox

structure PadEvent where
  pad : UInt8
  start : Nat
  stop : Nat
  deriving DecidableEq, Repr

/-- Lay items end to end from `cursor` and collect what each of them emits. -/
def collectEvents (length : Item → Nat) (emit : Nat → Item → List PadEvent) :
    Nat → List Item → List PadEvent
  | _, [] => []
  | cursor, item :: rest =>
    emit cursor item ++ collectEvents length emit (satAdd cursor (length item)) rest

namespace Pattern

/-- The events of an item at step `cursor` inside the containers of `path`. The
depth is that of `stepsWithin`. -/
def itemEvents (p : Pattern) (pads : PadLengths) :
    Nat → List GroupName → Nat → Item → List PadEvent
  | _, _, cursor, .pad pad => [⟨pad, cursor, satAdd cursor (quantize (pads.steps pad).toNat)⟩]
  | _, _, _, .pause _ => []
  | 0, _, _, .call _ => []
  | depth + 1, path, cursor, .call name =>
    if name ∈ path then []
    else
      let path := name :: path
      collectEvents (p.stepsWithin pads depth path) (p.itemEvents pads depth path) cursor
        ((p.body? name).getD [])

def events (p : Pattern) (pads : PadLengths) : List PadEvent :=
  collectEvents (p.steps pads) (p.itemEvents pads p.depth []) 0 p.root

end Pattern

end Groovebox

import Groovebox.Pattern
import Groovebox.Step

/-! The length of an item. A called container is as long as its items together,
in whole quanta. A container that is being expanded already, and one that the
pattern does not define, take one quantum, so every reference graph has lengths. -/

namespace Groovebox

namespace Pattern

/-- No chain of distinct defined names is longer. -/
def depth (p : Pattern) : Nat := p.groups.size + p.supers.size

/-- The length of an item inside the containers of `path`, with at most `depth`
further containers to enter. When `depth` names are on the path all defined
names are, so running out of depth is meeting one of them again. -/
def stepsWithin (p : Pattern) (pads : PadLengths) : Nat → List GroupName → Item → Nat
  | _, _, .pad pad => quantize (pads.steps pad).toNat
  | _, _, .pause steps => quantize steps.toNat
  | 0, _, .call _ => quantum
  | depth + 1, path, .call name =>
    if name ∈ path then quantum
    else
      match p.body? name with
      | none => quantum
      | some body => quantize (total (body.map (p.stepsWithin pads depth (name :: path))))

def steps (p : Pattern) (pads : PadLengths) (item : Item) : Nat :=
  p.stepsWithin pads p.depth [] item

/-- The length of a container: of the root its items together, of a named
container that of an item which calls it. -/
def containerSteps (p : Pattern) (pads : PadLengths) : Container → Nat
  | .root => total (p.root.map (p.steps pads))
  | .named name => p.steps pads (.call name)

end Pattern

end Groovebox

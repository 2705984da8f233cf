import Groovebox.Pattern

/-! Faults of the reference graph: calls of names that the pattern does not
define, and containers that reach themselves. Neither makes a pattern unusable. -/

namespace Groovebox

namespace Pattern

def successors (p : Pattern) (name : GroupName) : List GroupName :=
  ((p.body? name).getD []).filterMap Item.name?

/-- One round of a search: the names called from `frontier` that are not in
`seen`, each once. -/
def newNames (p : Pattern) (seen frontier : List GroupName) : List GroupName :=
  ((frontier.flatMap p.successors).filter (· ∉ seen)).eraseDups

def closure (p : Pattern) : Nat → List GroupName → List GroupName → List GroupName
  | 0, seen, _ => seen
  | rounds + 1, seen, frontier =>
    let found := p.newNames seen frontier
    if found.isEmpty then seen else p.closure rounds (seen ++ found) found

/-- The names that `name` reaches by one or more calls. Each round but the last
two enters a name that is defined and was not entered before. -/
def reached (p : Pattern) (name : GroupName) : List GroupName :=
  p.closure (p.names.length + 2) [] [name]

def cyclicNames (p : Pattern) : List GroupName :=
  p.names.filter fun name => name ∈ p.reached name

/-- The names called somewhere and defined nowhere, in the order of their first
calls from the root on. -/
def danglingNames (p : Pattern) : List GroupName :=
  let called := p.containers.flatMap fun container =>
    ((p.sequence? container).getD []).filterMap Item.name?
  (called.filter fun name => (p.body? name).isNone).eraseDups

end Pattern

structure Diagnostics where
  dangling : List GroupName
  cyclic : List GroupName
  deriving DecidableEq

def Diagnostics.isClean (d : Diagnostics) : Bool := d.dangling.isEmpty && d.cyclic.isEmpty

def Pattern.diagnose (p : Pattern) : Diagnostics := ⟨p.danglingNames, p.cyclicNames⟩

end Groovebox

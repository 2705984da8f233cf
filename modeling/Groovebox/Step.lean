/-! Steps of the grid, and how many of them a pad takes. Positions and lengths are natural
numbers held at `maxStep`, and every length on a timeline is rounded up to whole quanta. -/

namespace Groovebox

def maxStep : Nat := 4294967295

/-- The steps in one cell of the grid. -/
def quantum : Nat := 4

/-- Addition that stops at `maxStep`. -/
def satAdd (a b : Nat) : Nat := min (a + b) maxStep

/-- The length `steps` occupies: whole quanta, at least one. -/
def quantize (steps : Nat) : Nat := max quantum (min ((steps + 3) / 4 * 4) maxStep)

/-- The grid line nearest to `step`; half a quantum goes up. -/
def snap (step : Nat) : Nat := satAdd step 2 / 4 * 4

def total (lengths : List Nat) : Nat := lengths.foldl satAdd 0

theorem satAdd_le_maxStep (a b : Nat) : satAdd a b ≤ maxStep := Nat.min_le_right _ _

theorem satAdd_of_lt {a b : Nat} (h : satAdd a b < maxStep) : satAdd a b = a + b := by
  simp only [satAdd] at h ⊢
  omega

theorem quantum_le_quantize (steps : Nat) : quantum ≤ quantize steps := Nat.le_max_left _ _

theorem quantize_le_maxStep (steps : Nat) : quantize steps ≤ maxStep := by
  simp only [quantize, quantum, maxStep]
  omega

def padCount : Nat := 8

def standardPadSteps : UInt32 := 16

/-- Each pad may have a length of its own; the others share the fallback. -/
structure PadLengths where
  own : Vector (Option UInt32) 8 := Vector.replicate 8 none
  fallback : UInt32 := standardPadSteps
  deriving DecidableEq, Inhabited

namespace PadLengths

/-- The length of a pad; beyond the eight pads it is the fallback. -/
def steps (pads : PadLengths) (pad : UInt8) : UInt32 :=
  (pads.own[pad.toNat]?.join).getD pads.fallback

def setOwn (pads : PadLengths) (pad : UInt8) (steps : Option UInt32) : PadLengths :=
  if h : pad.toNat < 8 then { pads with own := pads.own.set pad.toNat steps } else pads

end PadLengths

end Groovebox

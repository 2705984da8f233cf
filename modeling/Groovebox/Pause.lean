import Groovebox.Item
import Groovebox.Step

/-! Pauses. A rest is written with the lengths 32, 16, 8 and 4, longest first;
a sequence is normal when each run of pauses is written so and none ends it. -/

namespace Groovebox

def restLengths : List Nat := [4, 8, 16, 32]

/-- A rest of `steps` in the lengths of `restLengths`, longest first. What is
left below a quantum takes a whole one. -/
def restParts (steps : Nat) : List Nat :=
  List.replicate (steps / 32) 32 ++ List.replicate (steps % 32 / 16) 16 ++
    List.replicate (steps % 16 / 8) 8 ++ List.replicate ((steps % 8 + 3) / 4) 4

def restItems (steps : Nat) : List Item :=
  (restParts steps).map fun length => .pause (UInt32.ofNat length)

/-- What becomes of the pauses at the end of a sequence. -/
inductive Trailing where
  | drop
  | keep
  deriving DecidableEq, Repr

/-- Replace each run of pauses by one rest, given the quantized length `run` of
the pauses just before. -/
def normalizeFrom (trailing : Trailing) : Nat → List Item → List Item
  | run, [] =>
    match trailing with
    | .drop => []
    | .keep => restItems run
  | run, .pause steps :: rest => normalizeFrom trailing (satAdd run (quantize steps.toNat)) rest
  | run, item :: rest => restItems run ++ item :: normalizeFrom trailing 0 rest

theorem normalizeFrom_cons (trailing : Trailing) (run : Nat) {item : Item}
    (h : item.isPause = false) (rest : List Item) :
    normalizeFrom trailing run (item :: rest) =
      restItems run ++ item :: normalizeFrom trailing 0 rest := by
  cases item <;> simp_all [normalizeFrom, Item.isPause]

def normalizePauses (trailing : Trailing) (items : List Item) : List Item :=
  normalizeFrom trailing 0 items

/-- A pause as it is stored: of a length in `restLengths`, or as a rest that is
as long. Other items stay as they are. -/
def Item.stored : Item → List Item
  | .pause steps =>
    if steps.toNat ∈ restLengths then [.pause steps] else restItems (quantize steps.toNat)
  | item => [item]

def storedPauses (items : List Item) : List Item := items.flatMap Item.stored

/-- The sequence is what `normalizePauses .drop` makes of it. -/
def isNormal (items : List Item) : Bool := normalizePauses .drop items = items

end Groovebox

import Groovebox.BlockMove

/-! Drags. A drag holds a block and the plan of the last step it was over; the
pattern changes only when it is dropped, by a plan made anew on the pattern as it
is then. -/

namespace Groovebox

structure Drag where
  container : Container
  first : Nat
  last : Nat
  proposal : Option MovePlan := none
  deriving DecidableEq

namespace Drag

def begin? (tokens : List Token) (container : Container) (selected : List Nat) : Option Drag :=
  (selectedBlock? tokens selected).map fun (first, last) => { container, first, last }

def hover (d : Drag) (tokens : List Token) (step : Nat) : Drag :=
  { d with proposal := some (planMove tokens d.first d.last (snap step)) }

/-- Without a valid proposal nothing moves. -/
def drop? (d : Drag) (p : Pattern) (pads : PadLengths) : Option Pattern :=
  match d.proposal with
  | none => none
  | some proposal =>
    if proposal.isValid then
      let tokens := p.tokens pads d.container
      let plan := planMove tokens d.first d.last proposal.target
      (plan.result? tokens).bind (p.setSequence? d.container)
    else none

/-- A drop is the move of the block to the target of the valid proposal. -/
theorem drop?_eq_moveBlock? (d : Drag) (p : Pattern) (pads : PadLengths) :
    d.drop? p pads = (d.proposal.filter (·.isValid)).bind fun proposal =>
      p.moveBlock? pads d.container d.first d.last proposal.target := by
  cases hproposal : d.proposal with
  | none => simp only [drop?, hproposal, Option.filter_none, Option.bind_none]
  | some proposal =>
    simp only [drop?, hproposal, Option.filter_some]
    split <;> rfl

end Drag

end Groovebox

import Groovebox.Duration

/-! Timelines: the items of one container laid end to end from step zero. -/

namespace Groovebox

structure Token where
  index : Nat
  item : Item
  start : Nat
  stop : Nat
  steps : Nat
  deriving DecidableEq, Repr

def Token.isPause (t : Token) : Bool := t.item.isPause

def Token.covers (t : Token) (step : Nat) : Bool := t.start ≤ step && step < t.stop

def placeFrom (length : Item → Nat) : Nat → Nat → List Item → List Token
  | _, _, [] => []
  | index, cursor, item :: rest =>
    let stop := satAdd cursor (length item)
    ⟨index, item, cursor, stop, length item⟩ :: placeFrom length (index + 1) stop rest

structure Timeline where
  items : List Item
  tokens : List Token
  visible : List Token
  steps : Nat
  deriving DecidableEq

/-- The tokens of a container. One that the pattern does not define has none. -/
def Pattern.tokens (p : Pattern) (pads : PadLengths) (container : Container) : List Token :=
  placeFrom (p.steps pads) 0 0 ((p.sequence? container).getD [])

def Pattern.timeline (p : Pattern) (pads : PadLengths) (container : Container)
    (showPauses : Bool) : Timeline :=
  let items := (p.sequence? container).getD []
  let tokens := p.tokens pads container
  { items, tokens
    visible := tokens.filter fun t => showPauses || !t.isPause
    steps := total (items.map (p.steps pads)) }

def Timeline.at? (t : Timeline) (step : Nat) : Option Token := t.tokens.find? (·.covers step)

theorem placeFrom_map_item (length : Item → Nat) (items : List Item) (index cursor : Nat) :
    (placeFrom length index cursor items).map (·.item) = items := by
  induction items generalizing index cursor with
  | nil => rfl
  | cons item rest ih => simp [placeFrom, ih]

end Groovebox

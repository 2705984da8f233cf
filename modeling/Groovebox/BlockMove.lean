import Groovebox.Edit
import Groovebox.Pause
import Groovebox.Timeline

/-! Moving a block of tokens. The block is lifted out, which leaves a gap where it
was. It may trade places with an equally long neighbour, land in a gap that holds
it, or go behind all that is left; the other items keep their steps. -/

namespace Groovebox

/-- A piece of the layout without the block: free time or an item that stays. -/
inductive Segment where
  | gap (start stop : Nat)
  | item (item : Item)
  deriving DecidableEq, Repr

/-- Put a segment in front; a gap grows into a gap that begins where it ends. -/
def Segment.join : Segment → List Segment → List Segment
  | .gap start stop, .gap start' stop' :: rest =>
    if stop = start' then .gap start stop' :: rest
    else .gap start stop :: .gap start' stop' :: rest
  | segment, rest => segment :: rest

def Token.isLifted (first last : Nat) (t : Token) : Bool :=
  t.index = first || (first < t.index && t.index ≤ last)

/-- What a token leaves when the block is lifted. The first token of the block
leaves the gap of all of it, which ends at `freed`. -/
def Token.segment? (first last freed : Nat) (t : Token) : Option Segment :=
  if t.index = first then some (.gap t.start freed)
  else if t.isLifted first last then none
  else if t.isPause then some (.gap t.start t.stop)
  else some (.item t.item)

def lift (tokens : List Token) (first last : Nat) : List Segment :=
  let freed := (tokens[last]?.map (·.stop)).getD 0
  (tokens.filterMap (·.segment? first last freed)).foldr Segment.join []

def contentEnd (tokens : List Token) (first last : Nat) : Nat :=
  let content := tokens.filter fun t => !t.isPause && !t.isLifted first last
  (content.getLast?.map (·.stop)).getD 0

/-- How a block comes to start at its target: it trades places with the token at an
index, lands in a gap, or follows the content after some free steps. -/
inductive Placement where
  | swap (other : Nat)
  | gap (start stop : Nat)
  | append (gap : Nat)
  deriving DecidableEq, Repr

structure MovePlan where
  first : Nat
  last : Nat
  steps : Nat
  source : Nat
  target : Nat
  placement : Option Placement
  deriving DecidableEq, Repr

def MovePlan.isValid (plan : MovePlan) : Bool := plan.placement.isSome

/-- The neighbour of a lone item that starts at `target` and is as long. -/
def swap? (tokens : List Token) (first last target : Nat) : Option Nat :=
  match tokens[first]? with
  | none => none
  | some moving =>
    if first ≠ last ∨ moving.isPause then none
    else
      let neighbours := if first = 0 then [1] else [first - 1, first + 1]
      neighbours.find? fun i =>
        tokens[i]?.any fun other =>
          !other.isPause && other.steps = moving.steps && other.start = target

def landing? (segments : List Segment) (target stop : Nat) : Option Placement :=
  segments.findSome? fun
    | .gap start gapStop =>
      if start ≤ target ∧ stop ≤ gapStop then some (.gap start gapStop) else none
    | .item _ => none

/-- Plan to move the tokens `first` to `last` to step `target`. Targets off the
grid and beyond `maxStep` are out of reach. -/
def planMove (tokens : List Token) (first last target : Nat) : MovePlan :=
  match tokens[first]?, tokens[last]? with
  | some head, some tail =>
    let steps := tail.stop - head.start
    if last < first ∨ target % quantum ≠ 0 ∨ maxStep < target + steps then
      ⟨first, last, 0, 0, target, none⟩
    else
      let content := contentEnd tokens first last
      let placement :=
        ((swap? tokens first last target).map .swap)
        <|> landing? (lift tokens first last) target (target + steps)
        <|> (if content ≤ target then some (.append (target - content)) else none)
      ⟨first, last, steps, head.start, target, placement⟩
  | _, _ => ⟨first, last, 0, 0, target, none⟩

def swapItems (items : List Item) (i j : Nat) : List Item :=
  match items[i]?, items[j]? with
  | some a, some b => (items.set i b).set j a
  | _, _ => items

def MovePlan.fill (plan : MovePlan) (block : List Item) (start stop : Nat) : List Item :=
  restItems (plan.target - start) ++ block ++ restItems (stop - plan.target - plan.steps)

def MovePlan.result? (plan : MovePlan) (tokens : List Token) : Option (List Item) :=
  if tokens.length ≤ plan.last ∨ plan.target % quantum ≠ 0 then none
  else
    let block := ((tokens.drop plan.first).take (plan.last + 1 - plan.first)).map (·.item)
    let segments := lift tokens plan.first plan.last
    match plan.placement with
    | none => none
    | some (.swap other) =>
      if tokens.length ≤ other then none
      else some (normalizePauses .keep (swapItems (tokens.map (·.item)) plan.first other))
    | some (.gap start stop) =>
      some (normalizePauses .keep (segments.flatMap fun
        | .item item => [item]
        | .gap start' stop' =>
          if start' = start ∧ stop' = stop then plan.fill block start stop
          else restItems (stop' - start')))
    | some (.append gap) =>
      let content := contentEnd tokens plan.first plan.last
      let kept := segments.flatMap fun
        | .item item => [item]
        | .gap start stop => if stop ≤ content then restItems (stop - start) else []
      some (normalizePauses .drop (kept ++ restItems gap ++ block))

/-- The block that a selection drags: the run from its first to its last index,
when only pauses lie between selected tokens. -/
def selectedBlock? (tokens : List Token) (indices : List Nat) : Option (Nat × Nat) :=
  match indices.min?, indices.max? with
  | some first, some last =>
    if tokens.length ≤ last then none
    else
      let touching := (List.range' first (last + 1 - first)).all fun i =>
        i ∈ indices || tokens[i]?.any (·.isPause)
      if touching then some (first, last) else none
  | _, _ => none

def Pattern.moveBlock? (p : Pattern) (pads : PadLengths) (container : Container)
    (first last target : Nat) : Option Pattern :=
  let tokens := p.tokens pads container
  ((planMove tokens first last target).result? tokens).bind (p.setSequence? container)

theorem Pattern.moveBlock?_eq_some_iff {p q : Pattern} {pads : PadLengths} {container : Container}
    {first last target : Nat} :
    p.moveBlock? pads container first last target = some q ↔
      ∃ items, (planMove (p.tokens pads container) first last target).result?
          (p.tokens pads container) = some items ∧
        p.setSequence? container items = some q :=
  Option.bind_eq_some_iff

end Groovebox

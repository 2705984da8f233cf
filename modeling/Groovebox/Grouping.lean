import Groovebox.Edit

/-! Grouping a run of items under a new name, and splicing the sequence of a
name back in place of its calls. -/

namespace Groovebox

/-- The first and last of `indices` when they cover all between them and stay
below `length`. Order and repetitions do not matter. -/
def contiguousRun? (length : Nat) (indices : List Nat) : Option (Nat × Nat) :=
  match indices.min?, indices.max? with
  | some first, some last =>
    if length ≤ last then none
    else if (List.range' first (last + 1 - first)).all (· ∈ indices) then some (first, last)
    else none
  | _, _ => none

namespace Pattern

def freshName (p : Pattern) (kind : GroupKind) : GroupName := ⟨kind, p.freshId kind⟩

def canGroup (p : Pattern) (container : Container) (indices : List Nat) : Bool :=
  match p.sequence? container with
  | none => false
  | some items => (contiguousRun? items.length indices).isSome

/-- Define a fresh name for the run that `indices` form, and call it in place of
the run. -/
def group? (p : Pattern) (container : Container) (indices : List Nat) (kind : GroupKind) :
    Option Pattern :=
  match p.sequence? container with
  | none => none
  | some items =>
    match contiguousRun? items.length indices with
    | none => none
    | some (first, last) =>
      let name := p.freshName kind
      let defined := p.define name ((items.drop first).take (last + 1 - first))
      let called := items.take first ++ .call name :: items.drop (last + 1)
      some ((defined.setSequence? container called).getD defined)

/-- What ungrouping puts in place of an item: the sequence that it calls, if there
is one. -/
def spliced (p : Pattern) (item : Item) : List Item :=
  (item.name?.bind p.body?).getD [item]

def ungroup? (p : Pattern) (container : Container) (indices : List Nat) : Option Pattern :=
  p.edit? container fun items =>
    items.zipIdx.flatMap fun e => if e.2 ∈ indices then p.spliced e.1 else [e.1]

end Pattern

end Groovebox

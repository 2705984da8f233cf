import Groovebox.Pattern

/-! Edits of one container. An edit answers the changed pattern, or `none` where
it changes nothing: the container is not defined, or its items stay as they are.
Indices outside the sequence are harmless. -/

namespace Groovebox

namespace Pattern

/-- Put `items` into a container that is there and holds something else. -/
def setSequence? (p : Pattern) (container : Container) (items : List Item) : Option Pattern :=
  match p.sequence? container with
  | none => none
  | some current => if current = items then none else some (p.put container items)

def edit? (p : Pattern) (container : Container) (f : List Item → List Item) : Option Pattern :=
  (p.sequence? container).bind fun current => p.setSequence? container (f current)

/-- Put a run of items at `index`, or behind all items. -/
def insertItems? (p : Pattern) (container : Container) (index : Nat) (run : List Item) :
    Option Pattern :=
  p.edit? container fun items => items.take index ++ run ++ items.drop index

def removeItems? (p : Pattern) (container : Container) (indices : List Nat) : Option Pattern :=
  p.edit? container fun items =>
    (items.zipIdx.filter fun e => e.2 ∉ indices).map (·.1)

/-- Take the item at `source` out and put it back at `target`, counted without it. -/
def moveItem? (p : Pattern) (container : Container) (source target : Nat) : Option Pattern :=
  p.edit? container fun items =>
    match items[source]? with
    | none => items
    | some item =>
      let others := items.eraseIdx source
      others.insertIdx (min target others.length) item

def replaceItem? (p : Pattern) (container : Container) (index : Nat) (run : List Item) :
    Option Pattern :=
  p.edit? container fun items =>
    if index < items.length then items.take index ++ run ++ items.drop (index + 1) else items

theorem setSequence?_ne_self {p q : Pattern} {container : Container} {items : List Item}
    (h : p.setSequence? container items = some q) : q ≠ p := by
  rintro rfl
  unfold setSequence? at h
  split at h
  · simp at h
  · next current hc =>
    split at h
    · simp at h
    · next hne =>
      have hq : q.put container items = q := by simpa using h
      have : q.sequence? container = some items := by
        rw [← hq]
        cases container with
        | root => rfl
        | named name => simpa [put, sequence?] using body?_define q name name items
      simp_all

end Pattern

end Groovebox

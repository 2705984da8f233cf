/-! The items of a sequence and the containers that hold sequences. A container
is the root of a track or carries the name of a group or super-group, and an
item may call a named container in place of a pad or a pause. -/

namespace Groovebox

inductive GroupKind where
  | group
  | super
  deriving DecidableEq, Repr

def GroupKind.letter : GroupKind → String
  | .group => "g"
  | .super => "s"

def GroupKind.label : GroupKind → String
  | .group => "group"
  | .super => "super-group"

/-- The name of a group or super-group. Groups and super-groups are named apart. -/
structure GroupName where
  kind : GroupKind
  id : String
  deriving DecidableEq, Repr

inductive Item where
  /-- One of the pads; its length is a matter of the track. -/
  | pad (pad : UInt8)
  | pause (steps : UInt32)
  | call (name : GroupName)
  deriving DecidableEq, Repr

def Item.isPause : Item → Bool
  | .pause _ => true
  | _ => false

def Item.name? : Item → Option GroupName
  | .call name => some name
  | _ => none

inductive Container where
  | root
  | named (name : GroupName)
  deriving DecidableEq, Repr

def Container.label : Container → String
  | .root => "root"
  | .named name => name.id

/-- The item that calls a container; nothing calls the root. -/
def Container.toItem? : Container → Option Item
  | .root => none
  | .named name => some (.call name)

theorem Item.name?_eq_some_iff {item : Item} {name : GroupName} :
    item.name? = some name ↔ item = .call name := by
  cases item <;> simp [Item.name?]

end Groovebox

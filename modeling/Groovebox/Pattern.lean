import Groovebox.Item
import Groovebox.Table

/-! Patterns: the root sequence of a track with the tables of its named
containers. -/

namespace Groovebox

structure Pattern where
  root : List Item := []
  groups : Table (List Item) := ∅
  supers : Table (List Item) := ∅
  deriving DecidableEq, Inhabited

namespace Pattern

def table (p : Pattern) : GroupKind → Table (List Item)
  | .group => p.groups
  | .super => p.supers

def body? (p : Pattern) (name : GroupName) : Option (List Item) :=
  (p.table name.kind).find? name.id

def sequence? (p : Pattern) : Container → Option (List Item)
  | .root => some p.root
  | .named name => p.body? name

/-- The names that a pattern defines: groups before super-groups, each by id. -/
def names (p : Pattern) : List GroupName :=
  p.groups.keys.map (⟨.group, ·⟩) ++ p.supers.keys.map (⟨.super, ·⟩)

def containers (p : Pattern) : List Container := .root :: p.names.map .named

def define (p : Pattern) (name : GroupName) (items : List Item) : Pattern :=
  match name.kind with
  | .group => { p with groups := p.groups.insert name.id items }
  | .super => { p with supers := p.supers.insert name.id items }

def put (p : Pattern) (container : Container) (items : List Item) : Pattern :=
  match container with
  | .root => { p with root := items }
  | .named name => p.define name items

def numberedId (kind : GroupKind) (n : Nat) : String := kind.letter ++ toString n

/-- The numbered id of least number, from one on, that the table of `kind` does
not use. One of the first `size + 1` numbers is free. -/
def freshId (p : Pattern) (kind : GroupKind) : String :=
  let free := (List.range' 1 ((p.table kind).size + 1)).find? fun n =>
    ((p.table kind).find? (numberedId kind n)).isNone
  numberedId kind (free.getD ((p.table kind).size + 1))

theorem body?_define (p : Pattern) (name other : GroupName) (items : List Item) :
    (p.define name items).body? other = if other = name then some items else p.body? other := by
  obtain ⟨kind, id⟩ := name
  obtain ⟨otherKind, otherId⟩ := other
  cases kind <;> cases otherKind <;> simp [define, body?, table, Table.find?_insert]

end Pattern

end Groovebox

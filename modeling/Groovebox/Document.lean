import Groovebox.Item

/-! Documents in any format: the trees of plain data that are written, and what a format
says about reading the parts. -/

namespace Groovebox

inductive Tree where
  | null
  | bool (b : Bool)
  | number (n : Nat)
  | text (s : String)
  | list (items : List Tree)
  | record (entries : List (String × Tree))
  deriving Inhabited

/-- A field of a record that is read into a `σ`. -/
structure Field (ν : Type) (m : Type → Type) (σ : Type) where
  name : String
  isSet : σ → Bool
  read : ν → σ → m σ

inductive Payload where
  | number (limit : Nat) (make : Nat → Item)
  | text (make : String → Item)

/-- A variant of items: its tag, and the one field beside the tag. -/
structure Variant where
  tag : String
  field : String
  payload : Payload

structure Reader (ν : Type) (m : Type → Type) where
  text : ν → m String
  number : Nat → ν → m Nat
  flag : ν → m Bool
  optional {α : Type} : (ν → m α) → ν → m (Option α)
  list {α : Type} : (ν → m α) → ν → m (List α)
  vector {α : Type} : (n : Nat) → (ν → m α) → ν → m (Vector α n)
  table {α : Type} : (ν → m α) → ν → m (List (String × α))
  record {σ : Type} : List (Field ν m σ) → σ → ν → m σ
  item : List Variant → ν → m Item
  /-- A record does not have what it must have. -/
  incomplete {α : Type} : m α

end Groovebox

import Mathlib.Logic.Relation
import Groovebox.Edit
import Groovebox.Proofs.Layout

/-! Putting a sequence into a container. The names of the pattern and all other
containers stay. All lengths stay when the new sequence is as long as the old one, and
in any case the lengths of the items from which no chain of calls leads to the
container. -/

namespace Groovebox

/-- The sequences are equally long, however long the items other than pauses are. -/
def SameLength (old new : List Item) : Prop :=
  ∀ length, MeasuresRests length → total (new.map length) = total (old.map length)

namespace Pattern

theorem sequence?_put (p : Pattern) (container other : Container) (items : List Item) :
    (p.put container items).sequence? other =
      if other = container then some items else p.sequence? other := by
  cases container with
  | root => cases other <;> simp [put, sequence?, body?, table]
  | named name =>
    cases other with
    | root =>
      obtain ⟨kind, id⟩ := name
      cases kind <;> simp [put, define, sequence?]
    | named other => simpa [put, sequence?] using body?_define p name other items

theorem depth_put {p : Pattern} {container : Container} {current : List Item}
    (h : p.sequence? container = some current) (items : List Item) :
    (p.put container items).depth = p.depth := by
  cases container with
  | root => rfl
  | named name =>
    obtain ⟨kind, id⟩ := name
    have hf : (p.table kind).find? id = some current := h
    cases kind with
    | group => exact congrArg (· + p.supers.size) (Table.size_insert hf)
    | super => exact congrArg (p.groups.size + ·) (Table.size_insert hf)

theorem put_self {p : Pattern} {container : Container} {current : List Item}
    (h : p.sequence? container = some current) : p.put container current = p := by
  cases container with
  | root =>
    obtain rfl : p.root = current := Option.some.inj h
    rfl
  | named name =>
    obtain ⟨kind, id⟩ := name
    have hf : (p.table kind).find? id = some current := h
    cases kind with
    | group => exact congrArg (fun groups => { p with groups }) (Table.insert_self hf)
    | super => exact congrArg (fun supers => { p with supers }) (Table.insert_self hf)

theorem getD_setSequence? {p : Pattern} {container : Container} {current : List Item}
    (h : p.sequence? container = some current) (items : List Item) :
    (p.setSequence? container items).getD p = p.put container items := by
  by_cases he : current = items
  · subst he
    simp [setSequence?, h, put_self h]
  · simp [setSequence?, h, he]

theorem exists_put_of_setSequence? {p q : Pattern} {container : Container} {items : List Item}
    (h : p.setSequence? container items = some q) :
    ∃ current, p.sequence? container = some current ∧ q = p.put container items := by
  cases hc : p.sequence? container with
  | none => simp [setSequence?, hc] at h
  | some current =>
    have hput := getD_setSequence? hc items
    rw [h, Option.getD_some] at hput
    exact ⟨current, rfl, hput⟩

theorem sequence?_getD_setSequence? (p : Pattern) {container other : Container}
    (hne : other ≠ container) (items : List Item) :
    ((p.setSequence? container items).getD p).sequence? other = p.sequence? other := by
  cases hc : p.sequence? container with
  | none => simp [setSequence?, hc]
  | some current => rw [getD_setSequence? hc, sequence?_put, if_neg hne]

/-- The sequence of `caller` calls `called`. -/
def Calls (p : Pattern) (caller called : Container) : Prop :=
  ∃ items name, p.sequence? caller = some items ∧ .call name ∈ items ∧ called = .named name

/-- A chain of one or more calls leads from one container to the other. -/
def Reaches (p : Pattern) : Container → Container → Prop := Relation.TransGen p.Calls

theorem not_reaches_root (p : Pattern) (container : Container) : ¬p.Reaches container .root := by
  intro h
  obtain ⟨_, -, _, _, -, -, he⟩ := Relation.TransGen.tail'_iff.mp h
  exact Container.noConfusion he

/-- No chain of calls leads from the item to the container. -/
def Avoids (p : Pattern) (container : Container) (item : Item) : Prop :=
  ∀ name, item = .call name → ¬Relation.ReflTransGen p.Calls (.named name) container

variable {p : Pattern} {pads : PadLengths} {container : Container} {current items : List Item}

theorem avoids_of_mem (hc : p.sequence? container = some current)
    (hno : ¬p.Reaches container container) {item : Item} (hm : item ∈ current) :
    p.Avoids container item := by
  rintro name rfl hreach
  exact hno (Relation.TransGen.head' ⟨current, name, hc, hm, rfl⟩ hreach)

theorem Avoids.of_mem_body {name : GroupName} {body : List Item} {item : Item}
    (h : p.Avoids container (.call name)) (hb : p.body? name = some body) (hm : item ∈ body) :
    p.Avoids container item := by
  rintro inner rfl hreach
  exact h name rfl (hreach.head ⟨body, inner, hb, hm, rfl⟩)

theorem body?_put (p : Pattern) (container : Container) (items : List Item) (name : GroupName) :
    (p.put container items).body? name =
      if .named name = container then some items else p.body? name :=
  p.sequence?_put container (.named name) items

theorem stepsWithin_put_of_sameLength (hc : p.sequence? container = some current)
    (hs : SameLength current items) (depth : Nat) (path : List GroupName) (item : Item) :
    (p.put container items).stepsWithin pads depth path item =
      p.stepsWithin pads depth path item := by
  induction depth generalizing path item with
  | zero => cases item <;> rfl
  | succ depth ih =>
    cases item with
    | pad pad => rfl
    | pause steps => rfl
    | call name =>
      have he : (p.put container items).stepsWithin pads depth (name :: path) =
          p.stepsWithin pads depth (name :: path) := funext (ih (name :: path))
      simp only [stepsWithin, he, body?_put]
      by_cases hn : .named name = container
      · subst hn
        have hb : p.body? name = some current := hc
        have ht := hs _ (p.measures_stepsWithin pads depth (name :: path)).rests
        simp only [if_true, hb, ht]
      · simp only [hn, if_false]

theorem stepsWithin_put_of_avoids (items : List Item) (depth : Nat) (path : List GroupName)
    {item : Item} (h : p.Avoids container item) :
    (p.put container items).stepsWithin pads depth path item =
      p.stepsWithin pads depth path item := by
  induction depth generalizing path item with
  | zero => cases item <;> rfl
  | succ depth ih =>
    cases item with
    | pad pad => rfl
    | pause steps => rfl
    | call name =>
      have hn : .named name ≠ container := fun hn => h name rfl (hn ▸ .refl)
      simp only [stepsWithin, body?_put, hn, if_false]
      cases hb : p.body? name with
      | none => rfl
      | some body =>
        have he : body.map ((p.put container items).stepsWithin pads depth (name :: path)) =
            body.map (p.stepsWithin pads depth (name :: path)) :=
          List.map_congr_left fun child hm => ih (name :: path) (h.of_mem_body hb hm)
        simp only [he]

theorem steps_put_of_sameLength (hc : p.sequence? container = some current)
    (hs : SameLength current items) (item : Item) :
    (p.put container items).steps pads item = p.steps pads item := by
  rw [steps, steps, depth_put hc, stepsWithin_put_of_sameLength hc hs]

theorem steps_put_of_avoids (hc : p.sequence? container = some current) (items : List Item)
    {item : Item} (h : p.Avoids container item) :
    (p.put container items).steps pads item = p.steps pads item := by
  rw [steps, steps, depth_put hc, stepsWithin_put_of_avoids items p.depth [] h]

end Pattern

end Groovebox

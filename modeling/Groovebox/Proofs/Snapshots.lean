import Groovebox.Proofs.Containers

/-! Snapshots of a pattern. A chain of edits hands on the snapshot it was given until one of
them changes something. Putting the items of a run in one by one, each behind the one
before, comes to the same as putting in the run at once. -/

namespace Groovebox

namespace Table

variable {α : Type}

theorem insertEntry_insertEntry (id : String) (a b : α) (entries : List (String × α)) :
    insertEntry id b (insertEntry id a entries) = insertEntry id b entries := by
  induction entries with
  | nil => simp [insertEntry]
  | cons head rest ih =>
    obtain ⟨k, c⟩ := head
    by_cases hlt : id < k
    · simp [insertEntry, hlt]
    · by_cases heq : id = k
      · simp [insertEntry, heq]
      · simp [insertEntry, hlt, heq, ih]

theorem insert_insert (t : Table α) (id : String) (a b : α) :
    (t.insert id a).insert id b = t.insert id b := by
  have hentries := insertEntry_insertEntry id a b t.entries
  simp only [insert, hentries]

end Table

namespace Pattern

theorem put_put (p : Pattern) (container : Container) (a b : List Item) :
    (p.put container a).put container b = p.put container b := by
  cases container with
  | root => rfl
  | named name =>
    obtain ⟨kind, id⟩ := name
    cases kind <;> simp [put, define, Table.insert_insert]

theorem setSequence?_of_ne {p : Pattern} {container : Container} {current items : List Item}
    (h : p.sequence? container = some current) (hne : current ≠ items) :
    p.setSequence? container items = some (p.put container items) := by
  simp only [setSequence?, h, if_neg hne]

end Pattern

/-- A pattern handed on, with a mark that it is not the one at the start. -/
structure Snapshot where
  pattern : Pattern
  isNew : Bool := false

namespace Snapshot

def andThen (s : Snapshot) (edit : Pattern → Option Pattern) : Snapshot :=
  match edit s.pattern with
  | none => s
  | some p => ⟨p, true⟩

/-- What an edit leaves of the pattern it is given. -/
def after (p : Pattern) (result : Option Pattern) : Snapshot :=
  ⟨result.getD p, result.isSome⟩

def insertEach (s : Snapshot) (container : Container) (index : Nat) (run : List Item) : Snapshot :=
  (run.zipIdx index).foldl
    (fun s entry => s.andThen (·.insertItems? container entry.2 [entry.1])) s

variable {s : Snapshot} {p : Pattern} {container : Container} {items : List Item}

theorem andThen_eq_after (edit : Pattern → Option Pattern) :
    (⟨p, false⟩ : Snapshot).andThen edit = after p (edit p) := by
  simp only [andThen, after]
  cases edit p <;> rfl

theorem take_insert (items : List Item) (index : Nat) (item : Item) :
    (items.take index ++ item :: items.drop index).take (index + 1) =
      items.take index ++ [item] := by
  by_cases hle : index ≤ items.length
  · have hlength : (items.take index ++ [item]).length = index + 1 := by
      simp only [List.length_append, List.length_take, List.length_singleton]
      omega
    rw [List.append_cons, ← hlength, List.take_left]
  · have hdrop : items.drop index = [] := List.drop_eq_nil_of_le (by omega)
    rw [hdrop, List.take_of_length_le]
    simp only [List.length_append, List.length_take, List.length_singleton]
    omega

theorem drop_insert (items : List Item) (index : Nat) (item : Item) :
    (items.take index ++ item :: items.drop index).drop (index + 1) = items.drop index := by
  have hsplit := List.take_append_drop (index + 1) (items.take index ++ item :: items.drop index)
  rw [take_insert, List.append_assoc] at hsplit
  exact List.cons_injective (List.append_cancel_left hsplit)

/-- A sequence with items put in is longer. -/
theorem ne_insert (items : List Item) (index : Nat) {run : List Item} (hrun : run ≠ []) :
    items ≠ items.take index ++ run ++ items.drop index := by
  intro heq
  have hlength := congrArg List.length heq
  have hpos := List.length_pos_of_ne_nil hrun
  simp only [List.length_append, List.length_take, List.length_drop] at hlength
  omega

theorem andThen_insertItems? (h : s.pattern.sequence? container = some items) (index : Nat)
    (item : Item) :
    s.andThen (·.insertItems? container index [item]) =
      ⟨s.pattern.put container (items.take index ++ item :: items.drop index), true⟩ := by
  have hset := Pattern.setSequence?_of_ne h (ne_insert items index (List.cons_ne_nil item []))
  have hedit : s.pattern.insertItems? container index [item] =
      some (s.pattern.put container (items.take index ++ item :: items.drop index)) := by
    simp only [Pattern.insertItems?, Pattern.edit?, h, Option.bind_some, hset]
    rw [List.append_assoc, List.singleton_append]
  simp only [andThen, hedit]

theorem insertEach_eq (h : s.pattern.sequence? container = some items) (index : Nat)
    (run : List Item) :
    s.insertEach container index run =
      ⟨s.pattern.put container (items.take index ++ run ++ items.drop index),
        s.isNew || !run.isEmpty⟩ := by
  induction run generalizing s items index with
  | nil => simp [insertEach, Pattern.put_self h]
  | cons item rest ih =>
    have hfirst := andThen_insertItems? h index item
    have hsequence : (s.andThen (·.insertItems? container index [item])).pattern.sequence?
        container = some (items.take index ++ item :: items.drop index) := by
      rw [hfirst, Pattern.sequence?_put, if_pos rfl]
    have hnext := ih hsequence (index + 1)
    have hstep : s.insertEach container index (item :: rest) =
        (s.andThen (·.insertItems? container index [item])).insertEach container (index + 1) rest :=
      rfl
    rw [hstep, hnext, hfirst]
    simp [take_insert, drop_insert, Pattern.put_put]

/-- An edit that gives `items` makes a new snapshot exactly when they are others. -/
theorem after_edit? {current : List Item} (h : p.sequence? container = some current)
    (f : List Item → List Item) :
    after p (p.edit? container f) =
      ⟨p.put container (f current), decide (current ≠ f current)⟩ := by
  have hput := Pattern.getD_setSequence? h (f current)
  simp only [after, Pattern.edit?, h, Option.bind_some, hput]
  by_cases heq : current = f current
  · simp [Pattern.setSequence?, h, ← heq]
  · simp [Pattern.setSequence?_of_ne h heq, heq]

theorem insertEach_eq_after (h : p.sequence? container = some items) (index : Nat)
    (run : List Item) :
    (⟨p, false⟩ : Snapshot).insertEach container index run =
      after p (p.insertItems? container index run) := by
  rw [insertEach_eq h, Pattern.insertItems?, after_edit? h]
  cases run with
  | nil => simp
  | cons item rest =>
    rw [decide_eq_true (ne_insert items index (List.cons_ne_nil item rest))]
    rfl

/-- An item overwritten by the first of a run, with the others put in behind it. -/
theorem replaceEach_eq_after (h : p.sequence? container = some items) {index : Nat}
    (hindex : index < items.length) (first : Item) (rest : List Item) :
    ((⟨p, false⟩ : Snapshot).andThen (·.replaceItem? container index [first])).insertEach
        container (index + 1) rest =
      after p (p.replaceItem? container index (first :: rest)) := by
  have hlength : (items.take index ++ [first]).length = index + 1 := by
    simp only [List.length_append, List.length_take, List.length_singleton]
    omega
  have htake : (items.take index ++ [first] ++ items.drop (index + 1)).take (index + 1) =
      items.take index ++ [first] := by rw [← hlength, List.take_left]
  have hdrop : (items.take index ++ [first] ++ items.drop (index + 1)).drop (index + 1) =
      items.drop (index + 1) := by rw [← hlength, List.drop_left]
  rw [andThen_eq_after, Pattern.replaceItem?, Pattern.replaceItem?, after_edit? h, after_edit? h]
  simp only [if_pos hindex]
  rw [insertEach_eq (s := ⟨p.put container _, _⟩) (by rw [Pattern.sequence?_put, if_pos rfl]),
    htake, hdrop, Pattern.put_put]
  cases rest with
  | nil => simp
  | cons second rest =>
    have hne : items ≠ items.take index ++ first :: second :: rest ++ items.drop (index + 1) := by
      intro heq
      have hlonger := congrArg List.length heq
      simp only [List.length_append, List.length_take, List.length_drop,
        List.length_cons] at hlonger
      omega
    rw [decide_eq_true hne, List.append_assoc (items.take index)]
    simp

end Snapshot

end Groovebox

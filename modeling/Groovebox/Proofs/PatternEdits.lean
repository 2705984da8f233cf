import Mathlib.Data.List.InsertIdx
import Groovebox.Grouping
import Groovebox.Proofs.Snapshots

/-! Edits of a pattern. An edit keeps to one container, and hands on the very pattern that it
was given unless it makes another one of it. What is put in can be taken out again, what is
moved can be moved back, and what is overwritten can be written anew. -/

namespace Groovebox

inductive PatternEdit where
  | set (items : List Item)
  | insert (index : Nat) (item : Item)
  | remove (indices : List Nat)
  | move (source target : Nat)
  | replace (index : Nat) (item : Item)
  | ungroup (indices : List Nat)

namespace PatternEdit

def result? (p : Pattern) (container : Container) : PatternEdit → Option Pattern
  | .set items => p.setSequence? container items
  | .insert index item => p.insertItems? container index [item]
  | .remove indices => p.removeItems? container indices
  | .move source target => p.moveItem? container source target
  | .replace index item => p.replaceItem? container index [item]
  | .ungroup indices => p.ungroup? container indices

/-- The sequence that is to take the place of `current`. There is none where the indices alone
show that the edit has nothing to act on. -/
def items? (p : Pattern) (current : List Item) : PatternEdit → Option (List Item)
  | .set items => some items
  | .insert index item => some (current.insertIdx (min index current.length) item)
  | .remove indices =>
    let inside := indices.filter (· < current.length)
    if inside.isEmpty then none
    else some ((current.zipIdx.filter fun e => e.2 ∉ inside).map (·.1))
  | .move source target =>
    current[source]?.map fun moved =>
      let others := current.eraseIdx source
      others.insertIdx (min target others.length) moved
  | .replace index item => if index < current.length then some (current.set index item) else none
  | .ungroup indices =>
    let inside := indices.filter (· < current.length)
    if inside.isEmpty then none
    else some (current.zipIdx.flatMap fun e => if e.2 ∈ inside then p.spliced e.1 else [e.1])

def items (p : Pattern) (current : List Item) (edit : PatternEdit) : List Item :=
  (edit.items? p current).getD current

/-- The edit step by step: a container that is not there, nothing to act on and a sequence
that is the old one each hand on the pattern as it is. -/
def snapshot (p : Pattern) (container : Container) (edit : PatternEdit) : Snapshot :=
  match p.sequence? container with
  | none => ⟨p, false⟩
  | some current =>
    match edit.items? p current with
    | none => ⟨p, false⟩
    | some items => if current = items then ⟨p, false⟩ else ⟨p.put container items, true⟩

end PatternEdit

namespace PatternEdit

variable {p : Pattern} {current : List Item}

/-! Indices outside of the sequence pick nothing. -/

theorem mem_inside_iff {indices : List Nat} {e : Item × Nat} (h : e ∈ current.zipIdx) :
    e.2 ∈ indices.filter (· < current.length) ↔ e.2 ∈ indices := by
  have hlt : e.2 < current.length := List.snd_lt_of_mem_zipIdx h
  rw [List.mem_filter, decide_eq_true_eq, and_iff_left hlt]

/-- To give up where no index is inside comes to the same as to go on. -/
theorem getD_unless_isEmpty (f : List Nat → List Item) (hnone : f [] = current)
    (inside : List Nat) :
    (if inside.isEmpty then none else some (f inside)).getD current = f inside := by
  cases inside with
  | nil => exact hnone.symm
  | cons index rest => rfl

theorem items_insert (index : Nat) (item : Item) :
    (insert index item).items p current =
      current.take index ++ [item] ++ current.drop index := by
  rw [items, items?, Option.getD_some]
  induction current generalizing index with
  | nil => simp
  | cons first rest ih =>
    cases index with
    | zero => simp
    | succ index =>
      rw [List.length_cons, Nat.succ_min_succ, List.insertIdx_succ_cons, ih]
      rfl

theorem items_remove (indices : List Nat) :
    (remove indices).items p current =
      (current.zipIdx.filter fun e => e.2 ∉ indices).map (·.1) := by
  let kept := fun inside : List Nat => (current.zipIdx.filter fun e => e.2 ∉ inside).map (·.1)
  have hall : kept [] = current := by simp [kept]
  refine (getD_unless_isEmpty kept hall _).trans (congrArg (List.map Prod.fst) ?_)
  exact List.filter_congr fun e he => by simp only [mem_inside_iff he]

theorem items_move (source target : Nat) :
    (move source target).items p current =
      match current[source]? with
      | none => current
      | some item =>
        let others := current.eraseIdx source
        others.insertIdx (min target others.length) item := by
  rw [items, items?]
  cases current[source]? <;> rfl

theorem items_replace (index : Nat) (item : Item) :
    (replace index item).items p current =
      if index < current.length then current.take index ++ [item] ++ current.drop (index + 1)
      else current := by
  rw [items, items?]
  by_cases hindex : index < current.length
  · rw [if_pos hindex, if_pos hindex, Option.getD_some, List.set_eq_take_append_cons_drop,
      if_pos hindex, List.append_cons]
  · rw [if_neg hindex, if_neg hindex, Option.getD_none]

theorem items_ungroup (indices : List Nat) :
    (ungroup indices).items p current =
      current.zipIdx.flatMap fun e => if e.2 ∈ indices then p.spliced e.1 else [e.1] := by
  let spliced := fun inside : List Nat =>
    current.zipIdx.flatMap fun e => if e.2 ∈ inside then p.spliced e.1 else [e.1]
  have hall : spliced [] = current := by
    simp only [spliced, List.not_mem_nil, if_false]
    rw [← List.map_eq_flatMap, List.zipIdx_map_fst]
  refine (getD_unless_isEmpty spliced hall _).trans ?_
  exact List.flatMap_congr fun e he => by simp only [mem_inside_iff he]

end PatternEdit

namespace Pattern

def apply (p : Pattern) (container : Container) (edit : PatternEdit) : Pattern :=
  (edit.result? p container).getD p

variable {p : Pattern} {container : Container} {current : List Item}

theorem containers_put (h : p.sequence? container = some current) (items : List Item) :
    (p.put container items).containers = p.containers := by
  cases container with
  | root => rfl
  | named name =>
    obtain ⟨kind, id⟩ := name
    have hfound : (p.table kind).find? id = some current := h
    have hkeys := Table.keys_insert (a := items) hfound
    cases kind with
    | group =>
      rw [table] at hkeys
      simp only [put, define, containers, names, hkeys]
    | super =>
      rw [table] at hkeys
      simp only [put, define, containers, names, hkeys]

/-- All edits put a sequence into the container. -/
theorem result?_eq (h : p.sequence? container = some current) (edit : PatternEdit) :
    edit.result? p container = p.setSequence? container (edit.items p current) := by
  have hedit : ∀ f, p.edit? container f = p.setSequence? container (f current) := by
    intro f
    rw [edit?, h, Option.bind_some]
  cases edit with
  | set items => rfl
  | insert index item =>
    rw [PatternEdit.items_insert]
    exact hedit _
  | remove indices =>
    rw [PatternEdit.items_remove]
    exact hedit _
  | move source target =>
    rw [PatternEdit.items_move]
    exact hedit _
  | replace index item =>
    rw [PatternEdit.items_replace]
    exact hedit _
  | ungroup indices =>
    rw [PatternEdit.items_ungroup]
    exact hedit _

theorem result?_eq_none (h : p.sequence? container = none) (edit : PatternEdit) :
    edit.result? p container = none := by
  have hedit : ∀ f, p.edit? container f = none := by
    intro f
    rw [edit?, h, Option.bind_none]
  cases edit with
  | set items => simp [PatternEdit.result?, setSequence?, h]
  | _ => exact hedit _

theorem apply_eq (h : p.sequence? container = some current) (edit : PatternEdit) :
    p.apply container edit = p.put container (edit.items p current) := by
  rw [apply, result?_eq h, getD_setSequence? h]

/-- An edit is taken back by one that turns its sequence into the old one. -/
theorem apply_apply (h : p.sequence? container = some current) {edit back : PatternEdit}
    (hback : back.items (p.apply container edit) (edit.items p current) = current) :
    (p.apply container edit).apply container back = p := by
  have hedited : (p.apply container edit).sequence? container = some (edit.items p current) := by
    rw [apply_eq h, sequence?_put, if_pos rfl]
  rw [apply_eq hedited, hback, apply_eq h, put_put, put_self h]

theorem apply_eq_self (h : p.sequence? container = none) (edit : PatternEdit) :
    p.apply container edit = p := by
  rw [apply, result?_eq_none h, Option.getD_none]

theorem containers_apply (p : Pattern) (container : Container) (edit : PatternEdit) :
    (p.apply container edit).containers = p.containers := by
  cases h : p.sequence? container with
  | none => rw [apply_eq_self h]
  | some current => rw [apply_eq h, containers_put h]

theorem sequence?_apply_of_ne {other : Container} (hne : other ≠ container)
    (edit : PatternEdit) : (p.apply container edit).sequence? other = p.sequence? other := by
  cases h : p.sequence? container with
  | none => rw [apply_eq_self h]
  | some current => rw [apply_eq h, sequence?_put, if_neg hne]

theorem result?_ne_some_self (p : Pattern) (container : Container) (edit : PatternEdit) :
    edit.result? p container ≠ some p := by
  intro hsame
  cases h : p.sequence? container with
  | none =>
    rw [result?_eq_none h] at hsame
    cases hsame
  | some current =>
    rw [result?_eq h] at hsame
    exact setSequence?_ne_self hsame rfl

theorem isSome_result?_eq_false_iff (edit : PatternEdit) :
    (edit.result? p container).isSome = false ↔ p.apply container edit = p := by
  have hother := result?_ne_some_self p container edit
  rw [apply]
  cases hresult : edit.result? p container with
  | none => simp
  | some q =>
    rw [hresult] at hother
    simpa using hother

end Pattern

namespace PatternEdit

open Pattern

variable {p : Pattern} {container : Container} {current : List Item}

/-- The steps come to the edit's result, and tell when there is one. -/
theorem snapshot_eq_after (p : Pattern) (container : Container) (edit : PatternEdit) :
    edit.snapshot p container = Snapshot.after p (edit.result? p container) := by
  unfold snapshot
  cases h : p.sequence? container with
  | none =>
    rw [result?_eq_none h]
    rfl
  | some current =>
    cases hitems : edit.items? p current with
    | none => simp [result?_eq h, items, hitems, setSequence?, h, Snapshot.after]
    | some new =>
      simp only [result?_eq h, items, hitems, Option.getD_some, setSequence?, h]
      split <;> rfl

/-! What takes an edit back. -/

theorem filter_zipIdx_ne (items : List Item) (index start : Nat) :
    ((items.zipIdx start).filter fun e => e.2 ∉ [start + index]).map (·.1) =
      items.eraseIdx index := by
  induction items generalizing index start with
  | nil => rfl
  | cons item rest ih =>
    rw [List.zipIdx_cons]
    cases index with
    | zero =>
      have hrest : ((rest.zipIdx (start + 1)).filter fun e => e.2 ∉ [start]) =
          rest.zipIdx (start + 1) := by
        refine List.filter_eq_self.mpr fun e he => ?_
        have hle := List.le_snd_of_mem_zipIdx he
        simp only [List.mem_singleton, decide_eq_true_eq]
        omega
      rw [Nat.add_zero, List.filter_cons_of_neg (by simp), hrest, List.zipIdx_map_fst]
      rfl
    | succ index =>
      rw [List.filter_cons_of_pos (by simp), List.map_cons, List.eraseIdx_cons_succ,
        ← ih index (start + 1), Nat.add_right_comm, Nat.add_assoc]

theorem items_remove_insert (p q : Pattern) (current : List Item) (index : Nat) (item : Item) :
    (remove [min index current.length]).items q ((insert index item).items p current) =
      current := by
  have herase := filter_zipIdx_ne ((insert index item).items p current)
    (min index current.length) 0
  rw [Nat.zero_add] at herase
  rw [items_remove, herase]
  exact List.eraseIdx_insertIdx_self item

theorem items_move_move (p q : Pattern) {source : Nat} (hsource : source < current.length)
    (target : Nat) :
    (move (min target (current.length - 1)) source).items q
      ((move source target).items p current) = current := by
  have hothers : (current.eraseIdx source).length = current.length - 1 :=
    List.length_eraseIdx_of_lt hsource
  have hplace : min target (current.length - 1) <
      ((current.eraseIdx source).insertIdx (min target (current.length - 1))
        current[source]).length := by
    rw [List.length_insertIdx_of_le_length (by omega)]
    omega
  simp only [items_move, List.getElem?_eq_getElem hsource, hothers,
    List.getElem?_eq_getElem hplace, List.getElem_insertIdx_self, List.eraseIdx_insertIdx_self]
  rw [Nat.min_eq_left (by omega), List.insertIdx_eraseIdx_getElem hsource]

theorem items_replace_replace (p q : Pattern) {index : Nat} (hindex : index < current.length)
    (item : Item) :
    (replace index current[index]).items q ((replace index item).items p current) = current := by
  simp [items, items?, hindex]

end PatternEdit

namespace Pattern

/-- Putting in, moving and overwriting can be taken back, wherever in the sequence they are
and however far behind it. No edit makes or drops a container or touches another one's
sequence, and the pattern that is handed on is the one that was given exactly when it is no
other, as it is for a container that is not there. -/
theorem edits_local_and_reversible (p : Pattern) :
    (∀ container items, p.sequence? container = some items →
      (∀ index item,
        (p.apply container (.insert index item)).apply container
          (.remove [min index items.length]) = p) ∧
      (∀ source target, source < items.length →
        (p.apply container (.move source target)).apply container
          (.move (min target (items.length - 1)) source) = p) ∧
      ∀ index item old, items[index]? = some old →
        (p.apply container (.replace index item)).apply container (.replace index old) = p) ∧
    ∀ container (edit : PatternEdit),
      let s := edit.snapshot p container
      s = ⟨p.apply container edit, (edit.result? p container).isSome⟩ ∧
      s.pattern.containers = p.containers ∧
      (∀ other, other ≠ container → s.pattern.sequence? other = p.sequence? other) ∧
      (s.isNew = false ↔ s.pattern = p) ∧
      (p.sequence? container = none → s = ⟨p, false⟩) := by
  refine ⟨fun container items h => ⟨?_, ?_, ?_⟩, fun container edit => ?_⟩
  · exact fun index item => apply_apply h (PatternEdit.items_remove_insert p _ items index item)
  · exact fun source target hsource =>
      apply_apply h (PatternEdit.items_move_move p _ hsource target)
  · intro index item old hold
    obtain ⟨hindex, rfl⟩ := List.getElem?_eq_some_iff.mp hold
    exact apply_apply h (PatternEdit.items_replace_replace p _ hindex item)
  · rw [PatternEdit.snapshot_eq_after]
    refine ⟨rfl, containers_apply p container edit,
      fun other hne => sequence?_apply_of_ne hne edit, isSome_result?_eq_false_iff edit,
      fun hmissing => ?_⟩
    rw [result?_eq_none hmissing]
    rfl

/-- A super-group that calls itself, edited behind its end. -/
theorem edits_local_and_reversible_within_cycle :
    let name : GroupName := ⟨.super, "s1"⟩
    let p := ({ root := [.call name] } : Pattern).define name [.pad 0, .call name, .pause 4]
    let put := p.apply (.named name) (.insert 9 (.pad 1))
    let moved := p.apply (.named name) (.move 0 9)
    put ≠ p ∧ put.apply (.named name) (.remove [3]) = p ∧
      moved ≠ p ∧ moved.apply (.named name) (.move 2 0) = p ∧ moved.containers = p.containers ∧
      (PatternEdit.ungroup [0, 2]).snapshot p (.named name) = ⟨p, false⟩ ∧
      (PatternEdit.set []).snapshot p (.named ⟨.group, "s1"⟩) = ⟨p, false⟩ := by
  intro name p put moved
  obtain ⟨hreversible, hlocal⟩ := edits_local_and_reversible p
  have hbody : p.sequence? (.named name) = some [.pad 0, .call name, .pause 4] := by rfl
  obtain ⟨hinsert, hmove, -⟩ := hreversible _ _ hbody
  obtain ⟨-, hcontainers, -⟩ := hlocal (.named name) (.move 0 9)
  obtain ⟨-, -, -, -, hmissing⟩ := hlocal (.named ⟨.group, "s1"⟩) (.set [])
  refine ⟨by decide, hinsert 9 (.pad 1), by decide, hmove 0 9 (by decide), hcontainers, ?_,
    hmissing rfl⟩
  rfl

end Pattern

end Groovebox

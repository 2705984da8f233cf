import Groovebox.Grouping

/-! Selections. Each container of each track has a set of selected indices, kept
in ascending order. A selection goes when an edit changes the sequence it was
made on. -/

namespace Groovebox

structure SelectionKey where
  track : Nat
  container : Container
  deriving DecidableEq

/-- The non-empty selections. -/
structure Selections where
  sets : List (SelectionKey × List Nat) := []
  deriving Inhabited

namespace Selections

def get (s : Selections) (track : Nat) (container : Container) : List Nat :=
  ((s.sets.find? (·.1 = ⟨track, container⟩)).map (·.2)).getD []

theorem get_cons (entry : SelectionKey × List Nat) (rest : List (SelectionKey × List Nat))
    (track : Nat) (container : Container) :
    get ⟨entry :: rest⟩ track container =
      if entry.1 = ⟨track, container⟩ then entry.2 else get ⟨rest⟩ track container := by
  unfold get
  by_cases hkey : entry.1 = ⟨track, container⟩ <;> simp [hkey]

/-- Replace one selection; the empty set is not kept. -/
def put (s : Selections) (track : Nat) (container : Container) (indices : List Nat) : Selections :=
  let others := s.sets.filter (·.1 ≠ ⟨track, container⟩)
  ⟨if indices.isEmpty then others else (⟨track, container⟩, indices) :: others⟩

theorem get_filter (sets : List (SelectionKey × List Nat)) (key : SelectionKey) (track : Nat)
    (container : Container) :
    get ⟨sets.filter (·.1 ≠ key)⟩ track container =
      if key = ⟨track, container⟩ then [] else get ⟨sets⟩ track container := by
  induction sets with
  | nil => simp [get]
  | cons entry rest ih =>
    rw [get_cons]
    by_cases hentry : entry.1 = key
    · rw [List.filter_cons_of_neg (by simpa using hentry), ih, hentry]
      split <;> rfl
    · rw [List.filter_cons_of_pos (by simpa using hentry), get_cons, ih]
      by_cases hkey : key = ⟨track, container⟩
      · simp [hkey, hkey ▸ hentry]
      · simp [hkey]

theorem get_put (s : Selections) (track : Nat) (container : Container) (indices : List Nat)
    (other : Nat) (place : Container) :
    (s.put track container indices).get other place =
      if track = other ∧ container = place then indices else s.get other place := by
  have hothers := get_filter s.sets ⟨track, container⟩ other place
  simp only [SelectionKey.mk.injEq] at hothers
  unfold put
  cases indices with
  | nil => exact hothers
  | cons index rest =>
    simp only [List.isEmpty_cons, Bool.false_eq_true, if_false, get_cons, SelectionKey.mk.injEq,
      hothers]
    split <;> rfl

/-- All indices from the lesser to the greater end besides the old ones. -/
def withRange (first last : Nat) (old : List Nat) : List Nat :=
  let low := min first last
  let high := max first last
  old.filter (· < low) ++ List.range' low (high + 1 - low) ++ old.filter (high < ·)

def selectRange (s : Selections) (track : Nat) (container : Container) (first last : Nat) :
    Selections :=
  s.put track container (withRange first last (s.get track container))

def select (s : Selections) (track : Nat) (container : Container) (index : Nat) : Selections :=
  s.selectRange track container index index

def toggled (index : Nat) (old : List Nat) : List Nat :=
  if index ∈ old then old.filter (· ≠ index)
  else old.filter (· < index) ++ index :: old.filter (index < ·)

def toggle (s : Selections) (track : Nat) (container : Container) (index : Nat) : Selections :=
  s.put track container (toggled index (s.get track container))

def clear (s : Selections) (track : Nat) (container : Container) : Selections :=
  s.put track container []

theorem get_clear (s : Selections) (track : Nat) (container : Container) (other : Nat)
    (place : Container) :
    (s.clear track container).get other place =
      if track = other ∧ container = place then [] else s.get other place :=
  s.get_put track container [] other place

/-- Drop the selections of a track; later tracks move down by one. -/
def forgetTrack (s : Selections) (track : Nat) : Selections :=
  ⟨s.sets.filterMap fun (key, indices) =>
    if key.track = track then none
    else if track < key.track then some (⟨key.track - 1, key.container⟩, indices)
    else some (key, indices)⟩

/-- The track that is at a place now was one further on if it is behind the removed one. -/
theorem get_forgetTrack (s : Selections) (removed track : Nat) (container : Container) :
    (s.forgetTrack removed).get track container =
      s.get (if track < removed then track else track + 1) container := by
  obtain ⟨sets⟩ := s
  induction sets with
  | nil => rfl
  | cons entry rest ih =>
    obtain ⟨⟨place, other⟩, indices⟩ := entry
    simp only [forgetTrack] at ih
    simp only [forgetTrack, List.filterMap_cons, get_cons, SelectionKey.mk.injEq]
    by_cases heq : place = removed
    · have hne : place ≠ if track < removed then track else track + 1 := by
        split <;> omega
      simp only [if_pos heq]
      exact ih.trans (if_neg fun hsame => hne hsame.1).symm
    · by_cases hlt : removed < place
      · have hmoved : place - 1 = track ↔ place = if track < removed then track else track + 1 := by
          split <;> omega
        simp only [heq, hlt, if_true, if_false, get_cons, SelectionKey.mk.injEq, ih, hmoved]
      · have hkept : place = track ↔ place = if track < removed then track else track + 1 := by
          split <;> omega
        simp only [heq, hlt, if_false, get_cons, SelectionKey.mk.injEq, ih, hkept]

/-- Run an edit on the selected indices. One that changes the pattern clears the
selection. -/
def edit (s : Selections) (track : Nat) (container : Container)
    (f : List Nat → Option Pattern) : Option Pattern × Selections :=
  match f (s.get track container) with
  | none => (none, s)
  | some changed => (some changed, s.clear track container)

def canGroup (s : Selections) (p : Pattern) (track : Nat) (container : Container) : Bool :=
  p.canGroup container (s.get track container)

def group (s : Selections) (p : Pattern) (track : Nat) (container : Container)
    (kind : GroupKind) : Option Pattern × Selections :=
  s.edit track container (p.group? container · kind)

def ungroup (s : Selections) (p : Pattern) (track : Nat) (container : Container) :
    Option Pattern × Selections :=
  s.edit track container (p.ungroup? container)

def remove (s : Selections) (p : Pattern) (track : Nat) (container : Container) :
    Option Pattern × Selections :=
  s.edit track container (p.removeItems? container)

end Selections

end Groovebox

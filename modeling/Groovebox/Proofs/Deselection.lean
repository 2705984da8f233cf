import Mathlib.Data.List.Sort
import Groovebox.Proofs.Anchors
import Groovebox.Proofs.Commands

/-! Deselecting. Every listed index that was selected at the start is toggled once for each time
it is listed, so one that is listed an even number of times stays selected. -/

namespace Groovebox

open Text

namespace Selections

variable {s : Selections} {track : Nat} {container : Container} {old : List Nat}

/-! Selections are in ascending order. -/

theorem pairwise_withRange (h : old.Pairwise (· < ·)) (first last : Nat) :
    (withRange first last old).Pairwise (· < ·) := by
  have hbetween : ∀ index, index ∈ List.range' (min first last)
      (max first last + 1 - min first last) → min first last ≤ index ∧ index ≤ max first last := by
    intro index hm
    obtain ⟨hle, hlt⟩ := List.mem_range'_1.mp hm
    omega
  refine List.pairwise_append.mpr ⟨List.pairwise_append.mpr ⟨h.filter _, ?_, ?_⟩, h.filter _, ?_⟩
  · exact List.pairwise_lt_range'
  · intro low hlow index hindex
    have hlow : low < min first last := by simpa using (List.mem_filter.mp hlow).2
    have hindex := hbetween index hindex
    omega
  · intro low hlow high hhigh
    have hhigh : max first last < high := by simpa using (List.mem_filter.mp hhigh).2
    rcases List.mem_append.mp hlow with hlow | hlow
    · have hlow : low < min first last := by simpa using (List.mem_filter.mp hlow).2
      omega
    · have hlow := hbetween low hlow
      omega

theorem toggled_of_notMem {index : Nat} (h : index ∉ old) :
    toggled index old = withRange index index old := by
  have hone : List.range' index (index + 1 - index) = [index] := by
    rw [Nat.add_sub_cancel_left, List.range'_one]
  rw [toggled, if_neg h, withRange, Nat.min_self, Nat.max_self, hone, List.append_assoc,
    List.singleton_append]

theorem pairwise_toggled (h : old.Pairwise (· < ·)) (index : Nat) :
    (toggled index old).Pairwise (· < ·) := by
  by_cases hselected : index ∈ old
  · rw [toggled, if_pos hselected]
    exact h.filter _
  · rw [toggled_of_notMem hselected]
    exact pairwise_withRange h index index

def IsAscending (s : Selections) : Prop :=
  ∀ track container, (s.get track container).Pairwise (· < ·)

theorem IsAscending.put (h : s.IsAscending) {indices : List Nat}
    (hindices : indices.Pairwise (· < ·)) (track : Nat) (container : Container) :
    (s.put track container indices).IsAscending := by
  intro other place
  rw [get_put]
  split
  · exact hindices
  · exact h other place

theorem IsAscending.clear (h : s.IsAscending) (track : Nat) (container : Container) :
    (s.clear track container).IsAscending :=
  h.put List.Pairwise.nil track container

theorem IsAscending.forgetTrack (h : s.IsAscending) (track : Nat) :
    (s.forgetTrack track).IsAscending := by
  intro other place
  rw [get_forgetTrack]
  exact h _ place

/-! Toggling one index after another. -/

def toggledEach (indices old : List Nat) : List Nat :=
  indices.foldl (fun old index => toggled index old) old

theorem get_foldl_toggle (s : Selections) (track : Nat) (container : Container)
    (indices : List Nat) (other : Nat) (place : Container) :
    (indices.foldl (·.toggle track container ·) s).get other place =
      if track = other ∧ container = place then toggledEach indices (s.get track container)
      else s.get other place := by
  induction indices generalizing s with
  | nil =>
    split
    · next heq => rw [← heq.1, ← heq.2]; rfl
    · rfl
  | cons index rest ih =>
    have hput := s.get_put track container (toggled index (s.get track container))
    have hhere := hput track container
    rw [if_pos ⟨rfl, rfl⟩] at hhere
    have hrest := ih (s.toggle track container index)
    rw [toggle, hhere, hput other place] at hrest
    refine hrest.trans ?_
    split <;> rfl

theorem pairwise_toggledEach (h : old.Pairwise (· < ·)) (indices : List Nat) :
    (toggledEach indices old).Pairwise (· < ·) := by
  induction indices generalizing old with
  | nil => exact h
  | cons index rest ih => exact ih (pairwise_toggled h index)

theorem mem_toggled {index other : Nat} :
    other ∈ toggled index old ↔ if index = other then other ∉ old else other ∈ old := by
  by_cases heq : index = other
  · subst heq
    rw [if_pos rfl, toggled]
    split <;> simp_all
  · rw [if_neg heq, toggled]
    split
    · simp [Ne.symm heq]
    · simp only [List.mem_append, List.mem_cons, List.mem_filter, decide_eq_true_eq]
      by_cases hm : other ∈ old <;> simp [hm, Ne.symm heq]

/-- Toggling an index twice does nothing to it. -/
theorem mem_toggledEach {indices : List Nat} {other : Nat} :
    other ∈ toggledEach indices old ↔ (other ∈ old ↔ indices.count other % 2 = 0) := by
  induction indices generalizing old with
  | nil => simp [toggledEach]
  | cons index rest ih =>
    have hrest : other ∈ toggledEach (index :: rest) old ↔
        (other ∈ toggled index old ↔ rest.count other % 2 = 0) := ih
    rw [hrest, mem_toggled, List.count_cons]
    by_cases heq : index = other
    · simp only [heq, if_true, beq_self_eq_true]
      by_cases hm : other ∈ old <;> simp only [hm, true_iff, not_true, not_false_eq_true, false_iff] <;> omega
    · simp [heq]

/-- Of the selected indices those are left that are listed an even number of times. -/
theorem toggledEach_filter (h : old.Pairwise (· < ·)) (indices : List Nat) :
    toggledEach (indices.filter (· ∈ old)) old =
      old.filter fun index => indices.count index % 2 = 0 := by
  refine (pairwise_toggledEach h _).eq_of_mem_iff (h.filter _) fun index => ?_
  rw [mem_toggledEach, List.mem_filter, decide_eq_true_eq]
  by_cases hm : index ∈ old
  · rw [List.count_filter (by simpa using hm)]
    simp [hm]
  · have hnone : (indices.filter (· ∈ old)).count index = 0 :=
      List.count_eq_zero_of_not_mem fun hlisted => hm (by simpa using (List.mem_filter.mp hlisted).2)
    simp [hm, hnone]

theorem filter_even_eq_iff {indices : List Nat} :
    (old.filter fun index => indices.count index % 2 = 0) = old.filter (· ∉ indices) ↔
      ∀ index ∈ old, index ∈ indices → indices.count index % 2 = 1 := by
  constructor
  · intro h index hold hlisted
    by_contra heven
    have hleft : index ∈ old.filter fun index => indices.count index % 2 = 0 :=
      List.mem_filter.mpr ⟨hold, by simpa using heven⟩
    rw [h, List.mem_filter, decide_eq_true_eq] at hleft
    exact hleft.2 hlisted
  · refine fun h => List.filter_congr fun index hold => ?_
    rw [decide_eq_decide]
    by_cases hlisted : index ∈ indices
    · have hodd := h index hold hlisted
      simp [hlisted, hodd]
    · simp [hlisted, List.count_eq_zero_of_not_mem hlisted]

end Selections

namespace Editor

variable {e changed : Editor}

theorem isAscending_perform (h : e.selections.IsAscending) {op : Operation}
    (hop : e.perform op = .ok changed) : changed.selections.IsAscending := by
  obtain ⟨answer, heffect⟩ := exists_effect hop
  cases heffect with
  | replaceSong song => exact fun _ _ => List.Pairwise.nil
  | removeTrack ht => exact h.forgetTrack _
  | edited => exact h.clear _ _
  | select first last ht => exact h.put (Selections.pairwise_withRange (h _ _) first last) _ _
  | toggle index ht => exact h.put (Selections.pairwise_toggled (h _ _) index) _ _
  | deselect track container => exact h.clear track container
  | dropped => exact h.clear _ _
  | _ => exact h

theorem Reachable.isAscending (h : e.Reachable) : e.selections.IsAscending :=
  h.induction (P := fun e => e.selections.IsAscending) (fun _ _ _ _ => List.Pairwise.nil)
    fun _ _ _ _ hbefore hop => isAscending_perform hbefore hop

end Editor

namespace Command

theorem ofWords_deselect {tracks : Nat} {word : String} {words : List String} {address : Address}
    {indices : List Nat} (haddress : readAddress tracks word = .ok address)
    (hindices : readIndices words = .ok indices) (hne : indices ≠ []) :
    ofWords tracks ("deselect" :: word :: words) = .ok (.deselect address indices) := by
  have hread : ofWords tracks ("deselect" :: word :: words) =
      readDeselect tracks (word :: words) := by rfl
  have hfirst : addressArgument tracks (word :: words) "deselect <addr> [index...]" =
      .ok address := haddress
  cases words with
  | nil =>
    obtain rfl := Except.ok.inj hindices
    exact absurd rfl hne
  | cons first more =>
    rw [hread, readDeselect, hfirst, ok_bind]
    simp only [List.tail_cons, hindices]
    rfl

end Command

namespace Session

open Groovebox.Action

variable {s : Session}

theorem run_deselect_command {t : Track} {track : Nat} {container : Container}
    (ht : s.editor.trackWith track container = .ok t) (indices : List Nat) :
    let left := s.toggleEach track container
      (indices.filter (· ∈ s.editor.selection track container))
    (run (.deselect ⟨track, container⟩ indices)).run s =
      (.ok (.text (selectionText (left.editor.selection track container) container)), left) := by
  intro left
  rw [run, run_bind_of_ok (run_get s), run_bind_of_ok (run_deselect ht _ indices)]
  rfl

theorem selection_toggleEach (s : Session) (track : Nat) (container : Container)
    (indices : List Nat) (other : Nat) (place : Container) :
    (s.toggleEach track container indices).editor.selection other place =
      if track = other ∧ container = place then
        Selections.toggledEach indices (s.editor.selection track container)
      else s.editor.selection other place :=
  Selections.get_foldl_toggle s.editor.selections track container indices other place

/-- The line `deselect <address> <index>...` toggles each listed index that is selected once for
each time it is listed, and does nothing else. So it takes the listed ones out of the selection
if and only if it lists none of the selected ones an even number of times. -/
theorem deselect_toggles_each_time (hreach : s.editor.Reachable) {line : String}
    {text : List Char} {word : String} {words : List String} {address : Address}
    {indices : List Nat} (hline : Command.splitLine line.toList = [text])
    (hmeta : (trim text).head? ≠ some ':')
    (hwords : words? (trim text) = some (("deselect" :: word :: words).map String.toList))
    (haddress : Command.readAddress s.editor.song.tracks.length word = .ok address)
    (hhas : s.editor.song.Has address.track address.container)
    (hindices : Command.readIndices words = .ok indices) (hne : indices ≠ []) :
    let old := s.editor.selection address.track address.container
    ∃ left selected, left.editor.selection address.track address.container = selected ∧
      s.enter line = (.ok (.text (selectionText selected address.container)), left) ∧
      selected = (old.filter fun index => indices.count index % 2 = 0) ∧
      (selected = old.filter (· ∉ indices) ↔
        ∀ index ∈ old, index ∈ indices → indices.count index % 2 = 1) ∧
      (∀ track container, ¬(address.track = track ∧ address.container = container) →
        left.editor.selection track container = s.editor.selection track container) ∧
      left = { s with editor.selections := left.editor.selections } := by
  obtain ⟨track, container⟩ := address
  obtain ⟨t, ht⟩ := hhas
  have hread := Command.ofWords_deselect haddress hindices hne
  have hback : (("deselect" :: word :: words).map String.toList).map String.ofList =
      "deselect" :: word :: words := by
    simp [Function.comp_def]
  rw [← hback] at hread
  have henter := (enter_of_command hline hmeta hwords hread).trans
    (run_deselect_command (Editor.trackWith_eq_ok_iff.mpr ht) indices)
  have hascending : (s.editor.selection track container).Pairwise (· < ·) :=
    hreach.isAscending track container
  have hleft := Selections.toggledEach_filter hascending indices
  refine ⟨_, _, rfl, henter, ?_, ?_, fun other place hother => ?_, rfl⟩
  · rw [selection_toggleEach, if_pos ⟨rfl, rfl⟩, hleft]
  · rw [selection_toggleEach, if_pos ⟨rfl, rfl⟩, hleft]
    exact Selections.filter_even_eq_iff
  · rw [selection_toggleEach, if_neg hother]

theorem deselect_toggles_each_time_thrice :
    ∃ s left : Session, s.editor.Reachable ∧ s.editor.selection 0 .root = [0, 1, 2] ∧
      left.editor.selection 0 .root = [1] ∧
      s.enter "deselect 1 2 0 '2' 3 2 1 1" = (.ok (.text (selectionText [1] .root)), left) ∧
      left = { s with editor.selections := left.editor.selections } := by
  let s : Session := { editor := ({} : Editor).run [.addTrack "A",
    .edit 0 .root (.setSequence [.pad 0, .pad 1, .pad 2]), .select 0 .root 0 2] }
  have hline : Command.splitLine "deselect 1 2 0 '2' 3 2 1 1".toList =
      ["deselect 1 2 0 '2' 3 2 1 1".toList] := by decide
  have hreach : s.editor.Reachable := ⟨{}, _, _, rfl⟩
  have hhas : s.editor.song.Has 0 .root := ⟨_, rfl, rfl⟩
  have hindices : Command.readIndices ["2", "0", "2", "3", "2", "1", "1"] =
      .ok [2, 0, 2, 3, 2, 1, 1] := by rfl
  have haddress : Command.readAddress s.editor.song.tracks.length "1" = .ok ⟨0, .root⟩ := by rfl
  obtain ⟨left, selected, hselection, henter, hselected, -, -, hleft⟩ :=
    deselect_toggles_each_time hreach hline (by decide) (by decide) haddress hhas hindices
      (by decide)
  obtain rfl : selected = [1] := hselected
  exact ⟨s, left, hreach, by decide, hselection, henter, hleft⟩

/-- The index is listed twice and stays selected. -/
theorem deselect_keeps_index_listed_twice :
    ∃ s : Session, s.editor.Reachable ∧ s.editor.selection 0 .root = [0] ∧
      s.enter "deselect 1 0 0" = (.ok (.text "  selected 0 in root"), s) := by
  let s : Session := { editor := ({} : Editor).run [.addTrack "A",
    .edit 0 .root (.setSequence [.pad 0, .pad 1, .pad 2]), .select 0 .root 0 0] }
  have hline : Command.splitLine "deselect 1 0 0".toList = ["deselect 1 0 0".toList] := by decide
  have hwords : words? (trim "deselect 1 0 0".toList) =
      some ["deselect".toList, "1".toList, "0".toList, "0".toList] := by decide
  have hread : Command.ofWords s.editor.song.tracks.length ["deselect", "1", "0", "0"] =
      .ok (.deselect ⟨0, .root⟩ [0, 0]) := by rfl
  have hrun : (run (.deselect ⟨0, .root⟩ [0, 0])).run s =
      (.ok (.text "  selected 0 in root"), s) := by rfl
  exact ⟨s, ⟨{}, _, _, rfl⟩, by decide,
    (enter_of_command hline (by decide) hwords hread).trans hrun⟩

end Session

end Groovebox

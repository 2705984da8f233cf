import Groovebox.Proofs.Anchors
import Mathlib.Data.List.ModifyLast

/-! Operations on one track see nothing of the others and leave them as they are. Such an
operation comes to what it does with the track and the selections in it alone; so operations
on two tracks can be done in either order, and one of the tracks can as well go first. -/

namespace Groovebox

inductive TrackOperation where
  | setPadSteps (pad : UInt8) (steps : Option UInt32)
  | setDefaultPadSteps (steps : UInt32)
  | edit (container : Container) (edit : ContainerEdit)
  | select (container : Container) (first last : Nat)
  | toggle (container : Container) (index : Nat)
  | deselect (container : Container)

/-- What a track becomes, and at most one new selection in it. -/
structure TrackChange where
  track : Track
  selected : Option (Container × List Nat) := none

/-- An error that is still to be told which track it is about. -/
abbrev TrackFault := Nat → EditError

namespace TrackOperation

def on (track : Nat) : TrackOperation → Operation
  | .setPadSteps pad steps => .setPadSteps track pad steps
  | .setDefaultPadSteps steps => .setDefaultPadSteps track steps
  | .edit container change => .edit track container change
  | .select container first last => .select track container first last
  | .toggle container index => .toggle track container index
  | .deselect container => .deselect track container

def checked (x : Except EditError Unit) : Except TrackFault Unit := x.mapError fun fault _ => fault

def require (t : Track) (container : Container) : Except TrackFault Unit :=
  if (t.pattern.sequence? container).isNone then .error (.noSuchContainer · container) else .ok ()

/-- What an operation comes to, from its track and the selections in it. -/
def outcome (t : Track) (selected : Container → List Nat) :
    TrackOperation → Except TrackFault (Answer × TrackChange)
  | .setPadSteps pad steps => do
    if padCount ≤ pad.toNat then throw fun _ => .noSuchPad pad
    if let some steps := steps then checked (Editor.checkSteps steps)
    return (.done, ⟨{ t with pads := t.pads.setOwn pad steps }, none⟩)
  | .setDefaultPadSteps steps => do
    checked (Editor.checkSteps steps)
    return (.done, ⟨{ t with pads.fallback := steps }, none⟩)
  | .edit container change => do
    checked change.check
    require t container
    match change.result? container t (selected container) with
    | none => return (change.answer t false, ⟨t, none⟩)
    | some p => return (change.answer t true, ⟨{ t with pattern := p }, some (container, [])⟩)
  | .select container first last => do
    require t container
    return (.done, ⟨t, some (container, Selections.withRange first last (selected container))⟩)
  | .toggle container index => do
    require t container
    return (.done, ⟨t, some (container, Selections.toggled index (selected container))⟩)
  | .deselect container => return (.done, ⟨t, some (container, [])⟩)

end TrackOperation

namespace Selections

/-- Put a selection, if one is given. -/
def put? (s : Selections) (track : Nat) : Option (Container × List Nat) → Selections
  | none => s
  | some (container, indices) => s.put track container indices

theorem get_put?_of_ne {track other : Nat} (hne : track ≠ other) (s : Selections)
    (selected : Option (Container × List Nat)) (container : Container) :
    (s.put? track selected).get other container = s.get other container := by
  cases selected with
  | none => rfl
  | some chosen => rw [put?, get_put, if_neg fun hsame => hne hsame.1]

theorem get_put?_comm {i j : Nat} (hne : i ≠ j) (s : Selections)
    (a b : Option (Container × List Nat)) (track : Nat) (container : Container) :
    ((s.put? i a).put? j b).get track container = ((s.put? j b).put? i a).get track container := by
  cases a with
  | none => rfl
  | some a =>
    cases b with
    | none => rfl
    | some b =>
      simp only [put?, get_put]
      by_cases hj : j = track
      · have hi : i ≠ track := hj ▸ hne
        simp [hi]
      · simp [hj]

end Selections

namespace Editor

def withChange (e : Editor) (track : Nat) (change : TrackChange) : Editor :=
  { e with
    song.tracks := e.song.tracks.set track change.track
    selections := e.selections.put? track change.selected }

def settleAt (e : Editor) (track : Nat) :
    Except TrackFault (Answer × TrackChange) → Except EditError (Answer × Editor)
  | .ok (answer, change) => .ok (answer, e.withChange track change)
  | .error fault => .error (fault track)

variable {e : Editor} {track : Nat} {t : Track} {container : Container}

theorem withChange_none (ht : e.song.tracks[track]? = some t) :
    e.withChange track ⟨t, none⟩ = e := by
  obtain ⟨hlt, rfl⟩ := List.getElem?_eq_some_iff.mp ht
  simp [withChange, Selections.put?]

theorem withChange_selected (ht : e.song.tracks[track]? = some t) (indices : List Nat) :
    e.withChange track ⟨t, some (container, indices)⟩ =
      { e with selections := e.selections.put track container indices } := by
  obtain ⟨hlt, rfl⟩ := List.getElem?_eq_some_iff.mp ht
  simp [withChange, Selections.put?]

theorem updateTrack_eq_withChange (ht : e.song.tracks[track]? = some t) (f : Track → Track) :
    e.updateTrack track f = e.withChange track ⟨f t, none⟩ := by
  have htracks : e.song.tracks.modify track f = e.song.tracks.set track (f t) := by
    rw [List.modify_eq_set_getElem?, ht]
    rfl
  rw [updateTrack, htracks]
  rfl

theorem edited_eq_withChange (ht : e.song.tracks[track]? = some t) (p : Pattern) :
    e.edited track container p =
      e.withChange track ⟨{ t with pattern := p }, some (container, [])⟩ := by
  rw [edited, setPattern, updateTrack_eq_withChange ht]
  rfl

theorem settleAt_checked_bind (check : Except EditError Unit)
    (next : Unit → Except TrackFault (Answer × TrackChange)) :
    e.settleAt track (TrackOperation.checked check >>= next) =
      (check >>= fun _ => e.settleAt track (next ())) := by
  cases check <;> rfl

theorem settleAt_require_bind (ht : e.song.tracks[track]? = some t)
    (next : Unit → Except TrackFault (Answer × TrackChange)) :
    e.settleAt track (TrackOperation.require t container >>= next) =
      (e.trackWith track container >>= fun _ => e.settleAt track (next ())) := by
  rw [TrackOperation.require, trackWith_of_track ht]
  split <;> rfl

theorem map_done_updateTrack (ht : e.song.tracks[track]? = some t) (f : Track → Track) :
    ((e.track track >>= fun _ => .ok (e.updateTrack track f)).map (Answer.done, ·) :
        Except EditError (Answer × Editor)) =
      e.settleAt track (.ok (.done, ⟨f t, none⟩)) := by
  rw [track_eq_ok_iff.mpr ht, updateTrack_eq_withChange ht]
  rfl

theorem map_done_select (ht : e.song.tracks[track]? = some t) (indices : List Nat) :
    ((e.trackWith track container >>= fun _ =>
        .ok { e with selections := e.selections.put track container indices }).map
          (Answer.done, ·) : Except EditError (Answer × Editor)) =
      e.settleAt track (TrackOperation.require t container >>= fun _ =>
        .ok (.done, ⟨t, some (container, indices)⟩)) := by
  rw [settleAt_require_bind ht]
  cases e.trackWith track container with
  | error fault => rfl
  | ok found =>
    simp only [ok_bind, settleAt, withChange_selected ht]
    rfl

theorem settled_eq_settleAt (ht : e.song.tracks[track]? = some t) (edit : ContainerEdit) :
    (.ok (e.settled track container edit t) : Except EditError (Answer × Editor)) =
      e.settleAt track (match edit.result? container t (e.selection track container) with
        | none => .ok (edit.answer t false, ⟨t, none⟩)
        | some p => .ok (edit.answer t true,
          ⟨{ t with pattern := p }, some (container, [])⟩)) := by
  unfold settled
  cases edit.result? container t (e.selection track container) with
  | none => simp [putResult, settleAt, withChange_none ht]
  | some p => simp [putResult, settleAt, edited_eq_withChange ht]

/-- Nothing but the track and the selections in it has a part in what comes of the operation. -/
theorem execute_on (ht : e.song.tracks[track]? = some t) (op : TrackOperation) :
    e.execute (op.on track) = e.settleAt track (op.outcome t (e.selection track)) := by
  cases op with
  | setPadSteps pad steps =>
    simp only [TrackOperation.on, execute, Editor.setPadSteps, TrackOperation.outcome]
    by_cases hpad : padCount ≤ pad.toNat
    · rw [if_pos hpad, if_pos hpad]
      rfl
    rw [if_neg hpad, if_neg hpad]
    cases steps with
    | none => exact map_done_updateTrack ht _
    | some steps =>
      dsimp only
      rw [settleAt_checked_bind]
      cases checkSteps steps with
      | error fault => rfl
      | ok _ => exact map_done_updateTrack ht _
  | setDefaultPadSteps steps =>
    simp only [TrackOperation.on, execute, Editor.setDefaultPadSteps, TrackOperation.outcome,
      settleAt_checked_bind]
    cases checkSteps steps with
    | error fault => rfl
    | ok _ => exact map_done_updateTrack ht _
  | edit container change =>
    simp only [TrackOperation.on, execute, answerEdit_eq, TrackOperation.outcome,
      settleAt_checked_bind, settleAt_require_bind ht]
    cases change.check with
    | error fault => rfl
    | ok _ =>
      rw [trackWith_of_track ht]
      by_cases hnone : (t.pattern.sequence? container).isNone
      · rw [if_pos hnone]
        rfl
      · rw [if_neg hnone]
        exact settled_eq_settleAt ht change
  | select container first last => exact map_done_select ht _
  | toggle container index => exact map_done_select ht _
  | deselect container =>
    have hcleared : e.deselect track container = _ := (withChange_selected ht []).symm
    simp only [TrackOperation.on, execute, hcleared]
    rfl

/-- The change that an operation makes in its track, if it does not fail. -/
def change? (e : Editor) (track : Nat) (t : Track) (op : TrackOperation) : Option TrackChange :=
  (op.outcome t (e.selection track)).toOption.map (·.2)

def withChange? (e : Editor) (track : Nat) : Option TrackChange → Editor
  | none => e
  | some change => e.withChange track change

theorem after_on (ht : e.song.tracks[track]? = some t) (op : TrackOperation) :
    e.after (op.on track) = e.withChange? track (e.change? track t op) := by
  rw [after, perform_eq_map, execute_on ht, change?]
  cases op.outcome t (e.selection track) <;> rfl

theorem track?_withChange?_of_ne {other : Nat} (hne : track ≠ other) (change : Option TrackChange) :
    (e.withChange? track change).song.tracks[other]? = e.song.tracks[other]? := by
  cases change with
  | none => rfl
  | some change => exact List.getElem?_set_ne hne

theorem selection_withChange?_of_ne {other : Nat} (hne : track ≠ other)
    (change : Option TrackChange) :
    (e.withChange? track change).selection other = e.selection other := by
  cases change with
  | none => rfl
  | some change => exact funext (Selections.get_put?_of_ne hne _ _)

/-- Song, selections and drag are the same. -/
structure Same (e other : Editor) : Prop where
  song : e.song = other.song
  selection : ∀ track container, e.selection track container = other.selection track container
  drag : e.drag = other.drag
  padSteps : e.padSteps = other.padSteps

theorem Same.refl (e : Editor) : e.Same e := ⟨rfl, fun _ _ => rfl, rfl, rfl⟩

theorem same_withChange?_comm {i j : Nat} (hne : i ≠ j) (a b : Option TrackChange) :
    ((e.withChange? i a).withChange? j b).Same ((e.withChange? j b).withChange? i a) := by
  cases a with
  | none => exact .refl _
  | some a =>
    cases b with
    | none => exact .refl _
    | some b =>
      refine ⟨?_, fun track container => Selections.get_put?_comm hne _ _ _ _ _, rfl, rfl⟩
      simp [withChange?, withChange, List.set_comm _ _ hne]

theorem set_eraseIdx_placeWithout {α : Type} {i j : Nat} (hne : i ≠ j) (l : List α) (a : α) :
    (l.set i a).eraseIdx j = (l.eraseIdx j).set (placeWithout j i) a := by
  unfold placeWithout
  by_cases hlt : j < i
  · rw [if_pos hlt, List.eraseIdx_set_lt hlt]
  · rw [if_neg hlt, List.eraseIdx_set_gt (by omega)]

theorem get_forgetTrack_put? {i j : Nat} (hne : i ≠ j) (s : Selections)
    (selected : Option (Container × List Nat)) (track : Nat) (container : Container) :
    ((s.put? i selected).forgetTrack j).get track container =
      ((s.forgetTrack j).put? (placeWithout j i) selected).get track container := by
  cases selected with
  | none => rfl
  | some chosen =>
    simp only [Selections.put?, Selections.get_forgetTrack, Selections.get_put,
      placeWithout_eq_iff hne]

theorem same_withoutTrack_withChange? {i j : Nat} (hne : i ≠ j) (change : Option TrackChange) :
    ((e.withChange? i change).withoutTrack j).Same
      ((e.withoutTrack j).withChange? (placeWithout j i) change) := by
  cases change with
  | none => exact .refl _
  | some change =>
    refine ⟨?_, fun track container => get_forgetTrack_put? hne _ _ _ _, rfl, rfl⟩
    simp [withChange?, withChange, withoutTrack, set_eraseIdx_placeWithout hne]

theorem selection_withoutTrack {i j : Nat} (hne : i ≠ j) :
    (e.withoutTrack j).selection (placeWithout j i) = e.selection i := by
  funext container
  have hplace := (placeWithout_eq_iff hne).mp rfl
  rw [selection, withoutTrack, Selections.get_forgetTrack, ← hplace, selection]

theorem after_removeTrack (ht : e.song.tracks[track]? = some t) :
    e.after (.removeTrack track) = e.withoutTrack track := by
  rw [after, perform, removeTrack, track_eq_ok_iff.mpr ht]
  rfl

section TwoTracks

variable {i j : Nat} {s t : Track}

/-- The other operation finds its track and the selections in it as they were. -/
theorem change?_withChange? (hne : i ≠ j) (change : Option TrackChange) (op : TrackOperation) :
    (e.withChange? i change).change? j t op = e.change? j t op := by
  rw [change?, selection_withChange?_of_ne hne, change?]

theorem after_on_after_on (hne : i ≠ j) (hs : e.song.tracks[i]? = some s)
    (ht : e.song.tracks[j]? = some t) (a b : TrackOperation) :
    (e.after (a.on i)).after (b.on j) =
      (e.withChange? i (e.change? i s a)).withChange? j (e.change? j t b) := by
  have hkept := (track?_withChange?_of_ne hne (e.change? i s a)).trans ht
  rw [after_on hs, after_on hkept, change?_withChange? hne]

theorem answer_after_on (hne : i ≠ j) (hs : e.song.tracks[i]? = some s)
    (ht : e.song.tracks[j]? = some t) (a b : TrackOperation) :
    ((e.after (a.on i)).execute (b.on j)).map (·.1) = (e.execute (b.on j)).map (·.1) := by
  have hkept := (track?_withChange?_of_ne hne (e.change? i s a)).trans ht
  rw [after_on hs, execute_on hkept, execute_on ht, selection_withChange?_of_ne hne]
  cases b.outcome t (e.selection j) <;> rfl

theorem after_on_after_removeTrack (hne : i ≠ j) (hs : e.song.tracks[i]? = some s)
    (ht : e.song.tracks[j]? = some t) (a : TrackOperation) :
    (e.after (a.on i)).after (.removeTrack j) =
      (e.withChange? i (e.change? i s a)).withoutTrack j := by
  have hkept := (track?_withChange?_of_ne hne (e.change? i s a)).trans ht
  rw [after_on hs, after_removeTrack hkept]

theorem after_removeTrack_after_on (hne : i ≠ j) (hs : e.song.tracks[i]? = some s)
    (ht : e.song.tracks[j]? = some t) (a : TrackOperation) :
    (e.after (.removeTrack j)).after (a.on (placeWithout j i)) =
      (e.withoutTrack j).withChange? (placeWithout j i) (e.change? i s a) := by
  have hkept := (track?_withoutTrack (e := e) hne).trans hs
  rw [after_removeTrack ht, after_on hkept, change?, selection_withoutTrack hne, change?]

end TwoTracks

/-- Operations on two tracks come to the same and give the same answers in either order, and
one on a track comes to the same before and after the other track has gone. -/
theorem tracks_isolated {i j : Nat} (hi : i < e.song.tracks.length)
    (hj : j < e.song.tracks.length) (hne : i ≠ j) (a b : TrackOperation) :
    ((e.after (a.on i)).after (b.on j)).Same ((e.after (b.on j)).after (a.on i)) ∧
    (e.execute (a.on i)).map (·.1) = ((e.after (b.on j)).execute (a.on i)).map (·.1) ∧
    ((e.after (a.on i)).execute (b.on j)).map (·.1) = (e.execute (b.on j)).map (·.1) ∧
    ((e.after (a.on i)).after (.removeTrack j)).Same
      ((e.after (.removeTrack j)).after (a.on (if j < i then i - 1 else i))) := by
  have hs := List.getElem?_eq_getElem hi
  have ht := List.getElem?_eq_getElem hj
  refine ⟨?_, (answer_after_on hne.symm ht hs b a).symm, answer_after_on hne hs ht a b, ?_⟩
  · rw [after_on_after_on hne hs ht, after_on_after_on hne.symm ht hs]
    exact same_withChange?_comm hne _ _
  · rw [after_on_after_removeTrack hne hs ht]
    have hafter := after_removeTrack_after_on hne hs ht a
    rw [placeWithout] at hafter
    rw [hafter]
    exact same_withoutTrack_withChange? hne _

/-- Two pads of the second track are grouped while the first one is edited or removed. -/
theorem tracks_isolated_grouping :
    ∃ e : Editor, e.song.tracks.length = 2 ∧
      (e.execute (.edit 1 .root (.group .super))).map (·.1.tellsChange) = .ok true ∧
      ((e.after (.edit 1 .root (.group .super))).after (.edit 0 .root (.insert 0 (.pad 4)))).Same
        ((e.after (.edit 0 .root (.insert 0 (.pad 4)))).after (.edit 1 .root (.group .super))) ∧
      ((e.after (.edit 1 .root (.group .super))).after (.removeTrack 0)).Same
        ((e.after (.removeTrack 0)).after (.edit 0 .root (.group .super))) := by
  let ops : List Operation :=
    [.addTrack "kick", .addTrack "hat", .edit 1 .root (.setSequence [.pad 0, .pad 1]),
      .select 1 .root 0 1]
  have hi : 1 < (({} : Editor).run ops).song.tracks.length := by decide
  have hj : 0 < (({} : Editor).run ops).song.tracks.length := by decide
  obtain ⟨hboth, -, -, hremoved⟩ := tracks_isolated hi hj (by decide)
    (.edit .root (.group .super)) (.edit .root (.insert 0 (.pad 4)))
  exact ⟨_, by decide, by decide, hboth, hremoved⟩

end Editor

end Groovebox

import Groovebox.Proofs.Effects

/-! What a drag and a selection are about. Both name a track and a container by their
places, and over a whole run these places are there: no operation drops a container, and
the removal of a track renumbers drag and selections with the tracks. -/

namespace Groovebox

/-- The track is there and its pattern defines the container. -/
def Song.Has (song : Song) (track : Nat) (container : Container) : Prop :=
  ∃ t, song.tracks[track]? = some t ∧ (t.pattern.sequence? container).isSome

theorem Song.Has.lt {song : Song} {track : Nat} {container : Container}
    (h : song.Has track container) : track < song.tracks.length := by
  obtain ⟨t, ht, -⟩ := h
  exact (List.getElem?_eq_some_iff.mp ht).1

namespace Selections

/-- Every selection is one of a container that the song has. -/
def IsAnchored (s : Selections) (song : Song) : Prop :=
  ∀ entry ∈ s.sets, song.Has entry.1.track entry.1.container

variable {s : Selections} {song : Song} {track : Nat} {container : Container}

theorem IsAnchored.has_of_get_ne_nil (h : s.IsAnchored song) (hne : s.get track container ≠ []) :
    song.Has track container := by
  unfold get at hne
  cases hf : s.sets.find? (·.1 = ⟨track, container⟩) with
  | none => simp [hf] at hne
  | some entry =>
    have hkey : entry.1 = ⟨track, container⟩ := by simpa using List.find?_some hf
    have hentry := h entry (List.mem_of_find?_eq_some hf)
    rwa [hkey] at hentry

theorem IsAnchored.clear (h : s.IsAnchored song) (track : Nat) (container : Container) :
    (s.clear track container).IsAnchored song :=
  fun entry hm => h entry (List.mem_filter.mp hm).1

theorem IsAnchored.put (h : s.IsAnchored song) (hhas : song.Has track container)
    (indices : List Nat) : (s.put track container indices).IsAnchored song := by
  intro entry hm
  unfold Selections.put at hm
  split at hm
  · exact h entry (List.mem_filter.mp hm).1
  · rcases List.mem_cons.mp hm with rfl | hm
    · exact hhas
    · exact h entry (List.mem_filter.mp hm).1

theorem IsAnchored.mono {song' : Song} (h : s.IsAnchored song)
    (hsong : ∀ track container, song.Has track container → song'.Has track container) :
    s.IsAnchored song' :=
  fun entry hm => hsong _ _ (h entry hm)

end Selections

namespace Drag

theorem editsOnly_drop? {d : Drag} {p q : Pattern} {pads : PadLengths}
    (h : d.drop? p pads = some q) : p.EditsOnly d.container q := by
  obtain ⟨items, hset⟩ := exists_setSequence?_of_drop? h
  exact Pattern.editsOnly_setSequence? hset

end Drag

namespace Editor

/-- The drag and all selections are about containers that the song has. -/
structure IsAnchored (e : Editor) : Prop where
  drag : ∀ active, e.drag = some active → e.song.Has active.track active.drag.container
  selections : e.selections.IsAnchored e.song

variable {e changed : Editor} {track : Nat} {container : Container}

theorem has_updateTrack {f : Track → Track} {other : Nat} {place : Container}
    (hf : ∀ t, e.song.tracks[track]? = some t → ∀ c, (t.pattern.sequence? c).isSome →
      ((f t).pattern.sequence? c).isSome)
    (h : e.song.Has other place) : (e.updateTrack track f).song.Has other place := by
  obtain ⟨t, ht, hs⟩ := h
  by_cases ho : track = other
  · subst ho
    exact ⟨f t, by simp [updateTrack, ht], hf t ht place hs⟩
  · exact ⟨t, by simp [updateTrack, ho, ht], hs⟩

theorem track?_withoutTrack {removed other : Nat} (hne : other ≠ removed) :
    (e.withoutTrack removed).song.tracks[placeWithout removed other]? = e.song.tracks[other]? := by
  have hother := (placeWithout_eq_iff hne).mp rfl
  simp only [withoutTrack, List.getElem?_eraseIdx]
  conv_rhs => rw [hother]
  split <;> rfl

theorem has_withoutTrack {removed other : Nat} {place : Container} (hne : other ≠ removed)
    (h : e.song.Has other place) :
    (e.withoutTrack removed).song.Has (placeWithout removed other) place := by
  obtain ⟨t, ht, hs⟩ := h
  exact ⟨t, (track?_withoutTrack hne).trans ht, hs⟩

namespace IsAnchored

theorem start (song : Song) (padSteps : UInt32) : ({ song, padSteps } : Editor).IsAnchored where
  drag _ h := by simp at h
  selections _ h := by simp at h

theorem of_song (h : e.IsAnchored)
    (hsong : ∀ track container, e.song.Has track container → changed.song.Has track container)
    (hdrag : changed.drag = e.drag) (hselections : changed.selections = e.selections) :
    changed.IsAnchored where
  drag active ha := hsong _ _ (h.drag active (hdrag ▸ ha))
  selections := by
    rw [hselections]
    exact h.selections.mono hsong

theorem edited (h : e.IsAnchored) {t : Track} {p : Pattern}
    (ht : e.song.tracks[track]? = some t) (hp : t.pattern.EditsOnly container p) :
    (e.edited track container p).IsAnchored := by
  have hsong : ∀ other place, e.song.Has other place →
      (e.edited track container p).song.Has other place := by
    intro other place
    refine has_updateTrack fun found hfound c hs => ?_
    obtain rfl := Option.some.inj (hfound.symm.trans ht)
    exact hp.isSome hs
  exact ⟨fun active ha => hsong _ _ (h.drag active ha), (h.selections.clear _ _).mono hsong⟩

theorem updateTrack (h : e.IsAnchored) {f : Track → Track}
    (hf : ∀ t, (f t).pattern = t.pattern) : (e.updateTrack track f).IsAnchored :=
  h.of_song (fun _ _ => has_updateTrack fun t _ _ hs => (hf t).symm ▸ hs) rfl rfl

theorem addTrack (h : e.IsAnchored) (name : String) : (e.addTrack name).2.IsAnchored := by
  refine h.of_song (fun other place hhas => ?_) rfl rfl
  have hlt := hhas.lt
  obtain ⟨t, ht, hs⟩ := hhas
  exact ⟨t, by rw [Editor.addTrack, List.getElem?_append_left hlt, ht], hs⟩

theorem withoutTrack (h : e.IsAnchored) (track : Nat) : (e.withoutTrack track).IsAnchored := by
  constructor
  · intro active ha
    obtain ⟨old, hold, ha⟩ := Option.bind_eq_some_iff.mp ha
    have hhas := h.drag old hold
    -- A drag on the removed track is gone.
    by_cases heq : old.track = track
    · simp [heq] at ha
    · have hmoved := has_withoutTrack heq hhas
      rw [if_neg heq] at ha
      unfold placeWithout at hmoved
      by_cases hlt : track < old.track
      all_goals
        simp only [hlt, if_true, if_false] at ha hmoved
        obtain rfl := Option.some.inj ha
        exact hmoved
  · intro entry hm
    obtain ⟨⟨key, indices⟩, hkey, he⟩ := List.mem_filterMap.mp hm
    have hhas := h.selections _ hkey
    by_cases heq : key.track = track
    · simp [heq] at he
    · have hmoved := has_withoutTrack heq hhas
      simp only [if_neg heq] at he
      unfold placeWithout at hmoved
      by_cases hlt : track < key.track
      all_goals
        simp only [hlt, if_true, if_false] at he hmoved
        obtain rfl := Option.some.inj he
        exact hmoved

theorem putSelection (h : e.IsAnchored) (hhas : e.song.Has track container) (indices : List Nat) :
    ({ e with selections := e.selections.put track container indices } : Editor).IsAnchored :=
  ⟨h.drag, h.selections.put hhas indices⟩

theorem putDrag (h : e.IsAnchored) {drag : Drag} (hhas : e.song.Has track drag.container) :
    ({ e with drag := some ⟨track, drag⟩ } : Editor).IsAnchored := by
  refine ⟨fun active ha => ?_, h.selections⟩
  obtain rfl := Option.some.inj ha
  exact hhas

theorem dropped (h : e.IsAnchored) : ({ e with drag := none } : Editor).IsAnchored :=
  ⟨fun _ ha => by simp at ha, h.selections⟩

end IsAnchored

theorem has_of_trackWith {t : Track} (h : e.trackWith track container = .ok t) :
    e.song.Has track container :=
  ⟨t, trackWith_eq_ok_iff.mp h⟩

theorem IsAnchored.perform (h : e.IsAnchored) {op : Operation} (hop : e.perform op = .ok changed) :
    changed.IsAnchored := by
  obtain ⟨answer, heffect⟩ := exists_effect hop
  cases heffect with
  | replaceSong song => exact start song e.padSteps
  | setBpm bpm => exact h.of_song (fun _ _ hhas => hhas) rfl rfl
  | addTrack name => exact h.addTrack name
  | removeTrack ht => exact h.withoutTrack _
  | setPadSteps pad steps => exact h.updateTrack fun _ => rfl
  | setDefaultPadSteps steps => exact h.updateTrack fun _ => rfl
  | kept => exact h
  | edited _ ht hp => exact h.edited (trackWith_eq_ok_iff.mp ht).1 (Pattern.editsOnly_result? hp)
  | select first last ht => exact h.putSelection (has_of_trackWith ht) _
  | toggle index ht => exact h.putSelection (has_of_trackWith ht) _
  | deselect track container => exact ⟨h.drag, h.selections.clear _ _⟩
  | beginDrag ht => exact h.putDrag (has_of_trackWith ht)
  | hover plan hdrag => exact h.putDrag (h.drag _ hdrag)
  | rejected => exact h.dropped
  | dropped hdrag ht hp => exact h.dropped.edited ht (Drag.editsOnly_drop? hp)
  | cancelDrag => exact h.dropped

theorem IsAnchored.after (h : e.IsAnchored) (op : Operation) : (e.after op).IsAnchored := by
  unfold Editor.after
  split
  · exact h.perform ‹_›
  · exact h

theorem Reachable.isAnchored (h : e.Reachable) : e.IsAnchored :=
  h.induction .start fun _ _ _ _ hbefore hop => hbefore.perform hop

theorem IsAnchored.exists_hover (h : e.IsAnchored) (hdrag : e.drag ≠ none) {step : UInt32}
    (hstep : step.toNat ≤ stepLimit) : ∃ plan changed, e.hover step = .ok (plan, changed) := by
  obtain ⟨active, hactive⟩ := Option.ne_none_iff_exists'.mp hdrag
  obtain ⟨t, ht⟩ := h.drag active hactive
  have hline : e.timeline active.track active.drag.container true =
      .ok (t.pattern.timeline t.pads active.drag.container true) := by
    rw [timeline, trackWith_eq_ok_iff.mpr ht]
    rfl
  unfold Editor.hover
  simp only [hactive, hline]
  rw [if_neg (Nat.not_lt.mpr hstep)]
  exact ⟨_, _, rfl⟩

theorem IsAnchored.exists_dropDrag (h : e.IsAnchored) (hdrag : e.drag ≠ none) :
    ∃ outcome, e.dropDrag = .ok outcome := by
  obtain ⟨active, hactive⟩ := Option.ne_none_iff_exists'.mp hdrag
  obtain ⟨t, ht, -⟩ := h.drag active hactive
  unfold Editor.dropDrag
  simp only [hactive, track_eq_ok_iff.mpr ht]
  cases hdrop : active.drag.drop? t.pattern t.pads with
  | none => exact ⟨_, by simp only [bind, Except.bind, hdrop]; rfl⟩
  | some p => exact ⟨_, by simp only [bind, Except.bind, hdrop]; rfl⟩

theorem IsAnchored.selection_addTrack (h : e.IsAnchored) (name : String) (container : Container) :
    (e.addTrack name).2.selection (e.addTrack name).1 container = [] := by
  by_contra hne
  -- The new place is behind those of all tracks that a selection can be on.
  have hlt := (h.selections.has_of_get_ne_nil hne).lt
  exact Nat.lt_irrefl _ hlt

/-- Whatever was done to the song: the block being dragged and all selected items are in
containers that are there, a drag can go on and come to its end, and a new track takes over
no selection. -/
theorem drag_and_selections_anchored (h : e.Reachable) :
    (∀ active, e.drag = some active →
      active.track < e.song.tracks.length ∧ e.song.Has active.track active.drag.container) ∧
    (∀ track container, e.selection track container ≠ [] → e.song.Has track container) ∧
    (e.drag ≠ none →
      (∀ step : UInt32, step.toNat ≤ stepLimit →
        ∃ plan changed, e.hover step = .ok (plan, changed)) ∧
      ∃ outcome, e.dropDrag = .ok outcome) ∧
    ∀ name container, (e.addTrack name).2.selection (e.addTrack name).1 container = [] := by
  have ha := h.isAnchored
  refine ⟨fun active hactive => ?_, fun track container hne => ?_, fun hdrag => ?_,
    ha.selection_addTrack⟩
  · exact ⟨(ha.drag active hactive).lt, ha.drag active hactive⟩
  · exact ha.selections.has_of_get_ne_nil hne
  · exact ⟨fun step hstep => ha.exists_hover hdrag hstep, ha.exists_dropDrag hdrag⟩

/-- A drag on the second track, with the first one removed and the dragged items deleted
under it. -/
theorem drag_and_selections_anchored_after_removal :
    ∃ e : Editor, e.Reachable ∧ e.drag.map (·.track) = some 0 ∧ e.song.tracks.length = 1 ∧
      e.selection 0 .root = [] ∧ (∃ plan changed, e.hover 8 = .ok (plan, changed)) ∧
      ∃ outcome, e.dropDrag = .ok outcome := by
  let ops : List Operation :=
    [.addTrack "kick", .addTrack "hat", .edit 1 .root (.setSequence [.pad 0, .pad 1]),
      .select 1 .root 0 0, .beginDrag 1 .root, .hover 4, .removeTrack 0,
      .edit 0 .root (.delete [0, 1])]
  have hreach : (({} : Editor).run ops).Reachable := ⟨{}, _, ops, rfl⟩
  have htrack : (({} : Editor).run ops).drag.map (·.track) = some 0 := by decide
  have hdrag : (({} : Editor).run ops).drag ≠ none := fun hnone => by simp [hnone] at htrack
  obtain ⟨-, -, hgo, -⟩ := drag_and_selections_anchored hreach
  exact ⟨_, hreach, htrack, by decide, by decide, (hgo hdrag).1 8 (by decide), (hgo hdrag).2⟩

end Editor

end Groovebox

import Groovebox.Proofs.Answers

/-! What an operation that succeeds does to the editor: one case for each way to succeed, with
all that was checked on the way. -/

namespace Groovebox

namespace Drag

theorem exists_moveBlock?_of_drop? {d : Drag} {p q : Pattern} {pads : PadLengths}
    (h : d.drop? p pads = some q) :
    ∃ plan, d.proposal = some plan ∧
      p.moveBlock? pads d.container d.first d.last plan.target = some q := by
  rw [drop?_eq_moveBlock?] at h
  obtain ⟨plan, hplan, hmove⟩ := Option.bind_eq_some_iff.mp h
  exact ⟨plan, (Option.filter_eq_some_iff.mp hplan).1, hmove⟩

theorem exists_setSequence?_of_drop? {d : Drag} {p q : Pattern} {pads : PadLengths}
    (h : d.drop? p pads = some q) : ∃ items, p.setSequence? d.container items = some q := by
  obtain ⟨plan, -, hmove⟩ := exists_moveBlock?_of_drop? h
  obtain ⟨items, -, hset⟩ := Pattern.moveBlock?_eq_some_iff.mp hmove
  exact ⟨items, hset⟩

end Drag

/-- The place of a track when another one has gone. -/
def placeWithout (removed track : Nat) : Nat := if removed < track then track - 1 else track

theorem placeWithout_eq_iff {removed track place : Nat} (hne : track ≠ removed) :
    placeWithout removed track = place ↔
      track = if place < removed then place else place + 1 := by
  unfold placeWithout
  split <;> split <;> omega

/-- Where a track is after an operation, if it is still there. -/
def Operation.follow (track : Nat) : Operation → Option Nat
  | .replaceSong _ => none
  | .removeTrack removed =>
    if track = removed then none else some (placeWithout removed track)
  | _ => some track

theorem Operation.follow_removeTrack_eq_some_iff {removed track place : Nat} :
    (removeTrack removed).follow track = some place ↔
      track ≠ removed ∧ placeWithout removed track = place := by
  by_cases heq : track = removed <;> simp [follow, heq]

namespace Editor

def pattern? (e : Editor) (track : Nat) : Option Pattern := e.song.tracks[track]?.map (·.pattern)

theorem pattern?_edited {e : Editor} {track : Nat} {t : Track}
    (ht : e.song.tracks[track]? = some t) (container : Container) (p : Pattern) (other : Nat) :
    (e.edited track container p).pattern? other =
      if track = other then some p else e.pattern? other := by
  by_cases heq : track = other
  · subst heq
    simp [pattern?, edited, setPattern, updateTrack, ht]
  · simp [pattern?, edited, setPattern, updateTrack, heq]

theorem exists_of_mem_updateTrack {e : Editor} {track : Nat} {f : Track → Track} {t : Track}
    (h : t ∈ (e.updateTrack track f).song.tracks) :
    ∃ old ∈ e.song.tracks, t = old ∨ e.song.tracks[track]? = some old ∧ t = f old := by
  obtain ⟨i, hi⟩ := List.mem_iff_getElem?.mp h
  rw [updateTrack, List.getElem?_modify] at hi
  obtain ⟨old, hold, rfl⟩ := Option.map_eq_some_iff.mp hi
  refine ⟨old, List.mem_of_getElem? hold, ?_⟩
  by_cases heq : track = i
  · subst heq
    exact .inr ⟨hold, if_pos rfl⟩
  · exact .inl (if_neg heq)

/-- The container that an operation is to edit. -/
def target? (e : Editor) : Operation → Option SelectionKey
  | .edit track container _ => some ⟨track, container⟩
  | .dropDrag => e.drag.map fun active => ⟨active.track, active.drag.container⟩
  | _ => none

/-- The editor without a track. A drag on it is gone and one on a later track goes along. -/
def withoutTrack (e : Editor) (track : Nat) : Editor :=
  { e with
    song.tracks := e.song.tracks.eraseIdx track
    selections := e.selections.forgetTrack track
    drag := e.drag.bind fun active =>
      if active.track = track then none
      else if track < active.track then some { active with track := active.track - 1 }
      else some active }

inductive Effect (e : Editor) : Operation → Answer → Editor → Prop
  | replaceSong (song : Song) : Effect e (.replaceSong song) .done (e.replaceSong song)
  | setBpm (bpm : UInt32) : Effect e (.setBpm bpm) .done (e.setBpm bpm)
  | addTrack (name : String) :
    Effect e (.addTrack name) (.place e.song.tracks.length) (e.addTrack name).2
  | removeTrack {track : Nat} {t : Track} (ht : e.song.tracks[track]? = some t) :
    Effect e (.removeTrack track) (.removed t) (e.withoutTrack track)
  | setPadSteps {track : Nat} {t : Track} (pad : UInt8) (steps : Option UInt32)
      (hpad : pad.toNat < padCount) (hsteps : ∀ n, steps = some n → checkSteps n = .ok ())
      (ht : e.song.tracks[track]? = some t) :
    Effect e (.setPadSteps track pad steps) .done
      (e.updateTrack track fun t => { t with pads := t.pads.setOwn pad steps })
  | setDefaultPadSteps {track : Nat} {t : Track} (steps : UInt32)
      (hsteps : checkSteps steps = .ok ()) (ht : e.song.tracks[track]? = some t) :
    Effect e (.setDefaultPadSteps track steps) .done
      (e.updateTrack track ({ · with pads.fallback := steps }))
  | kept {track : Nat} {container : Container} {edit : ContainerEdit} {t : Track}
      (hcheck : edit.check = .ok ()) (ht : e.trackWith track container = .ok t)
      (hnone : edit.result? container t (e.selection track container) = none) :
    Effect e (.edit track container edit) (edit.answer t false) e
  | edited {track : Nat} {container : Container} {edit : ContainerEdit} {t : Track} {p : Pattern}
      (hcheck : edit.check = .ok ()) (ht : e.trackWith track container = .ok t)
      (hp : edit.result? container t (e.selection track container) = some p) :
    Effect e (.edit track container edit) (edit.answer t true) (e.edited track container p)
  | select {track : Nat} {container : Container} {t : Track} (first last : Nat)
      (ht : e.trackWith track container = .ok t) :
    Effect e (.select track container first last) .done
      { e with selections := e.selections.selectRange track container first last }
  | toggle {track : Nat} {container : Container} {t : Track} (index : Nat)
      (ht : e.trackWith track container = .ok t) :
    Effect e (.toggle track container index) .done
      { e with selections := e.selections.toggle track container index }
  | deselect (track : Nat) (container : Container) :
    Effect e (.deselect track container) .done (e.deselect track container)
  | beginDrag {track : Nat} {container : Container} {t : Track} {first last : Nat}
      (ht : e.trackWith track container = .ok t)
      (hblock : selectedBlock? (t.pattern.tokens t.pads container) (e.selection track container) =
        some (first, last)) :
    Effect e (.beginDrag track container) (.block first last)
      { e with drag := some ⟨track, { container, first, last }⟩ }
  | hover {active : ActiveDrag} {t : Track} {step : UInt32} (plan : MovePlan)
      (hdrag : e.drag = some active) (hstep : step.toNat ≤ stepLimit)
      (ht : e.trackWith active.track active.drag.container = .ok t)
      (hplan : plan = planMove (t.pattern.tokens t.pads active.drag.container)
        active.drag.first active.drag.last (snap step.toNat)) :
    Effect e (.hover step) (.plan plan)
      { e with drag := some { active with drag.proposal := some plan } }
  | rejected {active : ActiveDrag} {t : Track} (hdrag : e.drag = some active)
      (ht : e.song.tracks[active.track]? = some t)
      (hnone : active.drag.drop? t.pattern t.pads = none) :
    Effect e .dropDrag (.changed false) { e with drag := none }
  | dropped {active : ActiveDrag} {t : Track} {p : Pattern} (hdrag : e.drag = some active)
      (ht : e.song.tracks[active.track]? = some t)
      (hp : active.drag.drop? t.pattern t.pads = some p) :
    Effect e .dropDrag (.changed true)
      (({ e with drag := none } : Editor).edited active.track active.drag.container p)
  | cancelDrag : Effect e .cancelDrag (.released e.drag.isSome) { e with drag := none }

variable {e changed : Editor} {op : Operation} {answer : Answer} {track : Nat}
  {container : Container}

theorem effect_of_answerEdit {edit : ContainerEdit}
    (h : e.answerEdit track container edit = .ok (answer, changed)) :
    e.Effect (.edit track container edit) answer changed := by
  rw [answerEdit_eq] at h
  obtain ⟨_, hcheck, hrest⟩ := exists_of_bind_eq_ok h
  obtain ⟨t, ht, hsettled⟩ := exists_of_map_eq_ok hrest
  cases hresult : edit.result? container t (e.selection track container) with
  | none =>
    simp only [settled, hresult, putResult, Prod.map, Prod.mk.injEq] at hsettled
    obtain ⟨rfl, rfl⟩ := hsettled
    exact .kept hcheck ht hresult
  | some p =>
    simp only [settled, hresult, putResult, Prod.map, Prod.mk.injEq] at hsettled
    obtain ⟨rfl, rfl⟩ := hsettled
    exact .edited hcheck ht hresult

theorem effect_of_setPadSteps {pad : UInt8} {steps : Option UInt32}
    (h : e.setPadSteps track pad steps = .ok changed) :
    e.Effect (.setPadSteps track pad steps) .done changed := by
  unfold setPadSteps at h
  by_cases hpad : padCount ≤ pad.toNat
  · rw [if_pos hpad] at h
    cases h
  rw [if_neg hpad] at h
  cases steps with
  | none =>
    obtain ⟨t, ht, hc⟩ := exists_of_bind_eq_ok h
    obtain rfl := Except.ok.inj hc
    exact .setPadSteps pad none (Nat.not_le.mp hpad) nofun (track_eq_ok_iff.mp ht)
  | some steps =>
    dsimp only at h
    obtain ⟨_, hcheck, hrest⟩ := exists_of_bind_eq_ok h
    obtain ⟨t, ht, hc⟩ := exists_of_bind_eq_ok hrest
    obtain rfl := Except.ok.inj hc
    refine .setPadSteps pad (some steps) (Nat.not_le.mp hpad) (fun n hn => ?_)
      (track_eq_ok_iff.mp ht)
    obtain rfl := Option.some.inj hn
    exact hcheck

theorem effect_of_beginDrag {block : Nat × Nat}
    (h : e.beginDrag track container = .ok (block, changed)) :
    e.Effect (.beginDrag track container) (.block block.1 block.2) changed := by
  obtain ⟨line, hline, hrest⟩ := exists_of_bind_eq_ok h
  obtain ⟨t, ht, hline⟩ := exists_of_bind_eq_ok hline
  obtain rfl := Except.ok.inj hline
  cases hd : Drag.begin? (t.pattern.timeline t.pads container true).tokens container
      (e.selection track container) with
  | none =>
    simp only [hd] at hrest
    cases hrest
  | some drag =>
    simp only [hd] at hrest
    obtain ⟨rfl, rfl⟩ := Prod.mk.inj (Except.ok.inj hrest)
    obtain ⟨⟨first, last⟩, hblock, rfl⟩ := Option.map_eq_some_iff.mp hd
    exact .beginDrag ht hblock

theorem effect_of_hover {step : UInt32} {plan : MovePlan}
    (h : e.hover step = .ok (plan, changed)) : e.Effect (.hover step) (.plan plan) changed := by
  unfold Editor.hover at h
  cases hdrag : e.drag with
  | none =>
    simp only [hdrag] at h
    cases h
  | some active =>
    simp only [hdrag] at h
    by_cases hlimit : stepLimit < step.toNat
    · rw [if_pos hlimit] at h
      cases h
    rw [if_neg hlimit] at h
    obtain ⟨line, hline, hrest⟩ := exists_of_bind_eq_ok h
    obtain ⟨t, ht, hline⟩ := exists_of_bind_eq_ok hline
    obtain rfl := Except.ok.inj hline
    obtain ⟨rfl, rfl⟩ := Prod.mk.inj (Except.ok.inj hrest)
    exact .hover _ hdrag (Nat.not_lt.mp hlimit) ht rfl

theorem effect_of_dropDrag {outcome : Outcome Bool} (h : e.dropDrag = .ok outcome) :
    e.Effect .dropDrag (.changed outcome.value) outcome.editor := by
  unfold Editor.dropDrag at h
  cases hdrag : e.drag with
  | none =>
    simp only [hdrag] at h
    cases h
  | some active =>
    simp only [hdrag] at h
    obtain ⟨t, ht, hrest⟩ := exists_of_bind_eq_ok h
    cases hdrop : active.drag.drop? t.pattern t.pads with
    | none =>
      simp only [hdrop] at hrest
      obtain rfl := Except.ok.inj hrest
      exact .rejected hdrag (track_eq_ok_iff.mp ht) hdrop
    | some p =>
      simp only [hdrop] at hrest
      obtain rfl := Except.ok.inj hrest
      exact .dropped hdrag (track_eq_ok_iff.mp ht) hdrop

theorem effect_of_execute (h : e.execute op = .ok (answer, changed)) :
    e.Effect op answer changed := by
  cases op with
  | replaceSong song =>
    obtain ⟨rfl, rfl⟩ := Prod.mk.inj (Except.ok.inj h)
    exact .replaceSong song
  | setBpm bpm =>
    obtain ⟨rfl, rfl⟩ := Prod.mk.inj (Except.ok.inj h)
    exact .setBpm bpm
  | addTrack name =>
    obtain ⟨rfl, rfl⟩ := Prod.mk.inj (Except.ok.inj h)
    exact .addTrack name
  | removeTrack track =>
    obtain ⟨removed, hr, hc⟩ := exists_of_map_eq_ok h
    obtain ⟨t, ht, hrest⟩ := exists_of_bind_eq_ok hr
    obtain rfl := Except.ok.inj hrest
    obtain ⟨rfl, rfl⟩ := Prod.mk.inj hc
    exact .removeTrack (track_eq_ok_iff.mp ht)
  | setPadSteps track pad steps =>
    obtain ⟨padded, hpad, hc⟩ := exists_of_map_eq_ok h
    obtain ⟨rfl, rfl⟩ := Prod.mk.inj hc
    exact effect_of_setPadSteps hpad
  | setDefaultPadSteps track steps =>
    obtain ⟨padded, hpad, hc⟩ := exists_of_map_eq_ok h
    obtain ⟨_, hcheck, hrest⟩ := exists_of_bind_eq_ok hpad
    obtain ⟨t, ht, hset⟩ := exists_of_bind_eq_ok hrest
    obtain rfl := Except.ok.inj hset
    obtain ⟨rfl, rfl⟩ := Prod.mk.inj hc
    exact .setDefaultPadSteps steps hcheck (track_eq_ok_iff.mp ht)
  | edit track container edit => exact effect_of_answerEdit h
  | select track container first last =>
    obtain ⟨selected, hselect, hc⟩ := exists_of_map_eq_ok h
    obtain ⟨t, ht, hset⟩ := exists_of_bind_eq_ok hselect
    obtain rfl := Except.ok.inj hset
    obtain ⟨rfl, rfl⟩ := Prod.mk.inj hc
    exact .select first last ht
  | toggle track container index =>
    obtain ⟨selected, hselect, hc⟩ := exists_of_map_eq_ok h
    obtain ⟨t, ht, hset⟩ := exists_of_bind_eq_ok hselect
    obtain rfl := Except.ok.inj hset
    obtain ⟨rfl, rfl⟩ := Prod.mk.inj hc
    exact .toggle index ht
  | deselect track container =>
    obtain ⟨rfl, rfl⟩ := Prod.mk.inj (Except.ok.inj h)
    exact .deselect track container
  | beginDrag track container =>
    obtain ⟨⟨block, picked⟩, hbegin, hc⟩ := exists_of_map_eq_ok h
    obtain ⟨rfl, rfl⟩ := Prod.mk.inj hc
    exact effect_of_beginDrag hbegin
  | hover step =>
    obtain ⟨⟨plan, hovered⟩, hhover, hc⟩ := exists_of_map_eq_ok h
    obtain ⟨rfl, rfl⟩ := Prod.mk.inj hc
    exact effect_of_hover hhover
  | dropDrag =>
    obtain ⟨outcome, hdrop, hc⟩ := exists_of_map_eq_ok h
    obtain ⟨rfl, rfl⟩ := Prod.mk.inj hc
    exact effect_of_dropDrag hdrop
  | cancelDrag =>
    obtain ⟨rfl, rfl⟩ := Prod.mk.inj (Except.ok.inj h)
    exact .cancelDrag

theorem exists_effect (h : e.perform op = .ok changed) : ∃ answer, e.Effect op answer changed := by
  rw [perform_eq_map] at h
  obtain ⟨⟨answer, after⟩, hexecute, rfl⟩ := exists_of_map_eq_ok h
  exact ⟨answer, effect_of_execute hexecute⟩

end Editor

end Groovebox

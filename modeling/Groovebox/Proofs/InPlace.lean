import Groovebox.Proofs.Anchors
import Groovebox.Proofs.Answers
import Groovebox.Proofs.Rests
import Groovebox.Proofs.Snapshots

/-! Operations in place. They change the editor step by step, and one that fails leaves
whatever the steps before have made of it: a drop lets go of its drag before it looks for
the track, and an edit clears the selection before it puts the pattern back. On an editor
that operations lead to no such step is left behind by a failure. -/

namespace Groovebox

abbrev InPlace := EStateM EditError Editor

namespace InPlace

def ask {α : Type} (query : Editor → Except EditError α) : InPlace α := do
  ofExcept (query (← get))

def commit (track : Nat) (p : Pattern) : InPlace Unit := do
  let _ ← ask (·.track track)
  modify (·.setPattern track p)

def apply (track : Nat) (container : Container) (f : Track → Snapshot) : InPlace Bool := do
  let t ← ask (·.trackWith track container)
  let s := f t
  if s.isNew then
    modify (·.deselect track container)
    commit track s.pattern
  return s.isNew

def applySelected (track : Nat) (container : Container)
    (f : Track → Selections → Option Pattern × Selections) : InPlace Bool := do
  let t ← ask (·.trackWith track container)
  let (result, selections) := f t (← get).selections
  modify ({ · with selections })
  match result with
  | none => return false
  | some p => do
    commit track p
    return true

def setSequence (track : Nat) (container : Container) (items : List Item) : InPlace Bool := do
  ask fun _ => Editor.checkItems items
  apply track container fun t =>
    (⟨t.pattern, false⟩ : Snapshot).andThen (·.setSequence? container (storedPauses items))

def insert (track : Nat) (container : Container) (index : Nat) (item : Item) : InPlace Bool := do
  ask fun _ => Editor.checkItems [item]
  apply track container fun t =>
    (⟨t.pattern, false⟩ : Snapshot).insertEach container index item.stored

def replace (track : Nat) (container : Container) (index : Nat) (item : Item) : InPlace Bool := do
  ask fun _ => Editor.checkItems [item]
  match item.stored with
  | [] => return false
  | first :: rest =>
    apply track container fun t =>
      let start : Snapshot := ⟨t.pattern, false⟩
      if index < ((t.pattern.sequence? container).getD []).length then
        let replaced := start.andThen (·.replaceItem? container index [first])
        replaced.insertEach container (index + 1) rest
      else start

def group (track : Nat) (container : Container) (kind : GroupKind) :
    InPlace (Option GroupName) := do
  let t ← ask (·.trackWith track container)
  let name := t.pattern.freshName kind
  let isNew ← applySelected track container fun t s => s.group t.pattern track container kind
  return if isNew then some name else none

def moveBlock (track : Nat) (container : Container) (first last : Nat) (target : UInt32) :
    InPlace Bool := do
  if stepLimit < target.toNat then throw (.tooManySteps target.toNat)
  let pads := (← ask (·.track track)).pads
  apply track container fun t =>
    (⟨t.pattern, false⟩ : Snapshot).andThen (·.moveBlock? pads container first last target.toNat)

def edit (track : Nat) (container : Container) : ContainerEdit → InPlace Answer
  | .setSequence items => return .changed (← setSequence track container items)
  | .insert index item => return .changed (← insert track container index item)
  | .delete indices =>
    return .changed (← apply track container fun t =>
      (⟨t.pattern, false⟩ : Snapshot).andThen (·.removeItems? container indices))
  | .moveItem source target =>
    return .changed (← apply track container fun t =>
      (⟨t.pattern, false⟩ : Snapshot).andThen (·.moveItem? container source target))
  | .replace index item => return .changed (← replace track container index item)
  | .group kind => return .grouped (← group track container kind)
  | .ungroup =>
    return .changed (← applySelected track container fun t s => s.ungroup t.pattern track container)
  | .cut =>
    return .changed (← applySelected track container fun t s => s.remove t.pattern track container)
  | .moveBlock first last target =>
    return .changed (← moveBlock track container first last target)

def removeTrack (track : Nat) : InPlace Track := do
  let removed ← ask (·.track track)
  modify fun e => { e with song.tracks := e.song.tracks.eraseIdx track }
  modify fun e => { e with selections := e.selections.forgetTrack track }
  match (← get).drag with
  | none => return removed
  | some active =>
    if active.track = track then
      modify ({ · with drag := none })
    else if track < active.track then
      modify ({ · with drag := some { active with track := active.track - 1 } })
    return removed

def setPadSteps (track : Nat) (pad : UInt8) (steps : Option UInt32) : InPlace Unit := do
  if padCount ≤ pad.toNat then throw (.noSuchPad pad)
  if let some steps := steps then ask fun _ => Editor.checkSteps steps
  let _ ← ask (·.track track)
  modify (·.updateTrack track fun t => { t with pads := t.pads.setOwn pad steps })

def setDefaultPadSteps (track : Nat) (steps : UInt32) : InPlace Unit := do
  ask fun _ => Editor.checkSteps steps
  let _ ← ask (·.track track)
  modify (·.updateTrack track ({ · with pads.fallback := steps }))

def select (track : Nat) (container : Container) (f : Selections → Selections) : InPlace Unit := do
  let _ ← ask (·.trackWith track container)
  modify fun e => { e with selections := f e.selections }

def beginDrag (track : Nat) (container : Container) : InPlace (Nat × Nat) := do
  let line ← ask (·.timeline track container true)
  match Drag.begin? line.tokens container ((← get).selection track container) with
  | none => throw (.notABlock container)
  | some drag => do
    modify ({ · with drag := some ⟨track, drag⟩ })
    return (drag.first, drag.last)

def hover (step : UInt32) : InPlace MovePlan := do
  match (← get).drag with
  | none => throw .noDrag
  | some active => do
    if stepLimit < step.toNat then throw (.tooManySteps step.toNat)
    let line ← ask (·.timeline active.track active.drag.container true)
    let plan := planMove line.tokens active.drag.first active.drag.last (snap step.toNat)
    modify ({ · with drag := some { active with drag.proposal := some plan } })
    return plan

def takeDrag : InPlace ActiveDrag := do
  match (← get).drag with
  | none => throw .noDrag
  | some active => do
    modify ({ · with drag := none })
    return active

def dropDrag : InPlace Bool := do
  let active ← takeDrag
  let t ← ask (·.track active.track)
  match active.drag.drop? t.pattern t.pads with
  | none => return false
  | some p => do
    modify (·.deselect active.track active.drag.container)
    commit active.track p
    return true

end InPlace

def Operation.inPlace : Operation → InPlace Answer
  | .replaceSong song => do
    modify ({ · with song })
    modify ({ · with selections := {} })
    modify ({ · with drag := none })
    return .done
  | .setBpm bpm => do
    modify (·.setBpm bpm)
    return .done
  | .addTrack name => do
    modify fun e => (e.addTrack name).2
    return .place ((← get).song.tracks.length - 1)
  | .removeTrack track => return .removed (← InPlace.removeTrack track)
  | .setPadSteps track pad steps => do
    InPlace.setPadSteps track pad steps
    return .done
  | .setDefaultPadSteps track steps => do
    InPlace.setDefaultPadSteps track steps
    return .done
  | .edit track container change => InPlace.edit track container change
  | .select track container first last => do
    InPlace.select track container (·.selectRange track container first last)
    return .done
  | .toggle track container index => do
    InPlace.select track container (·.toggle track container index)
    return .done
  | .deselect track container => do
    modify (·.deselect track container)
    return .done
  | .beginDrag track container => do
    let (first, last) ← InPlace.beginDrag track container
    return .block first last
  | .hover step => return .plan (← InPlace.hover step)
  | .dropDrag => return .changed (← InPlace.dropDrag)
  | .cancelDrag => do
    let wasDragging := (← get).drag.isSome
    modify ({ · with drag := none })
    return .released wasDragging

namespace Editor

/-- The end of an operation that leaves the editor as it is when it fails. -/
def settle {α : Type} (e : Editor) :
    Except EditError (α × Editor) → EStateM.Result EditError Editor α
  | .ok (answer, changed) => .ok answer changed
  | .error fault => .error fault e

end Editor

namespace InPlace

variable {e : Editor} {track : Nat} {container : Container}

theorem run_ask_bind {α β : Type} (query : Editor → Except EditError α) (next : α → InPlace β) :
    (ask query >>= next).run e =
      match query e with
      | .ok a => (next a).run e
      | .error fault => .error fault e := by
  simp only [ask, EStateM.run_bind, EStateM.run_get, bind_assoc]
  cases query e <;> rfl

theorem run_modify_bind {β : Type} (f : Editor → Editor) (next : Unit → InPlace β) :
    (modify f >>= next).run e = (next ()).run (f e) := rfl

theorem run_get_bind {β : Type} (next : Editor → InPlace β) :
    (get >>= next).run e = (next e).run e := rfl

/-- The track is there, so the pattern is put into it. -/
theorem run_commit_bind {β : Type} {t : Track} (ht : e.song.tracks[track]? = some t) (p : Pattern)
    (next : Unit → InPlace β) :
    (commit track p >>= next).run e = (next ()).run (e.setPattern track p) := by
  rw [commit, bind_assoc, run_ask_bind, Editor.track_eq_ok_iff.mpr ht]
  rfl

/-- An operation in place with the end of one that settles, its answer put in other words. -/
theorem run_bind_return {α β : Type} {x : InPlace α} {end? : Except EditError (α × Editor)}
    (h : x.run e = e.settle end?) (tell : α → β) :
    (do return tell (← x) : InPlace β).run e = e.settle (end?.map (Prod.map tell id)) := by
  rw [EStateM.run_bind, h]
  cases end? <;> rfl

theorem run_apply {f : Track → Snapshot} {result : Track → Option Pattern}
    (hf : ∀ t, e.trackWith track container = .ok t → f t = Snapshot.after t.pattern (result t)) :
    (apply track container f).run e =
      e.settle ((e.trackWith track container).map fun t =>
        e.putResult track container (result t)) := by
  rw [apply, run_ask_bind]
  cases ht : e.trackWith track container with
  | error fault => rfl
  | ok t =>
    have htrack := (Editor.trackWith_eq_ok_iff.mp ht).1
    simp only [hf t ht, Except.map]
    cases result t with
    | none => rfl
    | some p =>
      have hcommit := run_commit_bind (e := e.deselect track container) htrack p fun _ => pure true
      simp only [Snapshot.after, Option.isSome_some, if_true, Option.getD_some, run_modify_bind,
        hcommit]
      rfl

theorem run_applySelected {f : Track → Selections → Option Pattern × Selections}
    {result : Track → Option Pattern}
    (hf : ∀ t, f t e.selections =
      e.selections.edit track container fun _ => result t) :
    (applySelected track container f).run e =
      e.settle ((e.trackWith track container).map fun t =>
        e.putResult track container (result t)) := by
  rw [applySelected, run_ask_bind]
  cases ht : e.trackWith track container with
  | error fault => rfl
  | ok t =>
    have htrack := (Editor.trackWith_eq_ok_iff.mp ht).1
    simp only [run_get_bind, run_modify_bind, hf t, Selections.edit, Except.map]
    cases result t with
    | none => rfl
    | some p =>
      exact run_commit_bind (e := e.deselect track container) htrack p fun _ => pure true

theorem run_check_bind {α : Type} (check : Except EditError Unit) {x : InPlace α}
    {end? : Except EditError (α × Editor)} (hx : x.run e = e.settle end?) :
    (ask (fun _ => check) >>= fun _ => x).run e = e.settle (check >>= fun _ => end?) := by
  rw [run_ask_bind]
  cases check with
  | error fault => rfl
  | ok _ => exact hx

/-- An edit in place that tells whether the pattern changed. -/
theorem run_changed {x : InPlace Bool} {change : ContainerEdit}
    (hx : x.run e = e.settle (change.check >>= fun _ => (e.trackWith track container).map fun t =>
      e.putResult track container (change.result? container t (e.selection track container))))
    (hanswer : ∀ t isNew, change.answer t isNew = .changed isNew) :
    (do return .changed (← x) : InPlace Answer).run e = e.settle (change.check >>= fun _ =>
      (e.trackWith track container).map (e.settled track container change)) := by
  rw [run_bind_return hx]
  cases change.check with
  | error fault => rfl
  | ok _ =>
    cases e.trackWith track container with
    | error fault => rfl
    | ok t => simp only [bind, Except.bind, Except.map, Editor.settled, funext (hanswer t)]

theorem stored_ne_nil (item : Item) : item.stored ≠ [] := by
  cases item with
  | pad pad => exact List.cons_ne_nil _ _
  | call name => exact List.cons_ne_nil _ _
  | pause steps =>
    rw [Item.stored_pause]
    intro hnil
    have hparts : restParts (quantize steps.toNat) = [] := List.map_eq_nil_iff.mp hnil
    have hsum := sum_restParts (quantize steps.toNat)
    have hpositive := quantum_le_quantize steps.toNat
    rw [hparts] at hsum
    simp only [List.sum_nil, quantum] at hsum hpositive
    omega

theorem run_insert (index : Nat) (item : Item) :
    (insert track container index item).run e =
      e.settle (Editor.checkItems [item] >>= fun _ =>
        (e.trackWith track container).map fun t =>
          e.putResult track container (t.pattern.insertItems? container index item.stored)) := by
  refine run_check_bind _ (run_apply fun t ht => ?_)
  obtain ⟨items, hitems⟩ := Option.isSome_iff_exists.mp (Editor.trackWith_eq_ok_iff.mp ht).2
  exact Snapshot.insertEach_eq_after hitems index item.stored

theorem run_replace (index : Nat) (item : Item) :
    (replace track container index item).run e =
      e.settle (Editor.checkItems [item] >>= fun _ =>
        (e.trackWith track container).map fun t =>
          e.putResult track container (t.pattern.replaceItem? container index item.stored)) := by
  refine run_check_bind _ ?_
  cases hstored : item.stored with
  | nil => exact absurd hstored (stored_ne_nil item)
  | cons first rest =>
    refine run_apply fun t ht => ?_
    obtain ⟨items, hitems⟩ := Option.isSome_iff_exists.mp (Editor.trackWith_eq_ok_iff.mp ht).2
    simp only [hitems, Option.getD_some]
    by_cases hindex : index < items.length
    · rw [if_pos hindex]
      exact Snapshot.replaceEach_eq_after hitems hindex first rest
    · rw [if_neg hindex, Pattern.replaceItem?, Snapshot.after_edit? hitems]
      simp [hindex, Pattern.put_self hitems]

theorem run_moveBlock (first last : Nat) (target : UInt32) :
    (moveBlock track container first last target).run e =
      e.settle ((ContainerEdit.moveBlock first last target).check >>= fun _ =>
        (e.trackWith track container).map fun t =>
          e.putResult track container
            (t.pattern.moveBlock? t.pads container first last target.toNat)) := by
  by_cases hlimit : stepLimit < target.toNat
  · simp only [moveBlock, ContainerEdit.check, if_pos hlimit]
    rfl
  simp only [moveBlock, ContainerEdit.check, if_neg hlimit, run_ask_bind]
  cases htrack : e.track track with
  | error fault =>
    have hwith : e.trackWith track container = .error fault := by
      rw [Editor.trackWith, htrack]
      rfl
    rw [hwith]
    rfl
  | ok found =>
    refine run_apply fun t ht => ?_
    have hfound := Editor.track_eq_ok_iff.mp htrack
    obtain rfl : t = found :=
      Option.some.inj ((Editor.trackWith_eq_ok_iff.mp ht).1.symm.trans hfound)
    exact Snapshot.andThen_eq_after _

theorem run_group (kind : GroupKind) :
    (do return .grouped (← group track container kind) : InPlace Answer).run e =
      e.settle ((e.trackWith track container).map (e.settled track container (.group kind))) := by
  have happly : (applySelected track container fun t s =>
      s.group t.pattern track container kind).run e =
        e.settle ((e.trackWith track container).map fun t => e.putResult track container
          (t.pattern.group? container (e.selection track container) kind)) :=
    run_applySelected fun _ => rfl
  rw [group, bind_assoc, run_ask_bind]
  cases ht : e.trackWith track container with
  | error fault => rfl
  | ok t =>
    rw [ht] at happly
    simp only [EStateM.run_bind, happly, Except.map, Editor.settled, ContainerEdit.result?]
    cases t.pattern.group? container (e.selection track container) kind <;> rfl

theorem run_edit (change : ContainerEdit) :
    (edit track container change).run e = e.settle (e.answerEdit track container change) := by
  rw [Editor.answerEdit_eq]
  cases change with
  | setSequence items =>
    have hset : (setSequence track container items).run e = _ :=
      run_check_bind _ (run_apply fun t _ => Snapshot.andThen_eq_after _)
    exact run_changed hset fun _ _ => rfl
  | insert index item => exact run_changed (run_insert index item) fun _ _ => rfl
  | delete indices =>
    exact run_changed (run_apply fun t _ => Snapshot.andThen_eq_after _) fun _ _ => rfl
  | moveItem source target =>
    exact run_changed (run_apply fun t _ => Snapshot.andThen_eq_after _) fun _ _ => rfl
  | replace index item => exact run_changed (run_replace index item) fun _ _ => rfl
  | group kind => exact run_group kind
  | ungroup => exact run_changed (run_applySelected fun _ => rfl) fun _ _ => rfl
  | cut => exact run_changed (run_applySelected fun _ => rfl) fun _ _ => rfl
  | moveBlock first last target =>
    exact run_changed (run_moveBlock first last target) fun _ _ => rfl

theorem run_removeTrack :
    (removeTrack track).run e = e.settle (e.removeTrack track) := by
  rw [removeTrack, run_ask_bind, Editor.removeTrack]
  cases e.track track with
  | error fault => rfl
  | ok removed =>
    simp only [run_modify_bind, run_get_bind, ok_bind]
    cases e.drag with
    | none => rfl
    | some active =>
      simp only [Option.bind_some]
      by_cases heq : active.track = track
      · rw [if_pos heq, if_pos heq]
        rfl
      · rw [if_neg heq, if_neg heq]
        by_cases hlt : track < active.track
        · rw [if_pos hlt, if_pos hlt]
          rfl
        · rw [if_neg hlt, if_neg hlt]
          rfl

theorem run_done {x : InPlace Unit} {end? : Except EditError Editor}
    (hx : x.run e = e.settle (end?.map ((), ·))) :
    (do x; return .done : InPlace Answer).run e = e.settle (end?.map (.done, ·)) := by
  rw [EStateM.run_bind, hx]
  cases end? <;> rfl

theorem run_setPadSteps (pad : UInt8) (steps : Option UInt32) :
    (setPadSteps track pad steps).run e =
      e.settle ((e.setPadSteps track pad steps).map ((), ·)) := by
  by_cases hpad : padCount ≤ pad.toNat
  · simp only [setPadSteps, Editor.setPadSteps, if_pos hpad]
    rfl
  simp only [setPadSteps, Editor.setPadSteps, if_neg hpad]
  cases steps with
  | none =>
    simp only [run_ask_bind]
    cases e.track track <;> rfl
  | some steps =>
    dsimp only
    rw [run_ask_bind]
    cases Editor.checkSteps steps with
    | error fault => rfl
    | ok _ =>
      simp only [run_ask_bind]
      cases e.track track <;> rfl

theorem run_setDefaultPadSteps (steps : UInt32) :
    (setDefaultPadSteps track steps).run e =
      e.settle ((e.setDefaultPadSteps track steps).map ((), ·)) := by
  rw [setDefaultPadSteps, run_ask_bind, Editor.setDefaultPadSteps]
  cases Editor.checkSteps steps with
  | error fault => rfl
  | ok _ =>
    simp only [run_ask_bind]
    cases e.track track <;> rfl

theorem run_beginDrag :
    (beginDrag track container).run e = e.settle (e.beginDrag track container) := by
  rw [beginDrag, run_ask_bind, Editor.beginDrag]
  cases e.timeline track container true with
  | error fault => rfl
  | ok line =>
    simp only [run_get_bind, ok_bind]
    cases Drag.begin? line.tokens container (e.selection track container) <;> rfl

theorem run_hover (step : UInt32) : (hover step).run e = e.settle (e.hover step) := by
  simp only [hover, Editor.hover, EStateM.run_bind, EStateM.run_get]
  cases e.drag with
  | none => rfl
  | some active =>
    by_cases hlimit : stepLimit < step.toNat
    · simp only [if_pos hlimit]
      rfl
    · simp only [if_neg hlimit, run_ask_bind]
      cases e.timeline active.track active.drag.container true <;> rfl

/-- A drag is on a track that is there, so nothing fails once the drag is let go of. -/
theorem run_dropDrag (h : e.IsAnchored) :
    dropDrag.run e = e.settle (e.dropDrag.map fun o => (o.value, o.editor)) := by
  cases hdrag : e.drag with
  | none =>
    simp only [dropDrag, takeDrag, Editor.dropDrag, EStateM.run_bind, EStateM.run_get, hdrag]
    rfl
  | some active =>
    obtain ⟨t, ht, -⟩ := h.drag active hdrag
    have htrack : e.track active.track = .ok t := Editor.track_eq_ok_iff.mpr ht
    have hfreed : ({ e with drag := none } : Editor).track active.track = .ok t := htrack
    have htake : takeDrag.run e = .ok active { e with drag := none } := by
      simp only [takeDrag, EStateM.run_bind, EStateM.run_get, hdrag]
      rfl
    rw [dropDrag, EStateM.run_bind, htake]
    simp only [Editor.dropDrag, hdrag, htrack, run_ask_bind, hfreed, ok_bind]
    cases active.drag.drop? t.pattern t.pads with
    | none => rfl
    | some p =>
      simp only [run_modify_bind]
      exact run_commit_bind (e := ({ e with drag := none } : Editor).deselect active.track
        active.drag.container) ht p fun _ => pure true

end InPlace

/-- On an editor whose drag is on a track that is there, an operation in place comes to the
same end as the operation, and where it fails it has changed nothing. -/
theorem Operation.run_inPlace {e : Editor} (h : e.IsAnchored) (op : Operation) :
    op.inPlace.run e = e.settle (e.execute op) := by
  cases op with
  | replaceSong song => rfl
  | setBpm bpm => rfl
  | addTrack name =>
    have hlast : e.song.tracks.length = (e.addTrack name).2.song.tracks.length - 1 := by
      simp [Editor.addTrack]
    simp only [inPlace, InPlace.run_modify_bind, InPlace.run_get_bind, ← hlast]
    rfl
  | removeTrack track =>
    refine (InPlace.run_bind_return InPlace.run_removeTrack _).trans ?_
    rfl
  | setPadSteps track pad steps => exact InPlace.run_done (InPlace.run_setPadSteps pad steps)
  | setDefaultPadSteps track steps => exact InPlace.run_done (InPlace.run_setDefaultPadSteps steps)
  | edit track container change => exact InPlace.run_edit change
  | select track container first last =>
    simp only [inPlace, InPlace.select, bind_assoc, InPlace.run_ask_bind, Editor.execute,
      Editor.select]
    cases e.trackWith track container <;> rfl
  | toggle track container index =>
    simp only [inPlace, InPlace.select, bind_assoc, InPlace.run_ask_bind, Editor.execute,
      Editor.toggle]
    cases e.trackWith track container <;> rfl
  | deselect track container => rfl
  | beginDrag track container =>
    simp only [inPlace, EStateM.run_bind, InPlace.run_beginDrag, Editor.execute]
    cases e.beginDrag track container <;> rfl
  | hover step => exact InPlace.run_bind_return (InPlace.run_hover step) _
  | dropDrag =>
    refine (InPlace.run_bind_return (InPlace.run_dropDrag h) _).trans ?_
    simp only [Editor.execute]
    cases e.dropDrag <;> rfl
  | cancelDrag => rfl

end Groovebox

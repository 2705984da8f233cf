import Groovebox.Proofs.Operations

/-! Operations with their answers. All edits of a container go one way: what was typed is
checked, the container is looked for, and the result is put into the track unless nothing
changes. -/

namespace Groovebox

inductive Answer where
  | done
  | place (track : Nat)
  | removed (track : Track)
  | changed (isNew : Bool)
  | grouped (name : Option GroupName)
  | block (first last : Nat)
  | plan (plan : MovePlan)
  | released (wasDragging : Bool)

/-- The answer says that the pattern is another one. -/
def Answer.tellsChange : Answer → Bool
  | .changed isNew => isNew
  | .grouped name => name.isSome
  | _ => false

def Outcome.told {α : Type} (tell : α → Answer) (o : Outcome α) : Answer × Editor :=
  (tell o.value, o.editor)

namespace ContainerEdit

/-- What is refused wherever the edit goes. -/
def check : ContainerEdit → Except EditError Unit
  | .setSequence items => Editor.checkItems items
  | .insert _ item => Editor.checkItems [item]
  | .replace _ item => Editor.checkItems [item]
  | .moveBlock _ _ target =>
    if stepLimit < target.toNat then .error (.tooManySteps target.toNat) else .ok ()
  | _ => .ok ()

def answer (t : Track) (isNew : Bool) : ContainerEdit → Answer
  | .group kind => .grouped (if isNew then some (t.pattern.freshName kind) else none)
  | _ => .changed isNew

theorem tellsChange_answer (edit : ContainerEdit) (t : Track) (isNew : Bool) :
    (edit.answer t isNew).tellsChange = isNew := by
  cases edit with
  | group kind => cases isNew <;> simp [answer, Answer.tellsChange]
  | _ => simp [answer, Answer.tellsChange]

end ContainerEdit

namespace Editor

variable {e : Editor} {track : Nat} {container : Container}

def answerEdit (e : Editor) (track : Nat) (container : Container) :
    ContainerEdit → Except EditError (Answer × Editor)
  | .setSequence items => (e.setSequence track container items).map (·.told .changed)
  | .insert index item => (e.insert track container index item).map (·.told .changed)
  | .delete indices => (e.delete track container indices).map (·.told .changed)
  | .moveItem source target => (e.moveItem track container source target).map (·.told .changed)
  | .replace index item => (e.replace track container index item).map (·.told .changed)
  | .group kind => (e.group track container kind).map (·.told .grouped)
  | .ungroup => (e.ungroup track container).map (·.told .changed)
  | .cut => (e.cut track container).map (·.told .changed)
  | .moveBlock first last target =>
    (e.moveBlock track container first last target).map (·.told .changed)

/-- An operation with its answer. -/
def execute (e : Editor) : Operation → Except EditError (Answer × Editor)
  | .replaceSong song => .ok (.done, e.replaceSong song)
  | .setBpm bpm => .ok (.done, e.setBpm bpm)
  | .addTrack name => .ok (.place (e.addTrack name).1, (e.addTrack name).2)
  | .removeTrack track => (e.removeTrack track).map fun answer => (.removed answer.1, answer.2)
  | .setPadSteps track pad steps => (e.setPadSteps track pad steps).map (.done, ·)
  | .setDefaultPadSteps track steps => (e.setDefaultPadSteps track steps).map (.done, ·)
  | .edit track container edit => e.answerEdit track container edit
  | .select track container first last => (e.select track container first last).map (.done, ·)
  | .toggle track container index => (e.toggle track container index).map (.done, ·)
  | .deselect track container => .ok (.done, e.deselect track container)
  | .beginDrag track container =>
    (e.beginDrag track container).map fun answer => (.block answer.1.1 answer.1.2, answer.2)
  | .hover step => (e.hover step).map fun answer => (.plan answer.1, answer.2)
  | .dropDrag => e.dropDrag.map (·.told .changed)
  | .cancelDrag => .ok (.released e.cancelDrag.1, e.cancelDrag.2)

theorem bind_return_eq_map {ε α β γ : Type} (x : Except ε α) (f : α → γ) (g : α → β × γ)
    (h : ∀ a, (g a).2 = f a) : (do return f (← x) : Except ε γ) = (x.map g).map (·.2) := by
  cases x with
  | error fault => rfl
  | ok a => exact congrArg Except.ok (h a).symm

theorem map_done (x : Except EditError Editor) : (x.map (Answer.done, ·)).map (·.2) = x := by
  cases x <;> rfl

theorem editContainer_eq_map (edit : ContainerEdit) :
    e.editContainer track container edit = (e.answerEdit track container edit).map (·.2) := by
  cases edit with
  | _ => exact bind_return_eq_map _ _ _ fun _ => rfl

theorem perform_eq_map (op : Operation) : e.perform op = (e.execute op).map (·.2) := by
  cases op with
  | replaceSong song => rfl
  | setBpm bpm => rfl
  | addTrack name => rfl
  | deselect track container => rfl
  | cancelDrag => rfl
  | edit track container edit => exact editContainer_eq_map edit
  | setPadSteps track pad steps => exact (map_done _).symm
  | setDefaultPadSteps track steps => exact (map_done _).symm
  | select track container first last => exact (map_done _).symm
  | toggle track container index => exact (map_done _).symm
  | _ => exact bind_return_eq_map _ _ _ fun _ => rfl

/-- Put the result of an edit into its track. The answer says whether there is one. -/
def putResult (e : Editor) (track : Nat) (container : Container) : Option Pattern → Bool × Editor
  | none => (false, e)
  | some p => (true, e.edited track container p)

/-- What an edit comes to in a container that is there. -/
def settled (e : Editor) (track : Nat) (container : Container) (edit : ContainerEdit)
    (t : Track) : Answer × Editor :=
  (e.putResult track container (edit.result? container t (e.selection track container))).map
    (edit.answer t) id

theorem edit_eq_map (f : Track → List Nat → Option Pattern) :
    e.edit track container f = (e.trackWith track container).map fun t =>
      match f t (e.selection track container) with
      | none => ⟨false, e, []⟩
      | some p => ⟨true, e.edited track container p, warnings track p⟩ := by
  unfold Editor.edit
  cases e.trackWith track container with
  | error fault => rfl
  | ok t =>
    simp only [bind, Except.bind, Selections.edit, Except.map, selection]
    cases f t (e.selections.get track container) <;> rfl

theorem map_edit (edit : ContainerEdit) (hgroup : ∀ kind, edit ≠ .group kind) :
    (e.edit track container fun t selected => edit.result? container t selected).map
        (·.told .changed) =
      (e.trackWith track container).map (e.settled track container edit) := by
  rw [edit_eq_map]
  cases e.trackWith track container with
  | error fault => rfl
  | ok t =>
    have hanswer : ∀ isNew, edit.answer t isNew = .changed isNew := by
      intro isNew
      cases edit with
      | group kind => exact absurd rfl (hgroup kind)
      | _ => rfl
    simp only [Except.map, settled, funext hanswer]
    cases edit.result? container t (e.selection track container) <;> rfl

theorem answerEdit_eq (edit : ContainerEdit) :
    e.answerEdit track container edit =
      edit.check >>= fun _ =>
        (e.trackWith track container).map (e.settled track container edit) := by
  cases edit with
  | delete indices => exact map_edit (.delete indices) nofun
  | moveItem source target => exact map_edit (.moveItem source target) nofun
  | ungroup => exact map_edit .ungroup nofun
  | cut => exact map_edit .cut nofun
  | setSequence items =>
    simp only [answerEdit, setSequence, ContainerEdit.check]
    cases checkItems items with
    | error fault => rfl
    | ok _ => exact map_edit (.setSequence items) nofun
  | insert index item =>
    simp only [answerEdit, insert, ContainerEdit.check]
    cases checkItems [item] with
    | error fault => rfl
    | ok _ => exact map_edit (.insert index item) nofun
  | replace index item =>
    simp only [answerEdit, replace, ContainerEdit.check]
    cases checkItems [item] with
    | error fault => rfl
    | ok _ => exact map_edit (.replace index item) nofun
  | group kind =>
    simp only [answerEdit, group, edit_eq_map, ContainerEdit.check, bind, Except.bind]
    cases e.trackWith track container with
    | error fault => rfl
    | ok t =>
      simp only [Except.map, settled, ContainerEdit.result?, ContainerEdit.answer]
      cases t.pattern.group? container (e.selection track container) kind <;> rfl
  | moveBlock first last target =>
    simp only [answerEdit, moveBlock, ContainerEdit.check]
    by_cases hlimit : stepLimit < target.toNat
    · rw [if_pos hlimit, if_pos hlimit]
      rfl
    · rw [if_neg hlimit, if_neg hlimit]
      simp only [edit_eq_map, bind, Except.bind]
      cases e.trackWith track container with
      | error fault => rfl
      | ok t =>
        simp only [Except.map, settled, ContainerEdit.result?, ContainerEdit.answer]
        cases t.pattern.moveBlock? t.pads container first last target.toNat <;> rfl

end Editor

end Groovebox

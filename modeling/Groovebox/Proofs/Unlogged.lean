import Groovebox.Proofs.Commands

/-! Sessions up to their logs. Messages are only ever put behind the log, and no command reads
it. So from sessions that differ in their logs alone a line gives the same, and leaves sessions
that again differ in their logs alone. -/

namespace Groovebox

open Text Groovebox.Action

namespace Session

/-- The sessions differ in their logs alone. -/
structure Agrees (s t : Session) : Prop where
  editor : s.editor = t.editor
  folder : s.folder = t.folder

variable {s t u : Session}

theorem Agrees.refl (s : Session) : s.Agrees s := ⟨rfl, rfl⟩

theorem Agrees.trans (h : s.Agrees t) (h' : t.Agrees u) : s.Agrees u :=
  ⟨h.editor.trans h'.editor, h.folder.trans h'.folder⟩

theorem agrees_takeLog (s : Session) : s.takeLog.2.Agrees s := ⟨rfl, rfl⟩

end Session

namespace Action

variable {α β : Type} {x : Action α} {f : α → Action β}

/-- What the action gives and what it leaves beside the log have nothing to do with the log. -/
def IgnoresLog (x : Action α) : Prop :=
  ∀ s t : Session, s.Agrees t → (x.run s).1 = (x.run t).1 ∧ (x.run s).2.Agrees (x.run t).2

theorem ignoresLog_pure (a : α) : IgnoresLog (pure a) := fun _ _ h => ⟨rfl, h⟩

theorem ignoresLog_throw (fault : CommandError) : IgnoresLog (throw fault : Action α) :=
  fun _ _ h => ⟨rfl, h⟩

theorem ignoresLog_lift (read : Except CommandError α) : IgnoresLog (liftM read) := by
  intro s t h
  rw [run_lift, run_lift]
  exact ⟨rfl, h⟩

theorem IgnoresLog.bind (hx : IgnoresLog x) (hf : ∀ a, IgnoresLog (f a)) :
    IgnoresLog (x >>= f) := by
  intro s t h
  obtain ⟨hresult, hagrees⟩ := hx s t h
  rw [run_bind, run_bind]
  rcases hs : x.run s with ⟨first, left⟩
  rcases ht : x.run t with ⟨second, right⟩
  rw [hs, ht] at hresult hagrees
  obtain rfl : first = second := hresult
  cases first with
  | error fault => exact ⟨rfl, hagrees⟩
  | ok a => exact hf a left right hagrees

/-- The session is read for no more than its editor and its folder. -/
theorem ignoresLog_get_bind {f : Session → Action β} (hf : ∀ s t, s.Agrees t → f s = f t)
    (h : ∀ s, IgnoresLog (f s)) : IgnoresLog (get >>= f) := by
  intro s t hagrees
  rw [run_bind_of_ok (run_get s), run_bind_of_ok (run_get t), hf s t hagrees]
  exact h t s t hagrees

theorem ignoresLog_modify {f : Session → Session}
    (hf : ∀ s t, s.Agrees t → (f s).Agrees (f t)) : IgnoresLog (modify f : Action Unit) :=
  fun s t h => ⟨rfl, hf s t h⟩

end Action

namespace Session

variable {α : Type}

theorem ignoresLog_query (f : Editor → Except EditError α) : IgnoresLog (query f) := by
  intro s t h
  rw [run_query, run_query, h.editor]
  exact ⟨rfl, h⟩

theorem ignoresLog_perform (f : Editor → Except EditError (Outcome α)) :
    IgnoresLog (perform f) := by
  intro s t h
  rw [run_perform, run_perform, h.editor]
  cases f t.editor with
  | error fault => exact ⟨rfl, h⟩
  | ok done => exact ⟨rfl, rfl, h.folder⟩

theorem ignoresLog_update (f : Editor → Except EditError (α × Editor)) : IgnoresLog (update f) :=
  ignoresLog_perform _

theorem ignoresLog_success (text : String) : IgnoresLog (success text) := ignoresLog_pure _

theorem ignoresLog_edit (text : String) (f : Editor → Except EditError (Outcome Bool)) :
    IgnoresLog (edit text f) := by
  refine (ignoresLog_perform f).bind fun done => ?_
  cases done <;> exact ignoresLog_pure _

theorem ignoresLog_reportSelection (address : Address) : IgnoresLog (reportSelection address) :=
  ignoresLog_get_bind (fun s t h => by rw [h.editor]) fun _ => ignoresLog_pure _

theorem ignoresLog_showItems (address : Address) : IgnoresLog (showItems address) := by
  refine (ignoresLog_query _).bind fun t => ?_
  cases t.pattern.sequence? address.container with
  | none => exact ignoresLog_throw _
  | some items => exact ignoresLog_pure _

theorem ignoresLog_showTimeline (address : Address) : IgnoresLog (showTimeline address) := by
  refine (ignoresLog_query _).bind fun line => (ignoresLog_query _).bind fun t => ?_
  exact ignoresLog_get_bind (fun s t h => by rw [h.editor]) fun _ => ignoresLog_pure _

theorem ignoresLog_selectRanges (address : Address) (words : List String) :
    IgnoresLog (selectRanges address words) := by
  induction words with
  | nil => exact ignoresLog_pure ()
  | cons word rest ih =>
    exact (ignoresLog_lift _).bind fun _ => (ignoresLog_update _).bind fun _ => ih

theorem ignoresLog_deselect (address : Address) (selected indices : List Nat) :
    IgnoresLog (deselect address selected indices) := by
  induction indices with
  | nil => exact ignoresLog_pure ()
  | cons index rest ih =>
    by_cases hselected : index ∈ selected
    · rw [deselect, if_pos hselected]
      exact (ignoresLog_update _).bind fun _ => ih
    · rw [deselect, if_neg hselected]
      exact ih

theorem ignoresLog_drag (address : Address) (step : Option String) :
    IgnoresLog (drag address step) := by
  refine (ignoresLog_update _).bind fun ⟨first, last⟩ => ?_
  cases step with
  | none => exact ignoresLog_pure _
  | some word =>
    refine (ignoresLog_lift _).bind fun step => (ignoresLog_update _).bind fun _ => ?_
    exact ignoresLog_pure _

theorem ignoresLog_group (kind : GroupKind) (address : Address) :
    IgnoresLog (group kind address) := by
  refine (ignoresLog_perform _).bind fun name => ?_
  cases name with
  | none => exact ignoresLog_pure _
  | some name => exact ignoresLog_success _

theorem ignoresLog_save (path : String) : IgnoresLog (save path) := by
  intro s t h
  obtain ⟨editor, folder, log⟩ := s
  obtain ⟨editor', folder', log'⟩ := t
  obtain ⟨rfl, rfl⟩ : editor = editor' ∧ folder = folder' := ⟨h.editor, h.folder⟩
  rw [save, run_bind_of_ok (run_get _), run_bind_of_ok (run_get _)]
  cases folder.write path (editor.song.write (Format.ofPath path)) with
  | error fault => exact ⟨rfl, rfl, rfl⟩
  | ok written => exact ⟨rfl, rfl, rfl⟩

theorem ignoresLog_load (path : String) : IgnoresLog (load path) := by
  refine ignoresLog_get_bind (fun s t h => by rw [h.folder]) fun s => ?_
  refine (ignoresLog_lift _).bind fun song => ?_
  refine (ignoresLog_modify fun s t h => ?_).bind fun _ => ignoresLog_pure _
  exact ⟨congrArg (·.replaceSong song) h.editor, h.folder⟩

theorem ignoresLog_run (command : Command) : IgnoresLog (run command) := by
  cases command with
  | nothing => exact ignoresLog_pure _
  | setBpm bpm =>
    refine (ignoresLog_modify fun s t h => ?_).bind fun _ => ignoresLog_pure _
    exact ⟨congrArg (·.setBpm bpm) h.editor, h.folder⟩
  | addTrack name => exact (ignoresLog_update _).bind fun _ => ignoresLog_success _
  | removeTrack track => exact (ignoresLog_update _).bind fun _ => ignoresLog_success _
  | listTracks => exact ignoresLog_get_bind (fun s t h => by rw [h.editor]) fun _ => ignoresLog_pure _
  | showPad track pad => exact (ignoresLog_query _).bind fun _ => ignoresLog_pure _
  | setPad track pad steps =>
    refine (ignoresLog_update _).bind fun _ => ?_
    cases steps with
    | none => exact ignoresLog_success _
    | some steps => exact ignoresLog_success _
  | setPads track steps => exact (ignoresLog_update _).bind fun _ => ignoresLog_success _
  | showItems address => exact ignoresLog_showItems address
  | setItems address items => exact ignoresLog_edit _ _
  | showTimeline address => exact ignoresLog_showTimeline address
  | insert address index item => exact ignoresLog_edit _ _
  | delete address indices => exact ignoresLog_edit _ _
  | moveItem address source target => exact ignoresLog_edit _ _
  | replace address index item => exact ignoresLog_edit _ _
  | select address ranges =>
    exact (ignoresLog_selectRanges address ranges).bind fun _ => ignoresLog_reportSelection address
  | deselectAll address =>
    refine (ignoresLog_modify fun s t h => ?_).bind fun _ => ignoresLog_reportSelection address
    exact ⟨congrArg (·.deselect address.track address.container) h.editor, h.folder⟩
  | deselect address indices =>
    refine ignoresLog_get_bind (fun s t h => by rw [h.editor]) fun s => ?_
    exact (ignoresLog_deselect address _ indices).bind fun _ => ignoresLog_reportSelection address
  | group kind address => exact ignoresLog_group kind address
  | ungroup address => exact ignoresLog_edit _ _
  | cut address => exact ignoresLog_edit _ _
  | drag address step => exact ignoresLog_drag address step
  | hover step => exact (ignoresLog_update _).bind fun _ => ignoresLog_pure _
  | drop => exact ignoresLog_edit _ _
  | cancel =>
    refine (ignoresLog_update _).bind fun released => ?_
    cases released with
    | false => exact ignoresLog_pure _
    | true => exact ignoresLog_success _
  | moveBlock address first last target => exact ignoresLog_edit _ _
  | events track => exact (ignoresLog_query _).bind fun _ => ignoresLog_pure _
  | arrangement => exact ignoresLog_get_bind (fun s t h => by rw [h.editor]) fun _ => ignoresLog_pure _
  | check track => exact (ignoresLog_query _).bind fun _ => ignoresLog_pure _
  | save path => exact ignoresLog_save path
  | load path => exact ignoresLog_load path

theorem ignoresLog_runText (text : List Char) : IgnoresLog (runText text) := by
  unfold runText
  split
  · exact ignoresLog_pure _
  · split
    · exact ignoresLog_throw _
    · refine ignoresLog_get_bind (fun s t h => by rw [h.editor]) fun _ => ?_
      exact (ignoresLog_lift _).bind ignoresLog_run

theorem ignoresLog_runTexts (texts : List (List Char)) : IgnoresLog (runTexts texts) := by
  induction texts with
  | nil => exact ignoresLog_pure _
  | cons text rest ih =>
    refine (ignoresLog_runText text).bind fun output => ?_
    cases output with
    | quit => exact ignoresLog_pure _
    | silence => exact ih
    | text shown => exact ih.bind fun _ => ignoresLog_pure _

/-- A line gives the same whatever is in the log, and changes the rest in the same way. -/
theorem ignoresLog_runLine (line : String) : IgnoresLog (runLine line) := by
  refine (ignoresLog_runTexts _).bind fun shown => ?_
  rcases shown with - | - | ⟨first, rest⟩
  · exact ignoresLog_pure _
  · exact ignoresLog_pure _
  · exact ignoresLog_pure _

end Session

end Groovebox

import Groovebox.Proofs.Actions
import Groovebox.Proofs.Effects

/-! What a command does to a session. It takes the editor through operations, mostly through
one. If it fails, nothing has changed, but for two commands whose arguments are read when
something has been done already: the ranges of a selection and the step of a drag. -/

namespace Groovebox

open Text Groovebox.Action

/-- The operations that a command may perform. -/
inductive Command.Performs : Command → Operation → Prop
  | setBpm (bpm : UInt32) : Performs (.setBpm bpm) (.setBpm bpm)
  | addTrack (name : String) : Performs (.addTrack name) (.addTrack name)
  | removeTrack (track : Nat) : Performs (.removeTrack track) (.removeTrack track)
  | setPad (track : Nat) (pad : UInt8) (steps : Option UInt32) :
    Performs (.setPad track pad steps) (.setPadSteps track pad steps)
  | setPads (track : Nat) (steps : UInt32) :
    Performs (.setPads track steps) (.setDefaultPadSteps track steps)
  | setItems (track : Nat) (container : Container) (items : List Item) :
    Performs (.setItems ⟨track, container⟩ items) (.edit track container (.setSequence items))
  | insert (track : Nat) (container : Container) (index : Nat) (item : Item) :
    Performs (.insert ⟨track, container⟩ index item) (.edit track container (.insert index item))
  | delete (track : Nat) (container : Container) (indices : List Nat) :
    Performs (.delete ⟨track, container⟩ indices) (.edit track container (.delete indices))
  | moveItem (track : Nat) (container : Container) (source target : Nat) :
    Performs (.moveItem ⟨track, container⟩ source target)
      (.edit track container (.moveItem source target))
  | replace (track : Nat) (container : Container) (index : Nat) (item : Item) :
    Performs (.replace ⟨track, container⟩ index item)
      (.edit track container (.replace index item))
  | select (track : Nat) (container : Container) (ranges : List String) (first last : Nat) :
    Performs (.select ⟨track, container⟩ ranges) (.select track container first last)
  | deselectAll (track : Nat) (container : Container) :
    Performs (.deselectAll ⟨track, container⟩) (.deselect track container)
  | deselect (track : Nat) (container : Container) (indices : List Nat) (index : Nat) :
    Performs (.deselect ⟨track, container⟩ indices) (.toggle track container index)
  | group (kind : GroupKind) (track : Nat) (container : Container) :
    Performs (.group kind ⟨track, container⟩) (.edit track container (.group kind))
  | ungroup (track : Nat) (container : Container) :
    Performs (.ungroup ⟨track, container⟩) (.edit track container .ungroup)
  | cut (track : Nat) (container : Container) :
    Performs (.cut ⟨track, container⟩) (.edit track container .cut)
  | beginDrag (track : Nat) (container : Container) (step : Option String) :
    Performs (.drag ⟨track, container⟩ step) (.beginDrag track container)
  | hoverDragged (address : Address) (step : Option String) (target : UInt32) :
    Performs (.drag address step) (.hover target)
  | hover (step : UInt32) : Performs (.hover step) (.hover step)
  | drop : Performs .drop .dropDrag
  | cancel : Performs .cancel .cancelDrag
  | moveBlock (track : Nat) (container : Container) (first last : Nat) (target : UInt32) :
    Performs (.moveBlock ⟨track, container⟩ first last target)
      (.edit track container (.moveBlock first last target))
  | load (path : String) (song : Song) : Performs (.load path) (.replaceSong song)

namespace Session

variable {s left : Session} {command : Command} {result : Except CommandError Output}
  {fault : CommandError} {P : Operation → Prop} {track : Nat} {container : Container}

theorem keeps_success (text : String) : Keeps (success text) := keeps_pure _

theorem succeeds_success (text : String) : Succeeds (success text) := succeeds_pure _

theorem keeps_reportChange (done : Bool) (text : String) : Keeps (reportChange done text) := by
  cases done <;> exact keeps_pure _

theorem succeeds_reportChange (done : Bool) (text : String) :
    Succeeds (reportChange done text) := by
  cases done <;> exact succeeds_pure _

theorem keeps_reportSelection (address : Address) : Keeps (reportSelection address) :=
  keeps_get.bind fun _ => keeps_pure _

theorem succeeds_reportSelection (address : Address) : Succeeds (reportSelection address) :=
  fun s => ⟨_, s, rfl⟩

theorem keeps_showItems (address : Address) : Keeps (showItems address) := by
  refine (keeps_query _).bind fun t => ?_
  cases t.pattern.sequence? address.container with
  | none => exact keeps_throw _
  | some items => exact keeps_pure _

theorem keeps_showTimeline (address : Address) : Keeps (showTimeline address) :=
  (keeps_query _).bind fun _ => (keeps_query _).bind fun _ => keeps_get.bind fun _ => keeps_pure _

theorem isAtomic_edit (text : String) (f : Editor → Except EditError (Outcome Bool)) :
    IsAtomic (edit text f) :=
  (isAtomic_perform f).bind fun done => succeeds_reportChange done text

theorem movesBy_edit {f : Editor → Except EditError (Outcome Bool)} {op : Operation}
    (text : String) (hf : ∀ e, (f e).map (·.editor) = e.perform op) (hop : P op) :
    MovesBy P (edit text f) :=
  (movesBy_perform hf hop).bind fun done => (keeps_reportChange done text).movesBy

theorem movesBy_modify {f : Session → Session} {op : Operation}
    (hf : ∀ s, (f s).editor = s.editor.after op) (hop : P op) :
    MovesBy P (modify f : Action Unit) := by
  intro s result left h
  refine ⟨[op], by simpa using hop, ?_⟩
  rw [← (Prod.mk.inj h).2]
  exact hf s

theorem movesBy_selectRanges (words : List String)
    (hP : ∀ first last, P (.select track container first last)) :
    MovesBy P (selectRanges ⟨track, container⟩ words) := by
  induction words with
  | nil => exact (keeps_pure ()).movesBy
  | cons word rest ih =>
    refine (keeps_lift _).movesBy.bind fun ⟨first, last⟩ => ?_
    exact (movesBy_update_map (fun _ => rfl) (hP first last)).bind fun _ => ih

/-- Ranges that fail leave those before the first bad one selected. -/
theorem exists_run_of_selectRanges_error {address : Address} {words : List String}
    (h : (selectRanges address words).run s = (.error fault, left)) :
    ∃ done word rest, words = done ++ word :: rest ∧
      (selectRanges address done).run s = (.ok (), left) ∧
      (selectRanges address [word]).run left = (.error fault, left) := by
  induction words generalizing s with
  | nil => cases (Prod.mk.inj h).1
  | cons word rest ih =>
    rcases run_bind_cases h with ⟨stop, hread, hstop⟩ | ⟨⟨first, last⟩, next, hread, hrest⟩
    · obtain rfl := keeps_lift _ s _ left hread
      have hbad : (selectRanges address [word]).run left = (.error stop, left) := by
        rw [selectRanges, run_bind, hread]
      cases hstop
      exact ⟨[], word, rest, rfl, rfl, hbad⟩
    rcases run_bind_cases hrest with ⟨stop, hselect, hstop⟩ | ⟨_, later, hselect, hrest⟩
    · obtain rfl := keeps_lift _ s _ next hread
      obtain rfl := isAtomic_update _ next stop left hselect
      have hbad : (selectRanges address [word]).run left = (.error stop, left) := by
        rw [selectRanges, run_bind_of_ok hread, run_bind, hselect]
      cases hstop
      exact ⟨[], word, rest, rfl, rfl, hbad⟩
    · obtain ⟨done, bad, more, rfl, hdone, hbad⟩ := ih hrest
      refine ⟨word :: done, bad, more, rfl, ?_, hbad⟩
      rw [selectRanges, run_bind_of_ok hread, run_bind_of_ok hselect, hdone]

theorem movesBy_deselect (selected indices : List Nat)
    (hP : ∀ index, P (.toggle track container index)) :
    MovesBy P (deselect ⟨track, container⟩ selected indices) := by
  induction indices with
  | nil => exact (keeps_pure ()).movesBy
  | cons index rest ih =>
    by_cases hselected : index ∈ selected
    · rw [deselect, if_pos hselected]
      exact (movesBy_update_map (fun _ => rfl) (hP index)).bind fun _ => ih
    · rw [deselect, if_neg hselected]
      exact ih

/-- The session with some indices toggled one after another. -/
def toggleEach (s : Session) (track : Nat) (container : Container) (indices : List Nat) :
    Session :=
  { s with editor.selections := indices.foldl (·.toggle track container ·) s.editor.selections }

theorem run_deselect {t : Track} (ht : s.editor.trackWith track container = .ok t)
    (selected indices : List Nat) :
    (deselect ⟨track, container⟩ selected indices).run s =
      (.ok (), s.toggleEach track container (indices.filter (· ∈ selected))) := by
  induction indices generalizing s with
  | nil => rfl
  | cons index rest ih =>
    by_cases hselected : index ∈ selected
    · have htoggle : s.editor.toggle track container index =
          .ok (s.toggleEach track container [index]).editor := by
        rw [Editor.toggle, ht]
        rfl
      rw [deselect, if_pos hselected, run_bind, run_update_map, htoggle,
        List.filter_cons_of_pos (by simpa using hselected)]
      exact ih ht
    · rw [deselect, if_neg hselected, List.filter_cons_of_neg (by simpa using hselected)]
      exact ih ht

/-- Only the first toggle can fail, and it fails where it changes nothing. -/
theorem isAtomic_deselect (address : Address) (selected indices : List Nat) :
    IsAtomic (deselect address selected indices) := by
  obtain ⟨track, container⟩ := address
  intro s fault left h
  cases ht : s.editor.trackWith track container with
  | ok t =>
    cases (Prod.mk.inj ((run_deselect ht selected indices).symm.trans h)).1
  | error stop =>
    induction indices with
    | nil => cases (Prod.mk.inj h).1
    | cons index rest ih =>
      by_cases hselected : index ∈ selected
      · have htoggle : s.editor.toggle track container index = .error stop := by
          rw [Editor.toggle, ht]
          rfl
        rw [deselect, if_pos hselected, run_bind, run_update_map, htoggle] at h
        exact (Prod.mk.inj h).2.symm
      · rw [deselect, if_neg hselected] at h
        exact ih h

theorem movesBy_drag (step : Option String) (hbegin : P (.beginDrag track container))
    (hhover : ∀ step, P (.hover step)) : MovesBy P (drag ⟨track, container⟩ step) := by
  refine (movesBy_update (fun _ => map_eq_bind_return _ _) hbegin).bind fun ⟨first, last⟩ => ?_
  cases step with
  | none => exact (keeps_pure _).movesBy
  | some word =>
    refine (keeps_lift _).movesBy.bind fun step => ?_
    refine (movesBy_update (fun _ => map_eq_bind_return _ _) (hhover step)).bind fun _ => ?_
    exact (keeps_pure _).movesBy

/-- The step that is typed for a drag cannot be read, or the drag cannot be brought to it. -/
def FailsAt (s : Session) (word : String) (fault : CommandError) : Prop :=
  Command.readSteps word = .error fault ∨
    ∃ step, Command.readSteps word = .ok step ∧ (run (.hover step)).run s = (.error fault, s)

/-- A drag that fails has begun and fails at its step, unless it could not begin. -/
theorem exists_run_of_drag_error {address : Address} {step : Option String}
    (h : (drag address step).run s = (.error fault, left)) :
    left = s ∨ ∃ word output, step = some word ∧
      (drag address none).run s = (.ok output, left) ∧ left.FailsAt word fault := by
  rcases run_bind_cases h with ⟨stop, hbegin, -⟩ | ⟨⟨first, last⟩, next, hbegin, hrest⟩
  · exact .inl (isAtomic_update _ s stop left hbegin)
  cases step with
  | none => cases (Prod.mk.inj hrest).1
  | some word =>
    have hbegun : (drag address none).run s = (.ok (.text (Display.success
        s!"dragging {first}..={last} of {address.container.label}")), next) := by
      rw [drag, run_bind_of_ok hbegin]
      rfl
    rcases run_bind_cases hrest with ⟨stop, hread, hstop⟩ | ⟨target, later, hread, hmove⟩
    · obtain rfl := keeps_lift _ next _ left hread
      rw [run_lift] at hread
      cases hstop
      exact .inr ⟨word, _, rfl, hbegun, .inl (Prod.mk.inj hread).1⟩
    obtain rfl := keeps_lift _ next _ later hread
    rw [run_lift] at hread
    rcases run_bind_cases hmove with ⟨stop, hhover, hstop⟩ | ⟨plan, last, -, hdone⟩
    · obtain rfl := isAtomic_update _ later stop left hhover
      have hbad : (run (.hover target)).run left = (.error stop, left) := by
        rw [run, run_bind, hhover]
      cases hstop
      exact .inr ⟨word, _, rfl, hbegun, .inr ⟨target, (Prod.mk.inj hread).1, hbad⟩⟩
    · cases (Prod.mk.inj hdone).1

theorem isAtomic_group (kind : GroupKind) (address : Address) : IsAtomic (group kind address) := by
  refine (isAtomic_perform _).bind fun name => ?_
  cases name with
  | none => exact succeeds_pure _
  | some name => exact succeeds_success _

theorem movesBy_group (kind : GroupKind) (hop : P (.edit track container (.group kind))) :
    MovesBy P (group kind ⟨track, container⟩) := by
  refine (movesBy_perform (fun _ => map_eq_bind_return _ _) hop).bind fun name => ?_
  cases name with
  | none => exact (keeps_pure _).movesBy
  | some name => exact (keeps_success _).movesBy

theorem left_of_save (path : String) (h : (save path).run s = (result, left)) :
    left = { s with folder := left.folder } ∧ ∀ fault, result = .error fault → left = s := by
  rw [save, run_bind_of_ok (run_get s)] at h
  cases hwrite : s.folder.write path (s.editor.song.write (Format.ofPath path)) with
  | error fault =>
    rw [hwrite] at h
    obtain ⟨rfl, rfl⟩ := Prod.mk.inj h
    exact ⟨rfl, fun _ _ => rfl⟩
  | ok folder =>
    rw [hwrite] at h
    obtain ⟨rfl, rfl⟩ := Prod.mk.inj h
    exact ⟨rfl, nofun⟩

theorem isAtomic_save (path : String) : IsAtomic (save path) :=
  fun _ fault _ h => (left_of_save path h).2 fault rfl

theorem movesBy_save (path : String) : MovesBy P (save path) := by
  intro s result left h
  refine ⟨[], by simp, ?_⟩
  rw [(left_of_save path h).1]
  rfl

theorem isAtomic_load (path : String) : IsAtomic (load path) :=
  keeps_get.bind_isAtomic fun _ => (keeps_lift _).isAtomic.bind fun _ _ => ⟨_, _, rfl⟩

theorem movesBy_load (path : String) (hop : ∀ song, P (.replaceSong song)) :
    MovesBy P (load path) := by
  refine keeps_get.movesBy.bind fun _ => (keeps_lift _).movesBy.bind fun song => ?_
  exact (movesBy_modify (fun _ => rfl) (hop song)).bind fun _ => (keeps_pure _).movesBy

theorem movesBy_run (command : Command) : MovesBy command.Performs (run command) := by
  cases command with
  | nothing => exact (keeps_pure _).movesBy
  | setBpm bpm =>
    exact (movesBy_modify (fun _ => rfl) (.setBpm bpm)).bind fun _ => (keeps_pure _).movesBy
  | addTrack name =>
    exact (movesBy_update (fun _ => rfl) (.addTrack name)).bind fun _ => (keeps_success _).movesBy
  | removeTrack track =>
    exact (movesBy_update (fun _ => map_eq_bind_return _ _) (.removeTrack track)).bind fun _ =>
      (keeps_success _).movesBy
  | listTracks => exact (keeps_get.bind fun _ => keeps_pure _).movesBy
  | showPad track pad => exact ((keeps_query _).bind fun _ => keeps_pure _).movesBy
  | setPad track pad steps =>
    refine MovesBy.bind ?_ fun _ => ?_
    · exact movesBy_update_map (fun _ => rfl) (.setPad track pad steps)
    · cases steps with
      | none => exact (keeps_success _).movesBy
      | some steps => exact (keeps_success _).movesBy
  | setPads track steps =>
    refine MovesBy.bind ?_ fun _ => (keeps_success _).movesBy
    exact movesBy_update_map (fun _ => rfl) (.setPads track steps)
  | showItems address => exact (keeps_showItems address).movesBy
  | setItems address items =>
    exact movesBy_edit _ (fun _ => map_eq_bind_return _ _) (.setItems _ _ items)
  | showTimeline address => exact (keeps_showTimeline address).movesBy
  | insert address index item =>
    exact movesBy_edit _ (fun _ => map_eq_bind_return _ _) (.insert _ _ index item)
  | delete address indices =>
    exact movesBy_edit _ (fun _ => map_eq_bind_return _ _) (.delete _ _ indices)
  | moveItem address source target =>
    exact movesBy_edit _ (fun _ => map_eq_bind_return _ _) (.moveItem _ _ source target)
  | replace address index item =>
    exact movesBy_edit _ (fun _ => map_eq_bind_return _ _) (.replace _ _ index item)
  | select address ranges =>
    exact (movesBy_selectRanges ranges fun first last => .select _ _ ranges first last).bind
      fun _ => (keeps_reportSelection _).movesBy
  | deselectAll address =>
    exact (movesBy_modify (fun _ => rfl) (.deselectAll _ _)).bind fun _ =>
      (keeps_reportSelection _).movesBy
  | deselect address indices =>
    refine keeps_get.movesBy.bind fun _ => ?_
    exact (movesBy_deselect _ indices fun index => .deselect _ _ indices index).bind fun _ =>
      (keeps_reportSelection _).movesBy
  | group kind address => exact movesBy_group kind (.group kind _ _)
  | ungroup address => exact movesBy_edit _ (fun _ => map_eq_bind_return _ _) (.ungroup _ _)
  | cut address => exact movesBy_edit _ (fun _ => map_eq_bind_return _ _) (.cut _ _)
  | drag address step => exact movesBy_drag step (.beginDrag _ _ step) (.hoverDragged _ step)
  | hover step =>
    exact (movesBy_update (fun _ => map_eq_bind_return _ _) (.hover step)).bind fun _ =>
      (keeps_pure _).movesBy
  | drop => exact movesBy_edit _ (fun _ => map_eq_bind_return _ _) .drop
  | cancel =>
    refine (movesBy_update (fun _ => rfl) .cancel).bind fun released => ?_
    cases released with
    | false => exact (keeps_pure _).movesBy
    | true => exact (keeps_success _).movesBy
  | moveBlock address first last target =>
    exact movesBy_edit _ (fun _ => map_eq_bind_return _ _) (.moveBlock _ _ first last target)
  | events track => exact ((keeps_query _).bind fun _ => keeps_pure _).movesBy
  | arrangement => exact (keeps_get.bind fun _ => keeps_pure _).movesBy
  | check track => exact ((keeps_query _).bind fun _ => keeps_pure _).movesBy
  | save path => exact movesBy_save path
  | load path => exact movesBy_load path fun song => .load path song

theorem exists_selections_of_selectRanges {address : Address} {words : List String}
    (h : (selectRanges address words).run s = (.ok (), left)) :
    ∃ selections, left = { s with editor.selections := selections } := by
  induction words generalizing s with
  | nil => exact ⟨s.editor.selections, (Prod.mk.inj h).2.symm⟩
  | cons word rest ih =>
    rcases run_bind_cases h with ⟨stop, -, hstop⟩ | ⟨⟨first, last⟩, next, hread, hrest⟩
    · cases hstop
    obtain rfl := keeps_lift _ s _ next hread
    rcases run_bind_cases hrest with ⟨stop, -, hstop⟩ | ⟨_, later, hselect, hrest⟩
    · cases hstop
    obtain ⟨selections, hlast⟩ := ih hrest
    obtain ⟨editor, hupdate, rfl⟩ := exists_of_run_update_eq_ok hselect
    obtain ⟨changed, hchanged, hpair⟩ := exists_of_map_eq_ok hupdate
    cases hpair
    obtain ⟨t, ht, hset⟩ := exists_of_bind_eq_ok hchanged
    obtain rfl := Except.ok.inj hset
    exact ⟨selections, hlast⟩

theorem exists_drag_of_run {address : Address} {output : Output}
    (h : (drag address none).run s = (.ok output, left)) :
    ∃ drag, left = { s with editor.drag := drag } := by
  rcases run_bind_cases h with ⟨stop, -, hstop⟩ | ⟨block, next, hbegin, hrest⟩
  · cases hstop
  obtain ⟨changed, hchanged, rfl⟩ := exists_of_run_update_eq_ok hbegin
  have heffect := Editor.effect_of_beginDrag hchanged
  obtain rfl := (Prod.mk.inj hrest).2
  cases heffect
  exact ⟨_, rfl⟩

/-- What a command leaves that fails when a part of it was done already. -/
inductive LeftMidway (s : Session) (fault : CommandError) : Command → Session → Prop
  | select (address : Address) {done : List String} {word : String} (rest : List String)
      {output : Output} {selections : Selections} (hne : done ≠ [])
      (hdone : (run (.select address done)).run s =
        (.ok output, { s with editor.selections := selections }))
      (hbad : (run (.select address [word])).run { s with editor.selections := selections } =
        (.error fault, { s with editor.selections := selections })) :
    LeftMidway s fault (.select address (done ++ word :: rest))
      { s with editor.selections := selections }
  | drag (address : Address) {word : String} {output : Output} {drag : Option ActiveDrag}
      (hbegun : (run (.drag address none)).run s =
        (.ok output, { s with editor.drag := drag }))
      (hbad : FailsAt { s with editor.drag := drag } word fault) :
    LeftMidway s fault (.drag address (some word)) { s with editor.drag := drag }

theorem run_select_error {address : Address} {ranges : List String}
    (h : (run (.select address ranges)).run s = (.error fault, left)) :
    left = s ∨ s.LeftMidway fault (.select address ranges) left := by
  have hfail : (selectRanges address ranges).run s = (.error fault, left) := by
    rcases run_bind_cases h with ⟨stop, hfail, hstop⟩ | ⟨_, next, -, hreport⟩
    · cases hstop
      exact hfail
    · obtain ⟨output, later, hok⟩ := succeeds_reportSelection address next
      cases (Prod.mk.inj (hok.symm.trans hreport)).1
  obtain ⟨done, word, rest, rfl, hdone, hbad⟩ := exists_run_of_selectRanges_error hfail
  obtain ⟨selections, rfl⟩ := exists_selections_of_selectRanges hdone
  by_cases hne : done = []
  · subst hne
    exact .inl (Prod.mk.inj hdone).2.symm
  · have hrun : (run (.select address done)).run s =
        (reportSelection address).run { s with editor.selections := selections } :=
      run_bind_of_ok hdone
    refine .inr (.select address rest hne hrun ?_)
    rw [run, run_bind, hbad]

theorem run_drag_error {address : Address} {step : Option String}
    (h : (run (.drag address step)).run s = (.error fault, left)) :
    left = s ∨ s.LeftMidway fault (.drag address step) left := by
  rcases exists_run_of_drag_error h with hsame | ⟨word, output, rfl, hbegun, hbad⟩
  · exact .inl hsame
  · obtain ⟨drag, rfl⟩ := exists_drag_of_run hbegun
    exact .inr (.drag address hbegun hbad)

/-- A command that fails changes nothing, or is one of the two that can stop midway. -/
theorem run_error (h : (run command).run s = (.error fault, left)) :
    left = s ∨ s.LeftMidway fault command left := by
  have hatomic : IsAtomic (run command) → left = s ∨ s.LeftMidway fault command left :=
    fun hrun => .inl (hrun s fault left h)
  cases command with
  | select address ranges => exact run_select_error h
  | drag address step => exact run_drag_error h
  | nothing => exact hatomic (keeps_pure _).isAtomic
  | setBpm bpm => exact hatomic (Succeeds.isAtomic fun s => ⟨_, _, rfl⟩)
  | addTrack name => exact hatomic ((isAtomic_update _).bind fun _ => succeeds_success _)
  | removeTrack track => exact hatomic ((isAtomic_update _).bind fun _ => succeeds_success _)
  | listTracks => exact hatomic (keeps_get.bind fun _ => keeps_pure _).isAtomic
  | showPad track pad => exact hatomic ((keeps_query _).bind fun _ => keeps_pure _).isAtomic
  | setPad track pad steps =>
    refine hatomic ((isAtomic_update _).bind fun _ => ?_)
    cases steps with
    | none => exact succeeds_success _
    | some steps => exact succeeds_success _
  | setPads track steps => exact hatomic ((isAtomic_update _).bind fun _ => succeeds_success _)
  | showItems address => exact hatomic (keeps_showItems address).isAtomic
  | showTimeline address => exact hatomic (keeps_showTimeline address).isAtomic
  | setItems address items => exact hatomic (isAtomic_edit _ _)
  | insert address index item => exact hatomic (isAtomic_edit _ _)
  | delete address indices => exact hatomic (isAtomic_edit _ _)
  | moveItem address source target => exact hatomic (isAtomic_edit _ _)
  | replace address index item => exact hatomic (isAtomic_edit _ _)
  | ungroup address => exact hatomic (isAtomic_edit _ _)
  | cut address => exact hatomic (isAtomic_edit _ _)
  | drop => exact hatomic (isAtomic_edit _ _)
  | moveBlock address first last target => exact hatomic (isAtomic_edit _ _)
  | deselectAll address => exact hatomic (Succeeds.isAtomic fun s => ⟨_, _, rfl⟩)
  | deselect address indices =>
    exact hatomic (keeps_get.bind_isAtomic fun _ =>
      (isAtomic_deselect address _ indices).bind fun _ => succeeds_reportSelection address)
  | group kind address => exact hatomic (isAtomic_group kind address)
  | hover step => exact hatomic ((isAtomic_update _).bind fun _ => succeeds_pure _)
  | cancel =>
    refine hatomic ((isAtomic_update _).bind fun released => ?_)
    cases released with
    | false => exact succeeds_pure _
    | true => exact succeeds_success _
  | events track => exact hatomic ((keeps_query _).bind fun _ => keeps_pure _).isAtomic
  | arrangement => exact hatomic (keeps_get.bind fun _ => keeps_pure _).isAtomic
  | check track => exact hatomic ((keeps_query _).bind fun _ => keeps_pure _).isAtomic
  | save path => exact hatomic (isAtomic_save path)
  | load path => exact hatomic (isAtomic_load path)

def Reads (s : Session) (text : List Char) (command : Command) : Prop :=
  ∃ words, words? (trim text) = some words ∧
    Command.ofWords s.editor.song.tracks.length (words.map String.ofList) = .ok command

theorem runText_of_words {text : List Char} {words : List (List Char)}
    (hmeta : (trim text).head? ≠ some ':') (hwords : words? (trim text) = some words) :
    (runText text).run s =
      (liftM (Command.ofWords s.editor.song.tracks.length (words.map String.ofList)) >>=
        run : Action Output).run s := by
  unfold runText
  split
  · next name hname => exact absurd (congrArg List.head? hname) hmeta
  · rw [hwords]
    rfl

/-- A text runs the command that it is read as, or does nothing to the session. -/
theorem runText_cases {text : List Char} (h : (runText text).run s = (result, left)) :
    left = s ∨ ∃ command, s.Reads text command ∧ (run command).run s = (result, left) := by
  unfold runText at h
  split at h
  · exact .inl (keeps_pure _ s result left h)
  · next hmeta =>
    cases hwords : words? (trim text) with
    | none =>
      rw [hwords] at h
      exact .inl (keeps_throw _ s result left h)
    | some words =>
      rw [hwords] at h
      have hrun : (liftM (Command.ofWords s.editor.song.tracks.length (words.map String.ofList)) >>=
          run : Action Output).run s = (result, left) := h
      rcases run_bind_cases hrun with ⟨stop, hread, -⟩ | ⟨command, next, hread, hdone⟩
      · exact .inl (keeps_lift _ s _ left hread)
      · obtain rfl := keeps_lift _ s _ next hread
        rw [run_lift] at hread
        exact .inr ⟨command, ⟨words, hwords, (Prod.mk.inj hread).1⟩, hdone⟩

theorem enter_of_splitLine {line : String} {text : List Char}
    (hline : Command.splitLine line.toList = [text]) :
    s.enter line = (runText text).run s := by
  rw [enter, runLine, hline, runTexts, run_bind, run_bind]
  rcases (runText text).run s with ⟨fault | output, left⟩
  · rfl
  · cases output with
    | quit => rfl
    | silence => rfl
    | text shown =>
      have hone : "\n".intercalate [shown] = shown := String.intercalate_singleton
      exact congrArg (fun joined => (Except.ok (Output.text joined), left)) hone

theorem enter_of_command {line : String} {text : List Char} {words : List (List Char)}
    (hline : Command.splitLine line.toList = [text]) (hmeta : (trim text).head? ≠ some ':')
    (hwords : words? (trim text) = some words)
    (hread : Command.ofWords s.editor.song.tracks.length (words.map String.ofList) =
      .ok command) : s.enter line = (run command).run s := by
  rw [enter_of_splitLine hline, runText_of_words hmeta hwords, run_bind, run_lift, hread]

/-- Where a line of one command fails, the session is as before, unless the command selected
its first ranges and failed at a later one, or began a drag and failed at the step of it. -/
theorem failed_line_changes_nothing {line : String} {text : List Char}
    (hline : Command.splitLine line.toList = [text]) (h : s.enter line = (.error fault, left)) :
    left = s ∨ ∃ command, s.Reads text command ∧ s.LeftMidway fault command left := by
  rw [enter_of_splitLine hline] at h
  rcases runText_cases h with hsame | ⟨command, hread, hrun⟩
  · exact .inl hsame
  · exact (run_error hrun).imp_right fun hmidway => ⟨command, hread, hmidway⟩

/-- The block is picked up and stays so, since the step is over the limit. -/
theorem failed_line_changes_nothing_but_drag :
    let s : Session := { editor := ({} : Editor).run [.addTrack "A",
      .edit 0 .root (.setSequence [.pad 0, .pad 1]), .select 0 .root 0 0] }
    let left : Session := { s with editor := s.editor.after (.beginDrag 0 .root) }
    Command.splitLine "drag 1 65537".toList = ["drag 1 65537".toList] ∧
      s.enter "drag 1 65537" = (.error (.edit (.tooManySteps 65537)), left) ∧
      (left = s ∨ ∃ command, s.Reads "drag 1 65537".toList command ∧
        s.LeftMidway (.edit (.tooManySteps 65537)) command left) := by
  intro s left
  have hline : Command.splitLine "drag 1 65537".toList = ["drag 1 65537".toList] := by decide
  have hwords : words? (trim "drag 1 65537".toList) =
      some ["drag".toList, "1".toList, "65537".toList] := by decide
  have hread : Command.ofWords s.editor.song.tracks.length ["drag", "1", "65537"] =
      .ok (.drag ⟨0, .root⟩ (some "65537")) := by rfl
  have hrun : (run (.drag ⟨0, .root⟩ (some "65537"))).run s =
      (.error (.edit (.tooManySteps 65537)), left) := by rfl
  have hfail : s.enter "drag 1 65537" = (.error (.edit (.tooManySteps 65537)), left) :=
    (enter_of_command hline (by decide) hwords hread).trans hrun
  exact ⟨hline, hfail, failed_line_changes_nothing hline hfail⟩

/-- A range that cannot be read fails behind one that was selected. -/
theorem failed_line_selects :
    ∃ (s left : Session) (fault : CommandError), s.editor.Reachable ∧
      Command.splitLine "select 1 0 x".toList = ["select 1 0 x".toList] ∧
      s.enter "select 1 0 x" = (.error fault, left) ∧
      s.editor.selection 0 .root = [] ∧ left.editor.selection 0 .root = [0] := by
  let s : Session := { editor := ({} : Editor).run [.addTrack "A",
    .edit 0 .root (.setSequence [.pad 0])] }
  let left : Session := { s with editor := s.editor.after (.select 0 .root 0 0) }
  have hline : Command.splitLine "select 1 0 x".toList = ["select 1 0 x".toList] := by decide
  have hwords : words? (trim "select 1 0 x".toList) =
      some ["select".toList, "1".toList, "0".toList, "x".toList] := by decide
  have hread : Command.ofWords s.editor.song.tracks.length ["select", "1", "0", "x"] =
      .ok (.select ⟨0, .root⟩ ["0", "x"]) := by rfl
  have hrun : (run (.select ⟨0, .root⟩ ["0", "x"])).run s = (.error (.badIndex "x"), left) := by
    rfl
  have hfail : s.enter "select 1 0 x" = (.error (.badIndex "x"), left) :=
    (enter_of_command hline (by decide) hwords hread).trans hrun
  exact ⟨s, left, .badIndex "x", ⟨{}, _, _, rfl⟩, hline, hfail, by decide, by decide⟩

end Session

end Groovebox

import Groovebox.Proofs.Anchors
import Groovebox.Proofs.Conservation

/-! A drag is a move. Each hover puts its plan in the place of the one before and leaves the
block alone, so a drop acts on the last hover only, as a move to the grid line nearest to it. -/

namespace Groovebox

/-- The grid line nearest to a step within the limit is within the limit too. -/
theorem toNat_snap {step : UInt32} (h : step.toNat ≤ stepLimit) :
    (UInt32.ofNat (snap step.toNat)).toNat = snap step.toNat ∧ snap step.toNat ≤ stepLimit := by
  have hle : snap step.toNat ≤ stepLimit := by
    simp only [snap, satAdd, stepLimit, maxStep] at *
    omega
  refine ⟨UInt32.toNat_ofNat_of_lt' (Nat.lt_of_le_of_lt hle ?_), hle⟩
  decide

namespace Drag

/-- Hover on layouts one after another. -/
def hovers (d : Drag) (passed : List (List Token × Nat)) : Drag :=
  passed.foldl (fun d hovered => d.hover hovered.1 hovered.2) d

/-- The drag holds the block that the other one holds. -/
def Holds (d other : Drag) : Prop :=
  d.container = other.container ∧ d.first = other.first ∧ d.last = other.last

theorem hover_eq_of_holds {d other : Drag} (h : d.Holds other) (tokens : List Token) (step : Nat) :
    d.hover tokens step = other.hover tokens step := by
  obtain ⟨hcontainer, hfirst, hlast⟩ := h
  simp only [hover, hcontainer, hfirst, hlast]

theorem holds_hovers (d : Drag) (passed : List (List Token × Nat)) : (d.hovers passed).Holds d := by
  induction passed generalizing d with
  | nil => exact ⟨rfl, rfl, rfl⟩
  | cons hovered rest ih => exact ih (d.hover hovered.1 hovered.2)

/-- Only the last hover is left of all. -/
theorem hovers_concat (d : Drag) (passed : List (List Token × Nat)) (tokens : List Token)
    (step : Nat) : d.hovers (passed ++ [(tokens, step)]) = d.hover tokens step := by
  have hlast : d.hovers (passed ++ [(tokens, step)]) = (d.hovers passed).hover tokens step :=
    List.foldl_append
  rw [hlast, hover_eq_of_holds (d.holds_hovers passed)]

theorem drop?_hover (d : Drag) (tokens : List Token) (step : Nat) (p : Pattern)
    (pads : PadLengths) :
    (d.hover tokens step).drop? p pads =
      if (planMove tokens d.first d.last (snap step)).isValid then
        p.moveBlock? pads d.container d.first d.last (snap step)
      else none := by
  obtain ⟨-, -, htarget⟩ := planMove_fields tokens d.first d.last (snap step)
  rw [drop?_eq_moveBlock?, hover, Option.filter_some]
  split
  · rw [Option.bind_some, htarget]
  · rfl

/-- On the pattern that was hovered over the drop is the move. -/
theorem drop?_hover_tokens (d : Drag) (step : Nat) (p : Pattern) (pads : PadLengths) :
    (d.hover (p.tokens pads d.container) step).drop? p pads =
      p.moveBlock? pads d.container d.first d.last (snap step) := by
  rw [drop?_hover]
  split
  · rfl
  · next hno =>
    have hnone : (planMove (p.tokens pads d.container) d.first d.last (snap step)).placement =
        none := by simpa [MovePlan.isValid] using hno
    simp [Pattern.moveBlock?, MovePlan.result?, hnone]

end Drag

namespace Editor

variable {e : Editor} {t : Track} {track : Nat} {container : Container}

/-- The editor with the block from `first` to `last` picked up. -/
def dragging (e : Editor) (track : Nat) (container : Container) (first last : Nat)
    (proposal : Option MovePlan) : Editor :=
  { e with drag := some ⟨track, { container, first, last, proposal }⟩ }

theorem exists_of_beginDrag {picked : Editor} {first last : Nat}
    (h : e.beginDrag track container = .ok ((first, last), picked)) :
    ∃ t, e.trackWith track container = .ok t ∧
      picked = e.dragging track container first last none := by
  cases effect_of_beginDrag h with
  | beginDrag ht => exact ⟨_, ht, rfl⟩

theorem hover_dragging (ht : e.trackWith track container = .ok t) {step : UInt32}
    (hstep : step.toNat ≤ stepLimit) (first last : Nat) (proposal : Option MovePlan) :
    let plan := planMove (t.pattern.tokens t.pads container) first last (snap step.toNat)
    (e.dragging track container first last proposal).hover step =
      .ok (plan, e.dragging track container first last (some plan)) := by
  have hline : (e.dragging track container first last proposal).timeline track container true =
      .ok (t.pattern.timeline t.pads container true) := by
    have hpicked : (e.dragging track container first last proposal).trackWith track container =
        .ok t := ht
    rw [timeline, hpicked]
    rfl
  unfold Editor.hover
  simp only [dragging] at hline ⊢
  rw [if_neg (Nat.not_lt.mpr hstep)]
  simp only [hline]
  rfl

/-- Hovering, also where it is refused, changes nothing but the proposal. -/
theorem run_hovers_dragging (ht : e.trackWith track container = .ok t) (steps : List UInt32)
    (first last : Nat) (proposal : Option MovePlan) :
    ∃ last', (e.dragging track container first last proposal).run (steps.map .hover) =
      e.dragging track container first last last' := by
  induction steps generalizing proposal with
  | nil => exact ⟨proposal, rfl⟩
  | cons step rest ih =>
    rw [List.map_cons, run_cons]
    by_cases hstep : step.toNat ≤ stepLimit
    · have hhover := hover_dragging ht hstep first last proposal
      rw [after_of_perform (by rw [perform, hhover]; rfl)]
      exact ih _
    · have hrefused : (e.dragging track container first last proposal).hover step =
          .error (.tooManySteps step.toNat) := by
        simp only [Editor.hover, dragging]
        rw [if_pos (Nat.not_le.mp hstep)]
        rfl
      rw [after_of_error (by rw [perform, hrefused]; rfl)]
      exact ih proposal

theorem exists_dropDrag_dragging (ht : e.song.tracks[track]? = some t) (container : Container)
    (first last : Nat) (proposal : Option MovePlan) :
    ∃ outcome, (e.dragging track container first last proposal).dropDrag = .ok outcome ∧
      (outcome.value, outcome.editor) =
        ({ e with drag := none } : Editor).putResult track container
          (Drag.drop? ⟨container, first, last, proposal⟩ t.pattern t.pads) := by
  have hsong : (e.dragging track container first last proposal).track track = .ok t :=
    track_eq_ok_iff.mpr ht
  simp only [dragging] at hsong
  simp only [dropDrag, dragging, hsong]
  cases hdrop : Drag.drop? ⟨container, first, last, proposal⟩ t.pattern t.pads with
  | none => exact ⟨_, by simp only [bind, Except.bind, hdrop]; rfl, rfl⟩
  | some p => exact ⟨_, by simp only [bind, Except.bind, hdrop]; rfl, rfl⟩

theorem exists_moveBlock (ht : e.trackWith track container = .ok t) {target : UInt32}
    (htarget : target.toNat ≤ stepLimit) (first last : Nat) :
    ∃ outcome, e.moveBlock track container first last target = .ok outcome ∧
      (outcome.value, outcome.editor) = e.putResult track container
        (t.pattern.moveBlock? t.pads container first last target.toNat) := by
  simp only [moveBlock, if_neg (Nat.not_lt.mpr htarget), edit_eq_map, ht]
  cases hmove : t.pattern.moveBlock? t.pads container first last target.toNat with
  | none => exact ⟨_, by simp only [bind, Except.bind, Except.map, hmove]; rfl, rfl⟩
  | some p => exact ⟨_, by simp only [bind, Except.bind, Except.map, hmove]; rfl, rfl⟩

theorem putResult_undragged (e : Editor) (track : Nat) (container : Container)
    (result : Option Pattern) :
    ({ e with drag := none } : Editor).putResult track container result =
      (e.putResult track container result).map id ({ · with drag := none }) := by
  cases result <;> rfl

end Editor

/-- A drag moves its block once, to the grid line nearest to the last step that it was over, and
is as good as that move. In the editor it leaves what the move leaves, whatever it was over on
the way. -/
theorem drop_eq_moveBlock :
    (∀ (tokens : List Token) (container : Container) (selected : List Nat) (d : Drag),
      Drag.begin? tokens container selected = some d →
      ∃ first last, selectedBlock? tokens selected = some (first, last) ∧
        ∀ (earlier : List (List Token × Nat)) (shown : List Token) (step : Nat) (p : Pattern)
          (pads : PadLengths),
          ((d.hovers (earlier ++ [(shown, step)])).drop? p pads).getD p =
            if (planMove shown first last (snap step)).isValid then
              (p.moveBlock? pads container first last (snap step)).getD p
            else p) ∧
    ∀ (e picked : Editor) (track : Nat) (container : Container) (first last : Nat),
      e.beginDrag track container = .ok ((first, last), picked) →
      ∀ (earlier : List UInt32) (step : UInt32), step.toNat ≤ stepLimit →
        ∃ plan hovered dropped moved,
          (picked.run (earlier.map .hover)).hover step = .ok (plan, hovered) ∧
          picked.hover step = .ok (plan, hovered) ∧ hovered.dropDrag = .ok dropped ∧
          e.moveBlock track container first last (UInt32.ofNat (snap step.toNat)) = .ok moved ∧
          dropped.value = moved.value ∧ dropped.editor = { moved.editor with drag := none } := by
  constructor
  · intro tokens container selected d hbegin
    obtain ⟨⟨first, last⟩, hblock, rfl⟩ := Option.map_eq_some_iff.mp hbegin
    refine ⟨first, last, hblock, fun earlier shown step p pads => ?_⟩
    rw [Drag.hovers_concat, Drag.drop?_hover]
    exact apply_ite (Option.getD · p) ..
  · intro e picked track container first last hbegin earlier step hstep
    obtain ⟨t, ht, rfl⟩ := Editor.exists_of_beginDrag hbegin
    obtain ⟨proposal, hrun⟩ := Editor.run_hovers_dragging ht earlier first last none
    obtain ⟨htarget, hlimit⟩ := toNat_snap hstep
    obtain ⟨dropped, hdrop, hdropped⟩ :=
      Editor.exists_dropDrag_dragging (Editor.trackWith_eq_ok_iff.mp ht).1 container first last
        (some (planMove (t.pattern.tokens t.pads container) first last (snap step.toNat)))
    obtain ⟨moved, hmove, hmoved⟩ := Editor.exists_moveBlock ht (htarget ▸ hlimit) first last
    have hsame := Drag.drop?_hover_tokens ⟨container, first, last, none⟩ step.toNat t.pattern t.pads
    rw [Drag.hover] at hsame
    rw [hsame, Editor.putResult_undragged, ← htarget, ← hmoved] at hdropped
    obtain ⟨hvalue, heditor⟩ := Prod.mk.inj hdropped
    exact ⟨_, _, dropped, moved, hrun ▸ Editor.hover_dragging ht hstep first last proposal,
      Editor.hover_dragging ht hstep first last none, hdrop, hmove, hvalue, heditor⟩

/-- A pad is dragged over another one and on to free steps. -/
theorem drop_eq_moveBlock_after_hovers :
    (let p : Pattern := { root := [.pad 0, .pad 1] }
      let tokens := p.tokens {} .root
      ∃ d, Drag.begin? tokens .root [0] = some d ∧
        ∃ first last, selectedBlock? tokens [0] = some (first, last) ∧
          ((d.hovers ([(tokens, 15)] ++ [(tokens, 41)])).drop? p {}).getD p =
            if (planMove tokens first last (snap 41)).isValid then
              (p.moveBlock? {} .root first last (snap 41)).getD p
            else p) ∧
      ∃ e picked : Editor, e.beginDrag 0 .root = .ok ((0, 0), picked) ∧
        ∃ plan hovered dropped moved,
          (picked.run ([15, 90000].map .hover)).hover 41 = .ok (plan, hovered) ∧
          picked.hover 41 = .ok (plan, hovered) ∧ hovered.dropDrag = .ok dropped ∧
          e.moveBlock 0 .root 0 0 40 = .ok moved ∧
          dropped.value = moved.value ∧ dropped.editor = { moved.editor with drag := none } := by
  constructor
  · intro p tokens
    obtain ⟨d, hbegin⟩ : ∃ d, Drag.begin? tokens .root [0] = some d := ⟨_, rfl⟩
    obtain ⟨first, last, hblock, hdrop⟩ := drop_eq_moveBlock.1 tokens .root [0] d hbegin
    exact ⟨d, hbegin, first, last, hblock, hdrop [(tokens, 15)] tokens 41 p {}⟩
  · obtain ⟨e, picked, hbegin⟩ :
        ∃ e picked : Editor, e.beginDrag 0 .root = .ok ((0, 0), picked) :=
      ⟨({} : Editor).run [.addTrack "kick", .edit 0 .root (.setSequence [.pad 0, .pad 1]),
        .select 0 .root 0 0], _, rfl⟩
    exact ⟨e, picked, hbegin,
      drop_eq_moveBlock.2 e picked 0 .root 0 0 hbegin [15, 90000] 41 (by decide)⟩

end Groovebox

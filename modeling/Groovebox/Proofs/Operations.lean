import Groovebox.Editor
import Groovebox.Proofs.Containers
import Groovebox.Proofs.FreshNames
import Groovebox.Proofs.Results
import Mathlib.Data.List.Induction

/-! Operations of the editor as data, and runs of them. An operation that fails leaves the
editor as it is. One that edits a container leaves all other containers as they are. -/

namespace Groovebox

/-- What a container can undergo. Some of it acts on the selected items. -/
inductive ContainerEdit where
  | setSequence (items : List Item)
  | insert (index : Nat) (item : Item)
  | delete (indices : List Nat)
  | moveItem (source target : Nat)
  | replace (index : Nat) (item : Item)
  | group (kind : GroupKind)
  | ungroup
  | cut
  | moveBlock (first last : Nat) (target : UInt32)

/-- The pattern that an edit makes of that of a track with some items selected, if it
changes anything. -/
def ContainerEdit.result? (container : Container) (t : Track) (selected : List Nat) :
    ContainerEdit → Option Pattern
  | .setSequence items => t.pattern.setSequence? container (storedPauses items)
  | .insert index item => t.pattern.insertItems? container index item.stored
  | .delete indices => t.pattern.removeItems? container indices
  | .moveItem source target => t.pattern.moveItem? container source target
  | .replace index item => t.pattern.replaceItem? container index item.stored
  | .group kind => t.pattern.group? container selected kind
  | .ungroup => t.pattern.ungroup? container selected
  | .cut => t.pattern.removeItems? container selected
  | .moveBlock first last target =>
    t.pattern.moveBlock? t.pads container first last target.toNat

inductive Operation where
  | replaceSong (song : Song)
  | setBpm (bpm : UInt32)
  | addTrack (name : String)
  | removeTrack (track : Nat)
  | setPadSteps (track : Nat) (pad : UInt8) (steps : Option UInt32)
  | setDefaultPadSteps (track : Nat) (steps : UInt32)
  | edit (track : Nat) (container : Container) (edit : ContainerEdit)
  | select (track : Nat) (container : Container) (first last : Nat)
  | toggle (track : Nat) (container : Container) (index : Nat)
  | deselect (track : Nat) (container : Container)
  | beginDrag (track : Nat) (container : Container)
  | hover (step : UInt32)
  | dropDrag
  | cancelDrag

namespace Editor

def editContainer (e : Editor) (track : Nat) (container : Container) :
    ContainerEdit → Except EditError Editor
  | .setSequence items => return (← e.setSequence track container items).editor
  | .insert index item => return (← e.insert track container index item).editor
  | .delete indices => return (← e.delete track container indices).editor
  | .moveItem source target => return (← e.moveItem track container source target).editor
  | .replace index item => return (← e.replace track container index item).editor
  | .group kind => return (← e.group track container kind).editor
  | .ungroup => return (← e.ungroup track container).editor
  | .cut => return (← e.cut track container).editor
  | .moveBlock first last target =>
    return (← e.moveBlock track container first last target).editor

def perform (e : Editor) : Operation → Except EditError Editor
  | .replaceSong song => return e.replaceSong song
  | .setBpm bpm => return e.setBpm bpm
  | .addTrack name => return (e.addTrack name).2
  | .removeTrack track => return (← e.removeTrack track).2
  | .setPadSteps track pad steps => e.setPadSteps track pad steps
  | .setDefaultPadSteps track steps => e.setDefaultPadSteps track steps
  | .edit track container edit => e.editContainer track container edit
  | .select track container first last => e.select track container first last
  | .toggle track container index => e.toggle track container index
  | .deselect track container => return e.deselect track container
  | .beginDrag track container => return (← e.beginDrag track container).2
  | .hover step => return (← e.hover step).2
  | .dropDrag => return (← e.dropDrag).editor
  | .cancelDrag => return e.cancelDrag.2

/-- The editor after an operation. -/
def after (e : Editor) (op : Operation) : Editor :=
  match e.perform op with
  | .ok changed => changed
  | .error _ => e

def run (e : Editor) (ops : List Operation) : Editor := ops.foldl after e

/-- An editor that starts with some song gets here. -/
def Reachable (e : Editor) : Prop :=
  ∃ song padSteps ops, e = ({ song, padSteps } : Editor).run ops

variable {e changed : Editor} {op : Operation}

theorem after_of_perform (h : e.perform op = .ok changed) : e.after op = changed := by
  simp [after, h]

theorem after_of_error {fault : EditError} (h : e.perform op = .error fault) : e.after op = e := by
  simp [after, h]

theorem run_cons (e : Editor) (op : Operation) (ops : List Operation) :
    e.run (op :: ops) = (e.after op).run ops := rfl

theorem run_append (e : Editor) (ops more : List Operation) :
    e.run (ops ++ more) = (e.run ops).run more := List.foldl_append

theorem run_concat (e : Editor) (ops : List Operation) (op : Operation) :
    e.run (ops ++ [op]) = (e.run ops).after op := run_append e ops [op]

theorem exists_run_trans {P : Operation → Prop} {next last : Editor}
    (h : ∃ ops, (∀ op ∈ ops, P op) ∧ next = e.run ops)
    (hrest : ∃ ops, (∀ op ∈ ops, P op) ∧ last = next.run ops) :
    ∃ ops, (∀ op ∈ ops, P op) ∧ last = e.run ops := by
  obtain ⟨before, hbefore, rfl⟩ := h
  obtain ⟨ops, hops, rfl⟩ := hrest
  refine ⟨before ++ ops, fun op hop => ?_, (run_append e before ops).symm⟩
  exact (List.mem_append.mp hop).elim (hbefore op) (hops op)

theorem Reachable.after (h : e.Reachable) (op : Operation) : (e.after op).Reachable := by
  obtain ⟨song, padSteps, ops, rfl⟩ := h
  exact ⟨song, padSteps, ops ++ [op], (run_concat _ ops op).symm⟩

theorem Reachable.induction {P : Editor → Prop} (hstart : ∀ song padSteps, P { song, padSteps })
    (hstep : ∀ e op changed, e.Reachable → P e → e.perform op = .ok changed → P changed)
    (h : e.Reachable) : P e := by
  obtain ⟨song, padSteps, ops, rfl⟩ := h
  induction ops using List.reverseRecOn with
  | nil => exact hstart song padSteps
  | append_singleton ops op ih =>
    rw [run_concat]
    cases hop : (({ song, padSteps } : Editor).run ops).perform op with
    | error fault =>
      rwa [after_of_error hop]
    | ok changed =>
      rw [after_of_perform hop]
      exact hstep _ op changed ⟨song, padSteps, ops, rfl⟩ ih hop

end Editor

namespace Pattern

/-- `q` differs from `p` in one container, and may define names that `p` does not. -/
structure EditsOnly (p : Pattern) (container : Container) (q : Pattern) : Prop where
  edited : (q.sequence? container).isSome
  others : ∀ other items, other ≠ container → p.sequence? other = some items →
    q.sequence? other = some items

variable {p q : Pattern} {container : Container}

theorem EditsOnly.isSome (h : p.EditsOnly container q) {other : Container}
    (ho : (p.sequence? other).isSome) : (q.sequence? other).isSome := by
  by_cases he : other = container
  · exact he ▸ h.edited
  · obtain ⟨items, hi⟩ := Option.isSome_iff_exists.mp ho
    rw [h.others other items he hi, Option.isSome_some]

theorem editsOnly_put (p : Pattern) (container : Container) (items : List Item) :
    p.EditsOnly container (p.put container items) where
  edited := by rw [sequence?_put, if_pos rfl, Option.isSome_some]
  others other old hne ho := by rw [sequence?_put, if_neg hne, ho]

theorem editsOnly_setSequence? {items : List Item} (h : p.setSequence? container items = some q) :
    p.EditsOnly container q := by
  obtain ⟨current, -, rfl⟩ := exists_put_of_setSequence? h
  exact p.editsOnly_put container items

theorem exists_put_of_group? {indices : List Nat} {kind : GroupKind}
    (h : p.group? container indices kind = some q) :
    ∃ items body called, p.sequence? container = some items ∧
      q = (p.put (.named (p.freshName kind)) body).put container called ∧
      body ⊆ items ∧ called ⊆ .call (p.freshName kind) :: items := by
  cases hc : p.sequence? container with
  | none => simp [group?, hc] at h
  | some items =>
    cases hrun : contiguousRun? items.length indices with
    | none => simp [group?, hc, hrun] at h
    | some run =>
      simp only [group?, hc, hrun, Option.some.injEq] at h
      have hbody := List.take_subset (run.2 + 1 - run.1) (items.drop run.1)
      generalize (items.drop run.1).take _ = body at h hbody
      have hkept : (p.put (.named (p.freshName kind)) body).sequence? container = some items := by
        rw [sequence?_put, if_neg (ne_freshName hc kind), hc]
      rw [← h]
      refine ⟨items, body, _, rfl, getD_setSequence? hkept _,
        List.Subset.trans hbody (List.drop_subset _ _), fun item hm => ?_⟩
      rcases List.mem_append.mp hm with hm | hm
      · exact List.mem_cons_of_mem _ (List.take_subset _ _ hm)
      · rcases List.mem_cons.mp hm with rfl | hm
        · exact List.mem_cons_self
        · exact List.mem_cons_of_mem _ (List.drop_subset _ _ hm)

theorem editsOnly_group? {indices : List Nat} {kind : GroupKind}
    (h : p.group? container indices kind = some q) : p.EditsOnly container q := by
  obtain ⟨items, body, called, -, rfl, -⟩ := exists_put_of_group? h
  constructor
  · rw [sequence?_put, if_pos rfl, Option.isSome_some]
  · intro other old hne ho
    rw [sequence?_put, if_neg hne, sequence?_put, if_neg (ne_freshName ho kind), ho]

theorem isSome_freshName_of_group? {indices : List Nat} {kind : GroupKind}
    (h : p.group? container indices kind = some q) : (q.body? (p.freshName kind)).isSome := by
  obtain ⟨items, body, called, hc, rfl, -⟩ := exists_put_of_group? h
  rw [body?_put, if_neg (ne_freshName hc kind).symm, body?_put, if_pos rfl, Option.isSome_some]

theorem group?_ne_self {indices : List Nat} {kind : GroupKind}
    (h : p.group? container indices kind = some q) : q ≠ p := by
  rintro rfl
  have hdefined := isSome_freshName_of_group? h
  rw [body?_freshName] at hdefined
  exact Bool.false_ne_true hdefined

/-- All edits but grouping put a sequence into the container. -/
theorem setSequence?_or_group?_of_result? {edit : ContainerEdit} {t : Track} {selected : List Nat}
    (h : edit.result? container t selected = some q) :
    (∃ items, t.pattern.setSequence? container items = some q) ∨
      ∃ kind, edit = .group kind ∧ t.pattern.group? container selected kind = some q := by
  have hedit : ∀ f, t.pattern.edit? container f = some q →
      ∃ items, t.pattern.setSequence? container items = some q := by
    intro f hf
    obtain ⟨current, -, hset⟩ := Option.bind_eq_some_iff.mp hf
    exact ⟨_, hset⟩
  cases edit with
  | setSequence items => exact .inl ⟨_, h⟩
  | insert index item => exact .inl (hedit _ h)
  | delete indices => exact .inl (hedit _ h)
  | moveItem source target => exact .inl (hedit _ h)
  | replace index item => exact .inl (hedit _ h)
  | group kind => exact .inr ⟨kind, rfl, h⟩
  | ungroup => exact .inl (hedit _ h)
  | cut => exact .inl (hedit _ h)
  | moveBlock first last target =>
    obtain ⟨items, -, hset⟩ := Option.bind_eq_some_iff.mp h
    exact .inl ⟨items, hset⟩

theorem editsOnly_result? {edit : ContainerEdit} {t : Track} {selected : List Nat}
    (h : edit.result? container t selected = some q) : t.pattern.EditsOnly container q := by
  rcases setSequence?_or_group?_of_result? h with ⟨items, hset⟩ | ⟨kind, -, hgroup⟩
  · exact editsOnly_setSequence? hset
  · exact editsOnly_group? hgroup

theorem result?_ne_self {edit : ContainerEdit} {t : Track} {selected : List Nat}
    (h : edit.result? container t selected = some q) : q ≠ t.pattern := by
  rcases setSequence?_or_group?_of_result? h with ⟨items, hset⟩ | ⟨kind, -, hgroup⟩
  · exact setSequence?_ne_self hset
  · exact group?_ne_self hgroup

end Pattern

namespace Editor

variable {e changed : Editor} {track : Nat} {container : Container}

theorem track_eq_ok_iff {t : Track} : e.track track = .ok t ↔ e.song.tracks[track]? = some t := by
  unfold Editor.track
  split <;> simp_all

theorem trackWith_of_track {t : Track} (ht : e.song.tracks[track]? = some t) :
    e.trackWith track container =
      if (t.pattern.sequence? container).isNone then .error (.noSuchContainer track container)
      else .ok t := by
  simp only [trackWith, track_eq_ok_iff.mpr ht, bind, Except.bind]
  split <;> rfl

theorem trackWith_eq_ok_iff {t : Track} :
    e.trackWith track container = .ok t ↔
      e.song.tracks[track]? = some t ∧ (t.pattern.sequence? container).isSome := by
  cases ht : e.song.tracks[track]? with
  | none => simp [trackWith, Editor.track, ht, bind, Except.bind]
  | some found =>
    rw [trackWith_of_track ht]
    cases hc : found.pattern.sequence? container with
    | none =>
      simp only [Option.isNone_none, if_true, Option.some.injEq]
      refine ⟨fun hno => by simp at hno, ?_⟩
      rintro ⟨rfl, hs⟩
      simp [hc] at hs
    | some items =>
      simp only [Option.isNone_some, Bool.false_eq_true, if_false, Option.some.injEq,
        Except.ok.injEq]
      refine ⟨?_, fun h => h.1⟩
      rintro rfl
      exact ⟨rfl, by rw [hc, Option.isSome_some]⟩

/-- The editor with a container edited so that the track has the pattern `p`. -/
def edited (e : Editor) (track : Nat) (container : Container) (p : Pattern) : Editor :=
  { e.setPattern track p with selections := e.selections.clear track container }

end Editor

end Groovebox

import Groovebox.Proofs.Staleness

/-! What a drop moves. A drag knows its block by container and indices, and keeps them
while its track is followed, whatever else is done. The items are the ones that were picked
up if nothing edits that container meanwhile; an edit of it leaves the indices behind. -/

namespace Groovebox

/-- The operation starts no drag and ends none but by removing its track. -/
def Operation.KeepsDrag : Operation → Prop
  | .replaceSong _ | .beginDrag _ _ | .dropDrag | .cancelDrag => False
  | _ => True

namespace Editor

/-- A block of a container of the track is being dragged. -/
def Drags (e : Editor) (track : Nat) (container : Container) (first last : Nat) : Prop :=
  ∃ proposal, e.drag = some ⟨track, { container, first, last, proposal }⟩

/-- No operation of a run edits the container, wherever its track is. -/
def LeavesAlone (e : Editor) (track : Nat) (container : Container) : List Operation → Prop
  | [] => True
  | op :: rest =>
    e.target? op ≠ some ⟨track, container⟩ ∧
      ∀ next, op.follow track = some next → (e.after op).LeavesAlone next container rest

/-- The items from `first` to `last`. -/
def block? (e : Editor) (track : Nat) (container : Container) (first last : Nat) :
    Option (List Item) :=
  (e.sequence? track container).map fun items => (items.drop first).take (last + 1 - first)

variable {e changed : Editor} {op : Operation} {answer : Answer} {track place first last : Nat}
  {container : Container}

theorem drags_beginDrag {block : Nat × Nat}
    (h : e.beginDrag track container = .ok (block, changed)) :
    changed.Drags track container block.1 block.2 ∧ changed.song = e.song := by
  cases effect_of_beginDrag h with
  | beginDrag ht hblock => exact ⟨⟨none, rfl⟩, rfl⟩

theorem drag_withoutTrack {removed : Nat}
    (h : e.Drags track container first last)
    (hfollow : (Operation.removeTrack removed).follow track = some place) :
    (e.withoutTrack removed).Drags place container first last := by
  obtain ⟨proposal, hdrag⟩ := h
  refine ⟨proposal, ?_⟩
  obtain ⟨hne, rfl⟩ := Operation.follow_removeTrack_eq_some_iff.mp hfollow
  simp only [withoutTrack, hdrag, Option.bind_some, placeWithout, if_neg hne]
  split <;> rfl

theorem Effect.drags (h : e.Effect op answer changed) (hdrags : e.Drags track container first last)
    (hkeeps : op.KeepsDrag) (hfollow : op.follow track = some place) :
    changed.Drags place container first last := by
  cases h with
  | replaceSong | beginDrag | rejected | dropped | cancelDrag => exact hkeeps.elim
  | removeTrack => exact drag_withoutTrack hdrags hfollow
  | hover plan hactive =>
    obtain rfl := Option.some.inj hfollow
    obtain ⟨proposal, hdrag⟩ := hdrags
    obtain rfl := Option.some.inj (hactive.symm.trans hdrag)
    exact ⟨some plan, rfl⟩
  | _ =>
    obtain rfl := Option.some.inj hfollow
    exact hdrags

/-- An operation that fails has not moved the track. -/
theorem eq_of_follow_of_error {fault : EditError} (h : e.perform op = .error fault)
    (hlt : track < e.song.tracks.length) (hfollow : op.follow track = some place) :
    place = track := by
  cases op with
  | replaceSong song => cases hfollow
  | removeTrack removed =>
    have hout : e.song.tracks.length ≤ removed := by
      cases hremoved : e.song.tracks[removed]? with
      | none => exact List.getElem?_eq_none_iff.mp hremoved
      | some t =>
        rw [perform, Editor.removeTrack, track_eq_ok_iff.mpr hremoved] at h
        cases h
    obtain ⟨-, rfl⟩ := Operation.follow_removeTrack_eq_some_iff.mp hfollow
    exact if_neg (by omega)
  | _ => exact (Option.some.inj hfollow).symm

theorem after_cases (hlt : track < e.song.tracks.length)
    (hfollow : op.follow track = some place) :
    (∃ answer, e.Effect op answer (e.after op)) ∨ e.after op = e ∧ place = track := by
  cases hop : e.perform op with
  | ok changed => exact .inl (after_of_perform hop ▸ exists_effect hop)
  | error fault => exact .inr ⟨after_of_error hop, eq_of_follow_of_error hop hlt hfollow⟩

theorem drags_after (ha : e.IsAnchored) (hdrags : e.Drags track container first last)
    (hkeeps : op.KeepsDrag) (hfollow : op.follow track = some place) :
    (e.after op).Drags place container first last := by
  have hlt : track < e.song.tracks.length := by
    obtain ⟨proposal, hdrag⟩ := hdrags
    exact (ha.drag _ hdrag).lt
  rcases after_cases hlt hfollow with ⟨answer, heffect⟩ | ⟨hsame, rfl⟩
  · exact heffect.drags hdrags hkeeps hfollow
  · rwa [hsame]

theorem sequence?_after {items : List Item} (hs : e.sequence? track container = some items)
    (hfollow : op.follow track = some place)
    (htarget : e.target? op ≠ some ⟨track, container⟩) :
    (e.after op).sequence? place container = some items := by
  obtain ⟨t, ht, -⟩ := sequence?_eq_some_iff.mp hs
  rcases after_cases (List.getElem?_eq_some_iff.mp ht).1 hfollow with
    ⟨answer, heffect⟩ | ⟨hsame, rfl⟩
  · exact heffect.sequence?_eq hs hfollow htarget
  · rw [hsame, hs]

theorem drags_run (ha : e.IsAnchored) {ops : List Operation}
    (hdrags : e.Drags track container first last) (hkeeps : ∀ op ∈ ops, op.KeepsDrag)
    (hfollow : Operation.followAll track ops = some place) :
    (e.run ops).Drags place container first last := by
  -- The track may change its place at each step, so the place is generalized too.
  induction ops generalizing e track with
  | nil =>
    obtain rfl := Option.some.inj hfollow
    exact hdrags
  | cons op rest ih =>
    obtain ⟨next, hnext, hrest⟩ := Operation.followAll_cons_eq_some_iff.mp hfollow
    obtain ⟨hop, hkeeps⟩ := List.forall_mem_cons.mp hkeeps
    exact ih (ha.after op) (drags_after ha hdrags hop hnext) hkeeps hrest

theorem sequence?_run {ops : List Operation} {items : List Item}
    (hs : e.sequence? track container = some items) (halone : e.LeavesAlone track container ops)
    (hfollow : Operation.followAll track ops = some place) :
    (e.run ops).sequence? place container = some items := by
  induction ops generalizing e track with
  | nil =>
    obtain rfl := Option.some.inj hfollow
    exact hs
  | cons op rest ih =>
    obtain ⟨next, hnext, hrest⟩ := Operation.followAll_cons_eq_some_iff.mp hfollow
    obtain ⟨htarget, halone⟩ := halone
    exact ih (sequence?_after hs hnext htarget) (halone next hnext) hrest

theorem exists_moveBlock?_of_dropDrag {outcome : Outcome Bool}
    (hdrags : e.Drags track container first last) (h : e.dropDrag = .ok outcome)
    (htrue : outcome.value = true) :
    ∃ t q target, e.song.tracks[track]? = some t ∧
      t.pattern.moveBlock? t.pads container first last target = some q ∧
      outcome.editor.pattern? track = some q := by
  obtain ⟨proposal, hdrag⟩ := hdrags
  obtain ⟨value, changed, log⟩ := outcome
  obtain rfl : value = true := htrue
  cases effect_of_dropDrag h with
  | @dropped active t q hactive ht hq =>
    obtain rfl := Option.some.inj (hactive.symm.trans hdrag)
    obtain ⟨plan, -, hmove⟩ := Drag.exists_moveBlock?_of_drop? hq
    have hnew := pattern?_edited (e := { e with drag := none }) ht container q track
    exact ⟨t, q, plan.target, ht, hmove, hnew.trans (if_pos rfl)⟩

/-- A drop that changes the pattern moves the items that are at the picked-up places just
before it, and these are the ones that were picked up if nothing has edited their container. -/
theorem drop_moves_block (h : e.Reachable) {picked : Editor} {ops : List Operation}
    {outcome : Outcome Bool} (hbegin : e.beginDrag track container = .ok ((first, last), picked))
    (hkeeps : ∀ op ∈ ops, op.KeepsDrag) (hfollow : Operation.followAll track ops = some place)
    (hdrop : (picked.run ops).dropDrag = .ok outcome) (htrue : outcome.value = true) :
    (∃ t q target, (picked.run ops).song.tracks[place]? = some t ∧
      t.pattern.moveBlock? t.pads container first last target = some q ∧
      outcome.editor.pattern? place = some q) ∧
    (picked.LeavesAlone track container ops →
      (picked.run ops).block? place container first last =
        e.block? track container first last) := by
  obtain ⟨hdrags, hsong⟩ := drags_beginDrag hbegin
  have hpicked : e.after (.beginDrag track container) = picked :=
    after_of_perform (by rw [perform, hbegin]; rfl)
  have ha : picked.IsAnchored := hpicked ▸ h.isAnchored.after _
  have hlate := drags_run ha hdrags hkeeps hfollow
  refine ⟨exists_moveBlock?_of_dropDrag hlate hdrop htrue, fun halone => ?_⟩
  obtain ⟨proposal, hdrag⟩ := hdrags
  obtain ⟨t, ht, hs⟩ := ha.drag _ hdrag
  obtain ⟨items, hitems⟩ := Option.isSome_iff_exists.mp hs
  have hbefore : picked.sequence? track container = some items :=
    sequence?_eq_some_iff.mpr ⟨t, ht, hitems⟩
  have hthen : e.sequence? track container = some items := by
    rw [← hbefore, sequence?, sequence?, pattern?, pattern?, hsong]
  rw [block?, block?, sequence?_run hbefore halone hfollow, hthen]

/-- A pad of the second track is dropped after the first track has gone. -/
theorem drop_moves_block_behind_removed :
    ∃ (e picked : Editor) (outcome : Outcome Bool), e.Reachable ∧
      e.beginDrag 1 .root = .ok ((0, 0), picked) ∧
      (picked.run [.hover 16, .removeTrack 0]).dropDrag = .ok outcome ∧ outcome.value = true ∧
      (picked.run [.hover 16, .removeTrack 0]).block? 0 .root 0 0 = e.block? 1 .root 0 0 := by
  obtain ⟨e, picked, outcome, hreach, hbegin, hdrop, htrue⟩ :
      ∃ (e picked : Editor) (outcome : Outcome Bool), e.Reachable ∧
        e.beginDrag 1 .root = .ok ((0, 0), picked) ∧
        (picked.run [.hover 16, .removeTrack 0]).dropDrag = .ok outcome ∧ outcome.value = true :=
    ⟨({} : Editor).run [.addTrack "kick", .addTrack "hat",
        .edit 1 .root (.setSequence [.pad 0, .pad 1]), .select 1 .root 0 0],
      _, _, ⟨{}, _, _, rfl⟩, rfl, rfl, rfl⟩
  have hkeeps : ∀ op ∈ [Operation.hover 16, .removeTrack 0], op.KeepsDrag := by
    simp [Operation.KeepsDrag]
  have hfollow : Operation.followAll 1 [.hover 16, .removeTrack 0] = some 0 := rfl
  obtain ⟨-, hblock⟩ := drop_moves_block hreach hbegin hkeeps hfollow hdrop htrue
  exact ⟨e, picked, outcome, hreach, hbegin, hdrop, htrue,
    hblock ⟨nofun, fun _ _ => ⟨nofun, fun _ _ => trivial⟩⟩⟩

/-- A pad inserted before the picked-up one during the drag is moved in its place. -/
theorem drop_moves_inserted_pad :
    ∃ (e picked : Editor) (ops : List Operation) (outcome : Outcome Bool), e.Reachable ∧
      e.beginDrag 0 .root = .ok ((0, 0), picked) ∧ (∀ op ∈ ops, op.KeepsDrag) ∧
      Operation.followAll 0 ops = some 0 ∧ (picked.run ops).dropDrag = .ok outcome ∧
      outcome.value = true ∧ e.block? 0 .root 0 0 = some [.pad 0] ∧
      (picked.run ops).block? 0 .root 0 0 = some [.pad 2] :=
  ⟨({} : Editor).run [.addTrack "kick", .edit 0 .root (.setSequence [.pad 0, .pad 1]),
      .select 0 .root 0 0], _, [.edit 0 .root (.insert 0 (.pad 2)), .hover 16], _,
    ⟨{}, _, _, rfl⟩, rfl, by simp [Operation.KeepsDrag], rfl, rfl, rfl, by decide, by decide⟩

end Editor

end Groovebox

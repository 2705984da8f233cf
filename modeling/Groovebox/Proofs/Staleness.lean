import Groovebox.Proofs.Anchors

/-! A selection goes with the sequence it was made on. An edit clears the selection of one
container, so no other sequence may change with it. The container that grouping makes is a new
one, and nothing can have been selected in it. -/

namespace Groovebox

namespace Operation

/-- Where a track is after some operations, if it is still there. -/
def followAll (track : Nat) (ops : List Operation) : Option Nat :=
  ops.foldlM (fun place op => op.follow place) track

theorem followAll_cons_eq_some_iff {track place : Nat} {op : Operation} {rest : List Operation} :
    followAll track (op :: rest) = some place ↔
      ∃ next, op.follow track = some next ∧ followAll next rest = some place := by
  rw [followAll, List.foldlM_cons]
  exact Option.bind_eq_some_iff

theorem followAll_concat {track place next : Nat} {ops : List Operation} {op : Operation}
    (hops : followAll track ops = some place) (hop : op.follow place = some next) :
    followAll track (ops ++ [op]) = some next := by
  rw [followAll, List.foldlM_append]
  exact Option.bind_eq_some_iff.mpr ⟨place, hops, by simpa using hop⟩

/-- The container that an operation selects items of. -/
def selected? : Operation → Option SelectionKey
  | .select track container _ _ => some ⟨track, container⟩
  | .toggle track container _ => some ⟨track, container⟩
  | _ => none

end Operation

namespace Editor

def sequence? (e : Editor) (track : Nat) (container : Container) : Option (List Item) :=
  (e.pattern? track).bind (·.sequence? container)

variable {e changed : Editor} {op : Operation} {answer : Answer} {track place : Nat}
  {container : Container}

theorem sequence?_eq_some_iff {items : List Item} :
    e.sequence? track container = some items ↔
      ∃ t, e.song.tracks[track]? = some t ∧ t.pattern.sequence? container = some items := by
  simp [sequence?, pattern?, Option.bind_eq_some_iff]

theorem pattern?_addTrack (hlt : track < e.song.tracks.length) (name : String) :
    (e.addTrack name).2.pattern? track = e.pattern? track := by
  rw [pattern?, addTrack, List.getElem?_append_left hlt, pattern?]

theorem pattern?_updateTrack {f : Track → Track} (hf : ∀ t, (f t).pattern = t.pattern)
    (other : Nat) : (e.updateTrack other f).pattern? track = e.pattern? track := by
  simp only [pattern?, updateTrack, List.getElem?_modify]
  cases e.song.tracks[track]? with
  | none => rfl
  | some t => by_cases heq : other = track <;> simp [heq, hf]

/-- One container of a track is edited and its selection cleared. -/
structure EditsAt (e : Editor) (track : Nat) (container : Container) (changed : Editor) : Prop where
  edits : ∃ p q, e.pattern? track = some p ∧ changed.pattern? track = some q ∧
    p.EditsOnly container q
  others : ∀ other, other ≠ track → changed.pattern? other = e.pattern? other
  clears : changed.selections = e.selections.clear track container

theorem editsAt_edited {t : Track} {p : Pattern} (ht : e.song.tracks[track]? = some t)
    (hp : t.pattern.EditsOnly container p) (drag : Option ActiveDrag) :
    e.EditsAt track container (({ e with drag } : Editor).edited track container p) where
  edits := by
    have hnew := pattern?_edited (e := { e with drag }) ht container p track
    rw [if_pos rfl] at hnew
    exact ⟨t.pattern, p, by simp [pattern?, ht], hnew, hp⟩
  others other hne := by
    rw [pattern?_edited (e := { e with drag }) ht, if_neg hne.symm]
    rfl
  clears := rfl

/-- What an operation makes of the pattern of a track that it leaves in the song: nothing, or
one container is edited and its selection is gone. -/
theorem Effect.pattern?_cases (h : e.Effect op answer changed)
    (hlt : track < e.song.tracks.length) (hfollow : op.follow track = some place) :
    changed.pattern? place = e.pattern? track ∨
      ∃ container, e.target? op = some ⟨track, container⟩ ∧ place = track ∧
        e.EditsAt track container changed := by
  cases h with
  | replaceSong song => cases hfollow
  | removeTrack ht =>
    obtain ⟨hne, rfl⟩ := Operation.follow_removeTrack_eq_some_iff.mp hfollow
    exact .inl (by rw [pattern?, track?_withoutTrack hne, pattern?])
  | addTrack name =>
    obtain rfl := Option.some.inj hfollow
    exact .inl (pattern?_addTrack hlt name)
  | setPadSteps pad steps =>
    obtain rfl := Option.some.inj hfollow
    exact .inl (pattern?_updateTrack (fun _ => by rfl) _)
  | setDefaultPadSteps steps =>
    obtain rfl := Option.some.inj hfollow
    exact .inl (pattern?_updateTrack (fun _ => by rfl) _)
  | @edited edited container edit t p _ ht hp =>
    obtain rfl := Option.some.inj hfollow
    have hat := editsAt_edited (trackWith_eq_ok_iff.mp ht).1 (Pattern.editsOnly_result? hp) e.drag
    by_cases heq : track = edited
    · exact .inr ⟨container, by rw [heq]; rfl, rfl, heq ▸ hat⟩
    · exact .inl (hat.others track heq)
  | @dropped active t p hdrag ht hp =>
    obtain rfl := Option.some.inj hfollow
    have hat := editsAt_edited ht (Drag.editsOnly_drop? hp) none
    by_cases heq : track = active.track
    · exact .inr ⟨active.drag.container, by rw [target?, hdrag, heq]; rfl, rfl, heq ▸ hat⟩
    · exact .inl (hat.others track heq)
  | _ =>
    obtain rfl := Option.some.inj hfollow
    exact .inl rfl

theorem Effect.sequence?_eq (h : e.Effect op answer changed) {items : List Item}
    (hs : e.sequence? track container = some items) (hfollow : op.follow track = some place)
    (htarget : e.target? op ≠ some ⟨track, container⟩) :
    changed.sequence? place container = some items := by
  obtain ⟨t, ht, -⟩ := sequence?_eq_some_iff.mp hs
  rcases h.pattern?_cases (List.getElem?_eq_some_iff.mp ht).1 hfollow with
    hsame | ⟨edited, hedited, rfl, hat⟩
  · rw [sequence?, hsame, ← sequence?, hs]
  · obtain ⟨p, q, hp, hq, hedits⟩ := hat.edits
    have hne : container ≠ edited := by
      rintro rfl
      exact htarget hedited
    rw [sequence?, hp, Option.bind_some] at hs
    rw [sequence?, hq, Option.bind_some, hedits.others container items hne hs]

theorem IsAnchored.selection_eq_nil (h : e.IsAnchored)
    (hnone : e.sequence? track container = none) : e.selection track container = [] := by
  by_contra hne
  obtain ⟨t, ht, hs⟩ := h.selections.has_of_get_ne_nil hne
  obtain ⟨items, hitems⟩ := Option.isSome_iff_exists.mp hs
  have hsome : e.sequence? track container = some items := sequence?_eq_some_iff.mpr ⟨t, ht, hitems⟩
  exact Option.some_ne_none items (hsome.symm.trans hnone)

/-- No sequence changes under its selection. -/
theorem Effect.selection_eq_nil (h : e.Effect op answer changed) (ha : e.IsAnchored)
    (hlt : track < e.song.tracks.length) (hfollow : op.follow track = some place)
    (hne : changed.sequence? place container ≠ e.sequence? track container) :
    changed.selection place container = [] := by
  rcases h.pattern?_cases hlt hfollow with hsame | ⟨edited, hedited, rfl, hat⟩
  · exact absurd (by rw [sequence?, hsame, ← sequence?]) hne
  have hselection : changed.selection place container =
      if edited = container then [] else e.selection place container := by
    rw [selection, hat.clears, Selections.get_clear]
    simp [selection]
  by_cases heq : edited = container
  · rw [hselection, if_pos heq]
  rw [hselection, if_neg heq]
  cases hs : e.sequence? place container with
  -- A container that is new was not there to select items of.
  | none => exact ha.selection_eq_nil hs
  | some items =>
    have hkept : changed.sequence? place container = some items := by
      refine h.sequence?_eq hs hfollow fun htarget => heq ?_
      rw [hedited] at htarget
      simpa using htarget
    exact absurd (hkept.trans hs.symm) hne

/-- Some items are selected: they were so before, or the operation selects them. -/
theorem Effect.exists_follow (h : e.Effect op answer changed)
    (hselected : changed.selection place container ≠ []) :
    ∃ track, op.follow track = some place ∧
      (e.selection track container ≠ [] ∨
        op.selected? = some ⟨track, container⟩ ∧ e.song.Has track container) := by
  have hcleared : ∀ edited other,
      (e.selections.clear edited other).get place container ≠ [] →
        e.selection place container ≠ [] := by
    intro edited other hne hnil
    rw [Selections.get_clear] at hne
    split at hne
    · exact hne rfl
    · exact hne hnil
  cases h with
  | replaceSong song => exact absurd rfl hselected
  | @removeTrack removed t ht =>
    refine ⟨if place < removed then place else place + 1, ?_, .inl ?_⟩
    · have hne : (if place < removed then place else place + 1) ≠ removed := by
        split <;> omega
      exact Operation.follow_removeTrack_eq_some_iff.mpr ⟨hne, (placeWithout_eq_iff hne).mpr rfl⟩
    · rw [selection, ← Selections.get_forgetTrack]
      exact hselected
  | edited _ ht hp => exact ⟨place, rfl, .inl (hcleared _ _ hselected)⟩
  | deselect track other => exact ⟨place, rfl, .inl (hcleared _ _ hselected)⟩
  | dropped hdrag ht hp => exact ⟨place, rfl, .inl (hcleared _ _ hselected)⟩
  | @select track other t first last ht =>
    refine ⟨place, rfl, ?_⟩
    by_cases hkey : track = place ∧ other = container
    · obtain ⟨rfl, rfl⟩ := hkey
      exact .inr ⟨rfl, has_of_trackWith ht⟩
    · rw [selection, Selections.selectRange, Selections.get_put, if_neg hkey] at hselected
      exact .inl hselected
  | @toggle track other t index ht =>
    refine ⟨place, rfl, ?_⟩
    by_cases hkey : track = place ∧ other = container
    · obtain ⟨rfl, rfl⟩ := hkey
      exact .inr ⟨rfl, has_of_trackWith ht⟩
    · rw [selection, Selections.toggle, Selections.get_put, if_neg hkey] at hselected
      exact .inl hselected
  | _ => exact ⟨place, rfl, .inl hselected⟩

/-- How a selection came about: one operation began it where nothing was selected, and after
each later one something still was. -/
structure Origin (e : Editor) (track : Nat) (container : Container) where
  start : Editor
  op : Operation
  later : List Operation
  place : Nat
  reachable : start.Reachable
  ends : e = (start.after op).run later
  selects : op.selected? = some ⟨place, container⟩
  empty : start.selection place container = []
  follow : Operation.followAll place later = some track
  since : ∀ done spot, done <+: later → Operation.followAll place done = some spot →
    ((start.after op).run done).selection spot container ≠ []

def Origin.here (h : e.Reachable) (hafter : e.after op = changed)
    (hselects : op.selected? = some ⟨track, container⟩) (hempty : e.selection track container = [])
    (hselected : changed.selection track container ≠ []) : changed.Origin track container where
  start := e
  op := op
  later := []
  place := track
  reachable := h
  ends := hafter.symm
  selects := hselects
  empty := hempty
  follow := rfl
  since done spot hdone hspot := by
    obtain rfl := List.prefix_nil.mp hdone
    obtain rfl := Option.some.inj hspot
    exact hafter ▸ hselected

def Origin.concat (origin : e.Origin track container) (hafter : e.after op = changed)
    (hfollow : op.follow track = some place) (hselected : changed.selection place container ≠ []) :
    changed.Origin place container where
  start := origin.start
  op := origin.op
  later := origin.later ++ [op]
  place := origin.place
  reachable := origin.reachable
  ends := by
    have hend := congrArg (Editor.after · op) origin.ends
    rw [run_concat, ← hend, hafter]
  selects := origin.selects
  empty := origin.empty
  follow := Operation.followAll_concat origin.follow hfollow
  since done spot hdone hspot := by
    rcases List.prefix_concat_iff.mp hdone with rfl | hdone
    · have hend := Operation.followAll_concat origin.follow hfollow
      obtain rfl := Option.some.inj (hend.symm.trans hspot)
      rw [← hafter, origin.ends] at hselected
      rwa [run_concat]
    · exact origin.since done spot hdone hspot

def IsSelectedOn (e : Editor) (track : Nat) (container : Container) : Prop :=
  ∃ origin : e.Origin track container,
    e.sequence? track container = origin.start.sequence? origin.place container

theorem isSelectedOn_of_effect (h : e.Effect op answer changed) (hreach : e.Reachable)
    (hafter : e.after op = changed)
    (ih : ∀ track, e.selection track container ≠ [] → e.IsSelectedOn track container)
    (hselected : changed.selection place container ≠ []) :
    changed.IsSelectedOn place container := by
  obtain ⟨track, hfollow, hearlier⟩ := h.exists_follow hselected
  have hhas : e.song.Has track container :=
    hearlier.elim hreach.isAnchored.selections.has_of_get_ne_nil (·.2)
  have hkept : changed.sequence? place container = e.sequence? track container := by
    by_contra hne
    exact hselected (h.selection_eq_nil hreach.isAnchored hhas.lt hfollow hne)
  by_cases hempty : e.selection track container = []
  · obtain ⟨hselects, -⟩ := hearlier.resolve_left (· hempty)
    obtain rfl : place = track := by
      cases op with
      | select => exact (Option.some.inj hfollow).symm
      | toggle => exact (Option.some.inj hfollow).symm
      | _ => cases hselects
    exact ⟨.here hreach hafter hselects hempty hselected, hkept⟩
  · obtain ⟨origin, hsame⟩ := ih track hempty
    exact ⟨origin.concat hafter hfollow hselected, hkept.trans hsame⟩

theorem Reachable.isSelectedOn (h : e.Reachable) :
    ∀ track, e.selection track container ≠ [] → e.IsSelectedOn track container := by
  refine h.induction
    (P := fun e => ∀ track, e.selection track container ≠ [] → e.IsSelectedOn track container)
    (fun _ _ _ hsome => absurd rfl hsome) fun e op changed hreach ih hop => ?_
  obtain ⟨answer, heffect⟩ := exists_effect hop
  exact fun _ => isSelectedOn_of_effect heffect hreach (after_of_perform hop) ih

/-- Where an operation changes a sequence no item of it is selected afterwards, and where items
are selected the sequence is the one that the first of them was selected in. -/
theorem selections_never_stale (h : e.Reachable) :
    (∀ op changed, e.perform op = .ok changed →
      ∀ track place container, track < e.song.tracks.length → op.follow track = some place →
        changed.sequence? place container ≠ e.sequence? track container →
          changed.selection place container = []) ∧
    (∀ song changed, e.perform (.replaceSong song) = .ok changed →
      ∀ track container, changed.selection track container = []) ∧
    ∀ track container, e.selection track container ≠ [] →
      ∃ origin : e.Origin track container,
        e.sequence? track container = origin.start.sequence? origin.place container := by
  refine ⟨fun op changed hop track place container hlt hfollow hne => ?_, ?_,
    fun track container => h.isSelectedOn track⟩
  · obtain ⟨answer, heffect⟩ := exists_effect hop
    exact heffect.selection_eq_nil h.isAnchored hlt hfollow hne
  · rintro song changed ⟨⟩ track container
    rfl

/-- The second of two tracks loses an item that is selected, or moves down with its selection. -/
theorem selections_never_stale_behind_removed :
    ∃ e changed : Editor, e.Reachable ∧ e.selection 1 .root = [0, 1] ∧
      e.perform (.edit 1 .root (.delete [0])) = .ok changed ∧ changed.selection 1 .root = [] ∧
      ∃ origin : (e.after (.removeTrack 0)).Origin 0 .root,
        (e.after (.removeTrack 0)).sequence? 0 .root =
          origin.start.sequence? origin.place .root := by
  let ops : List Operation :=
    [.addTrack "kick", .addTrack "hat", .edit 1 .root (.setSequence [.pad 0, .pad 1]),
      .select 1 .root 0 1]
  have hreach : (({} : Editor).run ops).Reachable := ⟨{}, _, ops, rfl⟩
  obtain ⟨changed, hdelete⟩ : ∃ changed,
      (({} : Editor).run ops).perform (.edit 1 .root (.delete [0])) = .ok changed := ⟨_, rfl⟩
  have hchanged : changed.sequence? 1 .root ≠ (({} : Editor).run ops).sequence? 1 .root := by
    obtain rfl := Except.ok.inj hdelete
    decide
  obtain ⟨hclears, -, -⟩ := selections_never_stale hreach
  obtain ⟨-, -, hkept⟩ := selections_never_stale (hreach.after (.removeTrack 0))
  exact ⟨_, changed, hreach, by decide, hdelete,
    hclears _ _ hdelete 1 1 .root (by decide) rfl hchanged, hkept 0 .root (by decide)⟩

end Editor

end Groovebox

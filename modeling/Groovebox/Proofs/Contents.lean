import Groovebox.Proofs.Effects
import Groovebox.Proofs.Landing

/-! Where the items and the names of a song come from. An operation leaves items that were
there, and brings in those that were typed, in the form that is stored, rests in the time that
a move frees, and calls of the name that grouping makes. Only grouping makes names. What all
these satisfy holds over a whole run. -/

namespace Groovebox

namespace Pattern

variable {p q : Pattern} {container : Container} {item : Item}

def Holds (p : Pattern) (item : Item) : Prop :=
  ∃ container items, p.sequence? container = some items ∧ item ∈ items

theorem Holds.of_put {items : List Item} (h : (p.put container items).Holds item) :
    p.Holds item ∨ item ∈ items := by
  obtain ⟨other, found, hfound, hm⟩ := h
  rw [sequence?_put] at hfound
  by_cases heq : other = container
  · rw [if_pos heq] at hfound
    obtain rfl := Option.some.inj hfound
    exact .inr hm
  · rw [if_neg heq] at hfound
    exact .inl ⟨other, found, hfound, hm⟩

theorem holds_of_setSequence? {items : List Item} (h : p.setSequence? container items = some q)
    (hq : q.Holds item) : p.Holds item ∨ item ∈ items := by
  obtain ⟨current, -, rfl⟩ := exists_put_of_setSequence? h
  exact hq.of_put

/-- An edit brings in no more than the function that it is made with does. -/
theorem holds_of_edit? {f : List Item → List Item} {new : Prop}
    (h : p.edit? container f = some q)
    (hf : ∀ current, p.sequence? container = some current → item ∈ f current →
      item ∈ current ∨ p.Holds item ∨ new)
    (hq : q.Holds item) : p.Holds item ∨ new := by
  obtain ⟨current, hc, hset⟩ := Option.bind_eq_some_iff.mp h
  rcases holds_of_setSequence? hset hq with hheld | hm
  · exact .inl hheld
  · rcases hf current hc hm with hcurrent | hheld
    · exact .inl ⟨container, current, hc, hcurrent⟩
    · exact hheld

theorem mem_or_of_mem_spliced {items run : List Item} {start stop : Nat}
    (h : item ∈ items.take start ++ run ++ items.drop stop) : item ∈ items ∨ item ∈ run := by
  simp only [List.mem_append] at h
  rcases h with (hbefore | hrun) | hbehind
  · exact .inl (List.mem_of_mem_take hbefore)
  · exact .inr hrun
  · exact .inl (List.mem_of_mem_drop hbehind)

theorem holds_of_insertItems? {index : Nat} {run : List Item}
    (h : p.insertItems? container index run = some q) (hq : q.Holds item) :
    p.Holds item ∨ item ∈ run := by
  refine holds_of_edit? h (fun current hc hm => ?_) hq
  exact (mem_or_of_mem_spliced hm).imp_right .inr

theorem holds_of_replaceItem? {index : Nat} {run : List Item}
    (h : p.replaceItem? container index run = some q) (hq : q.Holds item) :
    p.Holds item ∨ item ∈ run := by
  refine holds_of_edit? h (fun current hc hm => ?_) hq
  split at hm
  · exact (mem_or_of_mem_spliced hm).imp_right .inr
  · exact .inl hm

/-- Removing leaves items that were there. -/
theorem exists_set_of_removeItems? {indices : List Nat}
    (h : p.removeItems? container indices = some q) :
    ∃ current items, p.sequence? container = some current ∧
      p.setSequence? container items = some q ∧ items ⊆ current := by
  obtain ⟨current, hc, hset⟩ := Option.bind_eq_some_iff.mp h
  refine ⟨current, _, hc, hset, fun item hm => ?_⟩
  obtain ⟨entry, hentry, rfl⟩ := List.mem_map.mp hm
  exact List.fst_mem_of_mem_zipIdx (List.mem_filter.mp hentry).1

theorem holds_of_removeItems? {indices : List Nat}
    (h : p.removeItems? container indices = some q) (hq : q.Holds item) : p.Holds item := by
  obtain ⟨current, items, hc, hset, hsub⟩ := exists_set_of_removeItems? h
  rcases holds_of_setSequence? hset hq with hheld | hm
  · exact hheld
  · exact ⟨container, current, hc, hsub hm⟩

theorem exists_set_of_moveItem? {source target : Nat}
    (h : p.moveItem? container source target = some q) :
    ∃ current items, p.sequence? container = some current ∧
      p.setSequence? container items = some q ∧ items ⊆ current := by
  obtain ⟨current, hc, hset⟩ := Option.bind_eq_some_iff.mp h
  refine ⟨current, _, hc, hset, fun item hm => ?_⟩
  cases hsource : current[source]? with
  | none => simpa only [hsource] using hm
  | some moved =>
    simp only [hsource] at hm
    rcases List.eq_or_mem_of_mem_insertIdx hm with rfl | hm
    · exact List.mem_of_getElem? hsource
    · exact List.mem_of_mem_eraseIdx hm

theorem holds_of_moveItem? {source target : Nat}
    (h : p.moveItem? container source target = some q) (hq : q.Holds item) : p.Holds item := by
  obtain ⟨current, items, hc, hset, hsub⟩ := exists_set_of_moveItem? h
  rcases holds_of_setSequence? hset hq with hheld | hm
  · exact hheld
  · exact ⟨container, current, hc, hsub hm⟩

/-- Ungrouping leaves items that were there and brings in those that they called. -/
theorem exists_set_of_ungroup? {indices : List Nat} (h : p.ungroup? container indices = some q) :
    ∃ current items, p.sequence? container = some current ∧
      p.setSequence? container items = some q ∧
      ∀ item ∈ items, item ∈ current ∨
        ∃ name body, .call name ∈ current ∧ p.body? name = some body ∧ item ∈ body := by
  obtain ⟨current, hc, hset⟩ := Option.bind_eq_some_iff.mp h
  refine ⟨current, _, hc, hset, fun item hm => ?_⟩
  obtain ⟨entry, hentry, hm⟩ := List.mem_flatMap.mp hm
  have hcurrent : entry.1 ∈ current := List.fst_mem_of_mem_zipIdx hentry
  split at hm
  · unfold spliced at hm
    cases hbody : entry.1.name?.bind p.body? with
    | none =>
      rw [hbody, Option.getD_none, List.mem_singleton] at hm
      exact .inl (hm ▸ hcurrent)
    | some body =>
      obtain ⟨name, hcall, hname⟩ := Option.bind_eq_some_iff.mp hbody
      rw [hbody, Option.getD_some] at hm
      rw [Item.name?_eq_some_iff.mp hcall] at hcurrent
      exact .inr ⟨name, body, hcurrent, hname, hm⟩
  · exact .inl (List.mem_singleton.mp hm ▸ hcurrent)

theorem holds_of_ungroup? {indices : List Nat} (h : p.ungroup? container indices = some q)
    (hq : q.Holds item) : p.Holds item := by
  obtain ⟨current, items, hc, hset, hsource⟩ := exists_set_of_ungroup? h
  rcases holds_of_setSequence? hset hq with hheld | hm
  · exact hheld
  · rcases hsource item hm with hcurrent | ⟨name, body, -, hname, hbody⟩
    · exact ⟨container, current, hc, hcurrent⟩
    · exact ⟨.named name, body, hname, hbody⟩

theorem holds_of_group? {indices : List Nat} {kind : GroupKind}
    (h : p.group? container indices kind = some q) (hq : q.Holds item) :
    p.Holds item ∨ item = .call (p.freshName kind) := by
  obtain ⟨items, body, called, hc, rfl, hbody, hcalled⟩ := exists_put_of_group? h
  rcases hq.of_put with hq | hm
  · rcases hq.of_put with hheld | hm
    · exact .inl hheld
    · exact .inl ⟨container, items, hc, hbody hm⟩
  · rcases List.mem_cons.mp (hcalled hm) with hcall | hm
    · exact .inr hcall
    · exact .inl ⟨container, items, hc, hm⟩

theorem isSome_of_put {other : Container} {items : List Item}
    (h : ((p.put container items).sequence? other).isSome) :
    other = container ∨ (p.sequence? other).isSome := by
  rw [sequence?_put] at h
  by_cases heq : other = container
  · exact .inl heq
  · rw [if_neg heq] at h
    exact .inr h

theorem isSome_of_setSequence? {other : Container} {items : List Item}
    (h : p.setSequence? container items = some q) (hq : (q.sequence? other).isSome) :
    (p.sequence? other).isSome := by
  obtain ⟨current, hc, rfl⟩ := exists_put_of_setSequence? h
  rcases isSome_of_put hq with rfl | hold
  · rw [hc, Option.isSome_some]
  · exact hold

theorem isSome_of_group? {other : Container} {indices : List Nat} {kind : GroupKind}
    (h : p.group? container indices kind = some q) (hq : (q.sequence? other).isSome) :
    (p.sequence? other).isSome ∨ other = .named (p.freshName kind) := by
  obtain ⟨items, body, called, hc, rfl, -⟩ := exists_put_of_group? h
  rcases isSome_of_put hq with rfl | hq
  · exact .inl (by rw [hc, Option.isSome_some])
  · exact (isSome_of_put hq).symm

/-- A move leaves the items that were there in another order, between rests. -/
theorem exists_set_of_moveBlock? {pads : PadLengths} {first last target : Nat}
    (h : p.moveBlock? pads container first last target = some q) :
    ∃ current items, p.sequence? container = some current ∧
      p.setSequence? container items = some q ∧
      ∀ item ∈ items, item ∈ current ∨
        ∃ length : UInt32, item = .pause length ∧ length.toNat ∈ restLengths := by
  obtain ⟨new, hnew, hset⟩ := moveBlock?_eq_some_iff.mp h
  have hm := p.measures_steps pads
  obtain ⟨before, block, after, placement, hmoves⟩ := exists_moves_of_result? hm hnew
  obtain ⟨current, hc, -⟩ := exists_put_of_setSequence? hset
  refine ⟨current, new, hc, hset, fun item hmem => ?_⟩
  -- Pauses are written anew, while what sounds is only put in another order.
  by_cases hpause : item.isPause = true
  · obtain ⟨length, rfl⟩ := exists_of_isPause hpause
    exact .inr ⟨length, rfl, hmoves.rest hmem⟩
  · have hsound : item ∈ sounds new := List.mem_filter.mpr ⟨hmem, by simpa using hpause⟩
    have hold := ((hmoves.keeps hm).perm hmoves.cut).subset hsound
    rw [hc, Option.getD_some] at hold
    exact .inl (List.mem_filter.mp hold).1

theorem holds_of_moveBlock? {pads : PadLengths} {first last target : Nat}
    (h : p.moveBlock? pads container first last target = some q) (hq : q.Holds item) :
    p.Holds item ∨ ∃ length : UInt32, item = .pause length ∧ length.toNat ∈ restLengths := by
  obtain ⟨current, items, hc, hset, hsource⟩ := exists_set_of_moveBlock? h
  rcases holds_of_setSequence? hset hq with hheld | hm
  · exact .inl hheld
  · exact (hsource item hm).imp_left fun hcurrent => ⟨container, current, hc, hcurrent⟩

end Pattern

namespace ContainerEdit

def typed : ContainerEdit → List Item
  | .setSequence items => items
  | .insert _ item => [item]
  | .replace _ item => [item]
  | _ => []

/-- What an edit brings into a pattern. -/
inductive Brings : ContainerEdit → Item → Prop
  | typed {edit : ContainerEdit} {item : Item} (h : item ∈ storedPauses edit.typed) :
    Brings edit item
  | rest (first last : Nat) (target : UInt32) {length : UInt32}
      (h : length.toNat ∈ restLengths) : Brings (.moveBlock first last target) (.pause length)
  | call (kind : GroupKind) (number : Nat) :
    Brings (.group kind) (.call ⟨kind, Pattern.numberedId kind number⟩)

theorem brings_of_mem_stored {edit : ContainerEdit} {typed item : Item} (h : typed ∈ edit.typed)
    (hm : item ∈ typed.stored) : edit.Brings item :=
  .typed (List.mem_flatMap.mpr ⟨typed, h, hm⟩)

theorem holds_of_result? {edit : ContainerEdit} {container : Container} {t : Track}
    {selected : List Nat} {q : Pattern} {item : Item}
    (h : edit.result? container t selected = some q) (hq : q.Holds item) :
    t.pattern.Holds item ∨ edit.Brings item := by
  cases edit with
  | setSequence items => exact (Pattern.holds_of_setSequence? h hq).imp_right .typed
  | insert index typed =>
    exact (Pattern.holds_of_insertItems? h hq).imp_right
      (brings_of_mem_stored List.mem_cons_self)
  | replace index typed =>
    exact (Pattern.holds_of_replaceItem? h hq).imp_right
      (brings_of_mem_stored List.mem_cons_self)
  | delete indices => exact .inl (Pattern.holds_of_removeItems? h hq)
  | cut => exact .inl (Pattern.holds_of_removeItems? h hq)
  | moveItem source target => exact .inl (Pattern.holds_of_moveItem? h hq)
  | ungroup => exact .inl (Pattern.holds_of_ungroup? h hq)
  | group kind =>
    refine (Pattern.holds_of_group? h hq).imp_right fun hcall => ?_
    rw [hcall]
    exact .call kind _
  | moveBlock first last target =>
    refine (Pattern.holds_of_moveBlock? h hq).imp_right ?_
    rintro ⟨length, rfl, hlength⟩
    exact .rest first last target hlength

end ContainerEdit

def Song.Holds (song : Song) (item : Item) : Prop := ∃ t ∈ song.tracks, t.pattern.Holds item

/-- What an operation brings into a song. -/
inductive Operation.Brings : Operation → Item → Prop
  | song {song : Song} {item : Item} (h : song.Holds item) : Brings (.replaceSong song) item
  | edit (track : Nat) (container : Container) {edit : ContainerEdit} {item : Item}
      (h : edit.Brings item) : Brings (.edit track container edit) item
  | rest {length : UInt32} (h : length.toNat ∈ restLengths) : Brings .dropDrag (.pause length)

/-- Patterns with the property `Φ` come from patterns with it, or by the operations `Makes`. -/
structure Traces (Φ : Pattern → Prop) (Makes : Operation → Prop) : Prop where
  empty : ¬Φ {}
  song : ∀ song : Song, (∃ t ∈ song.tracks, Φ t.pattern) → Makes (.replaceSong song)
  edit : ∀ {track container edit selected q} {t : Track},
    ContainerEdit.result? container t selected edit = some q → Φ q →
      Φ t.pattern ∨ Makes (.edit track container edit)
  drop : ∀ {pads container first last target} {p q : Pattern},
    p.moveBlock? pads container first last target = some q → Φ q → Φ p ∨ Makes .dropDrag

namespace Traces

variable {Φ : Pattern → Prop} {Makes : Operation → Prop} {e changed : Editor} {op : Operation}
  {answer : Answer}

theorem updateTrack {track : Nat} {f : Track → Track} {new : Prop}
    (hf : ∀ t, e.song.tracks[track]? = some t → Φ (f t).pattern → Φ t.pattern ∨ new)
    (h : ∃ t ∈ (e.updateTrack track f).song.tracks, Φ t.pattern) :
    (∃ t ∈ e.song.tracks, Φ t.pattern) ∨ new := by
  obtain ⟨t, ht, hnew⟩ := h
  obtain ⟨old, hold, rfl | ⟨hfound, rfl⟩⟩ := Editor.exists_of_mem_updateTrack ht
  · exact .inl ⟨t, hold, hnew⟩
  · exact (hf old hfound hnew).imp_left fun hbefore => ⟨old, hold, hbefore⟩

theorem effect (htraces : Traces Φ Makes) (h : e.Effect op answer changed)
    (hc : ∃ t ∈ changed.song.tracks, Φ t.pattern) :
    (∃ t ∈ e.song.tracks, Φ t.pattern) ∨ Makes op := by
  cases h with
  | replaceSong song => exact .inr (htraces.song song hc)
  | addTrack name =>
    obtain ⟨t, ht, hnew⟩ := hc
    rcases List.mem_append.mp ht with ht | ht
    · exact .inl ⟨t, ht, hnew⟩
    · obtain rfl := List.mem_singleton.mp ht
      exact absurd hnew htraces.empty
  | removeTrack =>
    obtain ⟨t, ht, hnew⟩ := hc
    exact .inl ⟨t, List.mem_of_mem_eraseIdx ht, hnew⟩
  | setPadSteps pad steps =>
    refine updateTrack (fun _ _ hnew => ?_) hc
    exact .inl hnew
  | setDefaultPadSteps steps =>
    refine updateTrack (fun _ _ hnew => ?_) hc
    exact .inl hnew
  | @edited track container edit t p _ ht hp =>
    refine updateTrack (fun found hfound hnew => ?_) hc
    obtain rfl := Option.some.inj (hfound.symm.trans (Editor.trackWith_eq_ok_iff.mp ht).1)
    exact htraces.edit hp hnew
  | @dropped active t p hdrag ht hp =>
    refine updateTrack (e := { e with drag := none }) (fun found hfound hnew => ?_) hc
    obtain rfl := Option.some.inj (hfound.symm.trans ht)
    obtain ⟨plan, -, hmove⟩ := Drag.exists_moveBlock?_of_drop? hp
    exact htraces.drop hmove hnew
  | _ => exact .inl hc

theorem after (htraces : Traces Φ Makes) (h : ∃ t ∈ (e.after op).song.tracks, Φ t.pattern) :
    (∃ t ∈ e.song.tracks, Φ t.pattern) ∨ Makes op := by
  cases hop : e.perform op with
  | error fault =>
    rw [Editor.after_of_error hop] at h
    exact .inl h
  | ok changed =>
    rw [Editor.after_of_perform hop] at h
    obtain ⟨answer, heffect⟩ := Editor.exists_effect hop
    exact htraces.effect heffect h

theorem run (htraces : Traces Φ Makes) {ops : List Operation}
    (h : ∃ t ∈ (e.run ops).song.tracks, Φ t.pattern) :
    (∃ t ∈ e.song.tracks, Φ t.pattern) ∨ ∃ op ∈ ops, Makes op := by
  induction ops generalizing e with
  | nil => exact .inl h
  | cons op rest ih =>
    rcases ih h with hafter | ⟨later, hlater, hmakes⟩
    · exact (htraces.after hafter).imp_right fun hmakes => ⟨op, List.mem_cons_self, hmakes⟩
    · exact .inr ⟨later, List.mem_cons_of_mem _ hlater, hmakes⟩

end Traces

theorem traces_holds (item : Item) : Traces (·.Holds item) (·.Brings item) where
  empty := by
    rintro ⟨container, items, hitems, hm⟩
    cases container with
    | root =>
      obtain rfl : [] = items := Option.some.inj hitems
      cases hm
    | named name => simp [Pattern.sequence?, Pattern.body?_of_root] at hitems
  song _ := .song
  edit hq hnew := (ContainerEdit.holds_of_result? hq hnew).imp_right (.edit _ _)
  drop hq hnew := by
    refine (Pattern.holds_of_moveBlock? hq hnew).imp_right ?_
    rintro ⟨length, rfl, hlength⟩
    exact .rest hlength

/-- An item of the song was there at the start or came in with one of the operations. -/
theorem Editor.holds_run {e : Editor} {ops : List Operation} {item : Item}
    (h : (e.run ops).song.Holds item) :
    e.song.Holds item ∨ ∃ op ∈ ops, op.Brings item :=
  (traces_holds item).run h

def Song.Names (song : Song) (name : GroupName) : Prop :=
  ∃ t ∈ song.tracks, (t.pattern.sequence? (.named name)).isSome

inductive Operation.Names : Operation → GroupName → Prop
  | song {song : Song} {name : GroupName} (h : song.Names name) : Names (.replaceSong song) name
  | group (track : Nat) (container : Container) (kind : GroupKind) (number : Nat) :
    Names (.edit track container (.group kind)) ⟨kind, Pattern.numberedId kind number⟩

theorem traces_names (name : GroupName) :
    Traces (fun p => (p.sequence? (.named name)).isSome) (·.Names name) where
  empty := by simp [Pattern.sequence?, Pattern.body?_of_root]
  song _ := .song
  edit hq hnew := by
    rcases Pattern.setSequence?_or_group?_of_result? hq with ⟨items, hset⟩ | ⟨kind, rfl, hgroup⟩
    · exact .inl (Pattern.isSome_of_setSequence? hset hnew)
    · rcases Pattern.isSome_of_group? hgroup hnew with hold | hfresh
      · exact .inl hold
      · cases hfresh
        exact .inr (.group _ _ kind _)
  drop hq hnew := by
    obtain ⟨items, -, hset⟩ := Option.bind_eq_some_iff.mp hq
    exact .inl (Pattern.isSome_of_setSequence? hset hnew)

theorem Editor.names_run {e : Editor} {ops : List Operation} {name : GroupName}
    (h : (e.run ops).song.Names name) : e.song.Names name ∨ ∃ op ∈ ops, op.Names name :=
  (traces_names name).run h

/-- Each pause in any container of any track has one of the lengths in which rests are written. -/
def Song.HasStoredPauses (song : Song) : Prop :=
  ∀ steps, song.Holds (.pause steps) → steps.toNat ∈ restLengths

theorem mem_restLengths_of_mem_stored {item : Item} {steps : UInt32}
    (h : .pause steps ∈ item.stored) : steps.toNat ∈ restLengths := by
  cases item with
  | pad pad => simp [Item.stored] at h
  | call name => simp [Item.stored] at h
  | pause typed =>
    rw [Item.stored_pause] at h
    exact mem_restLengths_of_mem_restItems h

theorem ContainerEdit.Brings.mem_restLengths {edit : ContainerEdit} {steps : UInt32}
    (h : edit.Brings (.pause steps)) : steps.toNat ∈ restLengths := by
  cases h with
  | typed hm =>
    obtain ⟨item, -, hstored⟩ := List.mem_flatMap.mp hm
    exact mem_restLengths_of_mem_stored hstored
  | rest first last target hrest => exact hrest

theorem Operation.Brings.mem_restLengths {op : Operation} {steps : UInt32}
    (h : op.Brings (.pause steps))
    (hsong : ∀ song, op = .replaceSong song → song.HasStoredPauses) :
    steps.toNat ∈ restLengths := by
  cases h with
  | song hheld => exact hsong _ rfl steps hheld
  | edit track container hbrings => exact hbrings.mem_restLengths
  | rest hrest => exact hrest

namespace Editor

/-- A run from the empty song keeps all pauses at the lengths of rests, if the songs that are
put in on the way do. -/
theorem pauses_stay_stored (padSteps : UInt32) {ops : List Operation}
    (h : ∀ song, .replaceSong song ∈ ops → song.HasStoredPauses) :
    (({ padSteps } : Editor).run ops).song.HasStoredPauses := by
  intro steps hheld
  rcases holds_run hheld with ⟨t, ht, -⟩ | ⟨op, hop, hbrings⟩
  · cases ht
  · exact hbrings.mem_restLengths fun song heq => h song (heq ▸ hop)

/-- A pause of twelve steps is typed into a song that is put in, and a pad is moved before it. -/
theorem pauses_stay_stored_in_song :
    let song : Song := { tracks := [{ name := "kick", pattern.root := [.pause 8, .pad 0] }] }
    let ops : List Operation :=
      [.replaceSong song, .edit 0 .root (.insert 0 (.pause 12)), .edit 0 .root (.moveBlock 3 3 4)]
    (∀ song, .replaceSong song ∈ ops → song.HasStoredPauses) ∧
      (({} : Editor).run ops).pattern? 0 = some { root := [.pause 4, .pad 0, .pause 16] } ∧
      (({} : Editor).run ops).song.HasStoredPauses := by
  intro song ops
  have hsongs : ∀ song, .replaceSong song ∈ ops → song.HasStoredPauses := by
    intro other hmem steps hheld
    obtain rfl : other = song := by simpa [ops] using hmem
    obtain ⟨t, ht, container, items, hitems, hm⟩ := hheld
    obtain rfl := List.mem_singleton.mp ht
    cases container with
    | root =>
      obtain rfl : [.pause 8, .pad 0] = items := Option.some.inj hitems
      obtain rfl : steps = 8 := by simpa using hm
      decide
    | named name => simp [Pattern.sequence?, Pattern.body?_of_root] at hitems
  exact ⟨hsongs, by decide, pauses_stay_stored standardPadSteps hsongs⟩

end Editor

end Groovebox

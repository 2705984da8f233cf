import Groovebox.Proofs.CanonicalRests
import Groovebox.Proofs.InPlace
import Groovebox.Proofs.Staleness

/-! Typed items in their places. A typed item comes to one run of stored items, a pause to a
run of rests, and the run stands in one piece where the item was to go. It is put in item by
item, each at an index further on that the limit of a machine word may cut, and that comes to
the same. -/

namespace Groovebox

variable {item : Item} {items run : List Item}

/-! What a typed item is stored as. -/

/-- The parts of a rest, taken one after the other: the first length for as long as it fits,
then the next one. What is left in the end takes a whole quantum. -/
def greedyParts : List Nat → Nat → List Nat
  | [], steps => if steps = 0 then [] else [quantum]
  | part :: shorter, steps =>
    if 0 < part ∧ part ≤ steps then part :: greedyParts (part :: shorter) (steps - part)
    else greedyParts shorter steps
termination_by parts steps => (parts.length, steps)

/-- The item itself, or for a pause the rests that its length in whole quanta falls into,
longest first. They have the lengths in which rests are written and leave nothing over. -/
def Item.IsStoredAs (run : List Item) : Item → Prop
  | .pause steps => ∃ lengths : List UInt32, run = lengths.map .pause ∧
      lengths.map (·.toNat) = greedyParts restLengths.reverse (quantize steps.toNat) ∧
      (∀ length ∈ lengths, length.toNat ∈ restLengths) ∧
      (lengths.map (·.toNat)).sum = quantize steps.toNat
  | item => run = [item]

theorem greedyParts_cons {part : Nat} (hpart : 0 < part) (shorter : List Nat) (steps : Nat) :
    greedyParts (part :: shorter) steps =
      List.replicate (steps / part) part ++ greedyParts shorter (steps % part) := by
  induction steps using Nat.strongRecOn with
  | ind steps ih =>
    rw [greedyParts]
    by_cases hfits : part ≤ steps
    · rw [if_pos ⟨hpart, hfits⟩, ih (steps - part) (by omega), Nat.div_eq_sub_div hpart hfits,
        List.replicate_succ, Nat.mod_eq_sub_mod hfits]
      rfl
    · have hless : steps < part := by omega
      rw [if_neg (fun h => hfits h.2), Nat.div_eq_of_lt hless, Nat.mod_eq_of_lt hless]
      rfl

theorem greedyParts_eq_restParts (steps : Nat) :
    greedyParts restLengths.reverse steps = restParts steps := by
  have h16 : steps % 32 % 16 = steps % 16 := by omega
  have h8 : steps % 16 % 8 = steps % 8 := by omega
  have hrest : List.replicate (steps % 8 / 4) 4 ++ greedyParts [] (steps % 8 % 4) =
      List.replicate ((steps % 8 + 3) / 4) 4 := by
    rw [greedyParts]
    split_ifs with hwhole
    · have hcount : (steps % 8 + 3) / 4 = steps % 8 / 4 := by omega
      rw [hcount, List.append_nil]
    · have hcount : (steps % 8 + 3) / 4 = steps % 8 / 4 + 1 := by omega
      rw [hcount, List.replicate_succ']
      rfl
  have hlengths : restLengths.reverse = [32, 16, 8, 4] := rfl
  rw [hlengths, greedyParts_cons (by omega), greedyParts_cons (by omega),
    greedyParts_cons (by omega), greedyParts_cons (by omega), h16, h8, hrest, restParts,
    List.append_assoc, List.append_assoc]

theorem Editor.checkItems_cons_eq_ok_iff {rest : List Item} :
    checkItems (item :: rest) = .ok () ↔ checkItems [item] = .ok () ∧ checkItems rest = .ok () := by
  cases item with
  | pause steps =>
    simp only [checkItems]
    cases checkSteps steps <;> simp
  | _ => simp [checkItems]

theorem toNat_le_stepLimit_of_checkItems {steps : UInt32}
    (h : Editor.checkItems [.pause steps] = .ok ()) : steps.toNat ≤ stepLimit := by
  by_contra hlong
  have hzero : steps ≠ 0 := by
    rintro rfl
    exact hlong (Nat.zero_le _)
  simp [Editor.checkItems, Editor.checkSteps, hzero, Nat.lt_of_not_le hlong] at h

theorem Item.isStoredAs_stored (h : Editor.checkItems [item] = .ok ()) :
    item.IsStoredAs item.stored := by
  cases item with
  | pause steps =>
    have hlimit := toNat_le_stepLimit_of_checkItems h
    have hsum : (restParts (quantize steps.toNat)).sum = quantize steps.toNat := by
      rw [sum_restParts]
      simp only [quantize, quantum, maxStep, stepLimit] at hlimit ⊢
      omega
    have hparts : ((restParts (quantize steps.toNat)).map UInt32.ofNat).map (·.toNat) =
        restParts (quantize steps.toNat) := by
      rw [List.map_map]
      refine (List.map_congr_left fun part hpart => ?_).trans (List.map_id _)
      exact toNat_of_mem_restLengths (mem_restLengths_of_mem_restParts hpart)
    refine ⟨(restParts (quantize steps.toNat)).map UInt32.ofNat, ?_, ?_, ?_, ?_⟩
    · rw [stored_pause, restItems, List.map_map]
      rfl
    · rw [hparts, greedyParts_eq_restParts]
    · intro length hlength
      have hmem := List.mem_map_of_mem (f := (·.toNat)) hlength
      rw [hparts] at hmem
      exact mem_restLengths_of_mem_restParts hmem
    · rw [hparts, hsum]
  | pad pad => rfl
  | call name => rfl

theorem isStoredAs_of_checkItems (h : Editor.checkItems items = .ok ()) :
    ∀ item ∈ items, item.IsStoredAs item.stored := by
  induction items with
  | nil => nofun
  | cons item rest ih =>
    obtain ⟨hitem, hrest⟩ := Editor.checkItems_cons_eq_ok_iff.mp h
    rw [List.forall_mem_cons]
    exact ⟨Item.isStoredAs_stored hitem, ih hrest⟩

/-! Stored items in a layout. -/

section Layout

variable {length : Item → Nat} {cursor : Nat}

theorem spansFrom_stored (length : Item → Nat) (cursor : Nat) (item : Item) :
    spansFrom length cursor item.stored = spansFrom length cursor [item] := by
  cases item with
  | pause steps =>
    rw [Item.stored_pause, spansFrom_restItems]
    rfl
  | _ => rfl

theorem endFrom_stored (hm : MeasuresRests length) (hc : cursor ≤ maxStep) (item : Item) :
    endFrom length cursor item.stored = endFrom length cursor [item] := by
  cases item with
  | pause steps =>
    rw [Item.stored_pause, endFrom_restItems hm hc (isWhole_quantize _), endFrom_cons, hm]
    rfl
  | _ => rfl

theorem storedPauses_cons (item : Item) (rest : List Item) :
    storedPauses (item :: rest) = item.stored ++ storedPauses rest := List.flatMap_cons

/-- Stored rests lead to the steps that the typed pauses lead to. -/
theorem Lays.stored {stop : Nat} {spans : List Span} (hm : MeasuresRests length)
    (hc : cursor ≤ maxStep) (h : Lays length cursor items spans stop) :
    Lays length cursor (storedPauses items) spans stop := by
  obtain ⟨rfl, rfl⟩ := h
  induction items generalizing cursor with
  | nil => exact ⟨rfl, rfl⟩
  | cons item rest ih =>
    have hstep : endFrom length cursor [item] ≤ maxStep := endFrom_le_maxStep hc [item]
    obtain ⟨hspans, hend⟩ := ih hstep
    rw [storedPauses_cons, ← List.singleton_append]
    refine ⟨?_, ?_⟩
    · rw [spansFrom_append, spansFrom_append, spansFrom_stored, endFrom_stored hm hc, hspans]
    · rw [endFrom_append, endFrom_append, endFrom_stored hm hc, hend]

end Layout

/-! Items put in one by one. -/

variable {limit index : Nat}

theorem take_min (h : items.length ≤ limit) (index : Nat) :
    items.take (min index limit) = items.take index := by
  rcases Nat.le_total index limit with hle | hle
  · rw [Nat.min_eq_left hle]
  · rw [Nat.min_eq_right hle, List.take_of_length_le h, List.take_of_length_le (h.trans hle)]

theorem drop_min (h : items.length ≤ limit) (index : Nat) :
    items.drop (min index limit) = items.drop index := by
  rcases Nat.le_total index limit with hle | hle
  · rw [Nat.min_eq_left hle]
  · rw [Nat.min_eq_right hle, List.drop_of_length_le h, List.drop_of_length_le (h.trans hle)]

namespace Snapshot

/-- Put in the items of a run one by one, at indices that do not go beyond the limit. -/
def insertEachWithin (limit : Nat) (s : Snapshot) (container : Container) (index : Nat)
    (run : List Item) : Snapshot :=
  (run.zipIdx index).foldl
    (fun s entry => s.andThen (·.insertItems? container (min entry.2 limit) [entry.1])) s

theorem insertEachWithin_eq {s : Snapshot} {container : Container}
    (h : s.pattern.sequence? container = some items) (hroom : items.length + run.length ≤ limit) :
    s.insertEachWithin limit container index run = s.insertEach container index run := by
  induction run generalizing s items index with
  | nil => rfl
  | cons item rest ih =>
    rw [List.length_cons] at hroom
    have hfirst : s.andThen (·.insertItems? container (min index limit) [item]) =
        s.andThen (·.insertItems? container index [item]) := by
      rw [andThen_insertItems? h, andThen_insertItems? h, take_min (by omega), drop_min (by omega)]
    have hsequence : (s.andThen (·.insertItems? container index [item])).pattern.sequence?
        container = some (items.take index ++ item :: items.drop index) := by
      rw [andThen_insertItems? h, Pattern.sequence?_put, if_pos rfl]
    have hlength : (items.take index ++ item :: items.drop index).length + rest.length ≤ limit := by
      simp only [List.length_append, List.length_cons, List.length_take, List.length_drop]
      omega
    have hstep : s.insertEachWithin limit container index (item :: rest) =
        (s.andThen (·.insertItems? container (min index limit) [item])).insertEachWithin limit
          container (index + 1) rest := rfl
    rw [hstep, hfirst, ih hsequence hlength]
    rfl

end Snapshot

/-- Put in an item, where no index goes beyond the limit. -/
def InPlace.insertWithin (limit track : Nat) (container : Container) (index : Nat) (item : Item) :
    InPlace Bool := do
  ask fun _ => Editor.checkItems [item]
  apply track container fun t =>
    (⟨t.pattern, false⟩ : Snapshot).insertEachWithin limit container index item.stored

namespace InPlace

variable {e changed : Editor} {track : Nat} {container : Container} {s : List Item}

theorem run_insertWithin (h : e.sequence? track container = some s)
    (hroom : s.length + item.stored.length ≤ limit) :
    (insertWithin limit track container index item).run e =
      (insert track container index item).run e := by
  refine (run_check_bind _ (run_apply fun t ht => ?_)).trans (run_insert index item).symm
  obtain ⟨other, hother, hc⟩ := Editor.sequence?_eq_some_iff.mp h
  obtain rfl : other = t :=
    Option.some.inj (hother.symm.trans (Editor.trackWith_eq_ok_iff.mp ht).1)
  rw [Snapshot.insertEachWithin_eq hc hroom, Snapshot.insertEach_eq_after hc]

theorem run_eq_of_changed {x : InPlace Bool} {isNew : Bool}
    (h : (do return .changed (← x) : InPlace Answer).run e = .ok (.changed isNew) changed) :
    x.run e = .ok isNew changed := by
  rw [EStateM.run_bind] at h
  cases hx : x.run e with
  | error fault left =>
    rw [hx] at h
    cases h
  | ok answer left =>
    rw [hx] at h
    cases h
    rfl

end InPlace

namespace Editor

variable {e : Editor} {track : Nat} {container : Container} {s : List Item} {t : Track}

/-- The edit succeeds, also step by step, and leaves `items` in the container. The answer tells
whether it held others. -/
structure LandsAs (e : Editor) (track : Nat) (container : Container) (change : ContainerEdit)
    (items : List Item) (changed : Editor) : Prop where
  execute_eq : e.execute (.edit track container change) =
    .ok (.changed (decide (e.sequence? track container ≠ some items)), changed)
  run_eq : (Operation.edit track container change).inPlace.run e =
    .ok (.changed (decide (e.sequence? track container ≠ some items))) changed
  sequence?_eq : changed.sequence? track container = some items

theorem track?_edited (ht : e.song.tracks[track]? = some t) (p : Pattern) :
    (e.edited track container p).song.tracks[track]? = some { t with pattern := p } := by
  simp [edited, setPattern, updateTrack, ht]

/-- An edit that comes to setting the sequence leaves that sequence. -/
theorem landsAs_of_setSequence? {change : ContainerEdit}
    (ht : e.song.tracks[track]? = some t) (hc : t.pattern.sequence? container = some s)
    (hresult : change.result? container t (e.selection track container) =
      t.pattern.setSequence? container items)
    (hcheck : change.check = .ok ()) (hanswer : ∀ isNew, change.answer t isNew = .changed isNew) :
    ∃ changed, e.LandsAs track container change items changed ∧
      changed.song.tracks[track]? = some { t with pattern := t.pattern.put container items } := by
  have hbefore : e.sequence? track container = some s := sequence?_eq_some_iff.mpr ⟨t, ht, hc⟩
  have htrack : e.trackWith track container = .ok t :=
    trackWith_eq_ok_iff.mpr ⟨ht, by rw [hc, Option.isSome_some]⟩
  have hsettled : e.answerEdit track container change = .ok (Prod.map Answer.changed id
      (e.putResult track container (t.pattern.setSequence? container items))) := by
    rw [answerEdit_eq, hcheck, htrack, ← hresult, ← funext hanswer]
    rfl
  have hput : ∃ changed, e.putResult track container (t.pattern.setSequence? container items) =
        (decide (e.sequence? track container ≠ some items), changed) ∧
      changed.song.tracks[track]? = some { t with pattern := t.pattern.put container items } := by
    by_cases hsame : s = items
    · subst hsame
      refine ⟨e, ?_, ?_⟩
      · simp [Pattern.setSequence?, hc, hbefore, putResult]
      · rw [Pattern.put_self hc, ht]
    · refine ⟨e.edited track container (t.pattern.put container items), ?_, track?_edited ht _⟩
      simp [Pattern.setSequence?_of_ne hc hsame, hbefore, putResult, hsame]
  obtain ⟨changed, hput, hchanged⟩ := hput
  rw [hput] at hsettled
  refine ⟨changed, ⟨hsettled, ?_, ?_⟩, hchanged⟩
  · exact (InPlace.run_edit change).trans (by rw [hsettled]; rfl)
  · exact sequence?_eq_some_iff.mpr ⟨_, hchanged, by rw [Pattern.sequence?_put, if_pos rfl]⟩

theorem insert_landsAs (ht : e.song.tracks[track]? = some t)
    (hc : t.pattern.sequence? container = some s) (hcheck : checkItems [item] = .ok ())
    (index : Nat) :
    ∃ changed, e.LandsAs track container (.insert index item)
      (s.take index ++ item.stored ++ s.drop index) changed := by
  have hresult : (ContainerEdit.insert index item).result? container t
        (e.selection track container) =
      t.pattern.setSequence? container (s.take index ++ item.stored ++ s.drop index) := by
    simp only [ContainerEdit.result?, Pattern.insertItems?, Pattern.edit?, hc, Option.bind_some]
  obtain ⟨changed, hlands, -⟩ := landsAs_of_setSequence? ht hc hresult hcheck fun _ => rfl
  exact ⟨changed, hlands⟩

theorem replace_landsAs (ht : e.song.tracks[track]? = some t)
    (hc : t.pattern.sequence? container = some s) (hcheck : checkItems [item] = .ok ())
    (hindex : index < s.length) :
    ∃ changed, e.LandsAs track container (.replace index item)
      (s.take index ++ item.stored ++ s.drop (index + 1)) changed := by
  have hresult : (ContainerEdit.replace index item).result? container t
        (e.selection track container) =
      t.pattern.setSequence? container (s.take index ++ item.stored ++ s.drop (index + 1)) := by
    simp only [ContainerEdit.result?, Pattern.replaceItem?, Pattern.edit?, hc, Option.bind_some,
      if_pos hindex]
  obtain ⟨changed, hlands, -⟩ := landsAs_of_setSequence? ht hc hresult hcheck fun _ => rfl
  exact ⟨changed, hlands⟩

/-- The root that typed items come to is as long as they are, and what sounds in it sounds when
it would in them. -/
theorem timeline_storedPauses (p : Pattern) (pads : PadLengths) (items : List Item)
    (showPauses : Bool) :
    let line := fun root : List Item => (p.put .root root).timeline pads .root showPauses
    (line (storedPauses items)).steps = (line items).steps ∧
      sounding (line (storedPauses items)).tokens = sounding (line items).tokens := by
  have hlaid : Lays (p.steps pads) 0 items _ _ := ⟨rfl, rfl⟩
  obtain ⟨hspans, hend⟩ := hlaid.stored (p.measures_steps pads).rests (Nat.zero_le _)
  simp only [p.timeline_steps_put_root, p.sounding_put_root, hspans, hend, true_and]

/-- Typed items land in one run, in any editor that has the track and the container. -/
theorem typed_items_land (h : e.sequence? track container = some s) :
    (∀ index item, checkItems [item] = .ok () →
      item.IsStoredAs item.stored ∧
      (∃ changed, e.LandsAs track container (.insert index item)
          (s.take (min index s.length) ++ item.stored ++ s.drop (min index s.length)) changed ∧
        ∀ limit, s.length + item.stored.length ≤ limit →
          (InPlace.insertWithin limit track container index item).run e = .ok true changed) ∧
      (index < s.length → ∃ changed, e.LandsAs track container (.replace index item)
          (s.take index ++ item.stored ++ s.drop (index + 1)) changed)) ∧
    ∀ items, checkItems items = .ok () →
      (∀ item ∈ items, item.IsStoredAs item.stored) ∧
      ∃ changed, e.LandsAs track container (.setSequence items) (items.flatMap Item.stored)
          changed ∧
        (container = .root → ∀ t, e.song.tracks[track]? = some t → ∃ set : Track,
          changed.song.tracks[track]? = some set ∧ ∀ showPauses,
            let line := set.pattern.timeline set.pads .root showPauses
            let typed := (t.pattern.put .root items).timeline t.pads .root showPauses
            line.steps = typed.steps ∧ sounding line.tokens = sounding typed.tokens) := by
  obtain ⟨t, ht, hc⟩ := sequence?_eq_some_iff.mp h
  refine ⟨fun index item hcheck => ⟨Item.isStoredAs_stored hcheck, ?_, ?_⟩, fun items hcheck =>
    ⟨isStoredAs_of_checkItems hcheck, ?_⟩⟩
  · rw [take_min le_rfl, drop_min le_rfl]
    obtain ⟨changed, hlands⟩ := insert_landsAs ht hc hcheck index
    refine ⟨changed, hlands, fun limit hroom => ?_⟩
    have hnew : e.sequence? track container ≠
        some (s.take index ++ item.stored ++ s.drop index) := by
      rw [h, ne_eq, Option.some_inj]
      exact Snapshot.ne_insert s index (InPlace.stored_ne_nil item)
    have hrun := InPlace.run_eq_of_changed hlands.run_eq
    rw [decide_eq_true hnew] at hrun
    rw [InPlace.run_insertWithin h hroom, hrun]
  · exact replace_landsAs ht hc hcheck
  · have hresult : (ContainerEdit.setSequence items).result? container t
          (e.selection track container) =
        t.pattern.setSequence? container (storedPauses items) := rfl
    obtain ⟨changed, hlands, hchanged⟩ :=
      landsAs_of_setSequence? ht hc hresult hcheck fun _ => rfl
    refine ⟨changed, hlands, ?_⟩
    rintro rfl other hother
    obtain rfl := Option.some.inj (hother.symm.trans ht)
    exact ⟨_, hchanged, timeline_storedPauses other.pattern other.pads items⟩

theorem typed_items_land_between_pads :
    let e := ({} : Editor).run [.addTrack "kick", .edit 0 .root (.setSequence [.pad 0, .pad 1])]
    e.sequence? 0 .root = some [.pad 0, .pad 1] ∧ checkItems [.pause 27] = .ok () ∧
      ∃ changed, e.LandsAs 0 .root (.insert 1 (.pause 27))
        [.pad 0, .pause 16, .pause 8, .pause 4, .pad 1] changed := by
  intro e
  have hsequence : e.sequence? 0 .root = some [.pad 0, .pad 1] := by decide
  obtain ⟨-, ⟨changed, hlands, -⟩, -⟩ := (typed_items_land hsequence).1 1 (.pause 27) rfl
  exact ⟨hsequence, rfl, changed, hlands⟩

end Editor

end Groovebox

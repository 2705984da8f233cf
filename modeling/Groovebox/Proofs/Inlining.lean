import Groovebox.Events
import Groovebox.Proofs.Layout

/-! The inlined pattern. Each call in the root gives way to the sequence that it calls,
down to pads and pauses, and what has no sequence to give rests for one quantum. The
events of a pattern are the pads of its inlined root, laid end to end. -/

namespace Groovebox

theorem Table.mem_keys_of_find? {α : Type} {t : Table α} {id : String} {a : α}
    (h : t.find? id = some a) : id ∈ t.keys := by
  obtain ⟨xs, ys, he, -⟩ := List.lookup_eq_some_iff.mp h
  rw [Table.keys, he]
  simp

namespace Pattern

theorem mem_names_of_body? {p : Pattern} {name : GroupName} {body : List Item}
    (h : p.body? name = some body) : name ∈ p.names := by
  obtain ⟨kind, id⟩ := name
  have hk : id ∈ (p.table kind).keys := Table.mem_keys_of_find? h
  cases kind with
  | group => exact List.mem_append_left _ (List.mem_map_of_mem hk)
  | super => exact List.mem_append_right _ (List.mem_map_of_mem hk)

theorem length_names (p : Pattern) : p.names.length = p.depth := by
  simp [names, depth, Table.keys, Table.size]

/-- The defined names that are not open. -/
def closedNames (p : Pattern) (path : List GroupName) : List GroupName :=
  p.names.filter (· ∉ path)

theorem length_closedNames_lt {p : Pattern} {path : List GroupName} {name : GroupName}
    {body : List Item} (hn : name ∉ path) (hb : p.body? name = some body) :
    (p.closedNames (name :: path)).length < (p.closedNames path).length := by
  have he : p.closedNames (name :: path) = (p.closedNames path).filter (· ≠ name) := by
    rw [closedNames, closedNames, List.filter_filter]
    exact List.filter_congr fun other _ => by simp
  rw [he, List.length_filter_lt_length_iff_exists]
  exact ⟨name, List.mem_filter.mpr ⟨mem_names_of_body? hb, by simpa using hn⟩, by simp⟩

/-- The pads and pauses that an item stands for while the containers of `path` are
open. Opening one leaves fewer to open. -/
def inlineItem (p : Pattern) (path : List GroupName) : Item → List Item
  | .pad pad => [.pad pad]
  | .pause steps => [.pause steps]
  | .call name =>
    if _hn : name ∈ path then [.pause 4]
    else
      match _hb : p.body? name with
      | none => [.pause 4]
      | some [] => [.pause 4]
      | some (item :: rest) => (item :: rest).flatMap fun child => p.inlineItem (name :: path) child
termination_by (p.closedNames path).length
decreasing_by exact length_closedNames_lt _hn _hb

def inlined (p : Pattern) : List Item := p.root.flatMap (p.inlineItem [])

theorem inlineItem_call_of_mem {p : Pattern} {path : List GroupName} {name : GroupName}
    (h : name ∈ path) : p.inlineItem path (.call name) = [.pause 4] := by
  rw [inlineItem, dif_pos h]

theorem inlineItem_call_of_silent {p : Pattern} (path : List GroupName) {name : GroupName}
    (h : (p.body? name).getD [] = []) : p.inlineItem path (.call name) = [.pause 4] := by
  rw [inlineItem]
  split
  · rfl
  · split
    · rfl
    · rfl
    · next hb => simp [hb] at h

theorem inlineItem_call_of_body {p : Pattern} {path : List GroupName} {name : GroupName}
    {body : List Item} (hn : name ∉ path) (hb : p.body? name = some body) (hne : body ≠ []) :
    p.inlineItem path (.call name) = body.flatMap (p.inlineItem (name :: path)) := by
  rw [inlineItem, dif_neg hn]
  split
  · next h => simp [hb] at h
  · next h => exact absurd (Option.some.inj (hb.symm.trans h)) hne
  · next item rest h =>
    obtain rfl := Option.some.inj (hb.symm.trans h)
    rfl

theorem inlineItem_call_of_not_mem {p : Pattern} {path : List GroupName} {name : GroupName}
    (h : name ∉ path) :
    p.inlineItem path (.call name) =
      if (p.body? name).getD [] = [] then [.pause 4]
      else ((p.body? name).getD []).flatMap (p.inlineItem (name :: path)) := by
  split
  · next hb => exact inlineItem_call_of_silent path hb
  · next hb =>
    cases hbody : p.body? name with
    | none => simp [hbody] at hb
    | some body =>
      rw [hbody] at hb
      exact inlineItem_call_of_body h hbody hb

theorem name?_of_mem_inlineItem {p : Pattern} {path : List GroupName} {item child : Item}
    (h : child ∈ p.inlineItem path item) : child.name? = none := by
  fun_induction inlineItem p path item with
  | case1 path pad => exact List.mem_singleton.mp h ▸ rfl
  | case2 path steps => exact List.mem_singleton.mp h ▸ rfl
  | case3 path name hn => exact List.mem_singleton.mp h ▸ rfl
  | case4 path name hn hb => exact List.mem_singleton.mp h ▸ rfl
  | case5 path name hn hb => exact List.mem_singleton.mp h ▸ rfl
  | case6 path name hn item rest hb ih =>
    obtain ⟨called, hm, hc⟩ := List.mem_flatMap.mp h
    exact ih called hc

end Pattern

def flatSteps (pads : PadLengths) : Item → Nat := ({} : Pattern).steps pads

def Token.event? (t : Token) : Option PadEvent :=
  match t.item with
  | .pad pad => some ⟨pad, t.start, t.stop⟩
  | _ => none

theorem place_of_event? {t : Token} {e : PadEvent} (h : t.event? = some e) :
    e.start = t.start ∧ e.stop = t.stop := by
  unfold Token.event? at h
  split at h
  · exact Option.some.inj h ▸ ⟨rfl, rfl⟩
  · simp at h

/-- The flat sequence `items` takes `steps` steps and triggers the events of `emit`. -/
structure Plays (pads : PadLengths) (items : List Item) (steps : Nat)
    (emit : Nat → List PadEvent) : Prop where
  steps_eq : steps = total (items.map (flatSteps pads))
  events_eq (index : Nat) {cursor : Nat} (hc : cursor ≤ maxStep) :
    emit cursor = (placeFrom (flatSteps pads) index cursor items).filterMap Token.event?

namespace Plays

variable {pads : PadLengths} {length : Item → Nat} {emit : Nat → Item → List PadEvent}
  {write : Item → List Item}

theorem pad (pads : PadLengths) (pad : UInt8) :
    Plays pads [.pad pad] (quantize (pads.steps pad).toNat)
      fun cursor => [⟨pad, cursor, satAdd cursor (quantize (pads.steps pad).toNat)⟩] where
  steps_eq := (total_singleton (quantize_le_maxStep _)).symm
  events_eq _ _ _ := rfl

theorem rest (pads : PadLengths) (steps : UInt32) :
    Plays pads [.pause steps] (quantize steps.toNat) fun _ => [] where
  steps_eq := (total_singleton (quantize_le_maxStep _)).symm
  events_eq _ _ _ := rfl

theorem collect (h : ∀ item, Plays pads (write item) (length item) fun cursor => emit cursor item)
    (items : List Item) :
    Plays pads (items.flatMap write) (total (items.map length))
      fun cursor => collectEvents length emit cursor items where
  steps_eq := by
    have he : length = fun item => total ((write item).map (flatSteps pads)) :=
      funext fun item => (h item).steps_eq
    rw [List.flatMap_def, List.map_flatten, total_flatten, List.map_map, List.map_map, he]
    rfl
  events_eq index cursor hc := by
    induction items generalizing index cursor with
    | nil => rfl
    | cons item rest ih =>
      obtain ⟨hs, he⟩ := h item
      have hend : endFrom (flatSteps pads) cursor (write item) = satAdd cursor (length item) := by
        rw [endFrom_eq hc, hs, satAdd_total]
      rw [collectEvents, List.flatMap_cons, placeFrom_append, List.filterMap_append, hend,
        he index hc, ih _ _ (satAdd_le_maxStep _ _)]

/-- The events are in order, none overlap, and all are over when the sequence is. -/
theorem ordered {items : List Item} {steps : Nat} {emit : Nat → List PadEvent}
    (h : Plays pads items steps emit) :
    (emit 0).Pairwise (fun e f => e.stop ≤ f.start) ∧
      ∀ e ∈ emit 0, e.start ≤ e.stop ∧ e.stop ≤ steps := by
  have hz := Nat.zero_le maxStep
  obtain ⟨hs, he⟩ := h
  rw [he 0 hz, hs, total_map, List.pairwise_filterMap]
  refine ⟨(placeFrom_pairwise items 0 hz).imp fun hle e he f hf => ?_, fun e he => ?_⟩
  · rwa [(place_of_event? he).2, (place_of_event? hf).1]
  · obtain ⟨t, ht, he⟩ := List.mem_filterMap.mp he
    obtain ⟨-, hle, hstop⟩ := bounds_of_mem_placeFrom hz ht
    rw [(place_of_event? he).1, (place_of_event? he).2]
    exact ⟨hle, hstop⟩

end Plays

namespace Pattern

theorem body?_of_root (root : List Item) (name : GroupName) :
    ({ root } : Pattern).body? name = none := by
  obtain ⟨kind, id⟩ := name
  cases kind <;> rfl

theorem steps_of_root (root : List Item) (pads : PadLengths) :
    ({ root } : Pattern).steps pads = flatSteps pads := by
  funext item
  cases item <;> rfl

theorem quantize_total_body (p : Pattern) (pads : PadLengths) (depth : Nat)
    (path : List GroupName) {body : List Item} (hne : body ≠ []) :
    quantize (total (body.map (p.stepsWithin pads depth path))) =
      total (body.map (p.stepsWithin pads depth path)) := by
  have hm := p.measures_stepsWithin pads depth path
  have hw : IsWhole (total (body.map (p.stepsWithin pads depth path))) :=
    isWhole_endFrom hm isWhole_zero body
  obtain ⟨item, rest, rfl⟩ := List.exists_cons_of_ne_nil hne
  have hpos := hm.pos item
  refine quantize_of_isWhole hw ?_
  rw [List.map_cons, total_cons]
  simp only [satAdd, maxStep]
  omega

theorem plays_of_name?_eq_none (p : Pattern) (pads : PadLengths) (depth : Nat)
    (path : List GroupName) {item : Item} (h : item.name? = none) :
    Plays pads (p.inlineItem path item) (p.stepsWithin pads depth path item)
      fun cursor => p.itemEvents pads depth path cursor item := by
  cases item with
  | pad pad =>
    rw [inlineItem]
    cases depth <;> exact .pad pads pad
  | pause steps =>
    rw [inlineItem]
    cases depth <;> exact .rest pads steps
  | call name => simp [Item.name?] at h

/-- An item plays what stands for it. While no more than `depth` names are left to
open, the depth does not run out. -/
theorem plays_inlineItem (p : Pattern) (pads : PadLengths) {depth : Nat} {path : List GroupName}
    (hd : (p.closedNames path).length ≤ depth) (item : Item) :
    Plays pads (p.inlineItem path item) (p.stepsWithin pads depth path item)
      fun cursor => p.itemEvents pads depth path cursor item := by
  induction depth generalizing path item with
  | zero =>
    cases item with
    | pad pad => exact p.plays_of_name?_eq_none pads 0 path rfl
    | pause steps => exact p.plays_of_name?_eq_none pads 0 path rfl
    | call name =>
      by_cases hn : name ∈ path
      · rw [inlineItem_call_of_mem hn]
        exact .rest pads 4
      · have hb : p.body? name = none := by
          rw [Option.eq_none_iff_forall_ne_some]
          intro body hb
          have hlt := length_closedNames_lt hn hb
          omega
        rw [inlineItem_call_of_silent path (by simp [hb])]
        exact .rest pads 4
  | succ depth ih =>
    cases item with
    | pad pad => exact p.plays_of_name?_eq_none pads (depth + 1) path rfl
    | pause steps => exact p.plays_of_name?_eq_none pads (depth + 1) path rfl
    | call name =>
      by_cases hn : name ∈ path
      · rw [inlineItem_call_of_mem hn]
        simp only [stepsWithin, itemEvents, hn, if_true]
        exact .rest pads 4
      · simp only [stepsWithin, itemEvents, hn, if_false]
        cases hb : p.body? name with
        | none =>
          rw [inlineItem_call_of_silent path (by simp [hb])]
          exact .rest pads 4
        | some body =>
          by_cases hne : body = []
          · subst hne
            rw [inlineItem_call_of_silent path (by simp [hb])]
            simp only [List.map_nil, Option.getD_some, collectEvents]
            exact .rest pads 4
          · have hlt := length_closedNames_lt hn hb
            rw [inlineItem_call_of_body hn hb hne]
            simp only [quantize_total_body p pads depth (name :: path) hne]
            exact .collect (ih (by omega)) body

theorem length_closedNames_le (p : Pattern) (path : List GroupName) :
    (p.closedNames path).length ≤ p.depth := by
  rw [← length_names]
  exact List.length_filter_le ..

theorem plays_items (p : Pattern) (pads : PadLengths) (items : List Item) :
    Plays pads (items.flatMap (p.inlineItem [])) (total (items.map (p.steps pads)))
      fun cursor => collectEvents (p.steps pads) (p.itemEvents pads p.depth []) cursor items :=
  .collect (fun item => p.plays_inlineItem pads (p.length_closedNames_le []) item) items

theorem plays_inlined (p : Pattern) (pads : PadLengths) :
    Plays pads p.inlined (total (p.root.map (p.steps pads)))
      fun cursor => collectEvents (p.steps pads) (p.itemEvents pads p.depth []) cursor p.root :=
  p.plays_items pads p.root

variable {p q : Pattern}

theorem steps_eq_of_inlineItem_eq {item : Item} (h : q.inlineItem [] item = p.inlineItem [] item)
    (pads : PadLengths) : q.steps pads item = p.steps pads item := by
  have hq := (q.plays_inlineItem pads (q.length_closedNames_le []) item).steps_eq
  have hp := (p.plays_inlineItem pads (p.length_closedNames_le []) item).steps_eq
  rw [h] at hq
  exact hq.trans hp.symm

theorem total_steps_eq_of_flatMap_eq {old new : List Item}
    (h : new.flatMap (q.inlineItem []) = old.flatMap (p.inlineItem [])) (pads : PadLengths) :
    total (new.map (q.steps pads)) = total (old.map (p.steps pads)) := by
  have hq := (q.plays_items pads new).steps_eq
  rw [h] at hq
  exact hq.trans (p.plays_items pads old).steps_eq.symm

theorem events_eq_of_inlined_eq (h : q.inlined = p.inlined) (pads : PadLengths) :
    q.events pads = p.events pads := by
  have hz := Nat.zero_le maxStep
  have hq := (q.plays_inlined pads).events_eq 0 hz
  rw [h] at hq
  exact hq.trans ((p.plays_inlined pads).events_eq 0 hz).symm

/-- The events of a pattern are the pads of its inlined root. -/
theorem events_eq_inlined (p : Pattern) (pads : PadLengths) (showPauses : Bool) :
    let flat : Pattern := { root := p.inlined }
    (∀ item ∈ flat.root, item.name? = none) ∧
    p.events pads = (flat.tokens pads .root).filterMap Token.event? ∧
    (p.timeline pads .root showPauses).steps = (flat.timeline pads .root showPauses).steps ∧
    (p.events pads).Pairwise (fun e f => e.stop ≤ f.start) ∧
    ∀ e ∈ p.events pads,
      e.start ≤ e.stop ∧ e.stop ≤ (p.timeline pads .root showPauses).steps := by
  intro flat
  have hplays := p.plays_inlined pads
  have hflat := steps_of_root p.inlined pads
  refine ⟨fun item hm => ?_, ?_, ?_, hplays.ordered⟩
  · obtain ⟨called, -, hc⟩ := List.mem_flatMap.mp hm
    exact name?_of_mem_inlineItem hc
  · rw [tokens, hflat]
    exact hplays.events_eq 0 (Nat.zero_le _)
  · rw [timeline, timeline, hflat]
    exact hplays.steps_eq

theorem events_eq_inlined_of_cycle :
    let name : GroupName := ⟨.group, "g1"⟩
    let p : Pattern := ({ root := [.pad 7, .call name] } : Pattern).define name [.pad 0, .call name]
    let pads : PadLengths := { fallback := 4 }
    ⟨0, 4, 8⟩ ∈ p.events pads ∧ 8 ≤ (p.timeline pads .root true).steps := by
  intro name p pads
  have he : ⟨0, 4, 8⟩ ∈ p.events pads := by decide
  exact ⟨he, ((p.events_eq_inlined pads true).2.2.2.2 _ he).2⟩

end Pattern

end Groovebox

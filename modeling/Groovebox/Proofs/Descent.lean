import Groovebox.Proofs.Inlining
import Groovebox.Proofs.Results

/-! How deep calls nest. Lengths and events are resolved by recursions that follow calls
without regard to cycles and carry the path of the open containers. Here both recursions
are written so that they give no answer once a path is out of order or once calls nest
deeper than a bound. They always answer when the bound is the number of defined names, and
a larger bound changes nothing. -/

namespace Groovebox

/-- `collectEvents` where a length or the events of an item may be missing. -/
def collectEvents? (length : Item → Option Nat) (emit : Nat → Item → Option (List PadEvent)) :
    Nat → List Item → Option (List PadEvent)
  | _, [] => some []
  | cursor, item :: rest => do
    let steps ← length item
    let here ← emit cursor item
    let later ← collectEvents? length emit (satAdd cursor steps) rest
    return here ++ later

theorem collectEvents?_eq_some {length? : Item → Option Nat}
    {emit? : Nat → Item → Option (List PadEvent)} {length : Item → Nat}
    {emit : Nat → Item → List PadEvent} {items : List Item}
    (hlength : ∀ item, length? item = some (length item))
    (hemit : ∀ cursor item, emit? cursor item = some (emit cursor item)) (cursor : Nat) :
    collectEvents? length? emit? cursor items = some (collectEvents length emit cursor items) := by
  induction items generalizing cursor with
  | nil => rfl
  | cons item rest ih =>
    simp only [collectEvents?, collectEvents, hlength, hemit, ih, Option.bind_eq_bind,
      Option.bind_some, Option.pure_def]

namespace Pattern

/-- Defined names, none of them twice. -/
def IsPath (p : Pattern) (path : List GroupName) : Prop :=
  path.Nodup ∧ ∀ name ∈ path, (p.body? name).isSome

instance (p : Pattern) (path : List GroupName) : Decidable (p.IsPath path) :=
  inferInstanceAs (Decidable (_ ∧ _))

/-- No call of the recursions goes on with a path that is out of order. -/
def checked {α : Type} (p : Pattern) (path : List GroupName) (answer : Option α) : Option α :=
  if p.IsPath path then answer else none

/-- The length of an item inside the containers of `path`, where `enter` resolves the
sequence of a container that is entered. -/
def lengthBy (p : Pattern) (pads : PadLengths) (path : List GroupName)
    (enter : GroupName → List Item → Option Nat) : Item → Option Nat
  | .pad pad => some (quantize (pads.steps pad).toNat)
  | .pause steps => some (quantize steps.toNat)
  | .call name =>
    if name ∈ path then some quantum
    else
      match p.body? name with
      | none => some quantum
      | some body => enter name body

/-- Lengths with at most `bound` containers entered inside one another. -/
def boundedSteps? (p : Pattern) (pads : PadLengths) : Nat → List GroupName → Item → Option Nat
  | 0, path, item => p.checked path (p.lengthBy pads path (fun _ _ => none) item)
  | bound + 1, path, item =>
    let enter := fun (name : GroupName) (body : List Item) =>
      (body.mapM (p.boundedSteps? pads bound (name :: path))).map (quantize ∘ total)
    p.checked path (p.lengthBy pads path enter item)

/-- The events of an item at step `cursor` inside the containers of `path`. -/
def emitBy (p : Pattern) (pads : PadLengths) (path : List GroupName)
    (enter : GroupName → Nat → List Item → Option (List PadEvent)) (cursor : Nat) :
    Item → Option (List PadEvent)
  | .pad pad => some [⟨pad, cursor, satAdd cursor (quantize (pads.steps pad).toNat)⟩]
  | .pause _ => some []
  | .call name =>
    if name ∈ path then some []
    else
      match p.body? name with
      | none => some []
      | some body => enter name cursor body

/-- The events of a sequence from step `cursor` on. The lengths of its items are resolved
under its own path, with the bound that it has. -/
def boundedEvents? (p : Pattern) (pads : PadLengths) :
    Nat → List GroupName → Nat → List Item → Option (List PadEvent)
  | 0, path, cursor, items =>
    p.checked path (collectEvents? (p.boundedSteps? pads 0 path)
      (p.emitBy pads path fun _ _ _ => none) cursor items)
  | bound + 1, path, cursor, items =>
    let enter := fun (name : GroupName) => p.boundedEvents? pads bound (name :: path)
    p.checked path (collectEvents? (p.boundedSteps? pads (bound + 1) path)
      (p.emitBy pads path enter) cursor items)

variable {p : Pattern} {pads : PadLengths} {bound : Nat} {path : List GroupName}

theorem isPath_nil (p : Pattern) : p.IsPath [] := ⟨.nil, fun _ hm => by simp at hm⟩

namespace IsPath

theorem cons {name : GroupName} {body : List Item} (h : p.IsPath path) (hn : name ∉ path)
    (hb : p.body? name = some body) : p.IsPath (name :: path) := by
  refine ⟨List.nodup_cons.mpr ⟨hn, h.1⟩, fun other hm => ?_⟩
  rcases List.mem_cons.mp hm with rfl | hm
  · rw [hb, Option.isSome_some]
  · exact h.2 other hm

theorem length_le (h : p.IsPath path) : path.length ≤ p.depth := by
  rw [← length_names]
  refine h.1.length_le_of_subset fun name hm => ?_
  obtain ⟨body, hb⟩ := Option.isSome_iff_exists.mp (h.2 name hm)
  exact mem_names_of_body? hb

theorem body?_eq_none {name : GroupName} (h : p.IsPath path) (hd : p.depth ≤ path.length)
    (hn : name ∉ path) : p.body? name = none := by
  rw [Option.eq_none_iff_forall_ne_some]
  intro body hb
  -- With this name the path would hold more names than are defined.
  have hlength := (h.cons hn hb).length_le
  rw [List.length_cons] at hlength
  omega

end IsPath

theorem checked_eq {α : Type} (h : p.IsPath path) (answer : Option α) :
    p.checked path answer = answer := if_pos h

theorem lengthBy_eq_some {enter : GroupName → List Item → Option Nat}
    (hentered : ∀ name body, name ∉ path → p.body? name = some body →
      enter name body = some (p.stepsWithin pads bound path (.call name)))
    (item : Item) : p.lengthBy pads path enter item = some (p.stepsWithin pads bound path item) := by
  cases item with
  | pad pad => cases bound <;> rfl
  | pause steps => cases bound <;> rfl
  | call name =>
    by_cases hn : name ∈ path
    · cases bound <;> simp only [lengthBy, stepsWithin, hn, if_true]
    · cases hb : p.body? name with
      | none => cases bound <;> simp only [lengthBy, stepsWithin, hn, hb, if_false]
      | some body => simp only [lengthBy, hn, hb, if_false, hentered name body hn hb]

theorem boundedSteps?_eq_some (h : p.IsPath path) (hd : p.depth ≤ path.length + bound)
    (item : Item) :
    p.boundedSteps? pads bound path item = some (p.stepsWithin pads bound path item) := by
  induction bound generalizing path item with
  | zero =>
    rw [boundedSteps?, checked_eq h]
    refine lengthBy_eq_some (fun name body hn hb => ?_) item
    simp [h.body?_eq_none hd hn] at hb
  | succ bound ih =>
    rw [boundedSteps?, checked_eq h]
    refine lengthBy_eq_some (fun name body hn hb => ?_) item
    have hlonger : p.depth ≤ (name :: path).length + bound := by
      rw [List.length_cons]
      omega
    have hinner := fun child (_ : child ∈ body) => ih (h.cons hn hb) hlonger child
    simp only [mapM_eq_some_map hinner, Option.map_some, Function.comp_apply, stepsWithin, hn, hb,
      if_false]

theorem emitBy_eq_some {enter : GroupName → Nat → List Item → Option (List PadEvent)}
    (hentered : ∀ name cursor body, name ∉ path → p.body? name = some body →
      enter name cursor body = some (p.itemEvents pads bound path cursor (.call name)))
    (cursor : Nat) (item : Item) :
    p.emitBy pads path enter cursor item = some (p.itemEvents pads bound path cursor item) := by
  cases item with
  | pad pad => cases bound <;> rfl
  | pause steps => cases bound <;> rfl
  | call name =>
    by_cases hn : name ∈ path
    · cases bound <;> simp only [emitBy, itemEvents, hn, if_true]
    · cases hb : p.body? name with
      | none =>
        cases bound <;>
          simp only [emitBy, itemEvents, hn, hb, if_false, Option.getD_none, collectEvents]
      | some body => simp only [emitBy, hn, hb, if_false, hentered name cursor body hn hb]

theorem boundedEvents?_eq_some (h : p.IsPath path) (hd : p.depth ≤ path.length + bound)
    (cursor : Nat) (items : List Item) :
    p.boundedEvents? pads bound path cursor items =
      some (collectEvents (p.stepsWithin pads bound path) (p.itemEvents pads bound path)
        cursor items) := by
  have hlength : ∀ item, p.boundedSteps? pads bound path item =
      some (p.stepsWithin pads bound path item) := boundedSteps?_eq_some h hd
  induction bound generalizing path cursor items with
  | zero =>
    rw [boundedEvents?, checked_eq h]
    refine collectEvents?_eq_some hlength (emitBy_eq_some fun name cursor body hn hb => ?_) cursor
    simp [h.body?_eq_none hd hn] at hb
  | succ bound ih =>
    rw [boundedEvents?, checked_eq h]
    refine collectEvents?_eq_some hlength (emitBy_eq_some fun name cursor body hn hb => ?_) cursor
    have hlonger : p.depth ≤ (name :: path).length + bound := by
      rw [List.length_cons]
      omega
    have hpath := h.cons hn hb
    simp only [ih hpath hlonger cursor body (boundedSteps?_eq_some hpath hlonger), itemEvents, hn,
      hb, if_false, Option.getD_some]

theorem stepsWithin_eq_steps (hd : p.depth ≤ bound) (item : Item) :
    p.stepsWithin pads bound [] item = p.steps pads item := by
  have hclosed := p.length_closedNames_le []
  have hbound := (p.plays_inlineItem pads (Nat.le_trans hclosed hd) item).steps_eq
  exact hbound.trans (p.plays_inlineItem pads hclosed item).steps_eq.symm

theorem collectEvents_eq_events (hd : p.depth ≤ bound) :
    collectEvents (p.stepsWithin pads bound []) (p.itemEvents pads bound []) 0 p.root =
      p.events pads := by
  have hz := Nat.zero_le maxStep
  have hclosed := Nat.le_trans (p.length_closedNames_le []) hd
  have hbound := Plays.collect (fun item => p.plays_inlineItem pads hclosed item) p.root
  exact (hbound.events_eq 0 hz).trans ((p.plays_inlined pads).events_eq 0 hz).symm

/-- Lengths, layouts and events are resolved with calls nested no deeper than there are
groups and super-groups, and with every path in order. -/
theorem resolution_within_bound (hbound : p.groups.size + p.supers.size ≤ bound) :
    (∀ item, p.boundedSteps? pads bound [] item = some (p.steps pads item)) ∧
    (∀ container, ((p.sequence? container).getD []).mapM (p.boundedSteps? pads bound []) =
      some ((p.tokens pads container).map (·.steps))) ∧
    p.boundedEvents? pads bound [] 0 p.root = some (p.events pads) ∧
    (∀ item, p.stepsWithin pads bound [] item = p.steps pads item) ∧
    collectEvents (p.stepsWithin pads bound []) (p.itemEvents pads bound []) 0 p.root =
      p.events pads ∧
    ∀ path, p.IsPath path → path.length ≤ p.groups.size + p.supers.size := by
  have hd : p.depth ≤ ([] : List GroupName).length + bound := by
    rwa [List.length_nil, Nat.zero_add]
  have hsteps : ∀ item, p.boundedSteps? pads bound [] item = some (p.steps pads item) := by
    intro item
    rw [boundedSteps?_eq_some p.isPath_nil hd, stepsWithin_eq_steps hbound]
  refine ⟨hsteps, fun container => ?_, ?_, stepsWithin_eq_steps hbound,
    collectEvents_eq_events hbound, fun path h => h.length_le⟩
  · rw [mapM_eq_some_map fun item _ => hsteps item, tokens, placeFrom_map_steps]
  · rw [boundedEvents?_eq_some p.isPath_nil hd, collectEvents_eq_events hbound]

theorem resolution_within_bound_of_cycle :
    let g : GroupName := ⟨.group, "g1"⟩
    let s : GroupName := ⟨.super, "s1"⟩
    let p := (({ root := [.pad 7, .call g] } : Pattern).define g [.call s]).define s
      [.call g, .pad 0]
    let pads : PadLengths := { fallback := 4 }
    p.groups.size + p.supers.size ≤ 2 ∧ p.boundedSteps? pads 2 [] (.call g) = some 8 ∧
      p.boundedEvents? pads 2 [] 0 p.root = some [⟨7, 0, 4⟩, ⟨0, 8, 12⟩] := by
  intro g s p pads
  have hbound : p.groups.size + p.supers.size ≤ 2 := by decide
  obtain ⟨hsteps, -, hevents, -⟩ := @resolution_within_bound p pads 2 hbound
  exact ⟨hbound, (hsteps (.call g)).trans (by decide), hevents.trans (by decide)⟩

end Pattern

end Groovebox

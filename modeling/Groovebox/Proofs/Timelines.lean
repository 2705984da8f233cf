import Mathlib.Data.List.Chain
import Groovebox.Proofs.Layout

/-! Tokens tile their timeline. Each token begins where the one before it ends, so a step
before the end of the timeline is covered by one token and a later step by none. Once the
last step is reached the tokens are empty and cover nothing. -/

namespace Groovebox

/-- The tokens are those of `items`, and they tile the steps of the timeline. -/
structure Timeline.IsTiled (timeline : Timeline) (items : List Item) (length : Item → Nat) :
    Prop where
  items_eq : timeline.tokens.map (·.item) = items
  indices_eq : timeline.tokens.map (·.index) = List.range items.length
  lengths_eq : timeline.tokens.map (·.steps) = items.map length
  first_start : ∀ t, timeline.tokens.head? = some t → t.start = 0
  adjacent : timeline.tokens.IsChain fun s t => s.stop = t.start
  /-- A timeline without tokens ends where it begins. -/
  last_stop : (timeline.tokens.getLast?.map (·.stop)).getD 0 = timeline.steps
  whole : ∀ t ∈ timeline.tokens, quantum ≤ t.steps ∧ (quantum ∣ t.steps ∨ t.steps = maxStep)
  exact_steps : timeline.steps < maxStep → ∀ t ∈ timeline.tokens, t.stop - t.start = t.steps
  isSome_at?_iff : ∀ step, (timeline.at? step).isSome ↔ step < timeline.steps
  /-- The token that is found is the only one that covers the step. -/
  at?_eq_some_iff : ∀ step t,
    timeline.at? step = some t ↔ t ∈ timeline.tokens ∧ t.covers step = true
  empty_iff : ∀ t ∈ timeline.tokens, t.start = t.stop ↔ t.start = maxStep
  covers_of_last : ∀ t ∈ timeline.tokens, t.start = maxStep → ∀ step, t.covers step = false

variable {length : Item → Nat} {items : List Item} {index cursor step : Nat} {s t : Token}

theorem Token.covers_iff : t.covers step = true ↔ t.start ≤ step ∧ step < t.stop := by
  simp [covers]

theorem placeFrom_map_index (length : Item → Nat) (items : List Item) (index cursor : Nat) :
    (placeFrom length index cursor items).map (·.index) = List.range' index items.length := by
  induction items generalizing index cursor with
  | nil => rfl
  | cons item rest ih => simp [placeFrom, ih, List.range'_succ]

theorem stop_eq_of_mem_placeFrom (h : t ∈ placeFrom length index cursor items) :
    t.steps = length t.item ∧ t.stop = satAdd t.start t.steps := by
  induction items generalizing index cursor with
  | nil => simp [placeFrom] at h
  | cons item rest ih =>
    rcases List.mem_cons.mp h with rfl | h
    · exact ⟨rfl, rfl⟩
    · exact ih h

theorem start_of_head?_placeFrom (h : (placeFrom length index cursor items).head? = some t) :
    t.start = cursor := by
  cases items with
  | nil => simp [placeFrom] at h
  | cons item rest => exact Option.some.inj h ▸ rfl

theorem placeFrom_isChain (length : Item → Nat) (items : List Item) (index cursor : Nat) :
    (placeFrom length index cursor items).IsChain fun s t => s.stop = t.start := by
  induction items generalizing index cursor with
  | nil => exact .nil
  | cons item rest ih =>
    refine List.isChain_cons.mpr ⟨fun t ht => ?_, ih _ _⟩
    exact (start_of_head?_placeFrom ht).symm

theorem getLast?_placeFrom_stop (length : Item → Nat) (items : List Item) (index cursor : Nat) :
    ((placeFrom length index cursor items).getLast?.map (·.stop)).getD cursor =
      endFrom length cursor items := by
  induction items generalizing index cursor with
  | nil => rfl
  | cons item rest ih =>
    rw [placeFrom, List.getLast?_cons, Option.map_some, Option.getD_some, endFrom_cons,
      ← ih (index + 1)]
    cases (placeFrom length (index + 1) (satAdd cursor (length item)) rest).getLast? <;> rfl

theorem exists_covers_placeFrom_iff (hc : cursor ≤ maxStep) :
    (∃ t ∈ placeFrom length index cursor items, t.covers step = true) ↔
      cursor ≤ step ∧ step < endFrom length cursor items := by
  constructor
  · rintro ⟨t, ht, hcovers⟩
    obtain ⟨hstart, hstop⟩ := Token.covers_iff.mp hcovers
    obtain ⟨hle, -, hend⟩ := bounds_of_mem_placeFrom hc ht
    exact ⟨Nat.le_trans hle hstart, Nat.lt_of_lt_of_le hstop hend⟩
  · rintro ⟨hle, hlt⟩
    induction items generalizing index cursor with
    | nil => exact absurd hlt (Nat.not_lt.mpr hle)
    | cons item rest ih =>
      by_cases hhere : step < satAdd cursor (length item)
      · exact ⟨_, List.mem_cons_self, Token.covers_iff.mpr ⟨hle, hhere⟩⟩
      · obtain ⟨t, ht, hcovers⟩ := ih (satAdd_le_maxStep _ _) (Nat.not_lt.mp hhere) hlt
        exact ⟨t, List.mem_cons_of_mem _ ht, hcovers⟩

/-- Two tokens that cover one step are the same. -/
theorem eq_of_covers (hc : cursor ≤ maxStep) (hs : s ∈ placeFrom length index cursor items)
    (ht : t ∈ placeFrom length index cursor items) (hsc : s.covers step = true)
    (htc : t.covers step = true) : s = t := by
  have hsame : (placeFrom length index cursor items).Pairwise fun s t =>
      s.covers step = true → t.covers step = true → s = t := by
    refine (placeFrom_pairwise items index hc).imp fun {s t} hle hs ht => ?_
    have hstop := (Token.covers_iff.mp hs).2
    have hstart := (Token.covers_iff.mp ht).1
    omega
  have hsymm : Std.Symm fun s t : Token => s.covers step = true → t.covers step = true → s = t :=
    ⟨fun s t h ht hs => (h hs ht).symm⟩
  exact hsame.forall_of_forall (fun _ _ _ _ => rfl) hs ht hsc htc

theorem find?_covers_eq_some_iff (hc : cursor ≤ maxStep) :
    (placeFrom length index cursor items).find? (·.covers step) = some t ↔
      t ∈ placeFrom length index cursor items ∧ t.covers step = true := by
  have hfound : ∀ s, (placeFrom length index cursor items).find? (·.covers step) = some s →
      s ∈ placeFrom length index cursor items ∧ s.covers step = true :=
    fun s h => ⟨List.mem_of_find?_eq_some h, by simpa using List.find?_some h⟩
  refine ⟨hfound t, fun ⟨ht, hcovers⟩ => ?_⟩
  have hsome : ((placeFrom length index cursor items).find? (·.covers step)).isSome :=
    List.find?_isSome.mpr ⟨t, ht, hcovers⟩
  obtain ⟨s, hs⟩ := Option.isSome_iff_exists.mp hsome
  rw [hs, eq_of_covers hc (hfound s hs).1 ht (hfound s hs).2 hcovers]

/-- Only at the last step a token is empty. -/
theorem start_eq_stop_iff_of_mem_placeFrom (hm : Measures length) (hc : cursor ≤ maxStep)
    (h : t ∈ placeFrom length index cursor items) : t.start = t.stop ↔ t.start = maxStep := by
  obtain ⟨-, hle, hend⟩ := bounds_of_mem_placeFrom hc h
  obtain ⟨hsteps, hstop⟩ := stop_eq_of_mem_placeFrom h
  have hlast : t.stop ≤ maxStep := Nat.le_trans hend (endFrom_le_maxStep hc items)
  have hpos : 0 < t.steps := hsteps ▸ hm.pos t.item
  constructor
  · intro heq
    by_contra hne
    have hlt := lt_satAdd (by omega : t.start < maxStep) hpos
    omega
  · omega

namespace Pattern

/-- The tokens of a container are its items in order, and they tile its timeline. -/
theorem timeline_isTiled (p : Pattern) (pads : PadLengths) (container : Container)
    (showPauses : Bool) :
    (p.timeline pads container showPauses).IsTiled ((p.sequence? container).getD [])
      (p.steps pads) := by
  have hz := Nat.zero_le maxStep
  have hm := p.measures_steps pads
  generalize hitems : (p.sequence? container).getD [] = items
  have htokens : (p.timeline pads container showPauses).tokens =
      placeFrom (p.steps pads) 0 0 items := by rw [timeline, tokens, hitems]
  have hsteps : (p.timeline pads container showPauses).steps =
      endFrom (p.steps pads) 0 items := by rw [timeline, hitems, total_map]
  constructor
  case items_eq => rw [htokens, placeFrom_map_item]
  case indices_eq => rw [htokens, placeFrom_map_index, List.range_eq_range']
  case lengths_eq => rw [htokens, placeFrom_map_steps]
  case first_start =>
    rw [htokens]
    exact fun t => start_of_head?_placeFrom
  case adjacent =>
    rw [htokens]
    exact placeFrom_isChain _ items 0 0
  case last_stop => rw [htokens, hsteps, getLast?_placeFrom_stop]
  case whole =>
    intro t ht
    rw [htokens] at ht
    have hwhole := hm.whole t.item
    rw [(stop_eq_of_mem_placeFrom ht).1]
    refine ⟨?_, hwhole.2⟩
    rw [← quantize_of_isWhole hwhole (hm.pos t.item)]
    exact quantum_le_quantize _
  case exact_steps =>
    intro hlt t ht
    rw [htokens] at ht
    rw [hsteps] at hlt
    obtain ⟨-, -, hend⟩ := bounds_of_mem_placeFrom hz ht
    have hstop := (stop_eq_of_mem_placeFrom ht).2
    have hexact := satAdd_of_lt (hstop ▸ Nat.lt_of_le_of_lt hend hlt)
    omega
  case isSome_at?_iff =>
    intro step
    rw [Timeline.at?, List.find?_isSome, htokens, hsteps, exists_covers_placeFrom_iff hz]
    exact and_iff_right (Nat.zero_le step)
  case at?_eq_some_iff =>
    intro step t
    rw [Timeline.at?, htokens, find?_covers_eq_some_iff hz]
  case empty_iff =>
    rw [htokens]
    exact fun t => start_eq_stop_iff_of_mem_placeFrom hm hz
  case covers_of_last =>
    intro t ht hlast step
    rw [htokens] at ht
    have hempty := (start_eq_stop_iff_of_mem_placeFrom hm hz ht).mpr hlast
    rw [← Bool.not_eq_true, Token.covers_iff]
    omega

/-- Behind a rest that reaches the last step the pad takes no step at all. -/
example :
    let p : Pattern := { root := [.pause 4294967295, .pad 0] }
    (p.tokens {} .root).map (fun t => (t.start, t.stop, t.steps)) =
      [(0, maxStep, maxStep), (maxStep, maxStep, 16)] := by
  decide

end Pattern

end Groovebox

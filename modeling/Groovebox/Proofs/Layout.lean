import Groovebox.Timeline
import Groovebox.Proofs.Saturation

/-! Items laid end to end. What is heard of a layout is its content: the places of
the items that are no pauses. Layouts compose: a run of items takes the cursor
from one step, `cursor`, to another, `endFrom`, and leaves its content behind,
`spansFrom`. -/

namespace Groovebox

structure Span where
  item : Item
  start : Nat
  stop : Nat
  deriving DecidableEq, Repr

/-- The span moved so that what was at step `source` is at step `target`. -/
def Span.shift (source target : Nat) (s : Span) : Span :=
  ⟨s.item, s.start - source + target, s.stop - source + target⟩

def Token.span (t : Token) : Span := ⟨t.item, t.start, t.stop⟩

def content (tokens : List Token) : List Span := (tokens.filter (!·.isPause)).map Token.span

def endFrom (length : Item → Nat) (cursor : Nat) (items : List Item) : Nat :=
  (items.map length).foldl satAdd cursor

def spansFrom (length : Item → Nat) : Nat → List Item → List Span
  | _, [] => []
  | cursor, item :: rest =>
    let stop := satAdd cursor (length item)
    if item.isPause then spansFrom length stop rest
    else ⟨item, cursor, stop⟩ :: spansFrom length stop rest

def lastStop (start : Nat) (spans : List Span) : Nat := (spans.getLast?.map (·.stop)).getD start

/-- Pauses are as long as they say, in whole quanta. -/
def MeasuresRests (length : Item → Nat) : Prop :=
  ∀ steps, length (.pause steps) = quantize steps.toNat

/-- Every item occupies whole quanta, at least one. -/
structure Measures (length : Item → Nat) : Prop where
  rests : MeasuresRests length
  whole : ∀ item, IsWhole (length item)
  pos : ∀ item, 0 < length item

variable {length : Item → Nat}

theorem lastStop_cons (start : Nat) (s : Span) (spans : List Span) :
    lastStop start (s :: spans) = lastStop s.stop spans := by
  rw [lastStop, lastStop, List.getLast?_cons]
  cases spans.getLast? <;> rfl

@[simp]
theorem endFrom_nil (cursor : Nat) : endFrom length cursor [] = cursor := rfl

@[simp]
theorem endFrom_cons (cursor : Nat) (item : Item) (rest : List Item) :
    endFrom length cursor (item :: rest) = endFrom length (satAdd cursor (length item)) rest := rfl

@[simp]
theorem endFrom_append (cursor : Nat) (xs ys : List Item) :
    endFrom length cursor (xs ++ ys) = endFrom length (endFrom length cursor xs) ys := by
  simp [endFrom]

theorem endFrom_eq {cursor : Nat} (hc : cursor ≤ maxStep) (items : List Item) :
    endFrom length cursor items = satAdd cursor (items.map length).sum :=
  foldl_satAdd _ hc

theorem endFrom_le_maxStep {cursor : Nat} (hc : cursor ≤ maxStep) (items : List Item) :
    endFrom length cursor items ≤ maxStep := by
  rw [endFrom_eq hc]
  exact satAdd_le_maxStep _ _

theorem le_endFrom {cursor : Nat} (hc : cursor ≤ maxStep) (items : List Item) :
    cursor ≤ endFrom length cursor items := by
  rw [endFrom_eq hc]
  exact le_satAdd hc _

theorem isWhole_endFrom (hm : Measures length) {cursor : Nat} (hc : IsWhole cursor)
    (items : List Item) : IsWhole (endFrom length cursor items) := by
  induction items generalizing cursor with
  | nil => exact hc
  | cons item rest ih => exact ih (hc.satAdd (hm.whole item))

theorem total_map (length : Item → Nat) (items : List Item) :
    total (items.map length) = endFrom length 0 items := rfl

@[simp]
theorem spansFrom_append (cursor : Nat) (xs ys : List Item) :
    spansFrom length cursor (xs ++ ys) =
      spansFrom length cursor xs ++ spansFrom length (endFrom length cursor xs) ys := by
  induction xs generalizing cursor with
  | nil => rfl
  | cons x xs ih =>
    by_cases hp : x.isPause = true <;> simp [spansFrom, hp, ih]

theorem content_append (xs ys : List Token) : content (xs ++ ys) = content xs ++ content ys := by
  simp [content]

theorem content_placeFrom (items : List Item) (index cursor : Nat) :
    content (placeFrom length index cursor items) = spansFrom length cursor items := by
  induction items generalizing index cursor with
  | nil => rfl
  | cons item rest ih =>
    have hh := ih (index + 1) (satAdd cursor (length item))
    by_cases hp : item.isPause = true
    · simpa [placeFrom, spansFrom, content, Token.isPause, hp] using hh
    · simpa [placeFrom, spansFrom, content, Token.isPause, Token.span, hp] using hh

theorem spansFrom_map_item (length : Item → Nat) (items : List Item) (cursor : Nat) :
    (spansFrom length cursor items).map (·.item) = items.filter (!·.isPause) := by
  induction items generalizing cursor with
  | nil => rfl
  | cons item rest ih =>
    by_cases hp : item.isPause = true <;> simp [spansFrom, hp, ih]

theorem length_placeFrom (length : Item → Nat) (items : List Item) (index cursor : Nat) :
    (placeFrom length index cursor items).length = items.length := by
  rw [← List.length_map, placeFrom_map_item]

theorem placeFrom_append (xs ys : List Item) (index cursor : Nat) :
    placeFrom length index cursor (xs ++ ys) =
      placeFrom length index cursor xs ++
        placeFrom length (index + xs.length) (endFrom length cursor xs) ys := by
  induction xs generalizing index cursor with
  | nil => rfl
  | cons x xs ih =>
    simp only [List.cons_append, placeFrom, ih, List.length_cons, endFrom_cons]
    rw [Nat.add_assoc, Nat.add_comm 1]

theorem placeFrom_map_steps (length : Item → Nat) (items : List Item) (index cursor : Nat) :
    (placeFrom length index cursor items).map (·.steps) = items.map length := by
  induction items generalizing index cursor with
  | nil => rfl
  | cons item rest ih => simp [placeFrom, ih]

theorem getElem?_placeFrom (length : Item → Nat) (xs ys : List Item) (x : Item)
    (index cursor : Nat) :
    (placeFrom length index cursor (xs ++ x :: ys))[xs.length]? =
      some ⟨index + xs.length, x, endFrom length cursor xs,
        satAdd (endFrom length cursor xs) (length x), length x⟩ := by
  have hlen := length_placeFrom length xs index cursor
  rw [placeFrom_append, List.getElem?_append_right (by omega), hlen, Nat.sub_self]
  rfl

theorem index_of_mem_placeFrom {items : List Item} {index cursor : Nat} {t : Token}
    (h : t ∈ placeFrom length index cursor items) :
    index ≤ t.index ∧ t.index < index + items.length := by
  induction items generalizing index cursor with
  | nil => simp [placeFrom] at h
  | cons item rest ih =>
    rcases List.mem_cons.mp h with rfl | h
    · simp
    · have hh := ih h
      simp only [List.length_cons]
      omega

theorem bounds_of_mem_placeFrom {items : List Item} {index cursor : Nat} {t : Token}
    (hc : cursor ≤ maxStep) (h : t ∈ placeFrom length index cursor items) :
    cursor ≤ t.start ∧ t.start ≤ t.stop ∧ t.stop ≤ endFrom length cursor items := by
  induction items generalizing index cursor with
  | nil => simp [placeFrom] at h
  | cons item rest ih =>
    have hle := le_satAdd hc (length item)
    have hs := satAdd_le_maxStep cursor (length item)
    rcases List.mem_cons.mp h with rfl | h
    · exact ⟨Nat.le_refl _, hle, le_endFrom hs rest⟩
    · obtain ⟨h₁, h₂, h₃⟩ := ih hs h
      exact ⟨Nat.le_trans hle h₁, h₂, h₃⟩

theorem placeFrom_pairwise (items : List Item) (index : Nat) {cursor : Nat}
    (hc : cursor ≤ maxStep) :
    (placeFrom length index cursor items).Pairwise fun s t => s.stop ≤ t.start := by
  induction items generalizing index cursor with
  | nil => exact .nil
  | cons item rest ih =>
    have hs := satAdd_le_maxStep cursor (length item)
    exact List.pairwise_cons.mpr
      ⟨fun t ht => (bounds_of_mem_placeFrom hs ht).1, ih (index + 1) hs⟩

/-- A run of items that fits at both places has the same content there, moved. -/
theorem spansFrom_shift {items : List Item} {source target : Nat} (offset : Nat)
    (hs : source + offset + (items.map length).sum ≤ maxStep)
    (ht : target + offset + (items.map length).sum ≤ maxStep) :
    spansFrom length (target + offset) items =
      (spansFrom length (source + offset) items).map (Span.shift source target) := by
  induction items generalizing offset with
  | nil => rfl
  | cons item rest ih =>
    rw [List.map_cons, List.sum_cons] at hs ht
    have hh := ih (offset + length item) (by omega) (by omega)
    have hsource : satAdd (source + offset) (length item) = source + (offset + length item) := by
      rw [satAdd_of_le (by omega)]
      omega
    have htarget : satAdd (target + offset) (length item) = target + (offset + length item) := by
      rw [satAdd_of_le (by omega)]
      omega
    by_cases hp : item.isPause = true
    · simpa [spansFrom, hp, hsource, htarget] using hh
    · simp [spansFrom, hp, hsource, htarget, hh, Span.shift]
      omega

/-- `items` laid from `cursor` on have the content `spans` and end at `stop`. -/
structure Lays (length : Item → Nat) (cursor : Nat) (items : List Item) (spans : List Span)
    (stop : Nat) : Prop where
  spans_eq : spansFrom length cursor items = spans
  stop_eq : endFrom length cursor items = stop

namespace Lays

variable {cursor middle stop : Nat} {xs ys : List Item} {s t : List Span}

theorem append (hx : Lays length cursor xs s middle) (hy : Lays length middle ys t stop) :
    Lays length cursor (xs ++ ys) (s ++ t) stop := by
  obtain ⟨rfl, rfl⟩ := hx
  obtain ⟨rfl, rfl⟩ := hy
  exact ⟨spansFrom_append _ _ _, endFrom_append _ _ _⟩

theorem congr {other : Item → Nat} (he : ∀ item ∈ xs, other item = length item)
    (h : Lays length cursor xs s stop) : Lays other cursor xs s stop := by
  obtain ⟨rfl, rfl⟩ := h
  induction xs generalizing cursor with
  | nil => exact ⟨rfl, rfl⟩
  | cons x xs ih =>
    obtain ⟨hs, he'⟩ := @ih (satAdd cursor (length x))
      fun item hm => he item (List.mem_cons_of_mem _ hm)
    exact ⟨by simp only [spansFrom, he x List.mem_cons_self, hs],
      by simp only [endFrom_cons, he x List.mem_cons_self, he']⟩

end Lays

namespace Pattern

theorem exists_stepsWithin_eq_quantize (p : Pattern) (pads : PadLengths) (depth : Nat)
    (path : List GroupName) (item : Item) :
    ∃ steps, p.stepsWithin pads depth path item = quantize steps := by
  have hq : quantum = quantize 0 := rfl
  cases item with
  | pad pad => exact ⟨_, by cases depth <;> rfl⟩
  | pause steps => exact ⟨_, by cases depth <;> rfl⟩
  | call name =>
    cases depth with
    | zero => exact ⟨0, rfl⟩
    | succ depth =>
      rw [stepsWithin]
      split
      · exact ⟨0, rfl⟩
      · split
        · exact ⟨0, rfl⟩
        · exact ⟨_, rfl⟩

theorem measures_stepsWithin (p : Pattern) (pads : PadLengths) (depth : Nat)
    (path : List GroupName) : Measures (p.stepsWithin pads depth path) where
  rests steps := by cases depth <;> rfl
  whole item := by
    obtain ⟨steps, he⟩ := p.exists_stepsWithin_eq_quantize pads depth path item
    rw [he]
    exact isWhole_quantize steps
  pos item := by
    obtain ⟨steps, he⟩ := p.exists_stepsWithin_eq_quantize pads depth path item
    rw [he]
    exact Nat.lt_of_lt_of_le (by decide) (quantum_le_quantize steps)

theorem measures_steps (p : Pattern) (pads : PadLengths) : Measures (p.steps pads) :=
  p.measures_stepsWithin pads p.depth []

end Pattern

end Groovebox

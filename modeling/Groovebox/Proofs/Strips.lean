import Groovebox.Display
import Groovebox.Proofs.Timelines

/-! The strip of a timeline is to scale. Before the last step each token begins on the grid and
takes whole quanta, a cell for each. So the cell at an index is that of the token which covers
the step there. -/

namespace Groovebox.Display

/-- The character of the first quantum of an item. -/
inductive HeadMark : Item → Char → Prop
  | digit {pad : UInt8} (h : pad.toNat < 10) : HeadMark (.pad pad) pad.toNat.digitChar
  | unknown {pad : UInt8} (h : 10 ≤ pad.toNat) : HeadMark (.pad pad) '?'
  | pause (steps : UInt32) : HeadMark (.pause steps) '·'
  | group (id : String) : HeadMark (.call ⟨.group, id⟩) 'G'
  | super (id : String) : HeadMark (.call ⟨.super, id⟩) 'S'

/-- The character of the other quanta of an item. -/
inductive HoldMark : Item → Char → Prop
  | pad (pad : UInt8) : HoldMark (.pad pad) '─'
  | pause (steps : UInt32) : HoldMark (.pause steps) '·'
  | call (name : GroupName) : HoldMark (.call name) '─'

variable {length : Item → Nat} {items : List Item} {index cursor k : Nat} {t : Token}

theorem headMark_headCell (item : Item) : HeadMark item (headCell item) := by
  cases item with
  | pad pad =>
    have hdigit : ∀ d < 10, Char.ofNat ('0'.toNat + d) = d.digitChar := by decide
    rw [headCell]
    split_ifs with h
    · rw [hdigit _ h]
      exact .digit h
    · exact .unknown (Nat.not_lt.mp h)
  | pause steps => exact .pause steps
  | call name =>
    obtain ⟨kind, id⟩ := name
    cases kind with
    | group => exact .group id
    | super => exact .super id

theorem holdMark_holdCell (item : Item) : HoldMark item (holdCell item) := by
  cases item with
  | pad pad => exact .pad pad
  | pause steps => exact .pause steps
  | call name => exact .call name

/-- What stands in the strip for a step that the token covers. -/
def cellAt (t : Token) (step : Nat) : Char :=
  if t.start = step then headCell t.item else holdCell t.item

theorem length_tokenCells {count : Nat} (hcount : 0 < count) (h : t.steps = quantum * count) :
    (tokenCells t).length = count := by
  rw [tokenCells, h, Nat.mul_div_cancel_left count (by decide), List.length_cons,
    List.length_replicate, Nat.sub_add_cancel hcount]

theorem getElem?_tokenCells {count : Nat} (h : t.steps = quantum * count) (hk : k < count) :
    (tokenCells t)[k]? = some (cellAt t (t.start + quantum * k)) := by
  rw [tokenCells, h, Nat.mul_div_cancel_left count (by decide)]
  cases k with
  | zero => simp [cellAt]
  | succ k =>
    have hhold : t.start ≠ t.start + quantum * (k + 1) := by
      simp only [quantum]
      omega
    rw [List.getElem?_cons_succ, List.getElem?_replicate_of_lt (by omega), cellAt, if_neg hhold]

/-- Before the last step an item takes whole quanta, none of which is cut off. -/
theorem exists_quanta (hm : Measures length) {item : Item} {rest : List Item}
    (h : endFrom length cursor (item :: rest) < maxStep) :
    ∃ count, 0 < count ∧ length item = quantum * count ∧
      satAdd cursor (length item) = cursor + quantum * count := by
  have hle : satAdd cursor (length item) ≤ endFrom length cursor (item :: rest) :=
    le_endFrom (satAdd_le_maxStep _ _) rest
  have hexact := satAdd_of_lt (Nat.lt_of_le_of_lt hle h)
  obtain ⟨count, hcount⟩ := (hm.whole item).dvd (by omega)
  exact ⟨count, Nat.pos_of_mul_pos_left (hcount ▸ hm.pos item), hcount, by rw [hexact, hcount]⟩

theorem length_cells (hm : Measures length) (hlt : endFrom length cursor items < maxStep) :
    cursor + quantum * ((placeFrom length index cursor items).flatMap tokenCells).length =
      endFrom length cursor items := by
  induction items generalizing index cursor with
  | nil => rfl
  | cons item rest ih =>
    obtain ⟨count, hcount, hsteps, hstop⟩ := exists_quanta hm hlt
    rw [endFrom_cons] at hlt ⊢
    rw [← @ih (index + 1) _ hlt, placeFrom, List.flatMap_cons, List.length_append,
      length_tokenCells hcount hsteps, Nat.mul_add, ← Nat.add_assoc, ← hstop]

theorem getElem?_cells (hm : Measures length) (hlt : endFrom length cursor items < maxStep)
    (ht : t ∈ placeFrom length index cursor items)
    (hcovers : t.covers (cursor + quantum * k) = true) :
    ((placeFrom length index cursor items).flatMap tokenCells)[k]? =
      some (cellAt t (cursor + quantum * k)) := by
  induction items generalizing index cursor k with
  | nil => exact absurd ht List.not_mem_nil
  | cons item rest ih =>
    obtain ⟨count, hcount, hsteps, hstop⟩ := exists_quanta hm hlt
    rw [endFrom_cons] at hlt
    obtain ⟨hstart, hend⟩ := Token.covers_iff.mp hcovers
    rw [placeFrom, List.flatMap_cons]
    rcases List.mem_cons.mp ht with rfl | ht
    · have hk : k < count := by
        simp only [hstop] at hend
        exact Nat.lt_of_mul_lt_mul_left (Nat.lt_of_add_lt_add_left hend)
      rw [List.getElem?_append_left (by rwa [length_tokenCells hcount hsteps]),
        getElem?_tokenCells hsteps hk]
    · have hbegins := (bounds_of_mem_placeFrom (satAdd_le_maxStep _ _) ht).1
      have hk : count ≤ k := by
        simp only [quantum] at hstop hstart
        omega
      obtain ⟨more, rfl⟩ := Nat.exists_eq_add_of_le hk
      have hstep : cursor + quantum * (count + more) =
          satAdd cursor (length item) + quantum * more := by
        rw [hstop, Nat.mul_add, Nat.add_assoc]
      rw [List.getElem?_append_right (by rw [length_tokenCells hcount hsteps]; exact hk),
        length_tokenCells hcount hsteps, Nat.add_sub_cancel_left, hstep]
      exact ih hlt ht (hstep ▸ hcovers)

/-- A strip has a cell for each quantum of the timeline. The cell at an index shows the token
that covers the first step of that quantum, and whether the token begins there. -/
theorem strip_to_scale {p : Pattern} {pads : PadLengths} {container : Container}
    {showPauses : Bool} (h : (p.timeline pads container showPauses).steps < maxStep) :
    let line := p.timeline pads container showPauses
    quantum * (strip line).length = line.steps ∧ (strip line).length = line.steps / quantum ∧
      ∀ k < line.steps / quantum, ∃ t c, line.at? (quantum * k) = some t ∧
        (strip line)[k]? = some c ∧
          if t.start = quantum * k then HeadMark t.item c else HoldMark t.item c := by
  intro line
  have hm := p.measures_steps pads
  have hcells : quantum * (strip line).length = line.steps := by
    have hlength : 0 + quantum * (strip line).length = line.steps := length_cells hm h
    rwa [Nat.zero_add] at hlength
  have hcount : (strip line).length = line.steps / quantum := by
    rw [← hcells, Nat.mul_div_cancel_left _ (by decide)]
  refine ⟨hcells, hcount, fun k hk => ?_⟩
  have hz := Nat.zero_le maxStep
  have hin : quantum * k < line.steps := by
    rw [← hcells, hcount]
    exact Nat.mul_lt_mul_of_pos_left hk (by decide)
  obtain ⟨t, hmem, hcovers⟩ := (exists_covers_placeFrom_iff hz).mpr ⟨Nat.zero_le _, hin⟩
  have ht : line.at? (quantum * k) = some t := (find?_covers_eq_some_iff hz).mpr ⟨hmem, hcovers⟩
  have hcell : (strip line)[k]? = some (cellAt t (0 + quantum * k)) :=
    getElem?_cells hm h hmem (by rwa [Nat.zero_add])
  refine ⟨t, _, ht, hcell, ?_⟩
  rw [Nat.zero_add, cellAt]
  split_ifs with hstart
  · exact headMark_headCell t.item
  · exact holdMark_holdCell t.item

theorem strip_to_scale_of_cycle :
    let p : Pattern :=
      { root := [.pad 3, .pause 8, .call ⟨.group, "g1"⟩, .pad 12]
        groups := .ofList [("g1", [.pad 0, .call ⟨.group, "g1"⟩])] }
    let line := p.timeline { fallback := 8 } .root false
    line.steps < maxStep ∧ strip line = "3─··G──?─".toList ∧
      quantum * (strip line).length = line.steps ∧ ∃ t c, line.at? (quantum * 5) = some t ∧
        (strip line)[5]? = some c ∧
          if t.start = quantum * 5 then HeadMark t.item c else HoldMark t.item c := by
  intro p line
  have hsteps : line.steps < maxStep := by decide
  obtain ⟨hcells, -, hcell⟩ := strip_to_scale hsteps
  exact ⟨hsteps, by decide, hcells, hcell 5 (by decide)⟩

end Groovebox.Display

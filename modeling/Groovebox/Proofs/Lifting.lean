import Groovebox.Proofs.Tiling

/-! What is left when a block is lifted. The segments tile the layout without the
block: the other items keep their steps, and the gaps between them are as long as
they can be, since no two of them touch. -/

namespace Groovebox

variable {length : Item → Nat} {cursor stop : Nat}

def Token.segment (t : Token) : Segment :=
  if t.isPause then .gap t.start t.stop else .item t.item

/-- The items of index `first` to `last` are `block`. -/
structure IsCut (items : List Item) (first last : Nat) (before block after : List Item) :
    Prop where
  items_eq : items = before ++ block ++ after
  first_eq : before.length = first
  last_eq : before.length + block.length = last + 1
  first_le : first ≤ last

theorem exists_isCut {items : List Item} {first last : Nat} (hf : first ≤ last)
    (hl : last < items.length) :
    ∃ before block after, IsCut items first last before block after := by
  refine ⟨items.take first, (items.drop first).take (last + 1 - first), items.drop (last + 1),
    ?_, ?_, ?_, hf⟩
  · have hd : items.drop (last + 1) = (items.drop first).drop (last + 1 - first) := by
      rw [List.drop_drop]
      congr 1
      omega
    rw [hd, List.append_assoc, List.take_append_drop, List.take_append_drop]
  · simp
    omega
  · simp
    omega

/-- The steps that the block takes behind the items before it. -/
def blockSteps (length : Item → Nat) (before block : List Item) : Nat :=
  endFrom length 0 (before ++ block) - endFrom length 0 before

def outside {α : Type} (first last : Nat) (xs : List α) : List α :=
  xs.take first ++ xs.drop (last + 1)

def inside {α : Type} (first last : Nat) (xs : List α) : List α :=
  (xs.drop first).take (last + 1 - first)

theorem mem_of_mem_outside {α : Type} {first last : Nat} {xs : List α} {x : α}
    (h : x ∈ outside first last xs) : x ∈ xs := by
  rcases List.mem_append.mp h with h | h
  · exact List.mem_of_mem_take h
  · exact List.mem_of_mem_drop h

theorem outside_append {α : Type} {first last : Nat} {xs ys zs : List α}
    (hf : xs.length = first) (hl : xs.length + ys.length = last + 1) :
    outside first last (xs ++ ys ++ zs) = xs ++ zs := by
  rw [outside, List.drop_left' (by simpa using hl), List.append_assoc, List.take_left' hf]

theorem inside_append {α : Type} {first last : Nat} {xs ys zs : List α}
    (hf : xs.length = first) (hl : xs.length + ys.length = last + 1) :
    inside first last (xs ++ ys ++ zs) = ys := by
  rw [inside, List.append_assoc, List.drop_left' hf, List.take_left' (by omega)]

theorem tiles_segments (hm : Measures length) (items : List Item) (index : Nat)
    (hc : IsWhole cursor) :
    Tiles length cursor ((placeFrom length index cursor items).map Token.segment)
      (endFrom length cursor items) := by
  induction items generalizing index cursor with
  | nil => rfl
  | cons item rest ih =>
    have hh := ih (index + 1) (hc.satAdd (hm.whole item))
    by_cases hp : item.isPause = true
    · simp only [placeFrom, List.map_cons, Token.segment, Token.isPause, hp, if_true]
      exact ⟨rfl, follows_satAdd hm hc item, hh⟩
    · simp only [placeFrom, List.map_cons, Token.segment, Token.isPause, hp]
      exact hh

theorem segmentSpans_segments (items : List Item) (index cursor : Nat) :
    segmentSpans length cursor ((placeFrom length index cursor items).map Token.segment) =
      spansFrom length cursor items := by
  induction items generalizing index cursor with
  | nil => rfl
  | cons item rest ih =>
    have hh := ih (index + 1) (satAdd cursor (length item))
    by_cases hp : item.isPause = true
    · simpa [placeFrom, Token.segment, Token.isPause, hp, segmentSpans, spansFrom] using hh
    · simpa [placeFrom, Token.segment, Token.isPause, hp, segmentSpans, spansFrom] using hh

theorem segment?_of_outside {t : Token} {first last : Nat} (freed : Nat) (hle : first ≤ last)
    (h : t.index < first ∨ last < t.index) :
    t.isLifted first last = false ∧ t.segment? first last freed = some t.segment := by
  have hl : t.isLifted first last = false := by
    simp only [Token.isLifted, Bool.or_eq_false_iff, Bool.and_eq_false_iff, decide_eq_false_iff_not]
    omega
  refine ⟨hl, ?_⟩
  have hne : t.index ≠ first := by omega
  by_cases hp : t.isPause = true <;> simp [Token.segment?, Token.segment, hne, hl, hp]

theorem segment?_of_inside {t : Token} {first last freed : Nat} (hf : first < t.index)
    (hl : t.index ≤ last) :
    t.isLifted first last = true ∧ t.segment? first last freed = none := by
  have hh : t.isLifted first last = true := by simp [Token.isLifted, hf, hl]
  exact ⟨hh, by simp [Token.segment?, hh, Nat.ne_of_gt hf]⟩

theorem filterMap_segment?_of_outside {tokens : List Token} {first last freed : Nat}
    (hle : first ≤ last) (h : ∀ t ∈ tokens, t.index < first ∨ last < t.index) :
    tokens.filterMap (·.segment? first last freed) = tokens.map Token.segment := by
  rw [← List.filterMap_eq_map]
  exact List.filterMap_congr fun t ht => (segment?_of_outside freed hle (h t ht)).2

namespace IsCut

variable {items before block after : List Item} {first last : Nat}

theorem tokens_eq (h : IsCut items first last before block after) :
    placeFrom length 0 0 items =
      placeFrom length 0 0 before ++
        placeFrom length first (endFrom length 0 before) block ++
          placeFrom length (last + 1) (endFrom length 0 (before ++ block)) after := by
  rw [h.items_eq, placeFrom_append, placeFrom_append, List.length_append, ← h.last_eq,
    ← h.first_eq, Nat.zero_add, Nat.zero_add]

theorem exists_head (h : IsCut items first last before block after) :
    ∃ item rest, block = item :: rest := by
  cases block with
  | nil =>
    have h₁ := h.first_eq
    have h₂ := h.last_eq
    have h₃ := h.first_le
    simp only [List.length_nil] at h₂
    omega
  | cons item rest => exact ⟨item, rest, rfl⟩

theorem exists_last (h : IsCut items first last before block after) :
    ∃ rest item, block = rest ++ [item] := by
  obtain ⟨item, rest, rfl⟩ := h.exists_head
  exact ⟨_, _, (List.dropLast_append_getLast (List.cons_ne_nil item rest)).symm⟩

theorem getElem?_first (length : Item → Nat) (h : IsCut items first last before block after) :
    ∃ item, block.head? = some item ∧ (placeFrom length 0 0 items)[first]? =
      some ⟨first, item, endFrom length 0 before,
        satAdd (endFrom length 0 before) (length item), length item⟩ := by
  obtain ⟨item, rest, rfl⟩ := h.exists_head
  have hh := getElem?_placeFrom length before (rest ++ after) item 0 0
  refine ⟨item, rfl, ?_⟩
  rwa [h.first_eq, Nat.zero_add, ← List.cons_append, ← List.append_assoc, ← h.items_eq] at hh

theorem getElem?_last (length : Item → Nat) (h : IsCut items first last before block after) :
    ∃ item tail, block.getLast? = some item ∧ (placeFrom length 0 0 items)[last]? = some tail ∧
      tail.item = item ∧ tail.stop = endFrom length 0 (before ++ block) := by
  obtain ⟨rest, item, rfl⟩ := h.exists_last
  have hlen : (before ++ rest).length = last := by
    have hl := h.last_eq
    simp only [List.length_append, List.length_singleton] at hl ⊢
    omega
  have hitems : items = (before ++ rest) ++ item :: after := by
    rw [h.items_eq]
    simp
  have hh := getElem?_placeFrom length (before ++ rest) after item 0 0
  rw [← hitems, hlen] at hh
  exact ⟨item, _, List.getLast?_concat, hh, rfl, by simp⟩

theorem lift_eq (h : IsCut items first last before block after) :
    lift (placeFrom length 0 0 items) first last =
      ((placeFrom length 0 0 before).map Token.segment ++
        .gap (endFrom length 0 before) (endFrom length 0 (before ++ block)) ::
          (placeFrom length (last + 1) (endFrom length 0 (before ++ block)) after).map
            Token.segment).foldr Segment.join [] := by
  obtain ⟨_, tail, -, htail, -, hstop⟩ := h.getElem?_last length
  obtain ⟨item, rest, hblock⟩ := h.exists_head
  have hle := h.first_le
  have hfirst := h.first_eq
  have hlast := h.last_eq
  -- The first token of the block leaves the gap of all of it, the others leave nothing.
  have hlifted (freed : Nat) : (placeFrom length first (endFrom length 0 before) block).filterMap
      (·.segment? first last freed) = [.gap (endFrom length 0 before) freed] := by
    rw [hblock, placeFrom, List.filterMap_cons_some (b := .gap (endFrom length 0 before) freed)
      (by simp [Token.segment?]), List.filterMap_eq_nil_iff.mpr]
    intro t ht
    have hi := index_of_mem_placeFrom ht
    rw [hblock, List.length_cons] at hlast
    exact (segment?_of_inside (by omega) (by omega)).2
  simp only [lift, htail, Option.map_some, Option.getD_some, hstop]
  rw [h.tokens_eq, List.filterMap_append, List.filterMap_append, hlifted,
    filterMap_segment?_of_outside hle, filterMap_segment?_of_outside hle, List.append_assoc,
    List.singleton_append]
  · intro t ht
    have hi := index_of_mem_placeFrom ht
    omega
  · intro t ht
    have hi := index_of_mem_placeFrom ht
    omega

theorem filter_outside (h : IsCut items first last before block after) :
    (placeFrom length 0 0 items).filter (fun t => !t.isPause && !t.isLifted first last) =
      (placeFrom length 0 0 before).filter (!·.isPause) ++
        (placeFrom length (last + 1) (endFrom length 0 (before ++ block)) after).filter
          (!·.isPause) := by
  have hle := h.first_le
  have hfirst := h.first_eq
  have hlast := h.last_eq
  have hout (ts : List Token) (ht : ∀ t ∈ ts, t.index < first ∨ last < t.index) :
      ts.filter (fun t => !t.isPause && !t.isLifted first last) = ts.filter (!·.isPause) := by
    refine List.filter_congr fun t hm => ?_
    rw [(segment?_of_outside 0 hle (ht t hm)).1, Bool.not_false, Bool.and_true]
  have hin : (placeFrom length first (endFrom length 0 before) block).filter
      (fun t => !t.isPause && !t.isLifted first last) = [] := by
    refine List.filter_eq_nil_iff.mpr fun t ht => ?_
    have hi := index_of_mem_placeFrom ht
    have hl : t.isLifted first last = true := by
      simp only [Token.isLifted, Bool.or_eq_true, Bool.and_eq_true, decide_eq_true_eq]
      omega
    simp [hl]
  rw [h.tokens_eq, List.filter_append, List.filter_append, hin, List.append_nil, hout, hout]
  · intro t ht
    have hi := index_of_mem_placeFrom ht
    omega
  · intro t ht
    have hi := index_of_mem_placeFrom ht
    omega

theorem outside_items (h : IsCut items first last before block after) :
    outside first last items = before ++ after := by
  rw [h.items_eq, outside_append h.first_eq h.last_eq]

theorem inside_items (h : IsCut items first last before block after) :
    inside first last items = block := by
  rw [h.items_eq, inside_append h.first_eq h.last_eq]

theorem content_outside (h : IsCut items first last before block after) :
    content (outside first last (placeFrom length 0 0 items)) =
      spansFrom length 0 before ++
        spansFrom length (endFrom length 0 (before ++ block)) after := by
  have hf := h.first_eq
  have hl := h.last_eq
  rw [h.tokens_eq, outside_append (by rwa [length_placeFrom])
    (by rwa [length_placeFrom, length_placeFrom]), content_append, content_placeFrom,
    content_placeFrom]

theorem content_inside (h : IsCut items first last before block after) :
    content (inside first last (placeFrom length 0 0 items)) =
      spansFrom length (endFrom length 0 before) block := by
  have hf := h.first_eq
  have hl := h.last_eq
  rw [h.tokens_eq, inside_append (by rwa [length_placeFrom])
    (by rwa [length_placeFrom, length_placeFrom]), content_placeFrom]

theorem follows (hm : Measures length) (h : IsCut items first last before block after) :
    Follows (endFrom length 0 before) (endFrom length 0 (before ++ block)) := by
  obtain ⟨item, rest, rfl⟩ := h.exists_head
  obtain ⟨h₁, h₂, h₃⟩ := follows_satAdd hm (isWhole_endFrom hm isWhole_zero before) item
  have hle : satAdd (endFrom length 0 before) (length item) ≤
      endFrom length (satAdd (endFrom length 0 before) (length item)) rest := le_endFrom h₂.le rest
  rw [endFrom_append, endFrom_cons]
  refine ⟨Nat.le_trans h₁ hle, isWhole_endFrom hm h₂ rest, fun hlt => ?_⟩
  exact Nat.lt_of_lt_of_le (h₃ hlt) hle

theorem freed_le (h : IsCut items first last before block after) :
    endFrom length 0 (before ++ block) ≤ endFrom length 0 items := by
  rw [h.items_eq, endFrom_append _ (before ++ block)]
  exact le_endFrom (endFrom_le_maxStep (Nat.zero_le _) _) after

theorem steps_pos (hm : Measures length) (h : IsCut items first last before block after)
    (hlt : endFrom length 0 items < maxStep) : 0 < blockSteps length before block := by
  have hfreed : endFrom length 0 (before ++ block) ≤ endFrom length 0 items := h.freed_le
  obtain ⟨hle, -, hpos⟩ := h.follows hm
  rw [blockSteps]
  omega

theorem dvd_steps (hm : Measures length) (h : IsCut items first last before block after)
    (hlt : endFrom length 0 items < maxStep) : quantum ∣ blockSteps length before block := by
  have hfreed : endFrom length 0 (before ++ block) ≤ endFrom length 0 items := h.freed_le
  obtain ⟨hle, hw, -⟩ := h.follows hm
  exact Nat.dvd_sub (hw.dvd (by omega)) ((isWhole_endFrom hm isWhole_zero before).dvd (by omega))

/-- Lifting a block leaves the rest of the layout where it was. -/
theorem frees_lift (hm : Measures length) (h : IsCut items first last before block after) :
    Frees length 0 (lift (placeFrom length 0 0 items) first last)
      (content (outside first last (placeFrom length 0 0 items))) (endFrom length 0 items) := by
  have he := isWhole_endFrom hm isWhole_zero (before ++ block)
  have hbefore := tiles_segments hm before 0 isWhole_zero
  have htiles : Tiles length 0 ((placeFrom length 0 0 before).map Token.segment ++
      .gap (endFrom length 0 before) (endFrom length 0 (before ++ block)) ::
        (placeFrom length (last + 1) (endFrom length 0 (before ++ block)) after).map
          Token.segment) (endFrom length 0 items) := by
    rw [h.items_eq, endFrom_append 0 (before ++ block) after]
    exact tiles_append.mpr ⟨_, hbefore, rfl, h.follows hm, tiles_segments hm after _ he⟩
  have hh := frees_joined htiles
  rwa [← h.lift_eq, segmentSpans_append hbefore, segmentSpans_segments, segmentSpans,
    segmentSpans_segments, ← h.content_outside] at hh

theorem contentEnd_eq (h : IsCut items first last before block after) :
    contentEnd (placeFrom length 0 0 items) first last =
      lastStop 0 (content (outside first last (placeFrom length 0 0 items))) := by
  rw [h.content_outside, ← content_placeFrom before 0, ← content_placeFrom after (last + 1),
    ← content_append, contentEnd, h.filter_outside, lastStop, content, List.filter_append,
    List.getLast?_map, Option.map_map]
  rfl

end IsCut

end Groovebox

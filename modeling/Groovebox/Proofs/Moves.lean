import Groovebox.Proofs.Planning

/-! What a move writes. Each placement leads to one sequence, in which the items
outside the block and the items of the block are those from before. -/

namespace Groovebox

def Segment.render : Segment → List Item
  | .item i => [i]
  | .gap start stop => restItems (stop - start)

/-- Gaps that no content follows are left out. -/
def Segment.renderUpTo (contentStop : Nat) : Segment → List Item
  | .item i => [i]
  | .gap start stop => if stop ≤ contentStop then restItems (stop - start) else []

/-- The sequences that the placements of `block` lead to. `segments` are what is left
of `items`, and the block has the index `first` and is to start at `target`. -/
inductive Writes (length : Item → Nat) (items : List Item) (segments : List Segment)
    (block : List Item) (first contentStop steps target : Nat) : Placement → List Item → Prop
  | swap {xs ys : List Item} {a b : Item} {other : Nat} (items_eq : items = xs ++ a :: b :: ys)
    (left : a.isPause = false) (right : b.isPause = false) (same : length a = length b)
    (place : (first = xs.length ∧ other = xs.length + 1 ∧
        target = satAdd (endFrom length 0 xs) (length a)) ∨
      (first = xs.length + 1 ∧ other = xs.length ∧ target = endFrom length 0 xs)) :
    Writes length items segments block first contentStop steps target (.swap other)
      (normalizePauses .keep (xs ++ b :: a :: ys))
  | gap {before after : List Segment} {start stop : Nat}
    (segments_eq : segments = before ++ .gap start stop :: after) (start_le : start ≤ target)
    (le_stop : target + steps ≤ stop) :
    Writes length items segments block first contentStop steps target (.gap start stop)
      (normalizePauses .keep (before.flatMap Segment.render ++
        (restItems (target - start) ++ block ++ restItems (stop - target - steps)) ++
          after.flatMap Segment.render))
  | append (content_le : contentStop ≤ target) :
    Writes length items segments block first contentStop steps target
      (.append (target - contentStop))
      (normalizePauses .drop (segments.flatMap (Segment.renderUpTo contentStop) ++
        restItems (target - contentStop) ++ block))

/-- A planned move of `block` has written `new`. -/
structure Moves (length : Item → Nat) (items before block after : List Item)
    (first last target : Nat) (placement : Placement) (new : List Item) : Prop where
  cut : IsCut items first last before block after
  grid : quantum ∣ target
  reach : target + blockSteps length before block ≤ maxStep
  plan_eq : planMove (placeFrom length 0 0 items) first last target =
    ⟨first, last, blockSteps length before block, endFrom length 0 before, target, some placement⟩
  writes : Writes length items (lift (placeFrom length 0 0 items) first last) block first
    (contentEnd (placeFrom length 0 0 items) first last) (blockSteps length before block) target
    placement new

variable {length : Item → Nat}

theorem exists_pair {items : List Item} {i : Nat} (h : i + 1 < items.length) :
    ∃ xs a b ys, items = xs ++ a :: b :: ys ∧ xs.length = i := by
  refine ⟨items.take i, items[i], items[i + 1], items.drop (i + 2), ?_, by simp; omega⟩
  rw [← List.drop_eq_getElem_cons h, ← List.drop_eq_getElem_cons (by omega),
    List.take_append_drop]

theorem swapItems_pair (xs ys : List Item) (a b : Item) :
    swapItems (xs ++ a :: b :: ys) xs.length (xs.length + 1) = xs ++ b :: a :: ys ∧
      swapItems (xs ++ a :: b :: ys) (xs.length + 1) xs.length = xs ++ b :: a :: ys := by
  simp [swapItems]

theorem getElem?_pair (length : Item → Nat) (xs ys : List Item) (a b : Item) :
    ∃ s t, (placeFrom length 0 0 (xs ++ a :: b :: ys))[xs.length]? = some s ∧
      (placeFrom length 0 0 (xs ++ a :: b :: ys))[xs.length + 1]? = some t ∧
      s.item = a ∧ t.item = b ∧ s.steps = length a ∧ t.steps = length b ∧
      s.start = endFrom length 0 xs ∧ t.start = satAdd (endFrom length 0 xs) (length a) := by
  have ha := getElem?_placeFrom length xs (b :: ys) a 0 0
  have hb := getElem?_placeFrom length (xs ++ [a]) ys b 0 0
  rw [List.append_assoc, List.singleton_append, List.length_append, List.length_singleton] at hb
  exact ⟨_, _, ha, hb, rfl, rfl, rfl, rfl, rfl, by simp⟩

theorem trades_placeFrom {items : List Item} {i j target : Nat}
    (h : Trades (placeFrom length 0 0 items) i j target) :
    ∃ xs a b ys, items = xs ++ a :: b :: ys ∧ a.isPause = false ∧ b.isPause = false ∧
      length a = length b ∧
      ((i = xs.length ∧ j = xs.length + 1 ∧
          target = satAdd (endFrom length 0 xs) (length a)) ∨
        (i = xs.length + 1 ∧ j = xs.length ∧ target = endFrom length 0 xs)) := by
  obtain ⟨moving, other, hmoving, hother, hij, hp, hp', hs, ht⟩ := h
  have hi := (List.getElem?_eq_some_iff.mp hmoving).1
  have hj := (List.getElem?_eq_some_iff.mp hother).1
  rw [length_placeFrom] at hi hj
  rcases hij with rfl | rfl
  · obtain ⟨xs, a, b, ys, rfl, rfl⟩ := exists_pair hi
    obtain ⟨s, t, hs', ht', rfl, rfl, hsl, htl, hss, -⟩ :=
      getElem?_pair length xs ys a b
    obtain rfl := Option.some.inj (hother.symm.trans hs')
    obtain rfl := Option.some.inj (hmoving.symm.trans ht')
    exact ⟨xs, _, _, ys, rfl, hp', hp, by omega, .inr ⟨rfl, rfl, by omega⟩⟩
  · obtain ⟨xs, a, b, ys, rfl, rfl⟩ := exists_pair hj
    obtain ⟨s, t, hs', ht', rfl, rfl, hsl, htl, -, hts⟩ :=
      getElem?_pair length xs ys a b
    obtain rfl := Option.some.inj (hmoving.symm.trans hs')
    obtain rfl := Option.some.inj (hother.symm.trans ht')
    exact ⟨xs, _, _, ys, rfl, hp, hp', by omega, .inl ⟨rfl, rfl, by omega⟩⟩

theorem flatMap_fill {before after : List Segment} {start stop : Nat}
    (fill : Segment → List Item) (hitem : ∀ i, fill (.item i) = [i])
    (hgap : ∀ s e, ¬(s = start ∧ e = stop) → fill (.gap s e) = restItems (e - s))
    (hb : .gap start stop ∉ before) (ha : .gap start stop ∉ after) :
    (before ++ .gap start stop :: after).flatMap fill =
      before.flatMap Segment.render ++ fill (.gap start stop) ++
        after.flatMap Segment.render := by
  have hother : ∀ segments : List Segment, .gap start stop ∉ segments →
      segments.flatMap fill = segments.flatMap Segment.render := by
    intro segments hno
    refine List.flatMap_congr fun segment hm => ?_
    cases segment with
    | item i => exact hitem i
    | gap s e =>
      refine hgap s e ?_
      rintro ⟨rfl, rfl⟩
      exact hno hm
  rw [List.flatMap_append, List.flatMap_cons, hother before hb, hother after ha,
    List.append_assoc]

theorem IsCut.writes_of_suits (hm : Measures length) {items before block after new : List Item}
    {first last target : Nat} {placement : Placement}
    (hcut : IsCut items first last before block after) (hlast : last < items.length)
    (hgrid : target % quantum = 0)
    (hreach : target + blockSteps length before block ≤ maxStep)
    (hsuits : Suits (placeFrom length 0 0 items) first last target (blockSteps length before block)
      placement)
    (h : MovePlan.result? ⟨first, last, blockSteps length before block, endFrom length 0 before,
      target, some placement⟩ (placeFrom length 0 0 items) = some new) :
    Writes length items (lift (placeFrom length 0 0 items) first last) block first
      (contentEnd (placeFrom length 0 0 items) first last) (blockSteps length before block) target
      placement new := by
  have hblock : (((placeFrom length 0 0 items).drop first).take (last + 1 - first)).map
      (·.item) = block := by
    rw [List.map_take, List.map_drop, placeFrom_map_item]
    exact hcut.inside_items
  have hok : ¬(items.length ≤ last ∨ target % quantum ≠ 0) := by omega
  simp only [MovePlan.result?, length_placeFrom, hok, if_false, hblock, placeFrom_map_item] at h
  cases hsuits with
  | @swap other alone trades =>
    obtain ⟨xs, a, b, ys, hitems, hpa, hpb, hsame, hplace⟩ := trades_placeFrom trades
    obtain ⟨_, _, -, ho, -⟩ := trades
    have hother := (List.getElem?_eq_some_iff.mp ho).1
    rw [length_placeFrom] at hother
    have hswap : swapItems items first other = xs ++ b :: a :: ys := by
      rw [hitems]
      rcases hplace with ⟨rfl, rfl, -⟩ | ⟨rfl, rfl, -⟩
      · exact (swapItems_pair xs ys a b).1
      · exact (swapItems_pair xs ys a b).2
    simp only [Nat.not_le.mpr hother, if_false, hswap, Option.some.injEq] at h
    exact h ▸ .swap hitems hpa hpb hsame hplace
  | gap mem start_le le_stop =>
    obtain ⟨htiles, -, -⟩ := hcut.frees_lift hm
    -- The target is on the grid, the last step is not.
    have hlt := (htiles.follows mem).lt (by
      simp only [maxStep, quantum] at *
      omega)
    obtain ⟨left, right, hsplit⟩ := List.append_of_mem mem
    obtain ⟨hl, hr⟩ := (hsplit ▸ htiles).gap_not_mem (Nat.zero_le _) hlt
    simp only [hsplit, MovePlan.fill, Option.some.injEq] at h
    rw [flatMap_fill _ (fun _ => rfl) (fun s e hne => if_neg hne) hl hr] at h
    simp only [and_self, if_true] at h
    exact h ▸ .gap hsplit start_le le_stop
  | append content_le =>
    exact Option.some.inj h ▸ .append content_le

theorem exists_moves_of_result? (hm : Measures length) {items new : List Item}
    {first last target : Nat}
    (h : (planMove (placeFrom length 0 0 items) first last target).result?
      (placeFrom length 0 0 items) = some new) :
    ∃ before block after placement,
      Moves length items before block after first last target placement new := by
  cases hp : (planMove (placeFrom length 0 0 items) first last target).placement with
  | none => simp [MovePlan.result?, hp] at h
  | some placement =>
    obtain ⟨head, tail, hh, ht, hle, hgrid, hreach, hplan, hsuits⟩ := planMove_cases hp
    have hlast := (List.getElem?_eq_some_iff.mp ht).1
    rw [length_placeFrom] at hlast
    obtain ⟨before, block, after, hcut⟩ := exists_isCut hle hlast
    obtain ⟨_, -, hh'⟩ := hcut.getElem?_first length
    obtain ⟨_, tail', -, ht', -, hstop⟩ := hcut.getElem?_last length
    obtain rfl := Option.some.inj (ht.symm.trans ht')
    have hstart : head.start = endFrom length 0 before :=
      congrArg Token.start (Option.some.inj (hh.symm.trans hh'))
    have hsteps : tail.stop - head.start = blockSteps length before block := by
      rw [hstop, hstart, blockSteps]
    rw [hsteps, hstart] at hplan
    rw [hsteps] at hreach hsuits
    rw [hplan] at h
    exact ⟨before, block, after, placement, hcut, Nat.dvd_of_mod_eq_zero hgrid, hreach, hplan,
      hcut.writes_of_suits hm hlast hgrid hreach hsuits h⟩

end Groovebox

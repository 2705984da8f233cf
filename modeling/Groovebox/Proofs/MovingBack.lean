import Groovebox.Proofs.Landing

/-! Moving a block back. A swap or an insert into a gap leaves the block in one piece at its
target, and the steps that it has left are free again. So it can go back there, and what that
writes is the normal form of the sequence from before: a layout that ends before the last step
says all that its normal form holds. -/

namespace Groovebox

/-- The tokens from `first` to `last` take the steps from `start` to `stop`. -/
def Occupies (tokens : List Token) (first last start stop : Nat) : Prop :=
  first ≤ last ∧ ∃ head tail, tokens[first]? = some head ∧ tokens[last]? = some tail ∧
    head.start = start ∧ tail.stop = stop

/-- The normal sequence that has its sounds in the places `spans` and ends at `stop`. -/
def writeSpans : Nat → List Span → Nat → List Item
  | cursor, [], stop => restItems (stop - cursor)
  | cursor, s :: rest, stop => restItems (s.start - cursor) ++ s.item :: writeSpans s.stop rest stop

variable {length : Item → Nat} {cursor stop : Nat}

/-! Normal forms from layouts. -/

theorem normalizeFrom_keep_eq_writeSpans (hl : MeasuresRests length) (items : List Item)
    (cursor run : Nat) (hlt : endFrom length (cursor + run) items < maxStep) :
    normalizeFrom .keep run items =
      writeSpans cursor (spansFrom length (cursor + run) items)
        (endFrom length (cursor + run) items) := by
  have hexact : ∀ {n start : Nat} {rest : List Item},
      endFrom length (satAdd start n) rest < maxStep → satAdd start n = start + n := by
    intro n start rest hend
    have hle : satAdd start n ≤ endFrom length (satAdd start n) rest :=
      le_endFrom (satAdd_le_maxStep _ _) rest
    exact satAdd_of_lt (Nat.lt_of_le_of_lt hle hend)
  induction items generalizing cursor run with
  | nil => simp [normalizeFrom, spansFrom, writeSpans]
  | cons item rest ih =>
    rw [endFrom_cons] at hlt
    have hstop := hexact hlt
    by_cases hp : item.isPause = true
    · obtain ⟨steps, rfl⟩ := exists_of_isPause hp
      rw [hl steps] at hlt hstop
      -- The run goes on where the pause ends.
      have hrun : satAdd run (quantize steps.toNat) = run + quantize steps.toNat := by
        have hle := satAdd_le_maxStep (cursor + run) (quantize steps.toNat)
        exact satAdd_of_le (by omega)
      have hsum : cursor + run + quantize steps.toNat = cursor + (run + quantize steps.toNat) := by
        omega
      rw [hstop, hsum] at hlt
      rw [normalizeFrom, hrun, ih cursor _ hlt, endFrom_cons, hl steps, hstop, hsum, spansFrom,
        if_pos hp, hl steps, hstop, hsum]
    · have hp : item.isPause = false := by simpa using hp
      have hrest := ih (satAdd (cursor + run) (length item)) 0 hlt
      rw [Nat.add_zero] at hrest
      simp only [normalizeFrom_cons _ _ hp, hrest, spansFrom, hp, Bool.false_eq_true, if_false,
        writeSpans, endFrom_cons, Nat.add_sub_cancel_left]

/-- Sequences that lay the same sounds on the same steps and end together have one normal form. -/
theorem Lays.normalizePauses_eq (hl : MeasuresRests length) {items others : List Item}
    {spans : List Span} (hitems : Lays length 0 items spans stop)
    (hothers : Lays length 0 others spans stop) (hlt : stop < maxStep) :
    normalizePauses .keep items = normalizePauses .keep others := by
  obtain ⟨rfl, rfl⟩ := hitems
  obtain ⟨hspans, hend⟩ := hothers
  have hwritten := normalizeFrom_keep_eq_writeSpans hl items 0 0 hlt
  have hwritten' := normalizeFrom_keep_eq_writeSpans hl others 0 0 (hend ▸ hlt)
  rw [normalizePauses, normalizePauses, hwritten, hwritten', Nat.add_zero, hspans, hend]

theorem spansFrom_pairwise (hm : Measures length) {items : List Item}
    (hlt : endFrom length 0 items < maxStep) :
    (spansFrom length 0 items).Pairwise fun s t => s.start < t.start := by
  have hz := Nat.zero_le maxStep
  have hapart : (placeFrom length 0 0 items).Pairwise fun s t => s.start < t.start := by
    refine (placeFrom_pairwise items 0 hz).imp_of_mem fun {s t} hs _ hle => ?_
    have hpos := start_lt_stop_of_mem_placeFrom hm hz hs hlt
    omega
  rw [← content_placeFrom items 0 0, content]
  exact List.pairwise_map.mpr (hapart.filter _)

/-- A layout is known from its sounds and their places, in whatever order these are given. -/
theorem spansFrom_eq_of_perm (hm : Measures length) {items others : List Item}
    (hlt : endFrom length 0 items < maxStep) (hlt' : endFrom length 0 others < maxStep)
    (h : (spansFrom length 0 items).Perm (spansFrom length 0 others)) :
    spansFrom length 0 items = spansFrom length 0 others :=
  h.eq_of_pairwise (fun _ _ _ _ hst hts => absurd hst (Nat.lt_asymm hts))
    (spansFrom_pairwise hm hlt) (spansFrom_pairwise hm hlt')

theorem map_shift_map_shift {spans : List Span} {source target : Nat}
    (h : ∀ s ∈ spans, source ≤ s.start ∧ s.start ≤ s.stop) :
    (spans.map (Span.shift source target)).map (Span.shift target source) = spans := by
  rw [List.map_map]
  conv_rhs => rw [← List.map_id spans]
  refine List.map_congr_left fun s hs => ?_
  obtain ⟨hstart, hstop⟩ := h s hs
  simp only [Function.comp_apply, Span.shift, Nat.add_sub_cancel, Nat.sub_add_cancel hstart,
    Nat.sub_add_cancel (Nat.le_trans hstart hstop), id]

/-! Which placement a plan takes. -/

theorem placement_planMove {tokens : List Token} {first last target : Nat} {head tail : Token}
    (hle : first ≤ last) (hh : tokens[first]? = some head) (ht : tokens[last]? = some tail)
    (hgrid : target % quantum = 0) (hreach : target + (tail.stop - head.start) ≤ maxStep) :
    (planMove tokens first last target).placement =
      (((swap? tokens first last target).map .swap)
        <|> landing? (lift tokens first last) target (target + (tail.stop - head.start))
        <|> (if contentEnd tokens first last ≤ target then
          some (.append (target - contentEnd tokens first last)) else none)) := by
  have hok : ¬(last < first ∨ target % quantum ≠ 0 ∨
      maxStep < target + (tail.stop - head.start)) := by omega
  simp only [planMove, hh, ht, hok, if_false]

theorem mem_outside_of_getElem? {α : Type} {xs : List α} {x : α} {i first last : Nat}
    (hx : xs[i]? = some x) (hi : i < first ∨ last < i) : x ∈ outside first last xs := by
  rcases hi with hi | hi
  · refine List.mem_append_left _ (List.mem_of_getElem? (i := i) ?_)
    rw [List.getElem?_take, if_pos hi, hx]
  · refine List.mem_append_right _ (List.mem_of_getElem? (i := i - (last + 1)) ?_)
    rw [List.getElem?_drop, Nat.add_sub_cancel' hi, hx]

theorem Occupies.isCut {items : List Item} {first last start stop : Nat}
    (h : Occupies (placeFrom length 0 0 items) first last start stop) :
    ∃ before block after, IsCut items first last before block after := by
  obtain ⟨hle, _, _, -, ht, -⟩ := h
  have hlast := (List.getElem?_eq_some_iff.mp ht).1
  rw [length_placeFrom] at hlast
  exact exists_isCut hle hlast

/-- A block that is cut out takes the steps between its ends. -/
theorem IsCut.occupies (length : Item → Nat) {items before block after : List Item}
    {first last : Nat} (h : IsCut items first last before block after) :
    Occupies (placeFrom length 0 0 items) first last (endFrom length 0 before)
      (endFrom length 0 (before ++ block)) := by
  obtain ⟨_, -, hfirst⟩ := h.getElem?_first length
  obtain ⟨_, tail, -, hlast, -, hstop⟩ := h.getElem?_last length
  exact ⟨h.first_le, _, tail, hfirst, hlast, rfl, hstop⟩

theorem IsCut.ends_eq {items before block after : List Item} {first last start stop : Nat}
    (h : IsCut items first last before block after)
    (ho : Occupies (placeFrom length 0 0 items) first last start stop) :
    endFrom length 0 before = start ∧ endFrom length 0 (before ++ block) = stop := by
  obtain ⟨-, head, tail, hh, ht, rfl, rfl⟩ := ho
  obtain ⟨-, head', tail', hh', ht', hstart, hstop⟩ := h.occupies length
  obtain rfl := Option.some.inj (hh.symm.trans hh')
  obtain rfl := Option.some.inj (ht.symm.trans ht')
  exact ⟨hstart.symm, hstop.symm⟩

/-- In a layout that ends before the last step the steps of a block tell its tokens. -/
theorem Occupies.unique (hm : Measures length) {items : List Item}
    (hlt : endFrom length 0 items < maxStep) {first last first' last' start stop : Nat}
    (h : Occupies (placeFrom length 0 0 items) first last start stop)
    (h' : Occupies (placeFrom length 0 0 items) first' last' start stop) :
    first = first' ∧ last = last' := by
  have hz := Nat.zero_le maxStep
  have hapart : ∀ {i j : Nat} {s t : Token}, (placeFrom length 0 0 items)[i]? = some s →
      (placeFrom length 0 0 items)[j]? = some t → i < j → s.start < t.start ∧ s.stop < t.stop := by
    intro i j s t hs ht hij
    obtain ⟨hi, rfl⟩ := List.getElem?_eq_some_iff.mp hs
    obtain ⟨hj, rfl⟩ := List.getElem?_eq_some_iff.mp ht
    have hpos := start_lt_stop_of_mem_placeFrom hm hz (List.getElem_mem hi) hlt
    have hpos' := start_lt_stop_of_mem_placeFrom hm hz (List.getElem_mem hj) hlt
    have hle := List.pairwise_iff_getElem.mp (placeFrom_pairwise items 0 hz) i j hi hj hij
    omega
  obtain ⟨-, head, tail, hh, ht, rfl, rfl⟩ := h
  obtain ⟨-, head', tail', hh', ht', hstart, hstop⟩ := h'
  constructor
  · rcases Nat.lt_trichotomy first first' with hlt | heq | hlt
    · have := (hapart hh hh' hlt).1
      omega
    · exact heq
    · have := (hapart hh' hh hlt).1
      omega
  · rcases Nat.lt_trichotomy last last' with hlt | heq | hlt
    · have := (hapart ht ht' hlt).2
      omega
    · exact heq
    · have := (hapart ht' ht hlt).2
      omega

/-- The block of `items` that has come to `target` can go back to where it was, which writes the
normal form of `items`. -/
def GoesBack (length : Item → Nat) (items : List Item) (source steps target : Nat)
    (new : List Item) : Prop :=
  ∃ first last placement, Occupies (placeFrom length 0 0 new) first last target (target + steps) ∧
    (planMove (placeFrom length 0 0 new) first last source).placement = some placement ∧
    ∀ before block after written,
      Moves length new before block after first last source placement written →
        written = normalizePauses .keep items

/-! Back from a gap. -/

/-- The block that `items` has from `first` to `last` stands in `new` from `first'` to `last'`, on
the steps from `target` on, and everything else has kept its steps. -/
structure Landed (length : Item → Nat) (items : List Item) (first last source steps target : Nat)
    (new : List Item) (first' last' : Nat) : Prop where
  occupies : Occupies (placeFrom length 0 0 new) first' last' target (target + steps)
  block_eq : content (inside first' last' (placeFrom length 0 0 new)) =
    (content (inside first last (placeFrom length 0 0 items))).map (Span.shift source target)
  others_eq : content (outside first' last' (placeFrom length 0 0 new)) =
    content (outside first last (placeFrom length 0 0 items))
  end_eq : endFrom length 0 new = endFrom length 0 items

/-- Rests within a block that begins and ends with other items stay within it. -/
theorem normalizePauses_around {front block back : List Item} (hne : block ≠ [])
    (hhead : ∀ item ∈ block.head?, item.isPause = false)
    (hlast : ∀ item ∈ block.getLast?, item.isPause = false) :
    normalizePauses .keep (front ++ block ++ back) =
      normalizePauses .keep front ++ normalizePauses .keep block ++
        normalizePauses .keep back := by
  have hfront : ∀ rest, normalizePauses .keep (front ++ (block ++ rest)) =
      normalizePauses .keep front ++ normalizePauses .keep (block ++ rest) := by
    intro rest
    obtain ⟨item, more, rfl⟩ := List.exists_cons_of_ne_nil hne
    have hitem := hhead item rfl
    rw [List.cons_append, normalizePauses_append_cons _ _ hitem, normalizePauses_cons _ hitem]
  have hback : normalizePauses .keep (block ++ back) =
      normalizePauses .keep block ++ normalizePauses .keep back := by
    obtain ⟨more, item, rfl⟩ := (List.eq_nil_or_concat' block).resolve_left hne
    have hitem := hlast item List.getLast?_concat
    have hnil : normalizePauses .keep [] = [] := rfl
    rw [List.append_assoc, List.singleton_append, normalizePauses_append_cons _ _ hitem,
      normalizePauses_append_cons _ _ hitem, hnil, List.append_assoc, List.singleton_append]
  rw [List.append_assoc, hfront, hback, List.append_assoc]

section Gap

variable {items before block after new : List Item} {first last target start gapStop : Nat}

theorem Moves.exists_landed (hm : Measures length)
    (h : Moves length items before block after first last target (.gap start gapStop) new)
    (hlt : endFrom length 0 items < maxStep)
    (hhead : ∀ item ∈ block.head?, item.isPause = false)
    (hlast : ∀ item ∈ block.getLast?, item.isPause = false) :
    ∃ first' last', Landed length items first last (endFrom length 0 before)
      (blockSteps length before block) target new first' last' := by
  obtain ⟨front, back, frontSpans, backSpans, hnew, hfront, hback, hothers⟩ :=
    h.exists_around_gap hm hlt
  obtain ⟨item, rest, hblock⟩ := h.cut.exists_head
  have hne : block ≠ [] := hblock ▸ List.cons_ne_nil item rest
  have htarget : target ≤ maxStep := Nat.le_trans (Nat.le_add_right _ _) h.reach
  have hfront := hfront.normalize_keep hm.rests
  have hmiddle := (h.lays_block hlt).normalize_keep_from hm.rests htarget
  have hback := hback.normalize_keep_from hm.rests h.reach
  rw [normalizePauses_around hne hhead hlast] at hnew
  have hpos : normalizePauses .keep block ≠ [] := by
    rw [hblock, normalizePauses_cons _ (hhead item (by rw [hblock]; rfl))]
    exact List.cons_ne_nil _ _
  have hlen := List.length_pos_iff.mpr hpos
  have hcut : IsCut new (normalizePauses .keep front).length
      ((normalizePauses .keep front).length + (normalizePauses .keep block).length - 1)
      (normalizePauses .keep front) (normalizePauses .keep block)
      (normalizePauses .keep back) := ⟨hnew, rfl, by omega, by omega⟩
  have hend : endFrom length 0 (normalizePauses .keep front ++ normalizePauses .keep block) =
      target + blockSteps length before block := (hfront.append hmiddle).stop_eq
  refine ⟨_, _, hfront.stop_eq ▸ hend ▸ hcut.occupies length, ?_, ?_, ?_⟩
  · rw [hcut.content_inside, hfront.stop_eq, hmiddle.spans_eq]
  · rw [hcut.content_outside, hend, hfront.spans_eq, hback.spans_eq, hothers]
  · rw [hnew]
    exact ((hfront.append hmiddle).append hback).stop_eq

/-- What stays when the block is lifted is behind the block or before it. -/
theorem IsCut.apart (h : IsCut items first last before block after) {s : Span}
    (hs : s ∈ content (outside first last (placeFrom length 0 0 items))) :
    s.stop ≤ endFrom length 0 before ∨ endFrom length 0 (before ++ block) ≤ s.start := by
  have hz := Nat.zero_le maxStep
  rw [h.content_outside] at hs
  rcases List.mem_append.mp hs with hs | hs
  · exact .inl (bounds_of_mem_spansFrom hz hs).2.2
  · exact .inr (bounds_of_mem_spansFrom (endFrom_le_maxStep hz _) hs).1

variable {first' last' : Nat}

/-- The steps that the block has left lie in one gap, and no neighbour starts there. -/
theorem Landed.exists_gap_back (hm : Measures length)
    (hcut : IsCut items first last before block after)
    (hlt : endFrom length 0 items < maxStep)
    (h : Landed length items first last (endFrom length 0 before)
      (blockSteps length before block) target new first' last') :
    ∃ start gapStop, (planMove (placeFrom length 0 0 new) first' last'
      (endFrom length 0 before)).placement = some (.gap start gapStop) := by
  have hz := Nat.zero_le maxStep
  have hsource := (isWhole_endFrom hm isWhole_zero before).dvd
  have hfollows := (hcut.follows hm).le
  have hfreed : endFrom length 0 (before ++ block) ≤ endFrom length 0 items := hcut.freed_le
  have hsum : endFrom length 0 before + blockSteps length before block =
      endFrom length 0 (before ++ block) := by
    rw [blockSteps]
    omega
  have hapart : ∀ s ∈ content (outside first' last' (placeFrom length 0 0 new)),
      s.stop ≤ endFrom length 0 before ∨
        endFrom length 0 before + blockSteps length before block ≤ s.start := by
    rw [h.others_eq, hsum]
    exact fun s hs => hcut.apart hs
  have hpos : 0 < blockSteps length before block := hcut.steps_pos hm hlt
  obtain ⟨hle, head, tail, hh, ht, hstart, hstop⟩ := h.occupies
  have hsteps : tail.stop - head.start = blockSteps length before block := by omega
  have hgrid : endFrom length 0 before % quantum = 0 :=
    Nat.mod_eq_zero_of_dvd (hsource (by omega))
  have hswap : swap? (placeFrom length 0 0 new) first' last' (endFrom length 0 before) = none := by
    rw [Option.eq_none_iff_forall_ne_some]
    intro i hi
    obtain ⟨rfl, moving, other, -, hother, hbeside, -, hp, -, hplace⟩ := swap?_eq_some hi
    have hmem : other ∈ outside first' first' (placeFrom length 0 0 new) :=
      mem_outside_of_getElem? hother (by omega)
    have hspan := hapart other.span (span_mem_content.mpr ⟨other, hmem, hp, rfl⟩)
    have hshort := start_lt_stop_of_mem_placeFrom hm hz (mem_of_mem_outside hmem)
      (h.end_eq ▸ hlt)
    simp only [Token.span] at hspan
    omega
  obtain ⟨before', block', after', hcut'⟩ := h.occupies.isCut
  obtain ⟨htiles, hsep, hspans⟩ := hcut'.frees_lift hm
  rw [placement_planMove hle hh ht hgrid (by omega), hswap, hsteps]
  rcases htiles.exists_gap_of_free hm hsep hz (h.end_eq ▸ hlt) (Nat.zero_le _) hpos
    (hspans ▸ hapart) with ⟨start, gapStop, hgap, hs, he⟩ | ⟨hbeyond, -⟩
  · obtain ⟨placement, hland⟩ :=
      Option.isSome_iff_exists.mp (landing?_isSome_of_mem hgap hs he)
    obtain ⟨start', gapStop', rfl, -⟩ := landing?_eq_some hland
    exact ⟨start', gapStop', by rw [hland]; rfl⟩
  · rw [h.end_eq] at hbeyond
    omega

/-- A block that has landed is inserted in its old place when it moves back. -/
theorem Landed.eq_normalizePauses (hm : Measures length)
    (hcut : IsCut items first last before block after)
    (hlt : endFrom length 0 items < maxStep)
    (h : Landed length items first last (endFrom length 0 before)
      (blockSteps length before block) target new first' last')
    {before' block' after' written : List Item}
    (hback : Moves length new before' block' after' first' last' (endFrom length 0 before)
      (.gap start gapStop) written) : written = normalizePauses .keep items := by
  have hs : endFrom length 0 before ≤ maxStep := endFrom_le_maxStep (Nat.zero_le _) before
  obtain ⟨spans, hlays, hinserted⟩ := hback.lays_gap hm (h.end_eq ▸ hlt)
  have hblock : ((content (inside first last (placeFrom length 0 0 items))).map
      (Span.shift (endFrom length 0 before) target)).map
        (Span.shift target (endFrom length 0 before)) =
      content (inside first last (placeFrom length 0 0 items)) := by
    refine map_shift_map_shift fun s hmem => ?_
    rw [hcut.content_inside] at hmem
    obtain ⟨hstart, hle, -⟩ := bounds_of_mem_spansFrom hs hmem
    exact ⟨hstart, hle⟩
  rw [(hback.cut.ends_eq h.occupies).1, h.block_eq, h.others_eq, hblock] at hinserted
  have hold : Inserted (content (inside first last (placeFrom length 0 0 items)))
      (content (outside first last (placeFrom length 0 0 items))) (spansFrom length 0 items) := by
    refine ⟨_, _, hcut.content_outside, ?_⟩
    rw [hcut.content_inside, hcut.items_eq]
    simp
  rw [h.end_eq] at hlays
  have hsame := spansFrom_eq_of_perm hm (hlays.stop_eq ▸ hlt) hlt
    (hlays.spans_eq ▸ hinserted.perm.trans hold.perm.symm)
  have hitems : Lays length 0 items (spansFrom length 0 items) (endFrom length 0 items) := ⟨rfl, rfl⟩
  have hnormal := hback.normal
  rw [← hnormal]
  exact Lays.normalizePauses_eq hm.rests ⟨hsame, hlays.stop_eq⟩ hitems hlt

theorem Moves.goesBack_of_gap (hm : Measures length)
    (h : Moves length items before block after first last target (.gap start gapStop) new)
    (hlt : endFrom length 0 items < maxStep)
    (hhead : ∀ item ∈ block.head?, item.isPause = false)
    (hlast : ∀ item ∈ block.getLast?, item.isPause = false) :
    GoesBack length items (endFrom length 0 before) (blockSteps length before block) target new := by
  obtain ⟨first', last', hlanded⟩ := h.exists_landed hm hlt hhead hlast
  obtain ⟨start', gapStop', hgap⟩ := hlanded.exists_gap_back hm h.cut hlt
  refine ⟨first', last', .gap start' gapStop', hlanded.occupies, hgap, ?_⟩
  intro before' block' after' written hback
  exact hlanded.eq_normalizePauses hm h.cut hlt hback

end Gap

/-! Back from a swap. -/

section Swap

variable {xs ys : List Item} {a b : Item}

theorem ends_pair (hlt : endFrom length 0 (xs ++ a :: b :: ys) < maxStep) :
    satAdd (endFrom length 0 xs) (length a) = endFrom length 0 xs + length a ∧
      satAdd (endFrom length 0 xs + length a) (length b) =
        endFrom length 0 xs + length a + length b := by
  rw [endFrom_append, endFrom_cons, endFrom_cons] at hlt
  have hrest : satAdd (satAdd (endFrom length 0 xs) (length a)) (length b) ≤ endFrom length _ ys :=
    le_endFrom (satAdd_le_maxStep _ _) ys
  have hle := le_satAdd (satAdd_le_maxStep (endFrom length 0 xs) (length a)) (length b)
  have hfirst := satAdd_of_lt (Nat.lt_of_le_of_lt (Nat.le_trans hle hrest) hlt)
  have hsecond := satAdd_of_lt (Nat.lt_of_le_of_lt hrest hlt)
  exact ⟨hfirst, by rw [← hfirst, hsecond]⟩

theorem occupies_pair (length : Item → Nat) (xs ys : List Item) (a b : Item) :
    let tokens := placeFrom length 0 0 (xs ++ a :: b :: ys)
    let middle := satAdd (endFrom length 0 xs) (length a)
    Occupies tokens xs.length xs.length (endFrom length 0 xs) middle ∧
      Occupies tokens (xs.length + 1) (xs.length + 1) middle (satAdd middle (length b)) := by
  intro tokens middle
  have hleft : IsCut (xs ++ a :: b :: ys) xs.length xs.length xs [a] (b :: ys) :=
    ⟨by simp, rfl, rfl, Nat.le_refl _⟩
  have hright : IsCut (xs ++ a :: b :: ys) (xs.length + 1) (xs.length + 1) (xs ++ [a]) [b] ys :=
    ⟨by simp, by simp, by simp, Nat.le_refl _⟩
  have hmiddle : endFrom length 0 (xs ++ [a]) = middle := by simp [middle]
  have hend : endFrom length 0 (xs ++ [a] ++ [b]) = satAdd middle (length b) := by simp [middle]
  exact ⟨hmiddle ▸ hleft.occupies length, hend ▸ hmiddle ▸ hright.occupies length⟩

theorem trades_pair (xs ys : List Item) (left : a.isPause = false) (right : b.isPause = false)
    (same : length a = length b) :
    let tokens := placeFrom length 0 0 (xs ++ a :: b :: ys)
    Trades tokens xs.length (xs.length + 1) (satAdd (endFrom length 0 xs) (length a)) ∧
      Trades tokens (xs.length + 1) xs.length (endFrom length 0 xs) := by
  obtain ⟨s, t, hs, ht, rfl, rfl, hsl, htl, hss, hts⟩ := getElem?_pair length xs ys a b
  exact ⟨⟨s, t, hs, ht, .inr rfl, left, right, by omega, hts⟩,
    ⟨t, s, ht, hs, .inl rfl, right, left, by omega, hss⟩⟩

theorem exists_swap_of_trades {tokens : List Token} {i j target start stop : Nat}
    (h : Trades tokens i j target) (ho : Occupies tokens i i start stop)
    (hgrid : target % quantum = 0) (hreach : target + (stop - start) ≤ maxStep) :
    ∃ other, (planMove tokens i i target).placement = some (.swap other) := by
  obtain ⟨hle, head, tail, hh, ht, rfl, rfl⟩ := ho
  obtain ⟨other, hother⟩ := Option.isSome_iff_exists.mp (swap?_isSome_of_trades h)
  exact ⟨other, by rw [placement_planMove hle hh ht hgrid hreach, hother]; rfl⟩

/-- Of two equally long neighbours `i` is the one that a swap brings to `target`. -/
def Faces (length : Item → Nat) (xs : List Item) (a : Item) (i target : Nat) : Prop :=
  (i = xs.length ∧ target = satAdd (endFrom length 0 xs) (length a)) ∨
    (i = xs.length + 1 ∧ target = endFrom length 0 xs)

theorem endFrom_le_of_append_eq {us vs : List Item} (h : us ++ vs = xs ++ ys)
    (hle : us.length ≤ xs.length) : endFrom length 0 us ≤ endFrom length 0 xs := by
  obtain ⟨more, rfl⟩ := List.prefix_of_prefix_length_le ⟨vs, h⟩ ⟨ys, rfl⟩ hle
  rw [endFrom_append]
  exact le_endFrom (endFrom_le_maxStep (Nat.zero_le _) us) more

/-- A swap exchanges the one pair that faces its target. -/
theorem Writes.eq_of_faces (hm : Measures length) {segments : List Segment} {block new : List Item}
    {i contentStop steps target other : Nat}
    (h : Writes length (xs ++ a :: b :: ys) segments block i contentStop steps target
      (.swap other) new) (hlt : endFrom length 0 (xs ++ a :: b :: ys) < maxStep)
    (hfaces : Faces length xs a i target) : new = normalizePauses .keep (xs ++ b :: a :: ys) := by
  have hends := ends_pair hlt
  generalize hitems : xs ++ a :: b :: ys = items at h
  cases h with
  | @swap us vs c d other items_eq left right same place =>
    rw [← hitems] at items_eq
    have hends' := ends_pair (items_eq ▸ hlt)
    have hpos := hm.pos a
    have hpos' := hm.pos c
    have hequal : xs.length = us.length →
        normalizePauses .keep (us ++ d :: c :: vs) = normalizePauses .keep (xs ++ b :: a :: ys) := by
      intro hlen
      obtain ⟨rfl, hrest⟩ := List.append_inj items_eq hlen
      cases hrest
      rfl
    rcases hfaces with ⟨rfl, rfl⟩ | ⟨rfl, rfl⟩ <;>
      rcases place with ⟨hi, -, htarget⟩ | ⟨hi, -, htarget⟩
    · exact hequal hi
    · -- The pair of the swap would stand one place before, and its target behind its steps.
      have hle : endFrom length 0 us ≤ endFrom length 0 xs :=
        endFrom_le_of_append_eq items_eq.symm (by omega)
      omega
    · have hle : endFrom length 0 xs ≤ endFrom length 0 us :=
        endFrom_le_of_append_eq items_eq (by omega)
      omega
    · exact hequal (by omega)

theorem goesBack_of_faces (hm : Measures length) {items : List Item} {i j source target steps : Nat}
    (hback : normalizePauses .keep (xs ++ b :: a :: ys) = normalizePauses .keep items)
    (hlt : endFrom length 0 (xs ++ a :: b :: ys) < maxStep) (hfaces : Faces length xs a i source)
    (hoccupies : Occupies (placeFrom length 0 0 (xs ++ a :: b :: ys)) i i target (target + steps))
    (htrades : Trades (placeFrom length 0 0 (xs ++ a :: b :: ys)) i j source)
    (hgrid : quantum ∣ source) (hreach : source + steps ≤ maxStep) :
    GoesBack length items source steps target (xs ++ a :: b :: ys) := by
  obtain ⟨other, hother⟩ := exists_swap_of_trades htrades hoccupies (Nat.mod_eq_zero_of_dvd hgrid)
    (by rwa [Nat.add_sub_cancel_left])
  refine ⟨i, i, .swap other, hoccupies, hother, ?_⟩
  intro before block after written hmoves
  exact (hmoves.writes.eq_of_faces hm hlt hfaces).trans hback

theorem Moves.goesBack_of_swap (hm : Measures length) {items before block after new : List Item}
    {first last target other : Nat}
    (h : Moves length items before block after first last target (.swap other) new)
    (hlt : endFrom length 0 items < maxStep) :
    GoesBack length items (endFrom length 0 before) (blockSteps length before block) target new := by
  have halone : first = last := by
    have hplan := congrArg MovePlan.placement h.plan_eq
    obtain ⟨_, _, -, -, -, -, -, -, hsuits⟩ := planMove_cases hplan
    cases hsuits
    assumption
  subst halone
  have hsource := isWhole_endFrom hm isWhole_zero before
  have hfreed : endFrom length 0 (before ++ block) ≤ endFrom length 0 items := h.cut.freed_le
  have hfollows := (h.cut.follows hm).le
  have hgrid := hsource.dvd (by omega)
  obtain ⟨_, hlays, -⟩ := h.lays_swap hm.rests
  cases h.writes with
  | @swap xs ys a b other items_eq left right same place =>
    subst items_eq
    obtain ⟨hmiddle, hstop⟩ := ends_pair hlt
    have hfront : endFrom length 0 (normalizePauses .keep xs) = endFrom length 0 xs :=
      (Lays.normalize_keep hm.rests ⟨rfl, rfl⟩).stop_eq
    have hnew : normalizePauses .keep (xs ++ b :: a :: ys) =
        normalizePauses .keep xs ++ b :: a :: normalizePauses .keep ys := by
      rw [normalizePauses_append_cons _ _ right, normalizePauses_cons _ left]
    have hback : normalizePauses .keep
        (normalizePauses .keep xs ++ a :: b :: normalizePauses .keep ys) =
        normalizePauses .keep (xs ++ a :: b :: ys) := by
      rw [normalizePauses_append_cons _ _ left, normalizePauses_cons _ right,
        normalizePauses_append_cons _ xs left, normalizePauses_cons _ right,
        normalizePauses_normalizePauses, normalizePauses_normalizePauses]
    have hnewlt := hlays.stop_eq ▸ hlt
    rw [hnew] at hnewlt ⊢
    obtain ⟨hleft, hright⟩ := occupies_pair length xs ys a b
    obtain ⟨hleft', hright'⟩ :=
      occupies_pair length (normalizePauses .keep xs) (normalizePauses .keep ys) b a
    obtain ⟨hahead, hbehind⟩ :=
      trades_pair (normalizePauses .keep xs) (normalizePauses .keep ys) right left same.symm
    rw [← same] at hstop
    rw [← same, hmiddle, hstop] at hright
    rw [hmiddle] at hleft
    rw [hfront, ← same, hmiddle] at hleft' hahead
    rw [hfront, ← same, hmiddle, hstop] at hright'
    rw [hfront] at hbehind
    rcases place with ⟨rfl, -, rfl⟩ | ⟨rfl, -, rfl⟩
    · obtain ⟨hs, he⟩ := h.cut.ends_eq hleft
      have hsteps : blockSteps length before block = length a := by
        rw [blockSteps, hs, he, Nat.add_sub_cancel_left]
      rw [hs, hsteps, hmiddle]
      exact goesBack_of_faces hm hback hnewlt (.inr ⟨rfl, hfront.symm⟩) hright' hbehind
        (hs ▸ hgrid) (by omega)
    · obtain ⟨hs, he⟩ := h.cut.ends_eq hright
      have hsteps : blockSteps length before block = length a := by
        rw [blockSteps, hs, he, Nat.add_sub_cancel_left]
      rw [hs, hsteps]
      exact goesBack_of_faces hm hback hnewlt (.inl ⟨rfl, by rw [hfront, ← same, hmiddle]⟩) hleft'
        hahead (hs ▸ hgrid) (by omega)

end Swap

theorem Moves.endFrom_eq (hm : Measures length) {items before block after new : List Item}
    {first last target : Nat} {placement : Placement}
    (h : Moves length items before block after first last target placement new)
    (hlt : endFrom length 0 items < maxStep) (hstays : ∀ gap, placement ≠ .append gap) :
    endFrom length 0 new = endFrom length 0 items := by
  cases placement with
  | swap other =>
    obtain ⟨_, hlays, -⟩ := h.lays_swap hm.rests
    exact hlays.stop_eq
  | gap start gapStop =>
    obtain ⟨_, hlays, -⟩ := h.lays_gap hm hlt
    exact hlays.stop_eq
  | append gap => exact absurd rfl (hstays gap)

theorem Moves.goesBack (hm : Measures length) {items before block after new : List Item}
    {first last target : Nat} {placement : Placement}
    (h : Moves length items before block after first last target placement new)
    (hlt : endFrom length 0 items < maxStep) (hstays : ∀ gap, placement ≠ .append gap)
    (hhead : ∀ item ∈ block.head?, item.isPause = false)
    (hlast : ∀ item ∈ block.getLast?, item.isPause = false) :
    GoesBack length items (endFrom length 0 before) (blockSteps length before block) target new := by
  cases placement with
  | swap other => exact h.goesBack_of_swap hm hlt
  | gap start gapStop => exact h.goesBack_of_gap hm hlt hhead hlast
  | append gap => exact absurd rfl (hstays gap)

/-- What has been swapped or put into a gap can be moved back. The sequence is then the one from
before with normal rests. -/
theorem moveBlock_moves_back {p : Pattern} {pads : PadLengths} {container : Container}
    {items : List Item} {first last target : Nat} {placement : Placement} {head tail : Token}
    (hc : p.sequence? container = some items)
    (htotal : (p.timeline pads container true).steps < maxStep)
    (hplaced : (planMove (p.tokens pads container) first last target).placement = some placement)
    (hstays : ∀ gap, placement ≠ .append gap)
    (hh : (p.tokens pads container)[first]? = some head)
    (ht : (p.tokens pads container)[last]? = some tail)
    (hhead : head.isPause = false) (htail : tail.isPause = false) :
    let plan := planMove (p.tokens pads container) first last target
    let moved := (p.moveBlock? pads container first last target).getD p
    let tokens := moved.tokens pads container
    (∃ first' last', Occupies tokens first' last' target (target + plan.steps)) ∧
      ∀ first' last', Occupies tokens first' last' target (target + plan.steps) →
        (planMove tokens first' last' plan.source).isValid = true ∧
          ((moved.moveBlock? pads container first' last' plan.source).getD moved).sequence?
            container = some (normalizePauses .keep items) := by
  have hm := p.measures_steps pads
  have htokens : p.tokens pads container = placeFrom (p.steps pads) 0 0 items := by
    rw [Pattern.tokens, hc, Option.getD_some]
  have hlt : endFrom (p.steps pads) 0 items < maxStep := by
    rwa [Pattern.timeline, hc, Option.getD_some, total_map] at htotal
  obtain ⟨_, before, block, after, written, hc', hput, hmoves⟩ := exists_moves_of_placement hplaced
  obtain rfl := Option.some.inj (hc.symm.trans hc')
  have hend := hmoves.endFrom_eq hm hlt hstays
  have hperm := (hmoves.keeps hm).perm hmoves.cut
  have hsame := sameLength_of_perm hm.rests hperm hlt hend
  have hlength : (p.put container written).steps pads = p.steps pads :=
    funext fun item => Pattern.steps_put_of_sameLength hc hsame item
  have hwritten : (p.put container written).sequence? container = some written := by
    rw [Pattern.sequence?_put, if_pos rfl]
  intro plan moved tokens
  have hmoved : moved = p.put container written := hput
  have hnew : tokens = placeFrom (p.steps pads) 0 0 written := by
    simp only [tokens, hmoved, Pattern.tokens, hwritten, Option.getD_some, hlength]
  have hplan : plan = _ := (congrArg (planMove · first last target) htokens).trans hmoves.plan_eq
  rw [htokens] at hh ht
  have hfirst : ∀ item ∈ block.head?, item.isPause = false := by
    obtain ⟨item, hitem, htoken⟩ := hmoves.cut.getElem?_first (p.steps pads)
    obtain rfl := Option.some.inj (hh.symm.trans htoken)
    rw [hitem]
    rintro _ ⟨⟩
    exact hhead
  have hlast : ∀ item ∈ block.getLast?, item.isPause = false := by
    obtain ⟨item, token, hitem, htoken, rfl, -⟩ := hmoves.cut.getElem?_last (p.steps pads)
    obtain rfl := Option.some.inj (ht.symm.trans htoken)
    rw [hitem]
    rintro _ ⟨⟩
    exact htail
  obtain ⟨i, j, back, hoccupies, hback, hyields⟩ := hmoves.goesBack hm hlt hstays hfirst hlast
  rw [hnew, hplan]
  refine ⟨⟨i, j, hoccupies⟩, fun first' last' hblock => ?_⟩
  obtain ⟨rfl, rfl⟩ := hblock.unique hm (hend ▸ hlt) hoccupies
  refine ⟨by rw [MovePlan.isValid, hback, Option.isSome_some], ?_⟩
  obtain ⟨_, _, _, _, restored, hcontainer, hreturned, hreturn⟩ :=
    exists_moves_of_placement (hnew ▸ hback)
  rw [hmoved, hwritten] at hcontainer
  obtain rfl := Option.some.inj hcontainer
  rw [hmoved, hlength] at hreturn
  rw [hreturned, Pattern.sequence?_put, if_pos rfl, hyields _ _ _ _ hreturn]

theorem moveBlock_moves_back_overlapping :
    let p : Pattern := { root := [.pad 0, .pause 3, .pause 9, .pad 1] }
    let pads : PadLengths := { fallback := 8 }
    let plan := planMove (p.tokens pads .root) 0 0 4
    let moved := (p.moveBlock? pads .root 0 0 4).getD p
    let tokens := moved.tokens pads .root
    plan.placement = some (.gap 0 24) ∧
      (∃ first' last', Occupies tokens first' last' 4 (4 + plan.steps)) ∧
      ∀ first' last', Occupies tokens first' last' 4 (4 + plan.steps) →
        (planMove tokens first' last' plan.source).isValid = true ∧
          ((moved.moveBlock? pads .root first' last' plan.source).getD moved).sequence? .root =
            some (normalizePauses .keep [.pad 0, .pause 3, .pause 9, .pad 1]) := by
  intro p pads plan moved tokens
  have hh : (p.tokens pads .root)[0]? = some ⟨0, .pad 0, 0, 8, 8⟩ := by decide
  have hplaced : plan.placement = some (.gap 0 24) := by decide
  exact ⟨hplaced, moveBlock_moves_back rfl (by decide) hplaced (by simp) hh hh rfl rfl⟩

end Groovebox

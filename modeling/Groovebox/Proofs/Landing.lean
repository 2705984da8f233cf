import Groovebox.Proofs.Conservation

/-! Where a moved block lands. Each placement writes a sequence that lays the other
items on their old steps and the block on the steps from the target on. -/

namespace Groovebox

def Span.inPlaceOf (s place : Span) : Span := ⟨s.item, place.start, place.stop⟩

/-- The neighbours `moved` and `other` have traded places. -/
def Traded (moved other : Span) (old new : List Span) : Prop :=
  ∃ xs ys,
    (old = xs ++ moved :: other :: ys ∧
      new = xs ++ other.inPlaceOf moved :: moved.inPlaceOf other :: ys) ∨
    (old = xs ++ other :: moved :: ys ∧
      new = xs ++ moved.inPlaceOf other :: other.inPlaceOf moved :: ys)

/-- The content `new` is that of `tokens` where `plan` has brought it. -/
def Placement.Lands (tokens : List Token) (plan : MovePlan) (new : List Span) : Placement → Prop
  | .swap other =>
    ∃ s t, tokens[plan.first]? = some s ∧ tokens[other]? = some t ∧
      s.start = plan.source ∧ t.start = plan.target ∧ Traded s.span t.span (content tokens) new
  | _ =>
    (∀ s ∈ content (inside plan.first plan.last tokens), plan.source ≤ s.start) ∧
    Inserted ((content (inside plan.first plan.last tokens)).map
      (Span.shift plan.source plan.target)) (content (outside plan.first plan.last tokens)) new

variable {length : Item → Nat} {cursor stop : Nat}

theorem Lays.single {item : Item} (hp : item.isPause = false) (cursor : Nat) :
    Lays length cursor [item] [⟨item, cursor, satAdd cursor (length item)⟩]
      (satAdd cursor (length item)) := by
  refine ⟨?_, rfl⟩
  simp [spansFrom, hp]

theorem Lays.pause (hl : MeasuresRests length) (hc : IsWhole cursor) (hs : IsWhole stop)
    (hle : cursor ≤ stop) (hlt : stop < maxStep) :
    Lays length cursor (restItems (stop - cursor)) [] stop := by
  have hd : quantum ∣ stop - cursor := Nat.dvd_sub (hs.dvd hlt) (hc.dvd (by omega))
  have hh : Lays length cursor (restItems (stop - cursor)) [] (cursor + (stop - cursor)) :=
    Lays.rest hl hd (by omega)
  rwa [Nat.add_sub_cancel' hle] at hh

/-! Segments as they are written. -/

theorem Tiles.lays_render (hm : Measures length) {segments : List Segment}
    (h : Tiles length cursor segments stop) (hc : IsWhole cursor) (hlt : stop < maxStep)
    (hp : ∀ i, .item i ∈ segments → i.isPause = false) :
    Lays length cursor (segments.flatMap Segment.render) (segmentSpans length cursor segments)
      stop := by
  induction segments generalizing cursor with
  | nil => exact ⟨rfl, h⟩
  | cons segment rest ih =>
    have hrest : ∀ i, .item i ∈ rest → i.isPause = false :=
      fun i hi => hp i (List.mem_cons_of_mem _ hi)
    cases segment with
    | gap start gapStop =>
      obtain ⟨rfl, hf, hr⟩ := h
      have hgap : gapStop < maxStep := Nat.lt_of_le_of_lt (hr.le hf.whole.le).1 hlt
      exact (Lays.pause hm.rests hc hf.whole hf.le hgap).append (ih hr hf.whole hrest)
    | item i =>
      have hi := hp i List.mem_cons_self
      exact (Lays.single hi cursor).append (ih h (hc.satAdd (hm.whole i)) hrest)

theorem Tiles.renderUpTo_eq_nil {segments : List Segment} (h : Tiles length cursor segments stop)
    (hc : cursor ≤ maxStep) (hs : segmentSpans length cursor segments = []) {contentStop : Nat}
    (hlt : contentStop < cursor) : segments.flatMap (Segment.renderUpTo contentStop) = [] := by
  rw [List.flatMap_eq_nil_iff]
  intro segment hmem
  cases segment with
  | gap start gapStop =>
    have hb := h.gap_bounds hc hmem
    have hno : ¬gapStop ≤ contentStop := by omega
    simp [Segment.renderUpTo, hno]
  | item i =>
    have hi : i ∈ segments.filterMap Segment.item? := List.mem_filterMap.mpr ⟨_, hmem, rfl⟩
    rw [← segmentSpans_map_item length segments cursor, hs] at hi
    simp at hi

/-- Without the gaps behind its content a tiling ends where the content ends. -/
theorem Tiles.lays_renderUpTo (hm : Measures length) {segments : List Segment}
    (h : Tiles length cursor segments stop) (hc : IsWhole cursor) (hlt : stop < maxStep)
    (hp : ∀ i, .item i ∈ segments → i.isPause = false) {start : Nat} (hs : start ≤ cursor) :
    Lays length cursor
      (segments.flatMap (Segment.renderUpTo (lastStop start (segmentSpans length cursor segments))))
      (segmentSpans length cursor segments)
      (lastStop cursor (segmentSpans length cursor segments)) := by
  induction segments generalizing cursor start with
  | nil => exact ⟨rfl, rfl⟩
  | cons segment rest ih =>
    have hrest : ∀ i, .item i ∈ rest → i.isPause = false :=
      fun i hi => hp i (List.mem_cons_of_mem _ hi)
    cases segment with
    | gap gapStart gapStop =>
      obtain ⟨rfl, hf, hr⟩ := h
      have hend := (hr.le hf.whole.le).1
      have hle := hf.le
      have hstrict := hf.lt (by omega)
      have hs' : start ≤ gapStop := by omega
      simp only [segmentSpans, List.flatMap_cons, Segment.renderUpTo]
      cases hspans : segmentSpans length gapStop rest with
      | nil =>
        have hno : ¬gapStop ≤ lastStop start [] := by
          simp only [lastStop, List.getLast?_nil, Option.map_none, Option.getD_none]
          omega
        rw [if_neg hno, hr.renderUpTo_eq_nil hf.whole.le hspans (Nat.not_le.mp hno)]
        exact ⟨rfl, rfl⟩
      | cons s spans =>
        have hmem : s ∈ segmentSpans length gapStop rest := hspans ▸ List.mem_cons_self
        have hb := hr.bounds hf.whole.le hmem
        have hlast := ((hr.lastStop_le_iff hf.whole.le hs' _).mp (Nat.le_refl _)).2 s hmem
        have hh := ih hr hf.whole hrest hs'
        rw [hspans] at hlast hh
        rw [if_pos (by omega)]
        simp only [lastStop_cons] at hh ⊢
        exact (Lays.pause hm.rests hc hf.whole hle (by omega)).append hh
    | item i =>
      have hi := hp i List.mem_cons_self
      have hh := ih h (hc.satAdd (hm.whole i)) hrest (Nat.le_refl _)
      simp only [segmentSpans, lastStop_cons]
      exact (Lays.single hi cursor).append hh

/-! The block at its target. -/

theorem IsCut.isPause_of_mem_lift (hm : Measures length) {items before block after : List Item}
    {first last : Nat} (h : IsCut items first last before block after) :
    ∀ i, .item i ∈ lift (placeFrom length 0 0 items) first last → i.isPause = false := by
  intro i hi
  have hmem : i ∈ sounds (outside first last items) := by
    rw [← h.filterMap_item? hm]
    exact List.mem_filterMap.mpr ⟨_, hi, rfl⟩
  simpa using (List.mem_filter.mp hmem).2

theorem lays_exchanged (xs ys : List Item) {a b : Item} (left : a.isPause = false)
    (right : b.isPause = false) (same : length a = length b) :
    let u := endFrom length 0 xs
    let v := satAdd u (length a)
    let w := satAdd v (length b)
    spansFrom length 0 (xs ++ a :: b :: ys) =
        spansFrom length 0 xs ++ ⟨a, u, v⟩ :: ⟨b, v, w⟩ :: spansFrom length w ys ∧
      Lays length 0 (xs ++ b :: a :: ys)
        (spansFrom length 0 xs ++ ⟨b, u, v⟩ :: ⟨a, v, w⟩ :: spansFrom length w ys)
        (endFrom length 0 (xs ++ a :: b :: ys)) := by
  intro u v w
  refine ⟨by simp [spansFrom, left, right, u, v, w], ?_, ?_⟩
  · simp [spansFrom, left, right, same, u, v, w]
  · simp [same]

namespace Moves

variable {items before block after new : List Item} {first last target : Nat}
  {placement : Placement}

theorem lays_block (h : Moves length items before block after first last target placement new)
    (hlt : endFrom length 0 items < maxStep) :
    Lays length target block
      ((content (inside first last (placeFrom length 0 0 items))).map
        (Span.shift (endFrom length 0 before) target))
      (target + blockSteps length before block) := by
  have hreach := h.reach
  have hfreed : endFrom length 0 (before ++ block) ≤ endFrom length 0 items := h.cut.freed_le
  have hs : endFrom length 0 before ≤ maxStep := endFrom_le_maxStep (Nat.zero_le _) before
  have hend : endFrom length 0 (before ++ block) =
      endFrom length 0 before + (block.map length).sum := by
    rw [endFrom_append, endFrom_eq hs] at hfreed ⊢
    exact satAdd_of_lt (Nat.lt_of_le_of_lt hfreed hlt)
  have hsum : blockSteps length before block = (block.map length).sum := by
    rw [blockSteps]
    omega
  rw [hsum] at hreach ⊢
  refine ⟨?_, ?_⟩
  · rw [h.cut.content_inside]
    exact spansFrom_shift 0 (by omega) hreach
  · rw [endFrom_eq (by omega), satAdd_of_le hreach]

theorem lays_swap {other : Nat} (hl : MeasuresRests length)
    (h : Moves length items before block after first last target (.swap other) new) :
    ∃ spans, Lays length 0 new spans (endFrom length 0 items) ∧
      ∃ s t, (placeFrom length 0 0 items)[first]? = some s ∧
        (placeFrom length 0 0 items)[other]? = some t ∧ t.start = target ∧
        Traded s.span t.span (content (placeFrom length 0 0 items)) spans := by
  obtain ⟨-, -, -, -, hwrites⟩ := h
  cases hwrites with
  | @swap xs ys a b other items_eq left right same place =>
    subst items_eq
    obtain ⟨hold, hnew⟩ := lays_exchanged xs ys left right same
    refine ⟨_, hnew.normalize_keep hl, ?_⟩
    have ha := getElem?_placeFrom length xs (b :: ys) a 0 0
    have hb := getElem?_placeFrom length (xs ++ [a]) ys b 0 0
    rw [List.append_assoc, List.singleton_append, List.length_append, List.length_singleton,
      endFrom_append, endFrom_cons, endFrom_nil] at hb
    rw [content_placeFrom, hold]
    rcases place with ⟨rfl, rfl, rfl⟩ | ⟨rfl, rfl, rfl⟩
    · exact ⟨_, _, ha, hb, rfl, _, _, .inl ⟨rfl, rfl⟩⟩
    · exact ⟨_, _, hb, ha, rfl, _, _, .inr ⟨rfl, rfl⟩⟩

/-- A gap insert writes what lies before the target and behind the block around it. -/
theorem exists_around_gap {start gapStop : Nat} (hm : Measures length)
    (h : Moves length items before block after first last target (.gap start gapStop) new)
    (hlt : endFrom length 0 items < maxStep) :
    ∃ front back frontSpans backSpans,
      new = normalizePauses .keep (front ++ block ++ back) ∧
      Lays length 0 front frontSpans target ∧
      Lays length (target + blockSteps length before block) back backSpans
        (endFrom length 0 items) ∧
      content (outside first last (placeFrom length 0 0 items)) = frontSpans ++ backSpans := by
  obtain ⟨htiles, -, hspans⟩ := h.cut.frees_lift hm
  have hp := h.cut.isPause_of_mem_lift hm
  have hsteps := h.cut.dvd_steps hm hlt
  obtain ⟨-, hgrid, hreach, -, hwrites⟩ := h
  cases hwrites with
  | @gap left right start gapStop segments_eq start_le le_stop =>
    rw [segments_eq] at htiles hspans hp
    obtain ⟨hl, hf, hr⟩ := htiles.split
    have hstart : IsWhole start := hl.isWhole hm isWhole_zero
    have hgap : gapStop < maxStep := Nat.lt_of_le_of_lt (hr.le hf.whole.le).1 hlt
    have htarget : IsWhole target := ⟨by omega, .inl hgrid⟩
    have hlanded : IsWhole (target + blockSteps length before block) :=
      ⟨hreach, .inl (Nat.dvd_add hgrid hsteps)⟩
    have hleft := hl.lays_render hm isWhole_zero (by omega)
      fun i hi => hp i (List.mem_append_left _ hi)
    have hright := hr.lays_render hm hf.whole hlt
      fun i hi => hp i (List.mem_append_right _ (List.mem_cons_of_mem _ hi))
    have hbehind := Lays.pause hm.rests hstart htarget start_le (by omega)
    have hahead := Lays.pause hm.rests hlanded hf.whole le_stop hgap
    rw [← Nat.sub_sub] at hahead
    refine ⟨_, _, _, _, ?_, hleft.append hbehind, hahead.append hright, ?_⟩
    · simp only [List.append_assoc]
    · rw [← hspans, segmentSpans_append hl, segmentSpans, List.append_nil, List.nil_append]

theorem lays_gap {start gapStop : Nat} (hm : Measures length)
    (h : Moves length items before block after first last target (.gap start gapStop) new)
    (hlt : endFrom length 0 items < maxStep) :
    ∃ spans, Lays length 0 new spans (endFrom length 0 items) ∧
      Inserted ((content (inside first last (placeFrom length 0 0 items))).map
        (Span.shift (endFrom length 0 before) target))
        (content (outside first last (placeFrom length 0 0 items))) spans := by
  obtain ⟨front, back, frontSpans, backSpans, rfl, hfront, hback, hothers⟩ :=
    h.exists_around_gap hm hlt
  have hall := (hfront.append (h.lays_block hlt)).append hback
  exact ⟨_, hall.normalize_keep hm.rests, frontSpans, backSpans, hothers, rfl⟩

theorem lays_append {gap : Nat} (hm : Measures length)
    (h : Moves length items before block after first last target (.append gap) new)
    (hlt : endFrom length 0 items < maxStep) :
    ∃ spans, Lays length 0 new spans (lastStop 0 spans) ∧
      Inserted ((content (inside first last (placeFrom length 0 0 items))).map
        (Span.shift (endFrom length 0 before) target))
        (content (outside first last (placeFrom length 0 0 items))) spans ∧
      ∀ item, block.getLast? = some item → item.isPause = false →
        lastStop 0 spans = target + blockSteps length before block := by
  obtain ⟨htiles, -, hspans⟩ := h.cut.frees_lift hm
  have hkept := htiles.lays_renderUpTo hm isWhole_zero hlt (h.cut.isPause_of_mem_lift hm)
    (Nat.le_refl 0)
  rw [hspans, ← h.cut.contentEnd_eq] at hkept
  have hcontent : IsWhole (contentEnd (placeFrom length 0 0 items) first last) :=
    hkept.stop_eq ▸ isWhole_endFrom hm isWhole_zero _
  have hblock := h.lays_block hlt
  have hsteps := h.cut.steps_pos hm hlt
  obtain ⟨-, hgrid, hreach, -, hwrites⟩ := h
  cases hwrites with
  | append content_le =>
    have htarget : target < maxStep := by omega
    have hrest := Lays.pause hm.rests hcontent ⟨by omega, .inl hgrid⟩ content_le htarget
    have hall := (hkept.append hrest).append hblock
    refine ⟨_, hall.normalize_drop hm.rests,
      ⟨content (outside first last (placeFrom length 0 0 items)), [], by simp, by simp⟩, ?_⟩
    intro item hlast hitem
    obtain ⟨rest, rfl⟩ := List.getLast?_eq_some_iff.mp hlast
    rw [← hblock.spans_eq, ← hblock.stop_eq, spansFrom_append, endFrom_append]
    simp [spansFrom, hitem, lastStop]

theorem start_le_of_mem_inside
    (h : Moves length items before block after first last target placement new) {s : Span}
    (hs : s ∈ content (inside first last (placeFrom length 0 0 items))) :
    endFrom length 0 before ≤ s.start := by
  rw [h.cut.content_inside] at hs
  exact (bounds_of_mem_spansFrom (endFrom_le_maxStep (Nat.zero_le _) before) hs).1

end Moves

/-! The lengths after the move. -/

theorem sum_map_eq (hl : MeasuresRests length) (items : List Item) :
    (items.map length).sum =
      ((sounds items).map length).sum + (items.map restLength).sum := by
  induction items with
  | nil => rfl
  | cons item rest ih =>
    cases item with
    | pad pad =>
      rw [sounds_cons rfl]
      simp only [List.map_cons, List.sum_cons, restLength, ih]
      omega
    | pause steps =>
      have hs : sounds (.pause steps :: rest) = sounds rest := rfl
      simp only [hs, List.map_cons, List.sum_cons, restLength, hl steps, ih]
      omega
    | call name =>
      rw [sounds_cons rfl]
      simp only [List.map_cons, List.sum_cons, restLength, ih]
      omega

/-- Sequences with the same sounds that are equally long once are so always, since
their pauses are. -/
theorem sameLength_of_perm (hl : MeasuresRests length) {old new : List Item}
    (hp : (sounds new).Perm (sounds old)) (hlt : endFrom length 0 old < maxStep)
    (he : endFrom length 0 new = endFrom length 0 old) : SameLength old new := by
  have hpauses : (new.map restLength).sum = (old.map restLength).sum := by
    have hsum := (hp.map length).sum_eq
    rw [← total_map, total_eq] at hlt
    rw [← total_map, ← total_map, total_eq, total_eq] at he
    have hold := sum_map_eq hl old
    have hnew := sum_map_eq hl new
    omega
  intro other hother
  rw [total_eq, total_eq, sum_map_eq hother new, sum_map_eq hother old, (hp.map other).sum_eq,
    hpauses]

theorem Placement.Keeps.perm {items before block after new : List Item} {first last : Nat}
    {placement : Placement} (hcut : IsCut items first last before block after)
    (h : placement.Keeps items first last new) : (sounds new).Perm (sounds items) := by
  have hinserted : ∀ result,
      Inserted (sounds (inside first last items)) (sounds (outside first last items)) result →
      result.Perm (sounds items) := by
    intro result hresult
    have hperm := hresult.perm
    rw [hcut.inside_items, hcut.outside_items, sounds_append] at hperm
    rw [hcut.items_eq, sounds_append, sounds_append, List.append_assoc]
    exact hperm.trans (List.perm_append_comm_assoc ..)
  cases placement with
  | swap other =>
    obtain ⟨xs, a, b, ys, hold, hnew⟩ := h
    rw [hold, hnew]
    exact (List.Perm.swap a b ys).append_left xs
  | gap start stop => exact hinserted _ h
  | append gap => exact hinserted _ h

/-- How long the layout is after a move. -/
def Placement.Ends (old : Timeline) (plan : MovePlan) (new : Timeline) : Placement → Prop
  | .append _ =>
    new.steps = lastStop 0 (content new.tokens) ∧
      ∀ t, old.tokens[plan.last]? = some t → t.isPause = false →
        new.steps = plan.target + plan.steps
  | _ => new.steps = old.steps

def Placement.trailing : Placement → Trailing
  | .append _ => .drop
  | _ => .keep

theorem steps_put_of_perm {p : Pattern} {pads : PadLengths} {container : Container}
    {items written : List Item} (hc : p.sequence? container = some items)
    (hno : ¬p.Reaches container container) (hp : (sounds written).Perm (sounds items))
    {item : Item} (hmem : item ∈ written) :
    (p.put container written).steps pads item = p.steps pads item := by
  by_cases hpause : item.isPause = true
  · obtain ⟨steps, rfl⟩ := exists_of_isPause hpause
    rw [((p.put container written).measures_steps pads).rests, (p.measures_steps pads).rests]
  · have hs : item ∈ sounds written := List.mem_filter.mpr ⟨hmem, by simpa using hpause⟩
    have hold : item ∈ items := (List.mem_filter.mp (hp.subset hs)).1
    exact Pattern.steps_put_of_avoids hc written (Pattern.avoids_of_mem hc hno hold)

theorem timeline_put {p : Pattern} {pads : PadLengths} {container : Container}
    {written : List Item} {spans : List Span} {stop : Nat}
    (h : Lays (p.steps pads) 0 written spans stop)
    (hsteps : ∀ item ∈ written, (p.put container written).steps pads item = p.steps pads item) :
    let new := (p.put container written).timeline pads container true
    new.items = written ∧ content new.tokens = spans ∧ new.steps = stop := by
  obtain ⟨hs, he⟩ := h.congr hsteps
  have hseq : ((p.put container written).sequence? container).getD [] = written := by
    rw [Pattern.sequence?_put, if_pos rfl, Option.getD_some]
  intro new
  refine ⟨hseq, ?_, ?_⟩
  · change content (placeFrom _ 0 0 (((p.put container written).sequence? container).getD [])) = _
    rw [hseq, content_placeFrom, hs]
  · change total ((((p.put container written).sequence? container).getD []).map _) = _
    rw [hseq, total_map, he]

theorem Moves.normal {items before block after new : List Item} {first last target : Nat}
    {placement : Placement}
    (h : Moves length items before block after first last target placement new) :
    normalizePauses placement.trailing new = new := by
  cases h.writes <;> exact normalizePauses_normalizePauses ..

/-- A valid plan is a move that takes the place of the sequence it was made for. -/
theorem exists_moves_of_placement {p : Pattern} {pads : PadLengths} {container : Container}
    {first last target : Nat} {placement : Placement}
    (h : (planMove (p.tokens pads container) first last target).placement = some placement) :
    ∃ items before block after new, p.sequence? container = some items ∧
      (p.moveBlock? pads container first last target).getD p = p.put container new ∧
      Moves (p.steps pads) items before block after first last target placement new := by
  have hvalid : (planMove (p.tokens pads container) first last target).isValid = true := by
    rw [MovePlan.isValid, h, Option.isSome_some]
  obtain ⟨new, hnew⟩ := Option.isSome_iff_exists.mp (result?_isSome_of_isValid hvalid)
  cases hc : p.sequence? container with
  | none => simp [Pattern.tokens, hc, placeFrom, planMove] at h
  | some items =>
    have htokens : p.tokens pads container = placeFrom (p.steps pads) 0 0 items := by
      rw [Pattern.tokens, hc, Option.getD_some]
    have hput : (p.moveBlock? pads container first last target).getD p = p.put container new := by
      simp only [Pattern.moveBlock?, hnew, Option.bind_some, Pattern.getD_setSequence? hc]
    rw [htokens] at hnew h
    obtain ⟨before, block, after, placement', hmoves⟩ :=
      exists_moves_of_result? (p.measures_steps pads) hnew
    obtain rfl : placement' = placement := by
      rw [hmoves.plan_eq] at h
      exact Option.some.inj h
    exact ⟨items, before, block, after, new, rfl, hput, hmoves⟩

/-- A moved block lands at its target, and everything else stays on its steps. -/
theorem moveBlock_lands {p : Pattern} {pads : PadLengths} {container : Container}
    {first last target : Nat} {placement : Placement}
    (htotal : (p.timeline pads container true).steps < maxStep)
    (hplaced : (planMove (p.tokens pads container) first last target).placement = some placement)
    (hno : ∀ gap, placement = .append gap → ¬p.Reaches container container) :
    let plan := planMove (p.tokens pads container) first last target
    let old := p.timeline pads container true
    let new := ((p.moveBlock? pads container first last target).getD p).timeline pads container true
    placement.Lands old.tokens plan (content new.tokens) ∧ placement.Ends old plan new ∧
      normalizePauses placement.trailing new.items = new.items := by
  have hm := p.measures_steps pads
  obtain ⟨items, before, block, after, written, hc, hput, hmoves⟩ :=
    exists_moves_of_placement hplaced
  intro plan old new
  have htokens : old.tokens = placeFrom (p.steps pads) 0 0 items := by
    simp only [old, Pattern.timeline, Pattern.tokens, hc, Option.getD_some]
  have hsteps : old.steps = endFrom (p.steps pads) 0 items := by
    simp only [old, Pattern.timeline, hc, Option.getD_some, total_map]
  have hplan : plan = _ := (congrArg (planMove · first last target) htokens).trans hmoves.plan_eq
  have hnew : new = (p.put container written).timeline pads container true := by
    rw [← hput]
  have hlt : endFrom (p.steps pads) 0 items < maxStep := hsteps ▸ htotal
  have hperm := (hmoves.keeps hm).perm hmoves.cut
  have hinside := fun s => hmoves.start_le_of_mem_inside (s := s)
  have hnormal := hmoves.normal
  rw [htokens, hplan, hnew]
  cases placement with
  | swap other =>
    obtain ⟨spans, hlays, s, t, hs, ht, htarget, htraded⟩ := hmoves.lays_swap hm.rests
    have hsame := sameLength_of_perm hm.rests hperm hlt hlays.stop_eq
    obtain ⟨hitems, hspans, hend⟩ := timeline_put hlays
      fun item _ => Pattern.steps_put_of_sameLength hc hsame item
    obtain ⟨item, -, hhead⟩ := hmoves.cut.getElem?_first (p.steps pads)
    have hsource : s.start = endFrom (p.steps pads) 0 before :=
      congrArg Token.start (Option.some.inj (hs.symm.trans hhead))
    rw [hitems, hspans]
    exact ⟨⟨s, t, hs, ht, hsource, htarget, htraded⟩, hend.trans hsteps.symm, hnormal⟩
  | gap start gapStop =>
    obtain ⟨spans, hlays, hinserted⟩ := hmoves.lays_gap hm hlt
    have hsame := sameLength_of_perm hm.rests hperm hlt hlays.stop_eq
    obtain ⟨hitems, hspans, hend⟩ := timeline_put hlays
      fun item _ => Pattern.steps_put_of_sameLength hc hsame item
    rw [hitems, hspans]
    exact ⟨⟨hinside, hinserted⟩, hend.trans hsteps.symm, hnormal⟩
  | append gap =>
    obtain ⟨spans, hlays, hinserted, hlast⟩ := hmoves.lays_append hm hlt
    obtain ⟨hitems, hspans, hend⟩ := timeline_put hlays
      fun item hmem => steps_put_of_perm hc (hno gap rfl) hperm hmem
    rw [hitems, hspans]
    refine ⟨⟨hinside, hinserted⟩, ⟨hend.trans (congrArg (lastStop 0) hspans.symm), ?_⟩, hnormal⟩
    intro t ht hpause
    obtain ⟨item, tail, hitem, htail, rfl, -⟩ := hmoves.cut.getElem?_last (p.steps pads)
    obtain rfl := Option.some.inj (ht.symm.trans (htokens ▸ htail))
    exact hend.trans (hlast _ hitem hpause)

theorem moveBlock_lands_behind :
    let p : Pattern := { root := [.pad 0, .pause 8, .pad 1] }
    let pads : PadLengths := { fallback := 4 }
    let plan := planMove (p.tokens pads .root) 0 0 20
    let old := p.timeline pads .root true
    let new := ((p.moveBlock? pads .root 0 0 20).getD p).timeline pads .root true
    plan.placement = some (.append 4) ∧
      (Placement.append 4).Lands old.tokens plan (content new.tokens) ∧
      (Placement.append 4).Ends old plan new ∧ normalizePauses .drop new.items = new.items :=
  ⟨by decide, moveBlock_lands (by decide) (by decide) fun _ _ => Pattern.not_reaches_root _ _⟩

end Groovebox

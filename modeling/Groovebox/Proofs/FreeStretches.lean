import Mathlib.Data.List.Chain
import Mathlib.Data.List.Induction
import Groovebox.Proofs.Planning

/-! What lifting a block leaves, step by step. The gaps between the items that stay are the
longest stretches of steps that none of them covers. Token by token the segments are put behind
each other, a gap on the one before it where they touch, and that comes to the same. -/

namespace Groovebox

/-- A stretch of the first `total` steps that no token of `tokens` but a pause covers, and no
longer one around it is such a stretch. -/
structure IsMaximalFree (tokens : List Token) (total start stop : Nat) : Prop where
  lt : start < stop
  le : stop ≤ total
  free : IsFree tokens start (stop - start)
  maximal : ∀ start' stop', start' ≤ start → stop ≤ stop' → stop' ≤ total →
    IsFree tokens start' (stop' - start') → start' = start ∧ stop' = stop

/-- The items of segments that are put end to end from `cursor` on, a gap as long as it is. -/
def spansInTurn (length : Item → Nat) : Nat → List Segment → List Span
  | _, [] => []
  | cursor, .gap start stop :: rest => spansInTurn length (cursor + (stop - start)) rest
  | cursor, .item item :: rest =>
    ⟨item, cursor, cursor + length item⟩ :: spansInTurn length (cursor + length item) rest

/-- The segments are the items of `others`, at their own steps, and the longest free stretches
of the first `total` steps between them. The last of the items ends at `contentStop`. -/
structure LeavesStretches (length : Item → Nat) (others : List Token) (total : Nat)
    (segments : List Segment) (contentStop : Nat) : Prop where
  spans_eq : spansInTurn length 0 segments = content others
  separated : Separated segments
  gap_mem_iff : ∀ start stop,
    .gap start stop ∈ segments ↔ IsMaximalFree others total start stop
  contentStop_eq : contentStop = lastStop 0 (content others)
  stop_le_iff : ∀ before start stop after, segments = before ++ .gap start stop :: after →
    (stop ≤ contentStop ↔ ∃ item, .item item ∈ after)

/-- Put a segment behind; a gap grows on one that ends where it begins. -/
def Segment.push (segments : List Segment) (segment : Segment) : List Segment :=
  match segments.getLast? with
  | none => [segment]
  | some last => segments.dropLast ++ last.join [segment]

/-- The segments and the end of the content with one token more. -/
def liftToken (first last freed : Nat) (lifted : List Segment × Nat) (t : Token) :
    List Segment × Nat :=
  if t.index = first then (Segment.push lifted.1 (.gap t.start freed), lifted.2)
  else if first < t.index ∧ t.index ≤ last then lifted
  else if t.isPause then (Segment.push lifted.1 (.gap t.start t.stop), lifted.2)
  else (lifted.1 ++ [.item t.item], t.stop)

def liftEach (tokens : List Token) (first last : Nat) : List Segment × Nat :=
  let freed := (tokens[last]?.map (·.stop)).getD 0
  tokens.foldl (liftToken first last freed) ([], 0)

variable {length : Item → Nat} {cursor start stop total : Nat} {segments : List Segment}

/-! Token by token. -/

theorem Segment.push_append (xs : List Segment) {ys : List Segment} (h : ys ≠ [])
    (segment : Segment) : push (xs ++ ys) segment = xs ++ push ys segment := by
  obtain ⟨last, hlast⟩ := Option.isSome_iff_exists.mp (List.getLast?_isSome.mpr h)
  rw [push, push, List.getLast?_append, hlast, Option.some_or]
  simp only [List.dropLast_append_of_ne_nil h, List.append_assoc]

theorem Segment.push_item (segments : List Segment) (item : Item) :
    push segments (.item item) = segments ++ [.item item] := by
  cases segments using List.reverseRecOn with
  | nil => rfl
  | append_singleton xs x =>
    rw [push_append xs (List.cons_ne_nil x []), List.append_assoc]
    cases x <;> rfl

theorem Segment.join_cons (segment y : Segment) (rest : List Segment) :
    segment.join (y :: rest) = segment.join [y] ++ rest := by
  cases segment with
  | item item => rfl
  | gap start stop =>
    cases y with
    | item item => rfl
    | gap start' stop' =>
      simp only [join]
      split_ifs <;> rfl

/-- It does not matter whether a segment joins in front or behind first. -/
theorem Segment.join_push (segment : Segment) (rest : List Segment) (next : Segment) :
    segment.join (push rest next) = push (segment.join rest) next := by
  cases rest with
  | nil => cases segment <;> rfl
  | cons y rest =>
    cases rest with
    | nil =>
      cases segment with
      | item item => exact (push_append [.item item] (List.cons_ne_nil y []) next).symm
      | gap start stop =>
        cases y with
        | item item => cases next <;> rfl
        | gap start' stop' =>
          cases next with
          | item item =>
            by_cases h : stop = start' <;> simp [push, join, h]
          | gap start'' stop'' =>
            by_cases h : stop = start' <;> by_cases h' : stop' = start'' <;>
              simp [push, join, h, h']
    | cons z rest =>
      have hne := List.cons_ne_nil z rest
      rw [join_cons, push_append _ hne, ← List.singleton_append, push_append _ hne,
        List.singleton_append, join_cons]

theorem foldr_join_concat (segments : List Segment) (segment : Segment) :
    (segments ++ [segment]).foldr Segment.join [] =
      Segment.push (segments.foldr Segment.join []) segment := by
  induction segments with
  | nil => cases segment <;> rfl
  | cons head rest ih =>
    rw [List.cons_append, List.foldr_cons, ih, Segment.join_push, List.foldr_cons]

theorem contentEnd_concat (tokens : List Token) (t : Token) (first last : Nat) :
    contentEnd (tokens ++ [t]) first last =
      if !t.isPause && !t.isLifted first last then t.stop else contentEnd tokens first last := by
  rw [contentEnd, List.filter_append, List.filter_singleton]
  split_ifs with h
  · simp [h]
  · simp [h, contentEnd]

theorem liftEach_eq (tokens : List Token) {first last : Nat} (hle : first ≤ last) :
    liftEach tokens first last = (lift tokens first last, contentEnd tokens first last) := by
  simp only [liftEach, lift]
  generalize (tokens[last]?.map (·.stop)).getD 0 = freed
  induction tokens using List.reverseRecOn with
  | nil => rfl
  | append_singleton tokens t ih =>
    rw [List.foldl_append, ih, List.foldl_cons, List.foldl_nil, List.filterMap_append,
      contentEnd_concat, liftToken]
    by_cases hfirst : t.index = first
    · have hsegment : t.segment? first last freed = some (.gap t.start freed) := by
        simp [Token.segment?, hfirst]
      simp [hfirst, hsegment, Token.isLifted, ← foldr_join_concat]
    · by_cases hinside : first < t.index ∧ t.index ≤ last
      · obtain ⟨hlifted, hsegment⟩ : t.isLifted first last = true ∧
            t.segment? first last freed = none := segment?_of_inside hinside.1 hinside.2
        simp [hfirst, hinside, hlifted, hsegment]
      · have houtside : t.index < first ∨ last < t.index := by omega
        obtain ⟨hlifted, hsegment⟩ := segment?_of_outside freed hle houtside
        by_cases hpause : t.isPause = true
        · simp [hfirst, hinside, hlifted, hsegment, hpause, Token.segment, ← foldr_join_concat]
        · simp [hfirst, hinside, hlifted, hsegment, hpause, Token.segment, ← Segment.push_item,
            ← foldr_join_concat]

/-! The stretches between the items. -/

theorem exists_mem_segmentSpans_iff :
    (∃ s, s ∈ segmentSpans length cursor segments) ↔ ∃ item, .item item ∈ segments := by
  induction segments generalizing cursor with
  | nil => simp [segmentSpans]
  | cons segment rest ih =>
    cases segment with
    | gap start stop => simp [segmentSpans, ih]
    | item item => simp [segmentSpans]

/-- Before the last step nothing is cut off, so the segments come to their own steps when they
are put end to end. -/
theorem Tiles.spansInTurn_eq (h : Tiles length cursor segments stop) (hc : cursor ≤ maxStep)
    (hlt : stop < maxStep) :
    spansInTurn length cursor segments = segmentSpans length cursor segments := by
  induction segments generalizing cursor with
  | nil => rfl
  | cons segment rest ih =>
    cases segment with
    | gap start gapStop =>
      obtain ⟨rfl, hf, hr⟩ := h
      rw [spansInTurn, segmentSpans, Nat.add_sub_cancel' hf.le, ih hr hf.whole.le]
    | item item =>
      have hr : Tiles length (satAdd cursor (length item)) rest stop := h
      have hs := satAdd_le_maxStep cursor (length item)
      have hexact := satAdd_of_lt (Nat.lt_of_le_of_lt (hr.le hs).1 hlt)
      rw [spansInTurn, segmentSpans, ← hexact, ih hr hs]

theorem Separated.beside_gap {before after : List Segment}
    (h : Separated (before ++ .gap start stop :: after)) :
    (∀ segment ∈ before.getLast?, segment.isGap = false) ∧
      ∀ segment ∈ after.head?, segment.isGap = false := by
  obtain ⟨-, hafter, hbetween⟩ := List.isChain_append.mp h
  refine ⟨fun segment hlast => ?_, fun segment hhead => ?_⟩
  · rw [Bool.eq_false_iff]
    intro hgap
    exact Bool.noConfusion (hbetween segment hlast (.gap start stop) rfl hgap)
  · exact (List.isChain_cons.mp hafter).1 segment hhead rfl

theorem Tiles.eq_or_exists_stop (h : Tiles length cursor segments stop)
    (hlast : ∀ segment ∈ segments.getLast?, segment.isGap = false) :
    cursor = stop ∨ ∃ s ∈ segmentSpans length cursor segments, s.stop = stop := by
  cases segments using List.reverseRecOn with
  | nil => exact .inl h
  | append_singleton xs x =>
    obtain ⟨middle, hx, hend⟩ := tiles_append.mp h
    cases x with
    | gap start gapStop => exact Bool.noConfusion (hlast _ List.getLast?_concat)
    | item item =>
      rw [segmentSpans_append hx]
      exact .inr ⟨_, List.mem_append_right _ List.mem_cons_self, hend⟩

theorem Tiles.eq_or_exists_start (h : Tiles length cursor segments stop)
    (hhead : ∀ segment ∈ segments.head?, segment.isGap = false) :
    cursor = stop ∨ ∃ s ∈ segmentSpans length cursor segments, s.start = cursor := by
  cases segments with
  | nil => exact .inl h
  | cons segment rest =>
    cases segment with
    | gap start gapStop => exact Bool.noConfusion (hhead _ rfl)
    | item item => exact .inr ⟨_, List.mem_cons_self, rfl⟩

/-- The content goes on behind a gap just when an item follows. -/
theorem Tiles.stop_le_lastStop_iff {before after : List Segment}
    (h : Tiles length 0 (before ++ .gap start stop :: after) total) (htotal : total < maxStep) :
    stop ≤ lastStop 0 (segmentSpans length 0 (before ++ .gap start stop :: after)) ↔
      ∃ item, .item item ∈ after := by
  have hz := Nat.zero_le maxStep
  obtain ⟨hb, hf, ha⟩ := h.split
  have hspans : segmentSpans length 0 (before ++ .gap start stop :: after) =
      segmentSpans length 0 before ++ segmentSpans length stop after := segmentSpans_append hb
  constructor
  · intro hle
    by_contra hno
    have hnil : segmentSpans length stop after = [] :=
      List.eq_nil_iff_forall_not_mem.mpr fun s hs =>
        hno (exists_mem_segmentSpans_iff.mp ⟨s, hs⟩)
    have hbefore : lastStop 0 (segmentSpans length 0 before) ≤ start :=
      (hb.lastStop_le_iff hz (Nat.le_refl 0) start).mpr
        ⟨Nat.zero_le start, fun s hs => (hb.bounds hz hs).2.2⟩
    have hend := (ha.le hf.whole.le).1
    have hlt := hf.lt (by have := hf.le; omega)
    rw [hspans, hnil, List.append_nil] at hle
    omega
  · intro hitem
    obtain ⟨s, hs⟩ : ∃ s, s ∈ segmentSpans length stop after :=
      exists_mem_segmentSpans_iff.mpr hitem
    have hmem : s ∈ segmentSpans length 0 (before ++ .gap start stop :: after) := by
      rw [hspans]
      exact List.mem_append_right _ hs
    obtain ⟨hbegins, hruns, -⟩ := ha.bounds hf.whole.le hs
    have hlast := ((h.lastStop_le_iff hz (Nat.le_refl 0) _).mp (Nat.le_refl _)).2 s hmem
    omega

namespace Frees

variable {others : List Token}

theorem isMaximalFree (h : Frees length 0 segments (content others) total)
    (hpos : ∀ t ∈ others, t.start < t.stop) (htotal : total < maxStep)
    (hg : .gap start stop ∈ segments) : IsMaximalFree others total start stop := by
  obtain ⟨htiles, hsep, hspans⟩ := h
  have hz := Nat.zero_le maxStep
  obtain ⟨hle, hruns, hend⟩ := htiles.gap_bounds hz hg
  have hlt := (htiles.follows hg).lt (by omega)
  refine ⟨hlt, hend, ?_, fun start' stop' hstart hstop htotal' hfree => ?_⟩
  · rw [isFree_iff (by omega) hpos, ← hspans]
    intro s hs
    have happart := htiles.apart hz hg hs
    omega
  · rw [isFree_iff (by omega) hpos, ← hspans] at hfree
    obtain ⟨before, after, rfl⟩ := List.append_of_mem hg
    obtain ⟨hlast, hhead⟩ := hsep.beside_gap
    obtain ⟨hb, hf, ha⟩ := htiles.split
    rw [segmentSpans_append hb] at hfree
    constructor
    · rcases hb.eq_or_exists_stop hlast with hnone | ⟨s, hs, hstops⟩
      · omega
      · have hfront := hfree s (List.mem_append_left _ hs)
        have hwithin := hb.bounds hz hs
        omega
    · rcases ha.eq_or_exists_start hhead with hnone | ⟨s, hs, hstarts⟩
      · omega
      · have hback := hfree s (List.mem_append_right _ hs)
        have hwithin := ha.bounds hf.whole.le hs
        omega

theorem gap_mem_iff (hm : Measures length) (h : Frees length 0 segments (content others) total)
    (hpos : ∀ t ∈ others, t.start < t.stop) (htotal : total < maxStep) :
    .gap start stop ∈ segments ↔ IsMaximalFree others total start stop := by
  refine ⟨h.isMaximalFree hpos htotal, fun ⟨hlt, hle, hfree, hmaximal⟩ => ?_⟩
  have hz := Nat.zero_le maxStep
  rw [isFree_iff (by omega) hpos, ← h.spans_eq] at hfree
  rcases h.tiles.exists_gap_of_free hm h.separated hz htotal (Nat.zero_le start) (by omega) hfree
    with ⟨gapStart, gapStop, hg, hstart, hstop⟩ | ⟨hover, -⟩
  · have hgap := h.isMaximalFree hpos htotal hg
    obtain ⟨rfl, rfl⟩ := hmaximal gapStart gapStop hstart (by omega) hgap.le hgap.free
    exact hg
  · omega

end Frees

/-- Lifting a block leaves the other items where they are, and between them the longest
stretches of free steps. -/
theorem lift_leaves_stretches {p : Pattern} {pads : PadLengths} {container : Container}
    {showPauses : Bool} {first last : Nat}
    (htotal : (p.timeline pads container showPauses).steps < maxStep) (hle : first ≤ last)
    (hlast : last < (p.tokens pads container).length) :
    let tokens := p.tokens pads container
    liftEach tokens first last = (lift tokens first last, contentEnd tokens first last) ∧
      LeavesStretches (p.steps pads) (outside first last tokens)
        (p.timeline pads container showPauses).steps (lift tokens first last)
        (contentEnd tokens first last) := by
  intro tokens
  refine ⟨liftEach_eq tokens hle, ?_⟩
  have hm := p.measures_steps pads
  have hz := Nat.zero_le maxStep
  have hitems : last < ((p.sequence? container).getD []).length := by
    rwa [← length_placeFrom (p.steps pads) _ 0 0]
  obtain ⟨before, block, after, hcut⟩ := exists_isCut hle hitems
  have hfrees : Frees (p.steps pads) 0 (lift tokens first last)
      (content (outside first last tokens)) (p.timeline pads container showPauses).steps :=
    hcut.frees_lift hm
  have hpos : ∀ t ∈ outside first last tokens, t.start < t.stop := fun t ht =>
    start_lt_stop_of_mem_placeFrom hm hz (mem_of_mem_outside ht) htotal
  have hcontent : contentEnd tokens first last = lastStop 0 (content (outside first last tokens)) :=
    hcut.contentEnd_eq
  constructor
  case spans_eq => rw [hfrees.tiles.spansInTurn_eq hz htotal, hfrees.spans_eq]
  case separated => exact hfrees.separated
  case gap_mem_iff => exact fun start stop => hfrees.gap_mem_iff hm hpos htotal
  case contentStop_eq => exact hcontent
  case stop_le_iff =>
    intro before start stop after hsegments
    have htiles := hfrees.tiles
    rw [hcontent, ← hfrees.spans_eq]
    rw [hsegments] at htiles ⊢
    exact htiles.stop_le_lastStop_iff htotal

theorem lift_leaves_stretches_between_pauses :
    let p : Pattern :=
      { root := [.pad 0, .pause 4, .pad 1, .pause 4, .pad 2, .pause 8, .call ⟨.group, "g1"⟩,
          .pause 16]
        groups := .ofList [("g1", [.pad 0, .call ⟨.group, "g1"⟩])] }
    let pads : PadLengths := { fallback := 4 }
    let tokens := p.tokens pads .root
    (p.timeline pads .root false).steps < maxStep ∧ 4 < tokens.length ∧
      liftEach tokens 2 4 =
        ([.item (.pad 0), .gap 4 28, .item (.call ⟨.group, "g1"⟩), .gap 36 52], 36) ∧
      liftEach tokens 2 4 = (lift tokens 2 4, contentEnd tokens 2 4) ∧
      LeavesStretches (p.steps pads) (outside 2 4 tokens) (p.timeline pads .root false).steps
        (lift tokens 2 4) (contentEnd tokens 2 4) := by
  intro p pads tokens
  have htotal : (p.timeline pads .root false).steps < maxStep := by decide
  have hlast : 4 < tokens.length := by decide
  exact ⟨htotal, hlast, by decide, lift_leaves_stretches htotal (by decide) hlast⟩

end Groovebox

import Groovebox.BlockMove
import Groovebox.Proofs.Rests

/-! Segments that lie end to end. Joining gaps that touch keeps the tiling and its
content, and then each gap reaches from one item to the next. -/

namespace Groovebox

def Segment.isGap : Segment → Bool
  | .gap _ _ => true
  | .item _ => false

/-- What is on the layout from `start` on can end at `stop`. Only at the last step
time stands still. -/
structure Follows (start stop : Nat) : Prop where
  le : start ≤ stop
  whole : IsWhole stop
  lt : start < maxStep → start < stop

/-- The segments lie end to end from `cursor` to `stop`. -/
def Tiles (length : Item → Nat) : Nat → List Segment → Nat → Prop
  | cursor, [], stop => cursor = stop
  | cursor, .gap start gapStop :: rest, stop =>
    start = cursor ∧ Follows start gapStop ∧ Tiles length gapStop rest stop
  | cursor, .item item :: rest, stop => Tiles length (satAdd cursor (length item)) rest stop

def segmentSpans (length : Item → Nat) : Nat → List Segment → List Span
  | _, [] => []
  | _, .gap _ stop :: rest => segmentSpans length stop rest
  | cursor, .item item :: rest =>
    let stop := satAdd cursor (length item)
    ⟨item, cursor, stop⟩ :: segmentSpans length stop rest

def Separated (segments : List Segment) : Prop :=
  segments.IsChain fun s t => s.isGap = true → t.isGap = false

/-- The segments tile the steps from `cursor` to `stop`, no two gaps touch, and the
items between the gaps have the content `spans`. -/
structure Frees (length : Item → Nat) (cursor : Nat) (segments : List Segment)
    (spans : List Span) (stop : Nat) : Prop where
  tiles : Tiles length cursor segments stop
  separated : Separated segments
  spans_eq : segmentSpans length cursor segments = spans

variable {length : Item → Nat} {cursor stop : Nat}

theorem follows_satAdd (hm : Measures length) (hc : IsWhole cursor) (item : Item) :
    Follows cursor (satAdd cursor (length item)) :=
  ⟨le_satAdd hc.le _, hc.satAdd (hm.whole item), fun h => lt_satAdd h (hm.pos item)⟩

theorem Follows.trans {a b c : Nat} (h : Follows a b) (h' : Follows b c) : Follows a c := by
  obtain ⟨h₁, h₂, h₃⟩ := h
  obtain ⟨h₁', h₂', h₃'⟩ := h'
  refine ⟨by omega, h₂', fun hlt => ?_⟩
  have := h₃ hlt
  omega

theorem tiles_append {xs ys : List Segment} :
    Tiles length cursor (xs ++ ys) stop ↔
      ∃ middle, Tiles length cursor xs middle ∧ Tiles length middle ys stop := by
  induction xs generalizing cursor with
  | nil => simp [Tiles]
  | cons x xs ih =>
    cases x with
    | gap start gapStop => simp [Tiles, ih, and_assoc]
    | item item => simp [Tiles, ih]

theorem segmentSpans_append {xs ys : List Segment} {middle : Nat}
    (h : Tiles length cursor xs middle) :
    segmentSpans length cursor (xs ++ ys) =
      segmentSpans length cursor xs ++ segmentSpans length middle ys := by
  induction xs generalizing cursor with
  | nil =>
    obtain rfl : cursor = middle := h
    rfl
  | cons x xs ih =>
    cases x with
    | gap start gapStop => exact ih h.2.2
    | item item => exact congrArg (_ :: ·) (ih h)

/-! Joining gaps. -/

theorem segmentSpans_join (segment : Segment) (rest : List Segment) :
    segmentSpans length cursor (segment.join rest) =
      segmentSpans length cursor (segment :: rest) := by
  unfold Segment.join
  split
  · split <;> rfl
  · rfl

theorem tiles_join {segment : Segment} {rest : List Segment}
    (h : Tiles length cursor (segment :: rest) stop) :
    Tiles length cursor (segment.join rest) stop := by
  unfold Segment.join
  split
  · next start gapStop start' gapStop' rest =>
    obtain ⟨rfl, hf, rfl, hf', hr⟩ := h
    simp only [if_true]
    exact ⟨rfl, hf.trans hf', hr⟩
  · exact h

theorem separated_join {segment : Segment} {rest : List Segment}
    (h : Tiles length cursor (segment :: rest) stop) (hs : Separated rest) :
    Separated (segment.join rest) := by
  unfold Segment.join
  split
  · next start gapStop start' gapStop' rest =>
    obtain ⟨rfl, -, rfl, -⟩ := h
    simp only [if_true]
    cases rest with
    | nil => exact .singleton _
    | cons next rest =>
      obtain ⟨hn, hs⟩ := List.isChain_cons_cons.mp hs
      exact List.isChain_cons_cons.mpr ⟨hn, hs⟩
  · next hne =>
    cases rest with
    | nil => exact .singleton _
    | cons next rest =>
      refine List.isChain_cons_cons.mpr ⟨fun hg => ?_, hs⟩
      cases segment with
      | item item => simp [Segment.isGap] at hg
      | gap start gapStop =>
        cases next with
        | item item => rfl
        | gap start' gapStop' => exact absurd rfl (hne start gapStop start' gapStop' rest rfl)

theorem frees_joined {segments : List Segment} (h : Tiles length cursor segments stop) :
    Frees length cursor (segments.foldr Segment.join []) (segmentSpans length cursor segments)
      stop := by
  induction segments generalizing cursor with
  | nil => exact ⟨h, .nil, rfl⟩
  | cons segment rest ih =>
    rw [List.foldr_cons]
    cases segment with
    | gap start gapStop =>
      obtain ⟨he, hf, hr⟩ := h
      obtain ⟨ht, hs, hspans⟩ := ih hr
      have hcons : Tiles length cursor (.gap start gapStop :: rest.foldr Segment.join []) stop :=
        ⟨he, hf, ht⟩
      refine ⟨tiles_join hcons, separated_join hcons hs, ?_⟩
      rw [segmentSpans_join]
      exact hspans
    | item item =>
      obtain ⟨ht, hs, hspans⟩ := ih h
      have hcons : Tiles length cursor (.item item :: rest.foldr Segment.join []) stop := ht
      refine ⟨tiles_join hcons, separated_join hcons hs, ?_⟩
      rw [segmentSpans_join]
      exact congrArg (_ :: ·) hspans

/-! Gaps of a tiling. -/

theorem Tiles.le {segments : List Segment} (h : Tiles length cursor segments stop)
    (hc : cursor ≤ maxStep) : cursor ≤ stop ∧ stop ≤ maxStep := by
  induction segments generalizing cursor with
  | nil =>
    obtain rfl : cursor = stop := h
    exact ⟨Nat.le_refl _, hc⟩
  | cons segment rest ih =>
    cases segment with
    | gap start gapStop =>
      obtain ⟨rfl, hf, hr⟩ := h
      have hh := ih hr hf.whole.le
      have hle := hf.le
      omega
    | item item =>
      have hh := ih h (satAdd_le_maxStep _ _)
      have hle := le_satAdd hc (length item)
      omega

theorem Tiles.isWhole (hm : Measures length) {segments : List Segment}
    (h : Tiles length cursor segments stop) (hc : IsWhole cursor) : IsWhole stop := by
  induction segments generalizing cursor with
  | nil =>
    obtain rfl : cursor = stop := h
    exact hc
  | cons segment rest ih =>
    cases segment with
    | gap start gapStop => exact ih h.2.2 h.2.1.whole
    | item item => exact ih h (hc.satAdd (hm.whole item))

theorem Tiles.bounds {segments : List Segment} (h : Tiles length cursor segments stop)
    (hc : cursor ≤ maxStep) {s : Span} (hs : s ∈ segmentSpans length cursor segments) :
    cursor ≤ s.start ∧ s.start ≤ s.stop ∧ s.stop ≤ stop := by
  induction segments generalizing cursor with
  | nil => simp [segmentSpans] at hs
  | cons segment rest ih =>
    cases segment with
    | gap start gapStop =>
      obtain ⟨rfl, hf, hr⟩ := h
      have hh := ih hr hf.whole.le hs
      have hle := hf.le
      omega
    | item item =>
      have hr : Tiles length (satAdd cursor (length item)) rest stop := h
      have hle := le_satAdd hc (length item)
      have hs' := satAdd_le_maxStep cursor (length item)
      rcases List.mem_cons.mp hs with rfl | hs
      · exact ⟨Nat.le_refl _, hle, (hr.le hs').1⟩
      · have hh := ih hr hs' hs
        omega

theorem Tiles.split {before after : List Segment} {start gapStop : Nat}
    (h : Tiles length cursor (before ++ .gap start gapStop :: after) stop) :
    Tiles length cursor before start ∧ Follows start gapStop ∧
      Tiles length gapStop after stop := by
  obtain ⟨middle, hb, rfl, hf, ha⟩ := tiles_append.mp h
  exact ⟨hb, hf, ha⟩

theorem Tiles.gap_bounds {segments : List Segment} (h : Tiles length cursor segments stop)
    (hc : cursor ≤ maxStep) {start gapStop : Nat} (hg : .gap start gapStop ∈ segments) :
    cursor ≤ start ∧ start ≤ gapStop ∧ gapStop ≤ stop := by
  obtain ⟨before, after, rfl⟩ := List.append_of_mem hg
  obtain ⟨hb, hf, ha⟩ := h.split
  exact ⟨(hb.le hc).1, hf.le, (ha.le hf.whole.le).1⟩

theorem Tiles.follows {segments : List Segment} (h : Tiles length cursor segments stop)
    {start gapStop : Nat} (hg : .gap start gapStop ∈ segments) : Follows start gapStop := by
  obtain ⟨before, after, rfl⟩ := List.append_of_mem hg
  exact h.split.2.1

theorem Tiles.apart {segments : List Segment} (h : Tiles length cursor segments stop)
    (hc : cursor ≤ maxStep) {start gapStop : Nat} (hg : .gap start gapStop ∈ segments) {s : Span}
    (hs : s ∈ segmentSpans length cursor segments) : s.stop ≤ start ∨ gapStop ≤ s.start := by
  obtain ⟨before, after, rfl⟩ := List.append_of_mem hg
  obtain ⟨hb, hf, ha⟩ := h.split
  rw [segmentSpans_append hb] at hs
  rcases List.mem_append.mp hs with hs | hs
  · exact .inl (hb.bounds hc hs).2.2
  · exact .inr (ha.bounds hf.whole.le hs).1

theorem Tiles.lastStop_le_iff {segments : List Segment} (h : Tiles length cursor segments stop)
    (hc : cursor ≤ maxStep) {start : Nat} (hs : start ≤ cursor) (target : Nat) :
    lastStop start (segmentSpans length cursor segments) ≤ target ↔
      start ≤ target ∧ ∀ s ∈ segmentSpans length cursor segments, s.stop ≤ target := by
  induction segments generalizing cursor start with
  | nil => simp [segmentSpans, lastStop]
  | cons segment rest ih =>
    cases segment with
    | gap gapStart gapStop =>
      obtain ⟨rfl, hf, hr⟩ := h
      exact ih hr hf.whole.le (Nat.le_trans hs hf.le)
    | item item =>
      have hle := le_satAdd hc (length item)
      have hh := ih h (satAdd_le_maxStep _ _) (Nat.le_refl _)
      simp only [segmentSpans, lastStop_cons, hh, List.mem_cons, forall_eq_or_imp]
      refine ⟨?_, And.right⟩
      rintro ⟨h₁, h₂⟩
      exact ⟨by omega, h₁, h₂⟩

theorem Tiles.gap_not_mem {before after : List Segment} {start gapStop : Nat}
    (h : Tiles length cursor (before ++ .gap start gapStop :: after) stop)
    (hc : cursor ≤ maxStep) (hlt : start < gapStop) :
    .gap start gapStop ∉ before ∧ .gap start gapStop ∉ after := by
  obtain ⟨hb, hf, ha⟩ := h.split
  refine ⟨fun hm => ?_, fun hm => ?_⟩
  · have hh := (hb.gap_bounds hc hm).2.2
    omega
  · have hh := (ha.gap_bounds hf.whole.le hm).1
    omega

/-- Free steps do not reach beyond a gap that something follows. -/
theorem Tiles.eq_nil_of_overhang (hm : Measures length) {rest : List Segment}
    (h : Tiles length cursor rest stop) {start : Nat}
    (hsep : Separated (.gap start cursor :: rest)) (hlt : cursor < maxStep) {target steps : Nat}
    (hin : target < cursor) (hover : cursor < target + steps)
    (hfree : ∀ s ∈ segmentSpans length cursor rest, s.stop ≤ target ∨ target + steps ≤ s.start) :
    rest = [] := by
  cases rest with
  | nil => rfl
  | cons next rest =>
    cases next with
    | gap start' gapStop =>
      have hno := (List.isChain_cons_cons.mp hsep).1 rfl
      simp [Segment.isGap] at hno
    | item item =>
      have hpos := lt_satAdd hlt (hm.pos item)
      have hh := hfree ⟨item, cursor, satAdd cursor (length item)⟩ List.mem_cons_self
      simp only at hh
      omega

/-- Steps that no item occupies lie in one gap, or all items come before them and they reach
beyond the layout. -/
theorem Tiles.exists_gap_of_free (hm : Measures length) {segments : List Segment}
    (h : Tiles length cursor segments stop) (hsep : Separated segments) (hc : cursor ≤ maxStep)
    (hstop : stop < maxStep) {target steps : Nat} (ht : cursor ≤ target) (hsteps : 0 < steps)
    (hfree : ∀ s ∈ segmentSpans length cursor segments,
      s.stop ≤ target ∨ target + steps ≤ s.start) :
    (∃ start gapStop, .gap start gapStop ∈ segments ∧ start ≤ target ∧
        target + steps ≤ gapStop) ∨
      stop < target + steps ∧ ∀ s ∈ segmentSpans length cursor segments, s.stop ≤ target := by
  induction segments generalizing cursor with
  | nil =>
    obtain rfl : cursor = stop := h
    exact .inr ⟨by omega, by simp [segmentSpans]⟩
  | cons segment rest ih =>
    have hrest : Separated rest := hsep.of_cons
    cases segment with
    | gap start gapStop =>
      obtain ⟨rfl, hf, hr⟩ := h
      by_cases hin : gapStop ≤ target
      · rcases ih hr hrest hf.whole.le hin hfree with ⟨s, e, hg, hh⟩ | hh
        · exact .inl ⟨s, e, List.mem_cons_of_mem _ hg, hh⟩
        · exact .inr hh
      · by_cases hfit : target + steps ≤ gapStop
        · exact .inl ⟨start, gapStop, List.mem_cons_self, ht, hfit⟩
        · have hlt : gapStop < maxStep := Nat.lt_of_le_of_lt (hr.le hf.whole.le).1 hstop
          have hnil := hr.eq_nil_of_overhang hm hsep hlt (Nat.not_le.mp hin) (Nat.not_le.mp hfit)
            hfree
          subst hnil
          obtain rfl : gapStop = stop := hr
          exact .inr ⟨Nat.not_le.mp hfit, by simp [segmentSpans]⟩
    | item item =>
      have hr : Tiles length (satAdd cursor (length item)) rest stop := h
      have hs' := satAdd_le_maxStep cursor (length item)
      have hlt : cursor < maxStep := by
        have hle := le_satAdd hc (length item)
        have hh := (hr.le hs').1
        omega
      have hover := lt_satAdd hlt (hm.pos item)
      have hpast : satAdd cursor (length item) ≤ target := by
        have hh := hfree ⟨item, cursor, satAdd cursor (length item)⟩ List.mem_cons_self
        simp only at hh
        omega
      rcases ih hr hrest hs' hpast fun s hs => hfree s (List.mem_cons_of_mem _ hs) with
        ⟨s, e, hg, hh⟩ | ⟨hend, hh⟩
      · exact .inl ⟨s, e, List.mem_cons_of_mem _ hg, hh⟩
      · refine .inr ⟨hend, fun s hs => ?_⟩
        rcases List.mem_cons.mp hs with rfl | hs
        · exact hpast
        · exact hh s hs

end Groovebox

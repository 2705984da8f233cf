import Groovebox.Proofs.Lifting

/-! When a block can be moved. A plan is valid exactly when the target is on the grid
and in reach and the block trades places with an equally long neighbour or finds its
steps free of other items. -/

namespace Groovebox

variable {length : Item → Nat}

/-- The token at index `i` and a neighbour, at index `j`, that is as long and
starts at `target`. -/
def Trades (tokens : List Token) (i j target : Nat) : Prop :=
  ∃ moving other, tokens[i]? = some moving ∧ tokens[j]? = some other ∧ (j + 1 = i ∨ j = i + 1) ∧
    moving.isPause = false ∧ other.isPause = false ∧ other.steps = moving.steps ∧
    other.start = target

/-- No token of `tokens` but a pause covers one of the `steps` steps from `target` on. -/
def IsFree (tokens : List Token) (target steps : Nat) : Prop :=
  ∀ t ∈ tokens, t.isPause = false →
    ∀ step, target ≤ step → step < target + steps → t.covers step = false

theorem swap?_eq_some {tokens : List Token} {first last target i : Nat}
    (h : swap? tokens first last target = some i) :
    first = last ∧ Trades tokens first i target := by
  unfold swap? at h
  cases hm : tokens[first]? with
  | none => simp [hm] at h
  | some moving =>
    rw [hm] at h
    by_cases hno : first ≠ last ∨ moving.isPause = true
    · simp [hno] at h
    · simp only [hno, if_false] at h
      have hmem := List.mem_of_find?_eq_some h
      have hfound := List.find?_some h
      obtain ⟨other, ho, hh⟩ : ∃ other, tokens[i]? = some other ∧ _ :=
        (Option.any_eq_true ..).mp hfound
      simp only [Bool.and_eq_true, Bool.not_eq_true', decide_eq_true_eq] at hh
      refine ⟨by omega, moving, other, hm, ho, ?_, ?_, hh.1.1, hh.1.2, hh.2⟩
      · split at hmem
        · simp at hmem
          omega
        · simp at hmem
          omega
      · simpa using fun hp => hno (.inr hp)

theorem swap?_isSome_of_trades {tokens : List Token} {i j target : Nat}
    (h : Trades tokens i j target) : (swap? tokens i i target).isSome = true := by
  obtain ⟨moving, other, hm, ho, hj, hp, hp', hs, ht⟩ := h
  have hmem : j ∈ if i = 0 then [1] else [i - 1, i + 1] := by
    split
    · simp
      omega
    · simp
      omega
  simp only [swap?, hm, ne_eq, not_true_eq_false, hp, Bool.false_eq_true, or_self, if_false]
  rw [List.find?_isSome]
  exact ⟨j, hmem, by simp [ho, hp', hs, ht]⟩

theorem landing?_eq_some {segments : List Segment} {target stop : Nat} {placement : Placement}
    (h : landing? segments target stop = some placement) :
    ∃ start gapStop, placement = .gap start gapStop ∧ .gap start gapStop ∈ segments ∧
      start ≤ target ∧ stop ≤ gapStop := by
  obtain ⟨segment, hm, hh⟩ := List.exists_of_findSome?_eq_some h
  cases segment with
  | item item => simp at hh
  | gap start gapStop =>
    by_cases hfit : start ≤ target ∧ stop ≤ gapStop
    · simp only [hfit, and_self, if_true, Option.some.injEq] at hh
      exact ⟨start, gapStop, hh.symm, hm, hfit⟩
    · simp [hfit] at hh

theorem landing?_isSome_of_mem {segments : List Segment} {target stop start gapStop : Nat}
    (hm : .gap start gapStop ∈ segments) (hs : start ≤ target) (he : stop ≤ gapStop) :
    (landing? segments target stop).isSome = true := by
  rw [landing?, List.findSome?_isSome_iff]
  exact ⟨_, hm, by simp [hs, he]⟩

theorem span_mem_content {tokens : List Token} {s : Span} :
    s ∈ content tokens ↔ ∃ t ∈ tokens, t.isPause = false ∧ t.span = s := by
  simp [content, and_assoc]

theorem bounds_of_mem_spansFrom {items : List Item} {cursor : Nat} {s : Span}
    (hc : cursor ≤ maxStep) (h : s ∈ spansFrom length cursor items) :
    cursor ≤ s.start ∧ s.start ≤ s.stop ∧ s.stop ≤ endFrom length cursor items := by
  rw [← content_placeFrom items 0] at h
  obtain ⟨t, ht, -, rfl⟩ := span_mem_content.mp h
  exact bounds_of_mem_placeFrom hc ht

theorem start_lt_stop_of_mem_placeFrom (hm : Measures length) {items : List Item}
    {index cursor : Nat} {t : Token} (hc : cursor ≤ maxStep)
    (h : t ∈ placeFrom length index cursor items) (hlt : endFrom length cursor items < maxStep) :
    t.start < t.stop := by
  induction items generalizing index cursor with
  | nil => simp [placeFrom] at h
  | cons item rest ih =>
    have hs := satAdd_le_maxStep cursor (length item)
    rcases List.mem_cons.mp h with rfl | h
    · have hle : satAdd cursor (length item) ≤ endFrom length (satAdd cursor (length item)) rest :=
        le_endFrom hs rest
      have hle' := le_satAdd hc (length item)
      rw [endFrom_cons] at hlt
      exact lt_satAdd (Nat.lt_of_le_of_lt (Nat.le_trans hle' hle) hlt) (hm.pos item)
    · exact ih hs h hlt

theorem isFree_iff {tokens : List Token} {target steps : Nat} (hsteps : 0 < steps)
    (hpos : ∀ t ∈ tokens, t.start < t.stop) :
    IsFree tokens target steps ↔
      ∀ s ∈ content tokens, s.stop ≤ target ∨ target + steps ≤ s.start := by
  constructor
  · intro h s hs
    obtain ⟨t, ht, hp, rfl⟩ := span_mem_content.mp hs
    have hlt := hpos t ht
    by_contra hno
    simp only [Token.span, not_or, Nat.not_le] at hno
    -- The first step that both have is covered.
    have hcov := h t ht hp (max target t.start) (by omega) (by omega)
    simp only [Token.covers, Bool.and_eq_false_iff, decide_eq_false_iff_not] at hcov
    omega
  · intro h t ht hp step hle hlt
    have hh := h t.span (span_mem_content.mpr ⟨t, ht, hp, rfl⟩)
    simp only [Token.span] at hh
    simp only [Token.covers, Bool.and_eq_false_iff, decide_eq_false_iff_not]
    omega

/-- The ways in which the block from `first` to `last`, of `steps` steps, can come to
start at `target`. -/
inductive Suits (tokens : List Token) (first last target steps : Nat) : Placement → Prop
  | swap {other : Nat} (alone : first = last) (trades : Trades tokens first other target) :
    Suits tokens first last target steps (.swap other)
  | gap {start stop : Nat} (mem : .gap start stop ∈ lift tokens first last)
    (start_le : start ≤ target) (le_stop : target + steps ≤ stop) :
    Suits tokens first last target steps (.gap start stop)
  | append (content_le : contentEnd tokens first last ≤ target) :
    Suits tokens first last target steps (.append (target - contentEnd tokens first last))

/-- All that a valid plan says. -/
theorem planMove_cases {tokens : List Token} {first last target : Nat} {placement : Placement}
    (h : (planMove tokens first last target).placement = some placement) :
    ∃ head tail, tokens[first]? = some head ∧ tokens[last]? = some tail ∧ first ≤ last ∧
      target % quantum = 0 ∧ target + (tail.stop - head.start) ≤ maxStep ∧
      planMove tokens first last target =
        ⟨first, last, tail.stop - head.start, head.start, target, some placement⟩ ∧
      Suits tokens first last target (tail.stop - head.start) placement := by
  cases hh : tokens[first]? with
  | none => simp [planMove, hh] at h
  | some head =>
    cases ht : tokens[last]? with
    | none => simp [planMove, hh, ht] at h
    | some tail =>
      simp only [planMove, hh, ht] at h ⊢
      by_cases hno : last < first ∨ target % quantum ≠ 0 ∨
          maxStep < target + (tail.stop - head.start)
      · simp [hno] at h
      · simp only [hno, if_false] at h ⊢
        refine ⟨head, tail, rfl, rfl, by omega, by omega, by omega, by rw [h], ?_⟩
        cases hswap : swap? tokens first last target with
        | some i =>
          obtain ⟨ha, htr⟩ := swap?_eq_some hswap
          simp [hswap] at h
          subst h
          exact .swap ha htr
        | none =>
          cases hland : landing? (lift tokens first last) target
              (target + (tail.stop - head.start)) with
          | some p =>
            obtain ⟨start, stop, rfl, hm, hs, he⟩ := landing?_eq_some hland
            simp [hswap, hland] at h
            subst h
            exact .gap hm hs he
          | none =>
            by_cases hc : contentEnd tokens first last ≤ target
            · simp [hswap, hland, hc] at h
              subst h
              exact .append hc
            · simp [hswap, hland, hc] at h

theorem planMove_isValid_of_suits {tokens : List Token} {first last target : Nat}
    {head tail : Token} {placement : Placement} (hle : first ≤ last)
    (hh : tokens[first]? = some head) (ht : tokens[last]? = some tail)
    (hgrid : target % quantum = 0) (hreach : target + (tail.stop - head.start) ≤ maxStep)
    (h : Suits tokens first last target (tail.stop - head.start) placement) :
    (planMove tokens first last target).isValid = true := by
  have hok : ¬(last < first ∨ target % quantum ≠ 0 ∨
      maxStep < target + (tail.stop - head.start)) := by omega
  simp only [planMove, hh, ht, hok, if_false, MovePlan.isValid]
  cases h with
  | swap alone trades =>
    subst alone
    obtain ⟨i, hi⟩ := Option.isSome_iff_exists.mp (swap?_isSome_of_trades trades)
    simp [hi]
  | gap mem start_le le_stop =>
    have hland := landing?_isSome_of_mem mem start_le le_stop
    simp [hland]
  | append content_le => simp [content_le]

theorem result?_isSome_of_isValid {tokens : List Token} {first last target : Nat}
    (h : (planMove tokens first last target).isValid = true) :
    ((planMove tokens first last target).result? tokens).isSome = true := by
  obtain ⟨placement, hp⟩ := Option.isSome_iff_exists.mp h
  obtain ⟨head, tail, -, ht, -, hgrid, -, hplan, hsuits⟩ := planMove_cases hp
  have hlast : last < tokens.length := (List.getElem?_eq_some_iff.mp ht).1
  have hok : ¬(tokens.length ≤ last ∨ target % quantum ≠ 0) := by omega
  rw [hplan]
  simp only [MovePlan.result?, hok, if_false]
  cases hsuits with
  | swap alone trades =>
    obtain ⟨moving, other, -, ho, -⟩ := trades
    have hother := (List.getElem?_eq_some_iff.mp ho).1
    simp [Nat.not_le.mpr hother]
  | gap mem start_le le_stop => rfl
  | append content_le => rfl

/-- In a layout that ends before the last step, a block can be placed where its steps
are free and nowhere else, unless it trades places. -/
theorem exists_suits_iff (hm : Measures length) {items before block after : List Item}
    {first last : Nat} (hcut : IsCut items first last before block after) (target : Nat)
    (hend : endFrom length 0 items < maxStep) :
    let tokens := placeFrom length 0 0 items
    let steps := blockSteps length before block
    (∃ placement, Suits tokens first last target steps placement) ↔
      (first = last ∧ ∃ other, Trades tokens first other target) ∨
        IsFree (outside first last tokens) target steps := by
  intro tokens steps
  have hz := Nat.zero_le maxStep
  obtain ⟨htiles, hsep, hspans⟩ := hcut.frees_lift hm
  have hsteps : 0 < steps := hcut.steps_pos hm hend
  have hpos : ∀ t ∈ outside first last tokens, t.start < t.stop := fun t ht =>
    start_lt_stop_of_mem_placeFrom hm hz (mem_of_mem_outside ht) hend
  have hlast := htiles.lastStop_le_iff hz (Nat.le_refl 0) target
  rw [isFree_iff hsteps hpos]
  rw [hspans, ← hcut.contentEnd_eq] at hlast
  constructor
  · rintro ⟨placement, hsuits⟩
    cases hsuits with
    | swap alone trades => exact .inl ⟨alone, _, trades⟩
    | gap mem start_le le_stop =>
      refine .inr fun s hs => ?_
      have hh := htiles.apart hz mem (hspans ▸ hs)
      omega
    | append content_le => exact .inr fun s hs => .inl ((hlast.mp content_le).2 s hs)
  · rintro (⟨alone, other, trades⟩ | hfree)
    · exact ⟨_, .swap alone trades⟩
    · rcases htiles.exists_gap_of_free hm hsep hz hend (Nat.zero_le target) hsteps
        (hspans ▸ hfree) with ⟨start, stop, hg, hs, he⟩ | ⟨-, hall⟩
      · exact ⟨_, .gap hg hs he⟩
      · exact ⟨_, .append (hlast.mpr ⟨Nat.zero_le _, hspans ▸ hall⟩)⟩

/-- The planner is exact: a block may go where its steps are free, or trade places. -/
theorem planMove_isValid_iff {p : Pattern} {pads : PadLengths} {container : Container}
    {first last target : Nat} {head tail : Token}
    (htotal : (p.timeline pads container true).steps < maxStep) (hle : first ≤ last)
    (hh : (p.tokens pads container)[first]? = some head)
    (ht : (p.tokens pads container)[last]? = some tail) :
    let tokens := p.tokens pads container
    let steps := tail.stop - head.start
    ((planMove tokens first last target).isValid = true ↔
      target % quantum = 0 ∧ target + steps ≤ maxStep ∧
        ((first = last ∧ ∃ other, Trades tokens first other target) ∨
          IsFree (outside first last tokens) target steps)) ∧
    ((planMove tokens first last target).isValid = true →
      ((planMove tokens first last target).result? tokens).isSome = true) := by
  intro tokens steps
  have hm := p.measures_steps pads
  have hlast : last < ((p.sequence? container).getD []).length := by
    rw [← length_placeFrom (p.steps pads) _ 0 0]
    exact (List.getElem?_eq_some_iff.mp ht).1
  obtain ⟨before, block, after, hcut⟩ := exists_isCut hle hlast
  obtain ⟨item, -, hfirst⟩ := hcut.getElem?_first (p.steps pads)
  obtain ⟨item', tail', -, hlast', -, hstop⟩ := hcut.getElem?_last (p.steps pads)
  obtain rfl := Option.some.inj (hh.symm.trans hfirst)
  obtain rfl := Option.some.inj (ht.symm.trans hlast')
  have hexact := exists_suits_iff hm hcut target htotal
  simp only [blockSteps, ← hstop] at hexact
  refine ⟨⟨fun hvalid => ?_, fun hright => ?_⟩, result?_isSome_of_isValid⟩
  · obtain ⟨placement, hp⟩ := Option.isSome_iff_exists.mp hvalid
    obtain ⟨_, _, hh', ht', -, hgrid, hreach, -, hsuits⟩ := planMove_cases hp
    obtain rfl := Option.some.inj (hh'.symm.trans hh)
    obtain rfl := Option.some.inj (ht'.symm.trans ht)
    exact ⟨hgrid, hreach, hexact.mp ⟨placement, hsuits⟩⟩
  · obtain ⟨hgrid, hreach, hplace⟩ := hright
    obtain ⟨placement, hsuits⟩ := hexact.mpr hplace
    exact planMove_isValid_of_suits hle hh ht hgrid hreach hsuits

theorem planMove_isValid_iff_between :
    let p : Pattern := { root := [.pad 0, .pause 8, .pad 1, .call ⟨.group, "g1"⟩] }
    let pads : PadLengths := { fallback := 4 }
    let tokens := p.tokens pads .root
    (p.timeline pads .root true).steps < maxStep ∧
      ((planMove tokens 2 3 4).isValid = true ↔
        4 % quantum = 0 ∧ 4 + (20 - 12) ≤ maxStep ∧
          ((2 = 3 ∧ ∃ other, Trades tokens 2 other 4) ∨
            IsFree (outside 2 3 tokens) 4 (20 - 12))) ∧
      ((planMove tokens 2 3 4).isValid = true →
        ((planMove tokens 2 3 4).result? tokens).isSome = true) := by
  intro p pads tokens
  have hh : tokens[2]? = some ⟨2, .pad 1, 12, 16, 4⟩ := by decide
  have ht : tokens[3]? = some ⟨3, .call ⟨.group, "g1"⟩, 16, 20, 4⟩ := by decide
  exact ⟨by decide, planMove_isValid_iff (by decide) (by decide) hh ht⟩

end Groovebox

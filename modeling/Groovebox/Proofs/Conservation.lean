import Groovebox.Proofs.Containers
import Groovebox.Proofs.Moves

/-! Moves neither lose nor double nor reorder what is heard, also in patterns that
call themselves and in layouts that reach the last step. -/

namespace Groovebox

/-- The items but the pauses. -/
def sounds (items : List Item) : List Item := items.filter (!·.isPause)

/-- `block` stands in one piece somewhere among `others`. -/
def Inserted {α : Type} (block others result : List α) : Prop :=
  ∃ xs ys, others = xs ++ ys ∧ result = xs ++ block ++ ys

theorem Inserted.perm {α : Type} {block others result : List α}
    (h : Inserted block others result) : result.Perm (block ++ others) := by
  obtain ⟨xs, ys, rfl, rfl⟩ := h
  rw [List.append_assoc]
  exact List.perm_append_comm_assoc xs block ys

def Exchanged {α : Type} (old new : List α) : Prop :=
  ∃ xs a b ys, old = xs ++ a :: b :: ys ∧ new = xs ++ b :: a :: ys

def Segment.item? : Segment → Option Item
  | .item i => some i
  | .gap _ _ => none

/-- No difference that a plan or its result takes is below zero. -/
structure ExactDifferences (tokens : List Token) (plan : MovePlan) : Prop where
  block {head tail : Token} : plan.first ≤ plan.last → tokens[plan.first]? = some head →
    tokens[plan.last]? = some tail → head.start ≤ tail.stop
  gaps {start stop : Nat} : plan.first ≤ plan.last → plan.last < tokens.length →
    .gap start stop ∈ lift tokens plan.first plan.last → start ≤ stop
  filled {start stop : Nat} : plan.placement = some (.gap start stop) →
    start ≤ plan.target ∧ plan.target ≤ stop ∧ plan.steps ≤ stop - plan.target
  appended {gap : Nat} : plan.placement = some (.append gap) →
    contentEnd tokens plan.first plan.last ≤ plan.target

variable {length : Item → Nat}

@[simp]
theorem sounds_append (xs ys : List Item) : sounds (xs ++ ys) = sounds xs ++ sounds ys :=
  List.filter_append ..

theorem sounds_sounds (items : List Item) : sounds (sounds items) = sounds items := by
  simp [sounds]

theorem sounds_restItems (steps : Nat) : sounds (restItems steps) = [] := filter_restItems steps

theorem sounds_normalizePauses (trailing : Trailing) (items : List Item) :
    sounds (normalizePauses trailing items) = sounds items :=
  filter_normalizeFrom trailing 0 items

theorem sounds_cons {item : Item} (h : item.isPause = false) (rest : List Item) :
    sounds (item :: rest) = item :: sounds rest := by
  simp [sounds, h]

theorem sounds_flatMap (write : Segment → List Item) (hitem : ∀ i, write (.item i) = [i])
    (hgap : ∀ start stop, sounds (write (.gap start stop)) = []) (segments : List Segment) :
    sounds (segments.flatMap write) = sounds (segments.filterMap Segment.item?) := by
  induction segments with
  | nil => rfl
  | cons segment rest ih =>
    cases segment with
    | item i =>
      rw [List.flatMap_cons, hitem, sounds_append, ih]
      exact (sounds_append [i] _).symm
    | gap start stop =>
      rw [List.flatMap_cons, sounds_append, hgap, ih]
      rfl

theorem sounds_render (segments : List Segment) :
    sounds (segments.flatMap Segment.render) = sounds (segments.filterMap Segment.item?) :=
  sounds_flatMap _ (fun _ => rfl) (fun _ _ => sounds_restItems _) segments

theorem sounds_renderUpTo (contentStop : Nat) (segments : List Segment) :
    sounds (segments.flatMap (Segment.renderUpTo contentStop)) =
      sounds (segments.filterMap Segment.item?) := by
  refine sounds_flatMap _ (fun _ => rfl) (fun start stop => ?_) segments
  by_cases h : stop ≤ contentStop
  · simp [Segment.renderUpTo, h, sounds_restItems]
  · simp [Segment.renderUpTo, h, sounds]

theorem segmentSpans_map_item (length : Item → Nat) (segments : List Segment) (cursor : Nat) :
    (segmentSpans length cursor segments).map (·.item) = segments.filterMap Segment.item? := by
  induction segments generalizing cursor with
  | nil => rfl
  | cons segment rest ih =>
    cases segment with
    | gap start stop => exact ih stop
    | item i => exact congrArg (i :: ·) (ih _)

theorem IsCut.filterMap_item? (hm : Measures length) {items before block after : List Item}
    {first last : Nat} (h : IsCut items first last before block after) :
    (lift (placeFrom length 0 0 items) first last).filterMap Segment.item? =
      sounds (outside first last items) := by
  rw [← segmentSpans_map_item length _ 0, (h.frees_lift hm).spans_eq,
    h.content_outside, List.map_append, spansFrom_map_item, spansFrom_map_item,
    h.outside_items, sounds_append, sounds, sounds]

/-- The sounds that a placement leaves, against those from before. -/
def Placement.Keeps (old : List Item) (first last : Nat) (new : List Item) : Placement → Prop
  | .swap _ => Exchanged (sounds old) (sounds new)
  | _ => Inserted (sounds (inside first last old)) (sounds (outside first last old)) (sounds new)

section Moves

variable {items before block after new : List Item} {first last target : Nat}
  {placement : Placement}

theorem Moves.keeps (hm : Measures length)
    (h : Moves length items before block after first last target placement new) :
    placement.Keeps items first last new := by
  have hout := h.cut.filterMap_item? hm
  have hin := h.cut.inside_items
  cases h.writes with
  | @swap xs ys a b other items_eq left right same place =>
    refine ⟨sounds xs, a, b, sounds ys, ?_, ?_⟩
    · rw [items_eq, sounds_append, sounds_cons left, sounds_cons right]
    · rw [sounds_normalizePauses, sounds_append, sounds_cons right, sounds_cons left]
  | @gap left right start stop segments_eq start_le le_stop =>
    rw [segments_eq, List.filterMap_append] at hout
    refine ⟨sounds (left.filterMap Segment.item?), sounds (right.filterMap Segment.item?), ?_, ?_⟩
    · rw [← sounds_sounds, ← hout, sounds_append]
      rfl
    · rw [sounds_normalizePauses, hin]
      simp only [sounds_append, sounds_render, sounds_restItems, List.nil_append, List.append_nil]
  | append content_le =>
    refine ⟨sounds (outside first last items), [], by simp, ?_⟩
    rw [sounds_normalizePauses, hin]
    simp only [sounds_append, sounds_renderUpTo, sounds_restItems, hout, sounds_sounds,
      List.append_nil]

theorem Moves.rest (h : Moves length items before block after first last target placement new)
    {rest : UInt32} (hmem : .pause rest ∈ new) : rest.toNat ∈ restLengths := by
  cases h.writes <;> exact mem_restLengths_of_mem_normalizeFrom hmem

end Moves

theorem planMove_fields (tokens : List Token) (first last target : Nat) :
    (planMove tokens first last target).first = first ∧
      (planMove tokens first last target).last = last ∧
        (planMove tokens first last target).target = target := by
  simp only [planMove]
  split
  · split <;> simp
  · simp

theorem exactDifferences_planMove (hm : Measures length) (items : List Item)
    (first last target : Nat) :
    ExactDifferences (placeFrom length 0 0 items)
      (planMove (placeFrom length 0 0 items) first last target) := by
  obtain ⟨hfirst, hlast, htarget⟩ := planMove_fields (placeFrom length 0 0 items) first last target
  refine ⟨fun hle hh ht => ?_, fun hle hlen hg => ?_, fun hp => ?_, fun hp => ?_⟩
  · rw [hfirst, hlast] at *
    have hlen := (List.getElem?_eq_some_iff.mp ht).1
    obtain ⟨before, block, after, hcut⟩ :=
      exists_isCut hle (length_placeFrom length items 0 0 ▸ hlen)
    obtain ⟨_, -, hh'⟩ := hcut.getElem?_first length
    obtain ⟨_, _, -, ht', -, hstop⟩ := hcut.getElem?_last length
    obtain rfl := Option.some.inj (hh.symm.trans hh')
    obtain rfl := Option.some.inj (ht.symm.trans ht')
    rw [hstop]
    exact (hcut.follows hm).le
  · rw [hfirst, hlast] at *
    obtain ⟨before, block, after, hcut⟩ :=
      exists_isCut hle (length_placeFrom length items 0 0 ▸ hlen)
    exact ((hcut.frees_lift hm).tiles.follows hg).le
  · obtain ⟨_, _, -, -, -, -, -, hplan, hsuits⟩ := planMove_cases hp
    rw [hplan]
    cases hsuits with
    | gap mem start_le le_stop =>
      refine ⟨start_le, ?_, ?_⟩
      · simp only
        omega
      · simp only
        omega
  · obtain ⟨_, _, -, -, -, -, -, hplan, hsuits⟩ := planMove_cases hp
    rw [hplan]
    cases hsuits with
    | append content_le => exact content_le

/-- Whatever a planned move writes, it keeps the sounds and their order. -/
theorem moveBlock_conserves (p : Pattern) (pads : PadLengths) (container : Container)
    (first last target : Nat) :
    let tokens := p.tokens pads container
    let plan := planMove tokens first last target
    let old := (p.sequence? container).getD []
    (∀ new, plan.result? tokens = some new →
      (∃ placement, plan.placement = some placement ∧ placement.Keeps old first last new) ∧
      ∀ rest, .pause rest ∈ new → rest.toNat ∈ restLengths) ∧
    ExactDifferences tokens plan ∧
    ∀ other, other ≠ container →
      ((p.moveBlock? pads container first last target).getD p).sequence? other =
        p.sequence? other := by
  intro tokens plan old
  have hm := p.measures_steps pads
  refine ⟨fun new hnew => ?_, exactDifferences_planMove hm old first last target,
    fun other hne => ?_⟩
  · obtain ⟨before, block, after, placement, hmoves⟩ := exists_moves_of_result? hm hnew
    exact ⟨⟨placement, congrArg MovePlan.placement hmoves.plan_eq, hmoves.keeps hm⟩,
      fun rest => hmoves.rest⟩
  · rw [Pattern.moveBlock?]
    cases plan.result? tokens with
    | none => rfl
    | some new => exact p.sequence?_getD_setSequence? hne new

theorem moveBlock_conserves_within_cycle :
    let name : GroupName := ⟨.group, "g1"⟩
    let old : List Item := [.pad 0, .pause 8, .call name, .pad 1]
    let new : List Item := [.pause 8, .pad 0, .call name, .pad 1]
    let p : Pattern := ({} : Pattern).define name old
    let pads : PadLengths := { fallback := 4 }
    let tokens := p.tokens pads (.named name)
    let plan := planMove tokens 0 0 8
    plan.result? tokens = some new ∧
      (∃ placement, plan.placement = some placement ∧ placement.Keeps old 0 0 new) ∧
      ∀ rest, .pause rest ∈ new → rest.toNat ∈ restLengths := by
  intro name old new p pads tokens plan
  have hnew : plan.result? tokens = some new := by decide
  exact ⟨hnew, (moveBlock_conserves p pads (.named name) 0 0 8).1 new hnew⟩

end Groovebox

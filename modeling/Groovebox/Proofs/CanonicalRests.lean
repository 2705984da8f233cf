import Groovebox.Proofs.Containers
import Groovebox.Proofs.Rests
import Groovebox.Proofs.Timelines

/-! Normal rests as a canonical form. A sequence is heard through its items other than pauses
and the time before, between and after them, as far as time goes. Both come through writing
the rests anew, and with the rests kept the normal sequence can be written from them. So two
sequences have one normal form just when they agree in both. -/

namespace Groovebox

/-- The pauses before, between and after the other items. -/
def restRuns (items : List Item) : List (List Item) := items.splitOnP (!·.isPause)

/-- How long each run of pauses is, in whole quanta and without an end to time. -/
def restTotals (items : List Item) : List Nat :=
  (restRuns items).map fun run => (run.map restLength).sum

/-- `restTotals` as a layout has them, which do not go beyond the last step. -/
def cutRests (items : List Item) : List Nat := (restTotals items).map (min · maxStep)

/-- Rests of the lengths `totals` before, between and after the items. -/
def withRests : List Nat → List Item → List Item
  | [], items => items
  | rest :: _, [] => restItems rest
  | rest :: totals, item :: items => restItems rest ++ item :: withRests totals items

/-- The tokens that are no pauses, whatever their index in the sequence. -/
def sounding (tokens : List Token) : List Token :=
  (tokens.filter (!·.isPause)).map fun t => { t with index := 0 }

variable {run : Nat} {item : Item} {items others : List Item}

theorem restRuns_pause (h : item.isPause = true) (rest : List Item) :
    restRuns (item :: rest) = (restRuns rest).modifyHead (item :: ·) := by
  rw [restRuns, restRuns, List.splitOnP_cons_eq_if_modifyHead, if_neg (by simp [h])]

theorem restTotals_cons (h : item.isPause = false) (rest : List Item) :
    restTotals (item :: rest) = 0 :: restTotals rest := by
  rw [restTotals, restRuns, List.splitOnP_cons_eq_if_modifyHead, if_pos (by simp [h])]
  rfl

theorem exists_cons_restTotals (items : List Item) :
    ∃ n totals, restTotals items = n :: totals := by
  refine List.exists_cons_of_ne_nil ?_
  rw [restTotals, ne_eq, List.map_eq_nil_iff]
  exact List.splitOnP_ne_nil _ items

theorem restTotals_pause (h : item.isPause = true) (rest : List Item) :
    restTotals (item :: rest) = (restTotals rest).modifyHead (restLength item + ·) := by
  rw [restTotals, restTotals, restRuns_pause h]
  cases restRuns rest <;> rfl

theorem restTotals_pauses_append {pauses : List Item} (h : ∀ item ∈ pauses, item.isPause = true)
    (rest : List Item) :
    restTotals (pauses ++ rest) =
      (restTotals rest).modifyHead ((pauses.map restLength).sum + ·) := by
  obtain ⟨n, totals, htotals⟩ := exists_cons_restTotals rest
  induction pauses with
  | nil => simp [htotals]
  | cons item pauses ih =>
    have hrest := ih fun item hm => h item (List.mem_cons_of_mem _ hm)
    rw [List.cons_append, restTotals_pause (h item List.mem_cons_self), hrest, htotals]
    simp [Nat.add_assoc]

theorem restTotals_restItems_append (steps : Nat) (rest : List Item) :
    restTotals (restItems steps ++ rest) =
      (restTotals rest).modifyHead ((restParts steps).sum + ·) := by
  rw [restTotals_pauses_append fun _ => isPause_of_mem_restItems,
    map_restItems measuresRests_restLength]

/-- The rests of `items` where the first one goes on from `run`. -/
def cutRestsFrom (run : Nat) (items : List Item) : List Nat :=
  ((restTotals items).modifyHead (run + ·)).map (min · maxStep)

theorem cutRestsFrom_zero (items : List Item) : cutRestsFrom 0 items = cutRests items := by
  obtain ⟨n, totals, htotals⟩ := exists_cons_restTotals items
  simp [cutRestsFrom, cutRests, htotals]

theorem cutRestsFrom_nil (hr : run ≤ maxStep) : cutRestsFrom run [] = [run] := by
  have htotals : restTotals [] = [0] := rfl
  simp [cutRestsFrom, htotals, hr]

theorem cutRestsFrom_pause (h : item.isPause = true) (run : Nat) (rest : List Item) :
    cutRestsFrom run (item :: rest) = cutRestsFrom (satAdd run (restLength item)) rest := by
  obtain ⟨n, totals, htotals⟩ := exists_cons_restTotals rest
  rw [cutRestsFrom, cutRestsFrom, restTotals_pause h, htotals]
  simp only [List.modifyHead_cons, List.map_cons, List.cons.injEq, and_true, satAdd]
  omega

theorem cutRestsFrom_cons (h : item.isPause = false) (hr : run ≤ maxStep) (rest : List Item) :
    cutRestsFrom run (item :: rest) = run :: cutRests rest := by
  simp [cutRestsFrom, cutRests, restTotals_cons h, hr]

/-- The normal form is written from what is heard. -/
theorem normalizeFrom_keep_eq (hr : run ≤ maxStep) (items : List Item) :
    normalizeFrom .keep run items =
      withRests (cutRestsFrom run items) (items.filter (!·.isPause)) := by
  induction items generalizing run with
  | nil => rw [cutRestsFrom_nil hr]; rfl
  | cons item rest ih =>
    by_cases hp : item.isPause = true
    · obtain ⟨steps, rfl⟩ := exists_of_isPause hp
      rw [normalizeFrom, ih (satAdd_le_maxStep _ _), cutRestsFrom_pause hp]
      rfl
    · have hp : item.isPause = false := by simpa using hp
      have hfilter : (item :: rest).filter (!·.isPause) = item :: rest.filter (!·.isPause) := by
        simp [hp]
      rw [normalizeFrom_cons _ _ hp, ih (Nat.zero_le _), cutRestsFrom_zero,
        cutRestsFrom_cons hp hr, hfilter, withRests]

/-- A written rest is as long as it is meant to be, as far as time goes. -/
theorem cutRests_restItems_append (hr : IsWhole run) (items : List Item) :
    cutRests (restItems run ++ items) = cutRestsFrom run items := by
  obtain ⟨n, totals, htotals⟩ := exists_cons_restTotals items
  have hcut := satAdd_sum_restParts n hr
  rw [cutRests, cutRestsFrom, restTotals_restItems_append, htotals]
  simp only [List.modifyHead_cons, List.map_cons, List.cons.injEq, and_true]
  simpa only [satAdd, Nat.add_comm] using hcut

theorem cutRests_normalizeFrom_keep (hr : IsWhole run) (items : List Item) :
    cutRests (normalizeFrom .keep run items) = cutRestsFrom run items := by
  induction items generalizing run with
  | nil => simpa [normalizeFrom] using cutRests_restItems_append hr []
  | cons item rest ih =>
    by_cases hp : item.isPause = true
    · obtain ⟨steps, rfl⟩ := exists_of_isPause hp
      rw [normalizeFrom, ih (hr.satAdd (isWhole_quantize _)), cutRestsFrom_pause hp]
      rfl
    · have hp : item.isPause = false := by simpa using hp
      rw [normalizeFrom_cons _ _ hp, cutRests_restItems_append hr, cutRestsFrom_cons hp hr.le,
        cutRestsFrom_cons hp hr.le, ih isWhole_zero, cutRestsFrom_zero]

/-- Normal forms with the rests kept are one where the same is heard. -/
theorem normalizePauses_keep_eq_iff :
    normalizePauses .keep items = normalizePauses .keep others ↔
      items.filter (!·.isPause) = others.filter (!·.isPause) ∧ cutRests items = cutRests others := by
  constructor
  · intro h
    refine ⟨?_, ?_⟩
    · rw [← filter_normalizeFrom .keep 0 items, ← filter_normalizeFrom .keep 0 others]
      exact congrArg _ h
    · rw [← cutRestsFrom_zero, ← cutRestsFrom_zero, ← cutRests_normalizeFrom_keep isWhole_zero,
        ← cutRests_normalizeFrom_keep isWhole_zero]
      exact congrArg cutRests h
  · rintro ⟨hitems, hrests⟩
    rw [normalizePauses, normalizePauses, normalizeFrom_keep_eq (Nat.zero_le _),
      normalizeFrom_keep_eq (Nat.zero_le _), cutRestsFrom_zero, cutRestsFrom_zero, hitems, hrests]

theorem cutRests_of_lt (h : ∀ n ∈ restTotals items, n < 2 ^ 32) :
    cutRests items = restTotals items := by
  refine (List.map_congr_left fun n hm => ?_).trans (List.map_id _)
  have hlt := h n hm
  rw [id, maxStep]
  omega

/-! Sequences laid out as the root of a pattern. -/

theorem sounding_placeFrom (length : Item → Nat) (items : List Item) (index cursor : Nat) :
    sounding (placeFrom length index cursor items) =
      (spansFrom length cursor items).map fun s => ⟨0, s.item, s.start, s.stop, length s.item⟩ := by
  rw [← content_placeFrom items index cursor, content, List.map_map, sounding]
  refine List.map_congr_left fun t ht => ?_
  have hsteps := (stop_eq_of_mem_placeFrom (List.mem_of_mem_filter ht)).1
  simp only [Function.comp_apply, Token.span, hsteps]

namespace Pattern

variable (p : Pattern) (pads : PadLengths)

theorem steps_put_root (items : List Item) : (p.put .root items).steps pads = p.steps pads := by
  have hroot : p.sequence? .root = some p.root := rfl
  refine funext fun item => steps_put_of_avoids hroot items ?_
  rintro name rfl hreach
  rcases Relation.reflTransGen_iff_eq_or_transGen.mp hreach with heq | hreach
  · exact Container.noConfusion heq
  · exact p.not_reaches_root _ hreach

theorem sounding_put_root (items : List Item) (showPauses : Bool) :
    sounding ((p.put .root items).timeline pads .root showPauses).tokens =
      (spansFrom (p.steps pads) 0 items).map fun s =>
        ⟨0, s.item, s.start, s.stop, p.steps pads s.item⟩ := by
  rw [← sounding_placeFrom (p.steps pads) items 0 0, ← p.steps_put_root pads items]
  rfl

theorem timeline_steps_put_root (items : List Item) (showPauses : Bool) :
    ((p.put .root items).timeline pads .root showPauses).steps =
      endFrom (p.steps pads) 0 items := by
  rw [← p.steps_put_root pads items]
  rfl

end Pattern

/-- The normal form of rests is canonical. Laid out as the root of any pattern it keeps all
other items in place, and the length too or, with the last rest dropped, only as much of it
as they take. To take it twice changes nothing. And with the last rest kept two sequences
have one normal form when they have the same other items and the same rests in whole quanta,
up to the last step. -/
theorem normalizePauses_canonical (items : List Item) :
    (∀ (p : Pattern) (pads : PadLengths) (showPauses : Bool),
      let laid := fun root : List Item => (p.put .root root).timeline pads .root showPauses
      let kept := laid (normalizePauses .keep items)
      let dropped := laid (normalizePauses .drop items)
      sounding kept.tokens = sounding (laid items).tokens ∧ kept.steps = (laid items).steps ∧
        sounding dropped.tokens = sounding (laid items).tokens ∧
        dropped.steps = ((sounding (laid items).tokens).getLast?.map (·.stop)).getD 0) ∧
    (∀ trailing, normalizePauses trailing (normalizePauses trailing items) =
      normalizePauses trailing items) ∧
    ∀ others,
      (normalizePauses .keep items = normalizePauses .keep others ↔
        items.filter (!·.isPause) = others.filter (!·.isPause) ∧
          cutRests items = cutRests others) ∧
      ((∀ n ∈ restTotals items, n < 2 ^ 32) → (∀ n ∈ restTotals others, n < 2 ^ 32) →
        (normalizePauses .keep items = normalizePauses .keep others ↔
          items.filter (!·.isPause) = others.filter (!·.isPause) ∧
            restTotals items = restTotals others)) := by
  refine ⟨fun p pads showPauses => ?_, fun trailing => normalizePauses_normalizePauses _ _,
    fun others => ⟨normalizePauses_keep_eq_iff, fun hitems hothers => ?_⟩⟩
  · have hl := (p.measures_steps pads).rests
    have hlaid : Lays (p.steps pads) 0 items _ _ := ⟨rfl, rfl⟩
    obtain ⟨hkept, hkeptEnd⟩ := hlaid.normalize_keep hl
    obtain ⟨hdropped, hdroppedEnd⟩ := hlaid.normalize_drop hl
    simp only [p.sounding_put_root, p.timeline_steps_put_root, hkept, hkeptEnd, hdropped,
      hdroppedEnd, List.getLast?_map, Option.map_map, true_and]
    rfl
  · rw [normalizePauses_keep_eq_iff, cutRests_of_lt hitems, cutRests_of_lt hothers]

/-- The rests of `short` reach the last line of the grid in two parts. That of `cut` goes on
to the last step, which is no line, and is written a little longer. -/
theorem normalizePauses_canonical_near_last_step :
    let short : List Item := [.pause 4294967286, .pause 2, .pad 0]
    let whole : List Item := [.pause 4294967292, .pad 0]
    let cut : List Item := [.pause 4294967295, .pad 0]
    normalizePauses .keep short = normalizePauses .keep whole ∧
      normalizePauses .keep whole ≠ normalizePauses .keep cut := by
  intro short whole cut
  have hshort : ∀ n ∈ restTotals short, n < 2 ^ 32 := by decide
  have hwhole : ∀ n ∈ restTotals whole, n < 2 ^ 32 := by decide
  have hcut : ∀ n ∈ restTotals cut, n < 2 ^ 32 := by decide
  have hsame := ((normalizePauses_canonical short).2.2 whole).2 hshort hwhole
  have hother := ((normalizePauses_canonical whole).2.2 cut).2 hwhole hcut
  refine ⟨hsame.mpr ⟨by decide, by decide⟩, fun heq => ?_⟩
  have hrests := (hother.mp heq).2
  revert hrests
  decide

end Groovebox

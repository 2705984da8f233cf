import Groovebox.Pause
import Groovebox.Proofs.Layout

/-! Rests in a layout. Writing each run of pauses as one rest moves no other item,
keeps the length, and is done once for all. -/

namespace Groovebox

theorem exists_of_isPause {item : Item} (h : item.isPause = true) :
    ∃ steps, item = .pause steps := by
  cases item <;> simp_all [Item.isPause]

/-- Whole multiples of `m * k`, and of `m` in what is left, are whole multiples of `m`. -/
theorem div_mul_add_mod_div_mul (steps m k : Nat) :
    steps / (m * k) * (m * k) + steps % (m * k) / m * m = steps / m * m := by
  rw [Nat.mod_mul_right_div_self, ← Nat.div_div_eq_div_mul, Nat.mul_comm m k, ← Nat.mul_assoc,
    ← Nat.add_mul, Nat.div_add_mod']

theorem sum_restParts (steps : Nat) : (restParts steps).sum = (steps + 3) / 4 * 4 := by
  simp only [restParts, List.sum_append, List.sum_replicate_nat]
  rw [div_mul_add_mod_div_mul steps 16 2, div_mul_add_mod_div_mul steps 8 2]
  omega

theorem mem_restLengths_of_mem_restParts {steps part : Nat} (h : part ∈ restParts steps) :
    part ∈ restLengths := by
  simp only [restParts, List.mem_append, List.mem_replicate] at h
  simp only [restLengths, List.mem_cons]
  omega

theorem toNat_of_mem_restLengths {part : Nat} (h : part ∈ restLengths) :
    (UInt32.ofNat part).toNat = part := by
  simp only [restLengths, List.mem_cons, List.not_mem_nil, or_false] at h
  rcases h with rfl | rfl | rfl | rfl <;> rfl

theorem quantize_of_mem_restLengths {part : Nat} (h : part ∈ restLengths) :
    quantize part = part := by
  simp only [restLengths, List.mem_cons, List.not_mem_nil, or_false] at h
  rcases h with rfl | rfl | rfl | rfl <;> rfl

theorem mem_restItems {steps : Nat} {item : Item} (h : item ∈ restItems steps) :
    ∃ length : UInt32, item = .pause length ∧ length.toNat ∈ restLengths := by
  obtain ⟨part, hp, rfl⟩ := List.mem_map.mp h
  have hm := mem_restLengths_of_mem_restParts hp
  exact ⟨_, rfl, by rwa [toNat_of_mem_restLengths hm]⟩

theorem isPause_of_mem_restItems {steps : Nat} {item : Item} (h : item ∈ restItems steps) :
    item.isPause = true := by
  obtain ⟨length, rfl, -⟩ := mem_restItems h
  rfl

theorem mem_restLengths_of_mem_restItems {steps : Nat} {length : UInt32}
    (h : .pause length ∈ restItems steps) : length.toNat ∈ restLengths := by
  obtain ⟨_, heq, hlength⟩ := mem_restItems h
  cases heq
  exact hlength

theorem restItems_of_mem_restLengths {part : Nat} (h : part ∈ restLengths) :
    restItems part = [.pause (UInt32.ofNat part)] := by
  simp only [restLengths, List.mem_cons, List.not_mem_nil, or_false] at h
  rcases h with rfl | rfl | rfl | rfl <;> rfl

/-- Pauses of a stored length are rests as they are. -/
theorem Item.stored_pause (steps : UInt32) :
    (Item.pause steps).stored = restItems (quantize steps.toNat) := by
  by_cases hlength : steps.toNat ∈ restLengths
  · rw [stored, if_pos hlength, quantize_of_mem_restLengths hlength,
      restItems_of_mem_restLengths hlength, UInt32.ofNat_toNat]
  · rw [stored, if_neg hlength]

theorem filter_restItems (steps : Nat) : (restItems steps).filter (!·.isPause) = [] := by
  rw [List.filter_eq_nil_iff]
  intro item h
  simp [isPause_of_mem_restItems h]

/-- A saturated run is written a little longer than it is, which no layout shows. -/
theorem satAdd_sum_restParts (cursor : Nat) {steps : Nat} (h : IsWhole steps) :
    satAdd cursor (restParts steps).sum = satAdd cursor steps := by
  obtain ⟨hle, hd⟩ := h
  rw [sum_restParts]
  simp only [satAdd, quantum, maxStep] at *
  omega

section Layout

variable {length : Item → Nat} {cursor stop run : Nat} {items : List Item} {spans : List Span}

theorem map_restItems (hl : MeasuresRests length) (steps : Nat) :
    (restItems steps).map length = restParts steps := by
  rw [restItems, List.map_map]
  conv_rhs => rw [← List.map_id (restParts steps)]
  refine List.map_congr_left fun part hp => ?_
  have hm := mem_restLengths_of_mem_restParts hp
  rw [Function.comp_apply, hl, toNat_of_mem_restLengths hm, quantize_of_mem_restLengths hm, id]

theorem endFrom_restItems (hl : MeasuresRests length) (hc : cursor ≤ maxStep) {steps : Nat}
    (h : IsWhole steps) : endFrom length cursor (restItems steps) = satAdd cursor steps := by
  rw [endFrom_eq hc, map_restItems hl, satAdd_sum_restParts cursor h]

theorem spansFrom_restItems (cursor steps : Nat) :
    spansFrom length cursor (restItems steps) = [] := by
  have h := spansFrom_map_item length (restItems steps) cursor
  rw [filter_restItems] at h
  exact List.map_eq_nil_iff.mp h

theorem Lays.rest (hl : MeasuresRests length) {steps : Nat} (hs : quantum ∣ steps)
    (h : cursor + steps ≤ maxStep) :
    Lays length cursor (restItems steps) [] (cursor + steps) := by
  have hw : IsWhole steps := ⟨by omega, .inl hs⟩
  refine ⟨spansFrom_restItems _ _, ?_⟩
  rw [endFrom_restItems hl (by omega) hw, satAdd_of_le h]

/-- Normal rests lead to the steps that the pauses led to. -/
theorem spansFrom_normalizeFrom (hl : MeasuresRests length) (trailing : Trailing)
    (hc : cursor ≤ maxStep) (hr : IsWhole run) :
    spansFrom length cursor (normalizeFrom trailing run items) =
      spansFrom length (satAdd cursor run) items := by
  induction items generalizing cursor run with
  | nil => cases trailing <;> simp [normalizeFrom, spansFrom, spansFrom_restItems]
  | cons item rest ih =>
    by_cases hp : item.isPause = true
    · obtain ⟨steps, rfl⟩ := exists_of_isPause hp
      rw [normalizeFrom, ih hc (hr.satAdd (isWhole_quantize _))]
      simp [spansFrom, Item.isPause, hl steps, satAdd_assoc]
    · have hp : item.isPause = false := by simpa using hp
      rw [normalizeFrom_cons _ _ hp, spansFrom_append, spansFrom_restItems,
        endFrom_restItems hl hc hr]
      simp [spansFrom, hp, ih (satAdd_le_maxStep _ _) isWhole_zero, satAdd_le_maxStep]

theorem endFrom_normalizeFrom_keep (hl : MeasuresRests length) (hc : cursor ≤ maxStep)
    (hr : IsWhole run) :
    endFrom length cursor (normalizeFrom .keep run items) =
      endFrom length (satAdd cursor run) items := by
  induction items generalizing cursor run with
  | nil => simpa [normalizeFrom] using endFrom_restItems hl hc hr
  | cons item rest ih =>
    by_cases hp : item.isPause = true
    · obtain ⟨steps, rfl⟩ := exists_of_isPause hp
      rw [normalizeFrom, ih hc (hr.satAdd (isWhole_quantize _)), endFrom_cons, hl, satAdd_assoc]
    · rw [normalizeFrom_cons _ _ (by simpa using hp), endFrom_append, endFrom_restItems hl hc hr,
        endFrom_cons, endFrom_cons, ih (satAdd_le_maxStep _ _) isWhole_zero,
        satAdd_zero (satAdd_le_maxStep _ _)]

/-- Without the pauses behind it a layout ends where its content ends. -/
theorem endFrom_normalizeFrom_drop (hl : MeasuresRests length) (hc : cursor ≤ maxStep)
    (hr : IsWhole run) :
    endFrom length cursor (normalizeFrom .drop run items) =
      lastStop cursor (spansFrom length (satAdd cursor run) items) := by
  induction items generalizing cursor run with
  | nil => rfl
  | cons item rest ih =>
    by_cases hp : item.isPause = true
    · obtain ⟨steps, rfl⟩ := exists_of_isPause hp
      rw [normalizeFrom, ih hc (hr.satAdd (isWhole_quantize _))]
      simp [spansFrom, Item.isPause, hl steps, satAdd_assoc]
    · have hp : item.isPause = false := by simpa using hp
      have hs := satAdd_le_maxStep (satAdd cursor run) (length item)
      rw [normalizeFrom_cons _ _ hp, endFrom_append, endFrom_restItems hl hc hr, endFrom_cons,
        ih hs isWhole_zero, satAdd_zero hs]
      simp only [spansFrom, hp, Bool.false_eq_true, if_false, lastStop_cons]

theorem Lays.normalize_keep_from (hl : MeasuresRests length) (hc : cursor ≤ maxStep)
    (h : Lays length cursor items spans stop) :
    Lays length cursor (normalizePauses .keep items) spans stop := by
  obtain ⟨rfl, rfl⟩ := h
  refine ⟨?_, ?_⟩
  · rw [normalizePauses, spansFrom_normalizeFrom hl _ hc isWhole_zero, satAdd_zero hc]
  · rw [normalizePauses, endFrom_normalizeFrom_keep hl hc isWhole_zero, satAdd_zero hc]

theorem Lays.normalize_keep (hl : MeasuresRests length) (h : Lays length 0 items spans stop) :
    Lays length 0 (normalizePauses .keep items) spans stop :=
  h.normalize_keep_from hl (Nat.zero_le _)

theorem Lays.normalize_drop (hl : MeasuresRests length) (h : Lays length 0 items spans stop) :
    Lays length 0 (normalizePauses .drop items) spans (lastStop 0 spans) := by
  obtain ⟨rfl, -⟩ := h
  have hz := Nat.zero_le maxStep
  refine ⟨?_, ?_⟩
  · rw [normalizePauses, spansFrom_normalizeFrom hl _ hz isWhole_zero, satAdd_zero hz]
  · rw [normalizePauses, endFrom_normalizeFrom_drop hl hz isWhole_zero, satAdd_zero hz]

end Layout

theorem filter_normalizeFrom (trailing : Trailing) (run : Nat) (items : List Item) :
    (normalizeFrom trailing run items).filter (!·.isPause) = items.filter (!·.isPause) := by
  induction items generalizing run with
  | nil => cases trailing <;> simp [normalizeFrom, filter_restItems]
  | cons item rest ih =>
    by_cases hp : item.isPause = true
    · obtain ⟨steps, rfl⟩ := exists_of_isPause hp
      simp [normalizeFrom, hp, ih]
    · have hp : item.isPause = false := by simpa using hp
      rw [normalizeFrom_cons _ _ hp]
      simp [filter_restItems, hp, ih]

theorem mem_restLengths_of_mem_normalizeFrom {trailing : Trailing} {run : Nat}
    {items : List Item} {steps : UInt32} (h : .pause steps ∈ normalizeFrom trailing run items) :
    steps.toNat ∈ restLengths := by
  induction items generalizing run with
  | nil =>
    cases trailing with
    | drop => simp [normalizeFrom] at h
    | keep => exact mem_restLengths_of_mem_restItems h
  | cons item rest ih =>
    by_cases hp : item.isPause = true
    · obtain ⟨n, rfl⟩ := exists_of_isPause hp
      exact ih h
    · rw [normalizeFrom_cons _ _ (by simpa using hp)] at h
      rcases List.mem_append.mp h with h | h
      · exact mem_restLengths_of_mem_restItems h
      · rcases List.mem_cons.mp h with rfl | h
        · simp [Item.isPause] at hp
        · exact ih h

theorem normalizeFrom_append_cons (trailing : Trailing) (run : Nat) (xs : List Item) {item : Item}
    (h : item.isPause = false) (rest : List Item) :
    normalizeFrom trailing run (xs ++ item :: rest) =
      normalizeFrom .keep run xs ++ item :: normalizeFrom trailing 0 rest := by
  induction xs generalizing run with
  | nil => rw [List.nil_append, normalizeFrom_cons _ _ h, normalizeFrom]
  | cons x xs ih =>
    by_cases hp : x.isPause = true
    · obtain ⟨steps, rfl⟩ := exists_of_isPause hp
      rw [List.cons_append, normalizeFrom, ih, normalizeFrom]
    · have hp : x.isPause = false := by simpa using hp
      rw [List.cons_append, normalizeFrom_cons _ _ hp, normalizeFrom_cons _ _ hp, ih,
        List.append_assoc, List.cons_append]

/-- An item that is no pause keeps the rests before it and behind it apart. -/
theorem normalizePauses_append_cons (trailing : Trailing) (xs : List Item) {item : Item}
    (h : item.isPause = false) (rest : List Item) :
    normalizePauses trailing (xs ++ item :: rest) =
      normalizePauses .keep xs ++ item :: normalizePauses trailing rest :=
  normalizeFrom_append_cons trailing 0 xs h rest

theorem normalizePauses_cons (trailing : Trailing) {item : Item} (h : item.isPause = false)
    (rest : List Item) :
    normalizePauses trailing (item :: rest) = item :: normalizePauses trailing rest :=
  normalizePauses_append_cons trailing [] h rest

def restLength : Item → Nat
  | .pause steps => quantize steps.toNat
  | _ => 0

theorem measuresRests_restLength : MeasuresRests restLength := fun _ => rfl

theorem normalizeFrom_pauses_append (trailing : Trailing) (run : Nat) {pauses : List Item}
    (h : ∀ item ∈ pauses, item.isPause = true) (rest : List Item) :
    normalizeFrom trailing run (pauses ++ rest) =
      normalizeFrom trailing (endFrom restLength run pauses) rest := by
  induction pauses generalizing run with
  | nil => rfl
  | cons item pauses ih =>
    obtain ⟨steps, rfl⟩ := exists_of_isPause (h item List.mem_cons_self)
    exact ih _ fun item hm => h item (List.mem_cons_of_mem _ hm)

theorem normalizeFrom_restItems_append (trailing : Trailing) {run steps : Nat}
    (hr : run ≤ maxStep) (hs : IsWhole steps) (rest : List Item) :
    normalizeFrom trailing run (restItems steps ++ rest) =
      normalizeFrom trailing (satAdd run steps) rest := by
  rw [normalizeFrom_pauses_append trailing run fun _ => isPause_of_mem_restItems,
    endFrom_restItems measuresRests_restLength hr hs]

/-- Runs written as one rest are read back as the same runs. -/
theorem normalizeFrom_normalizeFrom (trailing : Trailing) {outer run : Nat}
    (ho : outer ≤ maxStep) (hr : IsWhole run) (items : List Item) :
    normalizeFrom trailing outer (normalizeFrom trailing run items) =
      normalizeFrom trailing (satAdd outer run) items := by
  induction items generalizing outer run with
  | nil =>
    cases trailing with
    | drop => rfl
    | keep => simpa [normalizeFrom] using normalizeFrom_restItems_append .keep ho hr []
  | cons item rest ih =>
    by_cases hp : item.isPause = true
    · obtain ⟨steps, rfl⟩ := exists_of_isPause hp
      rw [normalizeFrom, ih ho (hr.satAdd (isWhole_quantize _)), normalizeFrom, satAdd_assoc]
    · have hp : item.isPause = false := by simpa using hp
      rw [normalizeFrom_cons _ _ hp, normalizeFrom_restItems_append _ ho hr,
        normalizeFrom_cons _ _ hp, normalizeFrom_cons _ _ hp,
        ih (Nat.zero_le _) isWhole_zero, satAdd_zero (Nat.zero_le _)]

theorem normalizePauses_normalizePauses (trailing : Trailing) (items : List Item) :
    normalizePauses trailing (normalizePauses trailing items) =
      normalizePauses trailing items := by
  rw [normalizePauses, normalizePauses,
    normalizeFrom_normalizeFrom trailing (Nat.zero_le _) isWhole_zero,
    satAdd_zero (Nat.zero_le _)]

end Groovebox

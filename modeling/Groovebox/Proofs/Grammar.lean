import Mathlib.Data.String.Basic
import Groovebox.Notation
import Groovebox.Proofs.Numerals
import Groovebox.Proofs.Results

/-! The grammar of the notation. A text spells items where it is made of their words and of
white space, bars and comments, and a word of a pad or a pause does not run on into what
follows. The reader accepts these texts with these items and no others, and where it finds a
fault it points between two characters of the text. -/

namespace Groovebox

open Text

namespace Notation

variable {position place n used : Nat} {c : Char} {text rest word digits : List Char}
  {item : Item} {items : List Item} {fault : NotationError}

/-- What may stand behind a number. -/
def EndsItem (rest : List Char) : Prop := ∀ c ∈ rest.head?, c = '|' ∨ c = '#' ∨ isBlank c

structure IsId (id : List Char) : Prop where
  ne_nil : id ≠ []
  allowed : ∀ c ∈ id, c.isAlphanum ∨ c = '_' ∨ c = '-'

/-- In front of `rest` the word stands for the item. -/
inductive StandsFor (rest : List Char) : List Char → Item → Prop
  | pad {letter : Char} {digits : List Char} {n : Nat} (letter_eq : letter = 'p' ∨ letter = 'P')
    (numeral : IsNumeral digits n) (inRange : n < padCount) (ends : EndsItem rest) :
    StandsFor rest (letter :: digits) (.pad (UInt8.ofNat n))
  | lonePause (ends : EndsItem rest) : StandsFor rest ['~'] (.pause (UInt32.ofNat quantum))
  | pause {digits : List Char} {n : Nat} (numeral : IsNumeral digits n) (positive : 0 < n)
    (inRange : n ≤ maxStep) (ends : EndsItem rest) :
    StandsFor rest ('~' :: digits) (.pause (UInt32.ofNat n))
  | group {id : String} (isId : IsId id.toList) :
    StandsFor rest ('[' :: (id.toList ++ [']'])) (.call ⟨.group, id⟩)
  | super {id : String} (isId : IsId id.toList) :
    StandsFor rest ('\x7b' :: (id.toList ++ ['\x7d'])) (.call ⟨.super, id⟩)

/-- The text is made of separators and of the words of the items in this order. A comment goes
on to the end of its line. -/
inductive Spells : List Char → List Item → Prop
  | done : Spells [] []
  | blank {c : Char} {rest : List Char} {items : List Item} (isBlank : isBlank c)
    (spells : Spells rest items) : Spells (c :: rest) items
  | bar {rest : List Char} {items : List Item} (spells : Spells rest items) :
    Spells ('|' :: rest) items
  | comment {remark rest : List Char} {items : List Item} (one_line : '\n' ∉ remark)
    (spells : Spells rest items) : Spells ('#' :: (remark ++ '\n' :: rest)) items
  | lastComment {remark : List Char} (one_line : '\n' ∉ remark) : Spells ('#' :: remark) []
  | item {word rest : List Char} {item : Item} {items : List Item}
    (stands : StandsFor rest word item) (spells : Spells rest items) :
    Spells (word ++ rest) (item :: items)

theorem checkEnd_eq_ok_iff : checkEnd position rest = .ok () ↔ EndsItem rest := by
  cases rest with
  | nil => simp [checkEnd, EndsItem]
  | cons c rest =>
    simp only [checkEnd, EndsItem, List.head?_cons, Option.mem_def, Option.some.injEq,
      forall_eq', Bool.or_eq_true, decide_eq_true_eq, or_assoc]
    split <;> simp_all

theorem EndsItem.not_isDigit (h : EndsItem rest) : ∀ c ∈ rest.head?, isDigit c = false := by
  intro c hc
  rcases h c hc with rfl | rfl | hblank
  · decide
  · decide
  · refine Bool.eq_false_iff.mpr fun hdigit => ?_
    rw [not_isBlank_of_isDigit hdigit] at hblank
    cases hblank

theorem isIdChar_iff : isIdChar c ↔ c.isAlphanum ∨ c = '_' ∨ c = '-' := by
  have halphanum : c.isAlphanum =
      (('A' ≤ c ∧ c ≤ 'Z' || 'a' ≤ c && c ≤ 'z') || '0' ≤ c && c ≤ '9') := rfl
  simp only [isIdChar, isDigit, halphanum, Bool.or_eq_true, Bool.and_eq_true, decide_eq_true_eq]
  -- The same ranges in another order.
  simp only [or_assoc, or_comm, or_left_comm]

/-! Words are read as what they stand for, and nothing else is read. -/

theorem takeWhile_numeral (h : IsNumeral digits n) (hend : EndsItem rest) :
    (digits ++ rest).takeWhile isDigit = digits :=
  takeWhile_append_of_head (fun c hc => isDigit_iff.mpr (h.decimal c hc)) hend.not_isDigit

theorem readStep_numeral (h : IsNumeral digits n) (hmax : n ≤ maxStep) :
    readStep position digits = .ok n := by
  rw [readStep, List.isEmpty_eq_false_iff.mpr h.ne_nil, if_neg Bool.false_ne_true,
    h.digitsValue_eq, if_neg (Nat.not_lt.mpr hmax)]

theorem isNumeral_of_readStep (h : readStep position (text.takeWhile isDigit) = .ok n) :
    IsNumeral (text.takeWhile isDigit) n ∧ n ≤ maxStep := by
  unfold readStep at h
  split at h
  · cases h
  · next hfilled =>
    split at h
    · cases h
    · next hle =>
      obtain rfl := Except.ok.inj h
      refine ⟨⟨by simpa using hfilled, fun c hc => ?_, (digitsValue_eq _).symm⟩, Nat.not_lt.mp hle⟩
      exact isDigit_iff.mp (List.all_eq_true.mp List.all_takeWhile c hc)

theorem readPad_numeral (h : IsNumeral digits n) (hrange : n < padCount) (hend : EndsItem rest) :
    readPad position (digits ++ rest) = .ok (.pad (UInt8.ofNat n), digits.length) := by
  have hmax : n ≤ maxStep := by
    simp only [padCount, maxStep] at hrange ⊢
    omega
  simp only [readPad, takeWhile_numeral h hend, List.drop_left, readStep_numeral h hmax,
    checkEnd_eq_ok_iff.mpr hend, if_neg (Nat.not_le.mpr hrange), bind, Except.bind, pure,
    Except.pure]

theorem exists_of_readPad (h : readPad position text = .ok (item, used)) :
    ∃ digits rest n, text = digits ++ rest ∧ used = digits.length ∧ IsNumeral digits n ∧
      n < padCount ∧ EndsItem rest ∧ item = .pad (UInt8.ofNat n) := by
  obtain ⟨n, hn, hrest⟩ := exists_of_bind_eq_ok h
  by_cases hrange : padCount ≤ n
  · rw [if_pos hrange] at hrest
    cases hrest
  rw [if_neg hrange] at hrest
  obtain ⟨_, hend, hpad⟩ := exists_of_bind_eq_ok hrest
  obtain ⟨rfl, rfl⟩ := Prod.mk.inj (Except.ok.inj hpad)
  exact ⟨_, _, n, (List.prefix_iff_eq_append.mp (List.takeWhile_prefix _)).symm, rfl,
    (isNumeral_of_readStep hn).1, Nat.not_le.mp hrange, checkEnd_eq_ok_iff.mp hend, rfl⟩

theorem readPause_eq (position : Nat) (text : List Char) :
    readPause position text =
      (if (text.takeWhile isDigit).isEmpty then .ok quantum
        else readStep position (text.takeWhile isDigit)) >>= fun steps =>
        if steps = 0 then .error (.emptyPause position)
        else
          let used := (text.takeWhile isDigit).length
          checkEnd (position + used) (text.drop used) >>= fun _ =>
            .ok (.pause (UInt32.ofNat steps), used) := by
  unfold readPause
  by_cases hnone : (text.takeWhile isDigit).isEmpty
  · simp only [if_pos hnone]
    rfl
  · simp only [if_neg hnone]
    rfl

theorem readPause_numeral (h : IsNumeral digits n) (hpos : 0 < n) (hmax : n ≤ maxStep)
    (hend : EndsItem rest) :
    readPause position (digits ++ rest) = .ok (.pause (UInt32.ofNat n), digits.length) := by
  rw [readPause_eq, takeWhile_numeral h hend, List.isEmpty_eq_false_iff.mpr h.ne_nil,
    if_neg Bool.false_ne_true, readStep_numeral h hmax, ok_bind, if_neg (Nat.ne_of_gt hpos)]
  simp only [List.drop_left, checkEnd_eq_ok_iff.mpr hend, ok_bind]

theorem readPause_lone (hend : EndsItem rest) :
    readPause position rest = .ok (.pause (UInt32.ofNat quantum), 0) := by
  have hnone : ([] ++ rest).takeWhile isDigit = [] :=
    takeWhile_append_of_head nofun hend.not_isDigit
  rw [List.nil_append] at hnone
  rw [readPause_eq, hnone, List.isEmpty_nil, if_pos rfl, ok_bind, if_neg (by decide)]
  simp only [List.length_nil, List.drop_zero, checkEnd_eq_ok_iff.mpr hend, ok_bind]

theorem exists_of_readPause (h : readPause position text = .ok (item, used)) :
    ∃ digits rest n, text = digits ++ rest ∧ used = digits.length ∧
      (digits = [] ∧ n = quantum ∨ IsNumeral digits n ∧ 0 < n ∧ n ≤ maxStep) ∧ EndsItem rest ∧
      item = .pause (UInt32.ofNat n) := by
  rw [readPause_eq] at h
  obtain ⟨n, hn, hrest⟩ := exists_of_bind_eq_ok h
  by_cases hzero : n = 0
  · rw [if_pos hzero] at hrest
    cases hrest
  rw [if_neg hzero] at hrest
  obtain ⟨_, hend, hpause⟩ := exists_of_bind_eq_ok hrest
  obtain ⟨rfl, rfl⟩ := Prod.mk.inj (Except.ok.inj hpause)
  refine ⟨_, _, n, (List.prefix_iff_eq_append.mp (List.takeWhile_prefix _)).symm, rfl, ?_,
    checkEnd_eq_ok_iff.mp hend, rfl⟩
  by_cases hnone : (text.takeWhile isDigit).isEmpty
  · rw [if_pos hnone] at hn
    exact .inl ⟨List.isEmpty_iff.mp hnone, (Except.ok.inj hn).symm⟩
  · rw [if_neg hnone] at hn
    obtain ⟨hnumeral, hmax⟩ := isNumeral_of_readStep hn
    exact .inr ⟨hnumeral, Nat.pos_of_ne_zero hzero, hmax⟩

theorem readCall_id {kind : GroupKind} {id : String} {close : Char} (h : IsId id.toList)
    (hclose : isIdChar close = false) :
    readCall kind close position (id.toList ++ close :: rest) =
      .ok (.call ⟨kind, id⟩, id.toList.length + 1) := by
  have htake : (id.toList ++ close :: rest).takeWhile isIdChar = id.toList := by
    refine takeWhile_append_of_head (fun c hc => isIdChar_iff.mpr (h.allowed c hc)) fun c hc => ?_
    obtain rfl := Option.some.inj hc
    exact hclose
  simp only [readCall, htake, List.isEmpty_eq_false_iff.mpr h.ne_nil, Bool.false_eq_true, if_false,
    List.drop_left, if_true, String.ofList_toList]

theorem exists_of_readCall {kind : GroupKind} {close : Char}
    (h : readCall kind close position text = .ok (item, used)) :
    ∃ (id : String) (rest : List Char), text = id.toList ++ close :: rest ∧
      used = id.toList.length + 1 ∧ IsId id.toList ∧ item = .call ⟨kind, id⟩ := by
  unfold readCall at h
  dsimp only at h
  split at h
  · cases h
  · next hfilled =>
    split at h
    · cases h
    · next c rest hbehind =>
      split at h
      · next hclose =>
        subst hclose
        obtain ⟨rfl, rfl⟩ := Prod.mk.inj (Except.ok.inj h)
        refine ⟨String.ofList (text.takeWhile isIdChar), rest, ?_, ?_, ?_, rfl⟩
        · rw [String.toList_ofList, ← hbehind]
          exact (List.prefix_iff_eq_append.mp (List.takeWhile_prefix _)).symm
        · rw [String.toList_ofList]
        · rw [String.toList_ofList]
          refine ⟨by simpa using hfilled, fun c hc => ?_⟩
          exact isIdChar_iff.mp (List.all_eq_true.mp List.all_takeWhile c hc)
      · cases h

/-- Where a word stands for an item, its first character tells how to read the rest of it. -/
theorem readItem_of_standsFor (h : StandsFor rest word item) :
    ∃ c body, word = c :: body ∧ (isBlank c = false ∧ c ≠ '#' ∧ c ≠ '|') ∧
      ∀ position, readItem position c (body ++ rest) = .ok (item, body.length) := by
  cases h with
  | @pad letter digits n hletter hnumeral hrange hend =>
    refine ⟨letter, digits, rfl, ?_, fun position => ?_⟩
    · rcases hletter with rfl | rfl <;> exact ⟨rfl, by decide, by decide⟩
    · rw [readItem, if_pos (by simpa using hletter), readPad_numeral hnumeral hrange hend]
  | lonePause hend =>
    refine ⟨'~', [], rfl, ⟨rfl, by decide, by decide⟩, fun position => ?_⟩
    rw [readItem, if_neg (by decide), if_pos rfl, List.nil_append, readPause_lone hend]
    rfl
  | pause hnumeral hpos hmax hend =>
    refine ⟨'~', _, rfl, ⟨rfl, by decide, by decide⟩, fun position => ?_⟩
    rw [readItem, if_neg (by decide), if_pos rfl, readPause_numeral hnumeral hpos hmax hend]
  | group hid =>
    refine ⟨'[', _, rfl, ⟨rfl, by decide, by decide⟩, fun position => ?_⟩
    rw [readItem, if_neg (by decide), if_neg (by decide), if_pos rfl, List.append_assoc,
      List.length_append]
    exact readCall_id hid (by decide)
  | super hid =>
    refine ⟨'\x7b', _, rfl, ⟨rfl, by decide, by decide⟩, fun position => ?_⟩
    rw [readItem, if_neg (by decide), if_neg (by decide), if_neg (by decide), if_pos rfl,
      List.append_assoc, List.length_append]
    exact readCall_id hid (by decide)

theorem exists_of_readItem (h : readItem position c text = .ok (item, used)) :
    ∃ body rest, text = body ++ rest ∧ used = body.length ∧ StandsFor rest (c :: body) item := by
  unfold readItem at h
  split at h
  · next hletter =>
    obtain ⟨digits, rest, n, rfl, rfl, hnumeral, hrange, hend, rfl⟩ := exists_of_readPad h
    exact ⟨digits, rest, rfl, rfl, .pad (by simpa using hletter) hnumeral hrange hend⟩
  · split at h
    · next htilde =>
      subst htilde
      obtain ⟨digits, rest, n, rfl, rfl, hn, hend, rfl⟩ := exists_of_readPause h
      refine ⟨digits, rest, rfl, rfl, ?_⟩
      rcases hn with ⟨rfl, rfl⟩ | ⟨hnumeral, hpos, hmax⟩
      · exact .lonePause hend
      · exact .pause hnumeral hpos hmax hend
    · split at h
      · next hopen =>
        subst hopen
        obtain ⟨id, rest, rfl, rfl, hid, rfl⟩ := exists_of_readCall h
        exact ⟨id.toList ++ [']'], rest, by simp, by simp, .group hid⟩
      · split at h
        · next hopen =>
          subst hopen
          obtain ⟨id, rest, rfl, rfl, hid, rfl⟩ := exists_of_readCall h
          exact ⟨id.toList ++ ['\x7d'], rest, by simp, by simp, .super hid⟩
        · cases h

/-! Texts are read as what they spell, and nothing else is read. -/

theorem parseFrom_eq (position : Nat) (text : List Char) :
    parseFrom position text = match skip true false position text with
      | ⟨_, []⟩ => .ok []
      | ⟨start, c :: rest⟩ => match readItem start c rest with
        | .error fault => .error fault
        | .ok (item, used) =>
          (parseFrom (start + 1 + used) (rest.drop used)).map (item :: ·) := by
  rw [parseFrom]
  split
  · next heq =>
    rewrite [heq]
    rfl
  · next heq =>
    rewrite [heq]
    rfl

theorem parseFrom_congr {other : Nat} {more : List Char}
    (h : skip true false position text = skip true false other more) :
    parseFrom position text = parseFrom other more := by
  rw [parseFrom_eq, parseFrom_eq, h]

theorem skip_blank (h : isBlank c) (position : Nat) (rest : List Char) :
    skip true false position (c :: rest) = skip true false (position + c.utf8Size) rest := by
  have hcomment : c ≠ '#' := by
    rintro rfl
    exact absurd h (by decide)
  simp [skip, h, hcomment]

theorem skip_remark {remark : List Char} (h : '\n' ∉ remark) (position : Nat) :
    (skip true true position remark).rest = [] ∧
      ∀ rest, ∃ next, skip true true position (remark ++ '\n' :: rest) =
        skip true false next rest := by
  induction remark generalizing position with
  | nil => exact ⟨rfl, fun rest => ⟨_, rfl⟩⟩
  | cons c remark ih =>
    obtain ⟨hc, hremark⟩ := List.ne_and_not_mem_of_not_mem_cons h
    obtain ⟨hlast, hnext⟩ := ih hremark (position + c.utf8Size)
    simpa [skip, hc.symm] using ⟨hlast, hnext⟩

theorem parseFrom_of_spells (h : Spells text items) (position : Nat) :
    parseFrom position text = .ok items := by
  induction h generalizing position with
  | done =>
    rw [parseFrom_eq]
    rfl
  | blank hblank hrest ih => rw [parseFrom_congr (skip_blank hblank position _), ih]
  | bar hrest ih =>
    rw [← ih (position + 1)]
    exact parseFrom_congr rfl
  | @comment remark rest items hremark hrest ih =>
    obtain ⟨next, hnext⟩ := (skip_remark hremark (position + 1)).2 rest
    rw [← ih next]
    exact parseFrom_congr hnext
  | @lastComment remark hremark =>
    have hskip : skip true false position ('#' :: remark) = skip true true (position + 1) remark :=
      rfl
    have hlast := (skip_remark hremark (position + 1)).1
    rw [parseFrom_eq, hskip]
    generalize skip true true (position + 1) remark = cursor at hlast
    obtain ⟨place, rest⟩ := cursor
    subst hlast
    rfl
  | @item word rest item items hstands hrest ih =>
    obtain ⟨c, body, rfl, ⟨hblank, hcomment, hbar⟩, hread⟩ := readItem_of_standsFor hstands
    have hskip : skip true false position (c :: (body ++ rest)) =
        ⟨position, c :: (body ++ rest)⟩ := by
      simp [skip, hblank, hcomment, hbar]
    rw [List.cons_append, parseFrom_eq, hskip]
    simp only [hread position, List.drop_left, ih]
    rfl

theorem eq_nil_of_spells_nil (h : Spells [] items) : items = [] := by
  have hread := parseFrom_of_spells h 0
  rw [parseFrom_of_spells .done 0] at hread
  exact (Except.ok.inj hread).symm

/-- Only separators are skipped. Within a comment the part of it that is behind counts too. -/
theorem spells_of_skip (text : List Char) (position : Nat) :
    (Spells (skip true false position text).rest items → Spells text items) ∧
      ∀ remark, '\n' ∉ remark → Spells (skip true true position text).rest items →
        Spells ('#' :: (remark ++ text)) items := by
  induction text generalizing position with
  | nil =>
    refine ⟨id, fun remark hremark h => ?_⟩
    obtain rfl := eq_nil_of_spells_nil h
    rw [List.append_nil]
    exact .lastComment hremark
  | cons c text ih =>
    obtain ⟨houtside, hinside⟩ := ih (position + c.utf8Size)
    constructor
    · intro h
      by_cases hcomment : c = '#'
      · subst hcomment
        exact hinside [] List.not_mem_nil h
      by_cases hbar : c = '|'
      · subst hbar
        exact .bar (houtside h)
      by_cases hblank : isBlank c
      · rw [skip_blank hblank] at h
        exact .blank hblank (houtside h)
      · simpa [skip, hcomment, hbar, hblank] using h
    · intro remark hremark h
      by_cases hend : c = '\n'
      · subst hend
        exact .comment hremark (houtside h)
      · have hlonger : '\n' ∉ remark ++ [c] := by simpa [Ne.symm hend] using hremark
        have hmore := hinside (remark ++ [c]) hlonger (by simpa [skip, hend] using h)
        rwa [List.append_assoc, List.singleton_append] at hmore

theorem spells_of_parseFrom (h : parseFrom position text = .ok items) : Spells text items := by
  fun_induction parseFrom generalizing items with
  | case1 position text start hskip =>
    refine (spells_of_skip text position).1 ?_
    rw [hskip]
    obtain rfl := Except.ok.inj h
    exact .done
  | case2 => cases h
  | case3 position text start c rest hskip item used hread ih =>
    obtain ⟨more, hmore, rfl⟩ := exists_of_map_eq_ok h
    obtain ⟨body, behind, rfl, rfl, hstands⟩ := exists_of_readItem hread
    refine (spells_of_skip text position).1 ?_
    rw [List.drop_left] at ih hmore
    rw [hskip]
    exact .item hstands (ih hmore)

/-! Faults point between two characters of the text. -/

end Notation

/-- Where in the text the fault was found, if it tells. -/
def NotationError.position? : NotationError → Option Nat
  | .unexpectedEnd => none
  | .unexpectedChar position _ => some position
  | .expectedNumber position => some position
  | .invalidNumber position => some position
  | .padOutOfRange position _ => some position
  | .emptyPause position => some position
  | .emptyId position => some position

namespace Notation

variable {α β : Type} {start position place : Nat} {c : Char} {text front rest : List Char}
  {x : Except NotationError α} {fault : NotationError}

/-- The place is between two characters of the text or at an end of it. The first character is
at `start`. -/
def IsPlace (start : Nat) (text : List Char) (place : Nat) : Prop :=
  ∃ front back, text = front ++ back ∧ place = start + String.utf8Len front

theorem isPlace_start (start : Nat) (text : List Char) : IsPlace start text start :=
  ⟨[], text, rfl, rfl⟩

theorem IsPlace.behind (h : IsPlace (start + String.utf8Len front) rest place) :
    IsPlace start (front ++ rest) place := by
  obtain ⟨before, back, rfl, rfl⟩ := h
  refine ⟨front ++ before, back, (List.append_assoc ..).symm, ?_⟩
  rw [String.utf8Len_append, Nat.add_assoc]

/-- Where the reading fails, it points into the text. -/
def PointsInto (start : Nat) (text : List Char) (x : Except NotationError α) : Prop :=
  ∀ fault place, x = .error fault → fault.position? = some place → IsPlace start text place

theorem pointsInto_ok (a : α) : PointsInto start text (.ok a) := nofun

theorem pointsInto_error (h : ∀ place, fault.position? = some place → IsPlace start text place) :
    PointsInto start text (.error fault : Except NotationError α) := by
  intro found place hfound hplace
  exact h place (Except.error.inj hfound ▸ hplace)

theorem pointsInto_error_start (h : fault.position? = some start) :
    PointsInto start text (.error fault : Except NotationError α) :=
  pointsInto_error fun _ hplace => Option.some.inj (h.symm.trans hplace) ▸ isPlace_start start text

theorem PointsInto.bind {f : α → Except NotationError β} (hx : PointsInto start text x)
    (hf : ∀ a, x = .ok a → PointsInto start text (f a)) : PointsInto start text (x >>= f) := by
  cases x with
  | error fault => exact fun found place hfound => hx found place (by cases hfound; rfl)
  | ok a => exact hf a rfl

theorem PointsInto.map {f : α → β} (h : PointsInto start text x) :
    PointsInto start text (x.map f) := by
  rw [map_eq_bind_return]
  exact h.bind fun a _ => pointsInto_ok (f a)

theorem PointsInto.behind (h : PointsInto (start + String.utf8Len front) rest x) :
    PointsInto start (front ++ rest) x :=
  fun fault place hfault hplace => (h fault place hfault hplace).behind

theorem toNat_of_isIdChar (h : isIdChar c) : 0x2d ≤ c.toNat ∧ c.toNat ≤ 0x7a := by
  simp only [isIdChar, isDigit, Bool.or_eq_true, Bool.and_eq_true, decide_eq_true_eq,
    Char.le_def, UInt32.le_iff_toNat_le] at h
  rcases h with (((⟨hlow, hhigh⟩ | ⟨hlow, hhigh⟩) | ⟨hlow, hhigh⟩) | rfl) | rfl
  · exact ⟨Nat.le_trans (by decide) hlow, Nat.le_trans hhigh (by decide)⟩
  · exact ⟨Nat.le_trans (by decide) hlow, hhigh⟩
  · exact ⟨Nat.le_trans (by decide) hlow, Nat.le_trans hhigh (by decide)⟩
  · decide
  · decide

theorem utf8Len_eq_length (h : ∀ c ∈ text, c.toNat < 128) :
    String.utf8Len text = text.length := by
  induction text with
  | nil => rfl
  | cons c text ih =>
    obtain ⟨hc, htext⟩ := List.forall_mem_cons.mp h
    have hone : c.utf8Size = 1 := Char.utf8Size_eq_one_iff.mpr (Nat.le_of_lt_succ hc)
    rw [String.utf8Len_cons, ih htext, hone, List.length_cons]

theorem toNat_lt_of_isDigit (h : isDigit c) : c.toNat < 128 :=
  Nat.lt_of_le_of_lt (toNat_of_isDigit h).2 (by decide)

theorem toNat_lt_of_isIdChar (h : isIdChar c) : c.toNat < 128 :=
  Nat.lt_of_le_of_lt (toNat_of_isIdChar h).2 (by decide)

theorem isIdChar_of_isDigit (h : isDigit c) : isIdChar c := by
  simp [isIdChar, h]

/-- A word is made of the characters of ids, the tilde and brackets. -/
theorem StandsFor.forall_mem {word : List Char} {item : Item} {P : Char → Prop}
    (h : StandsFor rest word item) (hid : ∀ c, isIdChar c → P c)
    (hmarks : ∀ c ∈ ['~', '[', ']', '\x7b', '\x7d'], P c) : ∀ c ∈ word, P c := by
  have hnumeral : ∀ {digits n}, IsNumeral digits n → ∀ c ∈ digits, P c :=
    fun hn c hc => hid c (isIdChar_of_isDigit (isDigit_iff.mpr (hn.decimal c hc)))
  have hbracketed : ∀ {id : List Char} {close : Char}, IsId id → P close →
      ∀ c ∈ id ++ [close], P c := by
    intro id close h hclose
    refine List.forall_mem_append.mpr ⟨fun c hc => ?_, List.forall_mem_singleton.mpr hclose⟩
    exact hid c (isIdChar_iff.mpr (h.allowed c hc))
  cases h with
  | pad hletter hn hrange hend =>
    refine List.forall_mem_cons.mpr ⟨hid _ ?_, hnumeral hn⟩
    rcases hletter with rfl | rfl <;> decide
  | lonePause hend => exact List.forall_mem_singleton.mpr (hmarks _ (by decide))
  | pause hn hpos hmax hend =>
    exact List.forall_mem_cons.mpr ⟨hmarks _ (by decide), hnumeral hn⟩
  | group h =>
    exact List.forall_mem_cons.mpr ⟨hmarks _ (by decide), hbracketed h (hmarks _ (by decide))⟩
  | super h =>
    exact List.forall_mem_cons.mpr ⟨hmarks _ (by decide), hbracketed h (hmarks _ (by decide))⟩

theorem StandsFor.utf8Len_eq {word : List Char} {item : Item} (h : StandsFor rest word item) :
    String.utf8Len word = word.length :=
  utf8Len_eq_length (h.forall_mem (fun _ => toNat_lt_of_isIdChar) (by simp))

/-- What is read behind a run of ASCII characters points into the text with the run. -/
theorem pointsInto_drop {p : Char → Bool} (hp : ∀ c, p c → c.toNat < 128)
    (h : PointsInto (start + (text.takeWhile p).length) (text.drop (text.takeWhile p).length) x) :
    PointsInto start text x := by
  have hrun : String.utf8Len (text.takeWhile p) = (text.takeWhile p).length :=
    utf8Len_eq_length fun c hc => hp c (List.all_eq_true.mp List.all_takeWhile c hc)
  rw [← hrun] at h
  have hbehind := h.behind
  rwa [hrun, List.prefix_iff_eq_append.mp (List.takeWhile_prefix _)] at hbehind

theorem pointsInto_checkEnd (position : Nat) (rest : List Char) :
    PointsInto position rest (checkEnd position rest) := by
  cases rest with
  | nil => exact pointsInto_ok ()
  | cons c rest =>
    rw [checkEnd]
    split
    · exact pointsInto_ok ()
    · exact pointsInto_error_start rfl

theorem pointsInto_readStep (position : Nat) (digits text : List Char) :
    PointsInto position text (readStep position digits) := by
  rw [readStep]
  split
  · exact pointsInto_error_start rfl
  · split
    · exact pointsInto_error_start rfl
    · exact pointsInto_ok _

theorem pointsInto_readPad (position : Nat) (text : List Char) :
    PointsInto position text (readPad position text) := by
  refine (pointsInto_readStep position _ text).bind fun n _ => ?_
  split
  · exact pointsInto_error_start rfl
  · refine (pointsInto_drop (fun _ => toNat_lt_of_isDigit) (pointsInto_checkEnd _ _)).bind ?_
    exact fun _ _ => pointsInto_ok _

theorem pointsInto_readPause (position : Nat) (text : List Char) :
    PointsInto position text (readPause position text) := by
  rw [readPause_eq]
  refine PointsInto.bind ?_ fun n _ => ?_
  · split
    · exact pointsInto_ok _
    · exact pointsInto_readStep position _ text
  · split
    · exact pointsInto_error_start rfl
    · refine (pointsInto_drop (fun _ => toNat_lt_of_isDigit) (pointsInto_checkEnd _ _)).bind ?_
      exact fun _ _ => pointsInto_ok _

theorem pointsInto_readCall (kind : GroupKind) (close : Char) (position : Nat) (text : List Char) :
    PointsInto position text (readCall kind close position text) := by
  unfold readCall
  dsimp only
  split
  · exact pointsInto_error_start rfl
  · refine pointsInto_drop (fun _ => toNat_lt_of_isIdChar) ?_
    split
    · exact pointsInto_error nofun
    · split
      · exact pointsInto_ok _
      · exact pointsInto_error_start rfl

theorem pointsInto_cons (hone : c.utf8Size = 1) (h : PointsInto (start + 1) text x) :
    PointsInto start (c :: text) x := by
  show PointsInto start ([c] ++ text) x
  refine PointsInto.behind ?_
  rwa [String.utf8Len_cons, String.utf8Len_nil, Nat.zero_add, hone]

theorem pointsInto_readItem (start : Nat) (c : Char) (text : List Char) :
    PointsInto start (c :: text) (readItem start c text) := by
  unfold readItem
  split
  · next hletter =>
    have hone : c.utf8Size = 1 := by
      rcases (by simpa using hletter : c = 'p' ∨ c = 'P') with rfl | rfl <;> rfl
    exact pointsInto_cons hone (pointsInto_readPad (start + 1) text)
  · split
    · next htilde => exact pointsInto_cons (htilde ▸ rfl) (pointsInto_readPause (start + 1) text)
    · split
      · next hopen =>
        exact pointsInto_cons (hopen ▸ rfl) (pointsInto_readCall .group _ (start + 1) text)
      · split
        · next hopen =>
          exact pointsInto_cons (hopen ▸ rfl) (pointsInto_readCall .super _ (start + 1) text)
        · exact pointsInto_error_start rfl

/-- The cursor is at a place in the text. The first character is at `start`. -/
def Cursor.IsIn (cursor : Cursor) (start : Nat) (text : List Char) : Prop :=
  ∃ front, text = front ++ cursor.rest ∧ cursor.position = start + String.utf8Len front

theorem Cursor.IsIn.cons {cursor : Cursor} (h : cursor.IsIn (start + c.utf8Size) text) :
    cursor.IsIn start (c :: text) := by
  obtain ⟨front, rfl, hposition⟩ := h
  refine ⟨c :: front, rfl, ?_⟩
  rw [hposition, String.utf8Len_cons]
  omega

theorem Cursor.IsIn.pointsInto {cursor : Cursor} (h : cursor.IsIn start text)
    (hx : PointsInto cursor.position cursor.rest x) : PointsInto start text x := by
  obtain ⟨front, rfl, hposition⟩ := h
  rw [hposition] at hx
  exact hx.behind

theorem isIn_skip (bars inComment : Bool) (start : Nat) (text : List Char) :
    (skip bars inComment start text).IsIn start text := by
  induction text generalizing inComment start with
  | nil => exact ⟨[], rfl, rfl⟩
  | cons c text ih =>
    simp only [skip]
    split
    · exact (ih _ _).cons
    · split
      · exact (ih _ _).cons
      · exact ⟨[], rfl, rfl⟩

theorem pointsInto_parseFrom (position : Nat) (text : List Char) :
    PointsInto position text (parseFrom position text) := by
  fun_induction parseFrom with
  | case1 position text start hskip => exact pointsInto_ok []
  | case2 position text start c rest hskip fault hread =>
    have hcursor := isIn_skip true false position text
    have hitem := pointsInto_readItem start c rest
    rw [hskip] at hcursor
    rw [hread] at hitem
    exact hcursor.pointsInto fun found place hfound => hitem found place (by cases hfound; rfl)
  | case3 position text start c rest hskip item used hread ih =>
    have hcursor := isIn_skip true false position text
    rw [hskip] at hcursor
    obtain ⟨body, behind, rfl, rfl, hstands⟩ := exists_of_readItem hread
    refine hcursor.pointsInto (PointsInto.map ?_)
    have hnext : start + 1 + body.length = start + String.utf8Len (c :: body) := by
      rw [hstands.utf8Len_eq, List.length_cons]
      omega
    rw [List.drop_left, hnext] at ih
    rw [List.drop_left, hnext]
    exact ih.behind

theorem IsPlace.isValid {text : String} (h : IsPlace 0 text.toList place) :
    place ≤ text.utf8ByteSize ∧ String.Pos.Raw.IsValid text ⟨place⟩ := by
  obtain ⟨front, back, htext, rfl⟩ := h
  have hvalid : String.Pos.Raw.IsValid text ⟨0 + String.utf8Len front⟩ := by
    rw [String.Pos.Raw.isValid_iff_exists_append]
    refine ⟨String.ofList front, String.ofList back, ?_, ?_⟩
    · rw [← String.ofList_append, ← htext, String.ofList_toList]
    · rw [String.rawEndPos_ofList, Nat.zero_add]
  exact ⟨hvalid.le_utf8ByteSize, hvalid⟩

end Notation

/-- A text is read as the items that it spells and as nothing else, and where it is refused the
place of the fault is a place in it. -/
theorem parseSequence_eq_ok_iff_spells (text : String) :
    (∀ items, parseSequence text = .ok items ↔ Notation.Spells text.toList items) ∧
      ∀ fault place, parseSequence text = .error fault → fault.position? = some place →
        place ≤ text.utf8ByteSize ∧ String.Pos.Raw.IsValid text ⟨place⟩ := by
  refine ⟨fun items => ⟨Notation.spells_of_parseFrom, fun h => ?_⟩,
    fun fault place hfault hplace => ?_⟩
  · exact Notation.parseFrom_of_spells h 0
  · exact (Notation.pointsInto_parseFrom 0 text.toList fault place hfault hplace).isValid

/-- The fault is behind a remark with a wide character. -/
theorem parseSequence_eq_ok_iff_spells_of_zero_pause :
    parseSequence "[a]#é\n~0" = .error (.emptyPause 8) ∧ 8 ≤ "[a]#é\n~0".utf8ByteSize ∧
      String.Pos.Raw.IsValid "[a]#é\n~0" ⟨8⟩ := by
  have hcall : Notation.parseFrom 0 "[a]#é\n~0".toList =
      (Notation.parseFrom 3 "#é\n~0".toList).map (.call ⟨.group, "a"⟩ :: ·) := by
    rw [Notation.parseFrom_eq]
    rfl
  have hpause : Notation.parseFrom 3 "#é\n~0".toList = .error (.emptyPause 8) := by
    rw [Notation.parseFrom_eq]
    rfl
  have hfault : parseSequence "[a]#é\n~0" = .error (.emptyPause 8) := by
    rw [parseSequence, hcall, hpause]
    rfl
  exact ⟨hfault, (parseSequence_eq_ok_iff_spells _).2 _ _ hfault rfl⟩

end Groovebox

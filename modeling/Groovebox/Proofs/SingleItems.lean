import Groovebox.Proofs.Grammar

/-! Single items. A text that is read as one item is read as the sequence of that item. The
other way round it has to hold no bar behind the item, where a sequence may have bars. -/

namespace Groovebox

open Text

namespace Notation

/-- The text without its comments. The ends of their lines stay. -/
def uncommented (inComment : Bool) : List Char → List Char
  | [] => []
  | c :: rest =>
    if inComment then
      if c = '\n' then c :: uncommented false rest else uncommented true rest
    else if c = '#' then uncommented true rest
    else c :: uncommented false rest

/-- What the text ends in, white space and comments left aside. -/
def lastMark? (text : List Char) : Option Char :=
  ((uncommented false text).filter (!isBlank ·)).getLast?

variable {bars inComment : Bool} {position start used : Nat} {c : Char}
  {text front rest word body behind : List Char} {item : Item}

theorem rest_skip_eq_nil_iff :
    (skip bars inComment position text).rest = [] ↔
      ∀ c ∈ uncommented inComment text, isBlank c ∨ bars ∧ c = '|' := by
  induction text generalizing inComment position with
  | nil => simp [skip, uncommented]
  | cons c text ih =>
    cases inComment with
    | true =>
      by_cases hend : c = '\n'
      · have hblank : isBlank '\n' := by decide
        simp [skip, uncommented, hend, ih, hblank]
      · simp [skip, uncommented, hend, ih]
    | false =>
      by_cases hcomment : c = '#'
      · simp [skip, uncommented, hcomment, ih]
      · by_cases hpassed : isBlank c ∨ bars ∧ c = '|'
        · simp [skip, uncommented, hcomment, hpassed, ih]
        · simp [skip, uncommented, hcomment, hpassed]

/-- What is skipped only ever stands in front. -/
theorem exists_uncommented_skip (bars inComment : Bool) (position : Nat) (text : List Char) :
    ∃ front, uncommented inComment text =
      front ++ uncommented false (skip bars inComment position text).rest := by
  induction text generalizing inComment position with
  | nil => exact ⟨[], rfl⟩
  | cons c text ih =>
    cases inComment with
    | true =>
      obtain ⟨front, hfront⟩ := ih (decide (c ≠ '\n')) (position + c.utf8Size)
      by_cases hend : c = '\n'
      · refine ⟨c :: front, ?_⟩
        simpa [skip, uncommented, hend] using hfront
      · refine ⟨front, ?_⟩
        simpa [skip, uncommented, hend] using hfront
    | false =>
      obtain ⟨front, hfront⟩ := ih (decide (c = '#')) (position + c.utf8Size)
      by_cases hcomment : c = '#'
      · refine ⟨front, ?_⟩
        simpa [skip, uncommented, hcomment] using hfront
      · by_cases hpassed : isBlank c ∨ bars ∧ c = '|'
        · refine ⟨c :: front, ?_⟩
          simpa [skip, uncommented, hcomment, hpassed] using hfront
        · refine ⟨[], ?_⟩
          simp [skip, hcomment, hpassed]

theorem uncommented_append (h : '#' ∉ word) (rest : List Char) :
    uncommented false (word ++ rest) = word ++ uncommented false rest := by
  induction word with
  | nil => rfl
  | cons c word ih =>
    obtain ⟨hc, hword⟩ := List.ne_and_not_mem_of_not_mem_cons h
    simp [uncommented, hc.symm, ih hword]

theorem StandsFor.not_separator (h : StandsFor rest word item) :
    ∀ c ∈ word, isBlank c = false ∧ c ≠ '#' ∧ c ≠ '|' := by
  refine h.forall_mem (fun c hc => ?_) (by simp [isBlank, blankRanges])
  obtain ⟨hlow, hhigh⟩ := toNat_of_isIdChar hc
  refine ⟨isBlank_eq_false_of_lt (by omega) (by omega), ?_, ?_⟩
  · rintro rfl
    exact absurd hc (by decide)
  · rintro rfl
    exact absurd hc (by decide)

/-- The first item of a text: where its word begins, the word and what is behind it. -/
structure BeginsWith (text : List Char) (start : Nat) (c : Char) (body behind : List Char)
    (item : Item) : Prop where
  skip_eq : skip true false 0 text = ⟨start, c :: body ++ behind⟩
  stands : StandsFor behind (c :: body) item

/-- Where an item has only separators behind it, the last mark tells whether there are bars
among them. -/
theorem BeginsWith.lastMark?_ne_bar_iff (h : BeginsWith text start c body behind item)
    (hbehind : ∀ d ∈ uncommented false behind, isBlank d ∨ d = '|') :
    lastMark? text ≠ some '|' ↔ ∀ d ∈ uncommented false behind, isBlank d := by
  have hword := h.stands.not_separator
  have hcomment : '#' ∉ c :: body := fun hm => (hword _ hm).2.1 rfl
  have hkept : (c :: body).filter (!isBlank ·) = c :: body :=
    List.filter_eq_self.mpr fun d hd => by simp [(hword d hd).1]
  obtain ⟨front, hfront⟩ := exists_uncommented_skip true false 0 text
  rw [h.skip_eq, uncommented_append hcomment] at hfront
  have hlast : lastMark? text = ((uncommented false behind).filter (!isBlank ·)).getLast?.or
      (c :: body).getLast? := by
    have hsome : (c :: body).getLast? = some ((c :: body).getLast (List.cons_ne_nil c body)) :=
      List.getLast?_eq_some_getLast _
    simp only [lastMark?, hfront, List.filter_append, hkept, List.getLast?_append, hsome,
      Option.or_assoc, Option.some_or]
  rw [hlast]
  constructor
  · intro hne d hd
    by_contra hmark
    have hmem : d ∈ (uncommented false behind).filter (!isBlank ·) :=
      List.mem_filter.mpr ⟨hd, by simpa using hmark⟩
    obtain ⟨bar, hbar⟩ := List.getLast?_isSome.mpr (List.ne_nil_of_mem hmem) |>
      Option.isSome_iff_exists.mp
    obtain ⟨hin, hnone⟩ := List.mem_filter.mp (List.mem_of_getLast? hbar)
    obtain rfl := (hbehind bar hin).resolve_left (by simpa using hnone)
    exact hne (by rw [hbar, Option.some_or])
  · intro hall hbar
    have hnone : (uncommented false behind).filter (!isBlank ·) = [] :=
      List.filter_eq_nil_iff.mpr fun d hd => by simp [hall d hd]
    rw [hnone, List.getLast?_nil, Option.none_or] at hbar
    exact (hword _ (List.mem_of_getLast? hbar)).2.2 rfl

theorem parseFrom_eq_ok_nil_iff :
    parseFrom position text = .ok [] ↔ (skip true false position text).rest = [] := by
  rw [parseFrom_eq]
  obtain ⟨start, rest⟩ := skip true false position text
  cases rest with
  | nil => simp
  | cons c rest =>
    refine iff_of_false (fun h => ?_) (List.cons_ne_nil c rest)
    dsimp only at h
    split at h
    · cases h
    · obtain ⟨more, -, hcons⟩ := exists_of_map_eq_ok h
      exact List.cons_ne_nil _ _ hcons

/-- Skipping stops at a character that is no separator. -/
theorem not_separator_of_skip (h : skip bars inComment position text = ⟨start, c :: rest⟩) :
    isBlank c = false ∧ c ≠ '#' := by
  induction text generalizing inComment position with
  | nil => simp [skip] at h
  | cons d text ih =>
    unfold skip at h
    split at h
    · exact ih h
    · split at h
      · exact ih h
      · next hstop =>
        obtain ⟨-, hrest⟩ := Cursor.mk.inj h
        obtain ⟨rfl, -⟩ := List.cons.inj hrest
        simp only [Bool.or_eq_true, decide_eq_true_eq, not_or] at hstop
        exact ⟨by simpa using hstop.1.1, hstop.1.2⟩

theorem exists_beginsWith (hskip : skip true false 0 text = ⟨start, c :: rest⟩)
    (hread : readItem start c rest = .ok (item, used)) :
    ∃ body behind, BeginsWith text start c body behind item := by
  obtain ⟨body, behind, rfl, -, hstands⟩ := exists_of_readItem hread
  exact ⟨body, behind, hskip, hstands⟩

theorem BeginsWith.readItem_eq (h : BeginsWith text start c body behind item) :
    readItem start c (body ++ behind) = .ok (item, body.length) := by
  obtain ⟨d, word, heq, -, hread⟩ := readItem_of_standsFor h.stands
  obtain ⟨rfl, rfl⟩ := List.cons.inj heq
  exact hread start

end Notation

open Notation

variable {text : String} {item : Item} {items : List Item} {start : Nat} {c : Char}
  {body behind : List Char}

theorem parseItem_of_skip_nil {position : Nat}
    (h : BeginsWith text.toList start c body behind item)
    (hskip : skip false false (start + 1 + body.length) behind = ⟨position, []⟩) :
    parseItem text = .ok item := by
  simp only [parseItem, h.skip_eq, List.cons_append, h.readItem_eq, List.drop_left, hskip]

theorem parseItem_of_skip_cons {position : Nat} {found : Char} {rest : List Char}
    (h : BeginsWith text.toList start c body behind item)
    (hskip : skip false false (start + 1 + body.length) behind = ⟨position, found :: rest⟩) :
    parseItem text = .error (.unexpectedChar position found) := by
  simp only [parseItem, h.skip_eq, List.cons_append, h.readItem_eq, List.drop_left, hskip]

theorem parseSequence_of_beginsWith (h : BeginsWith text.toList start c body behind item) :
    parseSequence text = (parseFrom (start + 1 + body.length) behind).map (item :: ·) := by
  rw [parseSequence, parseFrom_eq, h.skip_eq]
  simp only [List.cons_append, h.readItem_eq, List.drop_left]

theorem exists_beginsWith_of_parseItem (h : parseItem text = .ok item) :
    ∃ start c body behind, BeginsWith text.toList start c body behind item := by
  unfold parseItem at h
  split at h
  · cases h
  · next start c rest hskip =>
    split at h
    · cases h
    · next found used hread =>
      obtain ⟨body, behind, hbegins⟩ := exists_beginsWith hskip hread
      split at h
      · obtain rfl := Except.ok.inj h
        exact ⟨start, c, body, behind, hbegins⟩
      · cases h

theorem exists_beginsWith_of_parseSequence (h : parseSequence text = .ok (item :: items)) :
    ∃ start c body behind, BeginsWith text.toList start c body behind item := by
  rw [parseSequence, parseFrom_eq] at h
  split at h
  · cases h
  · next start c rest hskip =>
    split at h
    · cases h
    · next found used hread =>
      obtain ⟨more, -, heq⟩ := exists_of_map_eq_ok h
      obtain ⟨rfl, -⟩ := List.cons.inj heq
      obtain ⟨body, behind, hbegins⟩ := exists_beginsWith hskip hread
      exact ⟨start, c, body, behind, hbegins⟩

/-- The text is the sequence of its first item just when only separators are behind it. -/
theorem parseSequence_eq_ok_singleton_iff
    (h : BeginsWith text.toList start c body behind item) :
    parseSequence text = .ok [item] ↔
      ∀ d ∈ uncommented false behind, isBlank d ∨ d = '|' := by
  have hrest : parseSequence text = .ok [item] ↔
      parseFrom (start + 1 + body.length) behind = .ok [] := by
    rw [parseSequence_of_beginsWith h]
    cases parseFrom (start + 1 + body.length) behind <;> simp [Except.map]
  rw [hrest, parseFrom_eq_ok_nil_iff, rest_skip_eq_nil_iff]
  simp only [true_and]

theorem parseItem_eq_ok_iff_blank (h : BeginsWith text.toList start c body behind item) :
    parseItem text = .ok item ↔ ∀ d ∈ uncommented false behind, isBlank d := by
  have hblank : (skip false false (start + 1 + body.length) behind).rest = [] ↔
      ∀ d ∈ uncommented false behind, isBlank d := by
    simp only [rest_skip_eq_nil_iff, Bool.false_eq_true, false_and, or_false]
  cases hskip : skip false false (start + 1 + body.length) behind with
  | mk position rest =>
    rw [← hblank, hskip]
    cases rest with
    | nil => simp [parseItem_of_skip_nil h hskip]
    | cons found rest => simp [parseItem_of_skip_cons h hskip]

/-- Where a bar is behind the item, that is what the reader of a single item stumbles over. -/
theorem exists_bar_of_parseItem (h : BeginsWith text.toList start c body behind item)
    (hseparators : ∀ d ∈ uncommented false behind, isBlank d ∨ d = '|')
    (hbar : ¬∀ d ∈ uncommented false behind, isBlank d) :
    ∃ front back, text.toList = front ++ '|' :: back ∧
      parseItem text = .error (.unexpectedChar (String.utf8Len front) '|') := by
  have hstart := isIn_skip true false 0 text.toList
  have hstop := isIn_skip false false (start + 1 + body.length) behind
  obtain ⟨passed, hpassed⟩ :=
    exists_uncommented_skip false false (start + 1 + body.length) behind
  cases hskip : skip false false (start + 1 + body.length) behind with
  | mk position rest =>
    rw [hskip] at hstop hpassed
    cases rest with
    | nil =>
      exact absurd ((parseItem_eq_ok_iff_blank h).mp (parseItem_of_skip_nil h hskip)) hbar
    | cons found rest =>
      obtain ⟨hblank, hcomment⟩ := not_separator_of_skip hskip
      have hfound : found ∈ uncommented false behind := by
        rw [hpassed]
        exact List.mem_append_right _ (by simp [uncommented, hcomment])
      obtain rfl := (hseparators found hfound).resolve_left (by simp [hblank])
      rw [h.skip_eq] at hstart
      obtain ⟨front, hfront, hat⟩ := hstart
      obtain ⟨between, rfl, hplace⟩ := hstop
      refine ⟨front ++ (c :: body) ++ between, rest, by simp [hfront], ?_⟩
      have hword := h.stands.utf8Len_eq
      rw [List.length_cons] at hword
      dsimp only at hplace hat
      have hposition : position = String.utf8Len (front ++ (c :: body) ++ between) := by
        rw [String.utf8Len_append, String.utf8Len_append, hword, hplace, hat]
        omega
      rw [parseItem_of_skip_cons h hskip, hposition]

/-- A text is read as one item exactly when it is read as the sequence of that item and no bar
is the last mark in it. With a bar there the item is refused at a bar, although the sequence
is read. -/
theorem parseItem_eq_ok_iff_no_bar (text : String) (item : Item) :
    (parseItem text = .ok item ↔
      parseSequence text = .ok [item] ∧ lastMark? text.toList ≠ some '|') ∧
    (parseSequence text = .ok [item] → lastMark? text.toList = some '|' →
      ∃ front back, text.toList = front ++ '|' :: back ∧
        parseItem text = .error (.unexpectedChar (String.utf8Len front) '|')) := by
  refine ⟨⟨fun h => ?_, fun ⟨h, hlast⟩ => ?_⟩, fun h hlast => ?_⟩
  · obtain ⟨start, c, body, behind, hbegins⟩ := exists_beginsWith_of_parseItem h
    have hblank := (parseItem_eq_ok_iff_blank hbegins).mp h
    have hseparators : ∀ d ∈ uncommented false behind, isBlank d ∨ d = '|' :=
      fun d hd => .inl (hblank d hd)
    exact ⟨(parseSequence_eq_ok_singleton_iff hbegins).mpr hseparators,
      (hbegins.lastMark?_ne_bar_iff hseparators).mpr hblank⟩
  · obtain ⟨start, c, body, behind, hbegins⟩ := exists_beginsWith_of_parseSequence h
    have hseparators := (parseSequence_eq_ok_singleton_iff hbegins).mp h
    exact (parseItem_eq_ok_iff_blank hbegins).mpr
      ((hbegins.lastMark?_ne_bar_iff hseparators).mp hlast)
  · obtain ⟨start, c, body, behind, hbegins⟩ := exists_beginsWith_of_parseSequence h
    have hseparators := (parseSequence_eq_ok_singleton_iff hbegins).mp h
    refine exists_bar_of_parseItem hbegins hseparators fun hblank => ?_
    exact (hbegins.lastMark?_ne_bar_iff hseparators).mpr hblank hlast

/-- The first text has its last bar within a comment, the second one behind a comment. -/
theorem parseItem_eq_ok_iff_no_bar_around_comment :
    parseItem "| \x7bs1\x7d #|" = .ok (.call ⟨.super, "s1"⟩) ∧
      parseSequence "~8#é\n|" = .ok [.pause 8] ∧
      ∃ front back, "~8#é\n|".toList = front ++ '|' :: back ∧
        parseItem "~8#é\n|" = .error (.unexpectedChar (String.utf8Len front) '|') := by
  have hcall : parseSequence "| \x7bs1\x7d #|" = .ok [.call ⟨.super, "s1"⟩] := by
    have hfirst : parseSequence "| \x7bs1\x7d #|" =
        (parseFrom 6 " #|".toList).map (.call ⟨.super, "s1"⟩ :: ·) := by
      rw [parseSequence, parseFrom_eq]
      rfl
    rw [hfirst, parseFrom_eq_ok_nil_iff.mpr rfl]
    rfl
  have hpause : parseSequence "~8#é\n|" = .ok [.pause 8] := by
    have hfirst : parseSequence "~8#é\n|" =
        (parseFrom 2 "#é\n|".toList).map (.pause 8 :: ·) := by
      rw [parseSequence, parseFrom_eq]
      rfl
    rw [hfirst, parseFrom_eq_ok_nil_iff.mpr rfl]
    rfl
  exact ⟨(parseItem_eq_ok_iff_no_bar _ _).1.mpr ⟨hcall, by decide⟩, hpause,
    (parseItem_eq_ok_iff_no_bar _ _).2 hpause (by decide)⟩

theorem parseItem_refuses_bar_behind :
    parseSequence "p0 |" = .ok [.pad 0] ∧
      parseItem "p0 |" = .error (.unexpectedChar 3 '|') := by
  have hfirst : parseSequence "p0 |" = (parseFrom 2 " |".toList).map (.pad 0 :: ·) := by
    rw [parseSequence, parseFrom_eq]
    rfl
  rw [hfirst, parseFrom_eq_ok_nil_iff.mpr rfl]
  exact ⟨rfl, rfl⟩

end Groovebox

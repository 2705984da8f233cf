import Groovebox.Proofs.Joined

/-! Commands that the reader of words takes, joined with semicolons. The splitter knows quotes
but no backslashes, so it parts the commands again where no backslash comes before a quote or
before a semicolon outside quotes, and not always where one does. -/

namespace Groovebox

open Text Command

namespace Command

variable {quote : Option Char} {line text : List Char} {texts : List (List Char)}

/-! When a line is cut where its commands were joined. -/

theorem intercalate_pieces (quote : Option Char) (line : List Char) :
    [';'].intercalate (pieces quote line) = line := by
  induction line generalizing quote with
  | nil => rfl
  | cons c rest ih =>
    by_cases hcut : quote = none ∧ c = ';'
    · obtain ⟨first, more, hpieces⟩ := List.exists_cons_of_ne_nil (pieces_ne_nil none rest)
      have hrest := ih none
      rw [hpieces] at hrest
      rw [pieces, if_pos hcut, hpieces, List.intercalate_cons_cons, hrest, hcut.2]
      rfl
    · obtain ⟨first, more, hpieces⟩ :=
        List.exists_cons_of_ne_nil (pieces_ne_nil (quoteAfter quote c) rest)
      have hrest := ih (quoteAfter quote c)
      rw [hpieces] at hrest
      rw [pieces, if_neg hcut, hpieces, List.modifyHead_cons]
      cases more with
      | nil =>
        rw [List.intercalate_singleton] at hrest ⊢
        rw [hrest]
      | cons next more =>
        rw [List.intercalate_cons_cons] at hrest ⊢
        rw [← hrest]
        rfl

/-- The first piece ends at the line's end or before a semicolon outside quotes. -/
theorem of_pieces_eq_cons {piece : List Char} {more : List (List Char)}
    (h : pieces quote line = piece :: more) :
    IsEnclosed quote piece ∧ (more = [] ∨ ∃ rest, line = piece ++ ';' :: rest ∧
      piece.foldl quoteAfter quote = none ∧ pieces none rest = more) := by
  induction line generalizing quote piece with
  | nil =>
    obtain ⟨rfl, rfl⟩ := List.cons.inj h
    exact ⟨isEnclosed_nil quote, .inl rfl⟩
  | cons c rest ih =>
    rw [pieces] at h
    by_cases hcut : quote = none ∧ c = ';'
    · rw [if_pos hcut] at h
      obtain ⟨rfl, rfl⟩ := List.cons.inj h
      obtain ⟨rfl, rfl⟩ := hcut
      exact ⟨isEnclosed_nil none, .inr ⟨rest, rfl, rfl, rfl⟩⟩
    · rw [if_neg hcut] at h
      obtain ⟨first, others, hpieces⟩ :=
        List.exists_cons_of_ne_nil (pieces_ne_nil (quoteAfter quote c) rest)
      rw [hpieces, List.modifyHead_cons] at h
      obtain ⟨rfl, rfl⟩ := List.cons.inj h
      obtain ⟨hfirst, hothers⟩ := ih hpieces
      refine ⟨isEnclosed_cons.mpr ⟨hcut, hfirst⟩, hothers.imp_right ?_⟩
      rintro ⟨behind, rfl, hclosed, hbehind⟩
      exact ⟨behind, rfl, hclosed, hbehind⟩

theorem pieces_intercalate_iff (hne : texts ≠ []) :
    pieces none ([';'].intercalate texts) = texts ↔
      (∀ text ∈ texts, IsEnclosed none text) ∧
        ∀ text ∈ texts.dropLast, text.foldl quoteAfter none = none := by
  refine ⟨fun h => ?_, fun ⟨henclosed, hclosed⟩ => pieces_intercalate henclosed hclosed hne⟩
  induction texts with
  | nil => exact absurd rfl hne
  | cons text texts ih =>
    obtain ⟨htext, hrest⟩ := of_pieces_eq_cons h
    cases texts with
    | nil => exact ⟨List.forall_mem_singleton.mpr htext, nofun⟩
    | cons next more =>
      obtain ⟨rest, hline, hclosed, hpieces⟩ := hrest.resolve_left (List.cons_ne_nil next more)
      rw [List.intercalate_cons_cons, List.append_assoc] at hline
      obtain rfl := (List.cons.inj (List.append_cancel_left hline)).2
      obtain ⟨henclosed, hothers⟩ := ih (List.cons_ne_nil next more) hpieces
      exact ⟨List.forall_mem_cons.mpr ⟨htext, henclosed⟩,
        List.forall_mem_cons.mpr ⟨hclosed, hothers⟩⟩

theorem intercalate_append_separator (hne : texts ≠ []) :
    [';'].intercalate texts ++ [';'] = texts.flatMap (· ++ [';']) := by
  induction texts with
  | nil => exact absurd rfl hne
  | cons text texts ih =>
    cases texts with
    | nil => rw [List.intercalate_singleton, List.flatMap_singleton]
    | cons next more =>
      rw [List.intercalate_cons_cons, List.append_assoc, ih (List.cons_ne_nil next more)]
      rfl

theorem length_flatMap_le_of_sublist {some all : List (List Char)} (h : some.Sublist all) :
    (some.flatMap (· ++ [';'])).length ≤ (all.flatMap (· ++ [';'])).length ∧
      ((some.flatMap (· ++ [';'])).length = (all.flatMap (· ++ [';'])).length → some = all) := by
  induction h with
  | slnil => exact ⟨Nat.le_refl _, fun _ => rfl⟩
  | cons text _ ih =>
    obtain ⟨hle, -⟩ := ih
    simp only [List.flatMap_cons, List.length_append, List.length_singleton]
    omega
  | cons_cons text _ ih =>
    obtain ⟨hle, heq⟩ := ih
    simp only [List.flatMap_cons, List.length_append, List.length_singleton]
    refine ⟨by omega, fun hlength => congrArg (text :: ·) (heq (by omega))⟩

/-- A blank piece that is left out would be missing from the line. -/
theorem pieces_of_splitLine (hne : texts ≠ [])
    (h : splitLine ([';'].intercalate texts) = texts) :
    pieces none ([';'].intercalate texts) = texts := by
  have hline := intercalate_pieces none ([';'].intercalate texts)
  have hpieces := intercalate_append_separator (pieces_ne_nil none ([';'].intercalate texts))
  rw [hline, intercalate_append_separator hne] at hpieces
  have hsublist : texts.Sublist (pieces none ([';'].intercalate texts)) := by
    conv_lhs => rw [← h]
    exact List.filter_sublist
  exact ((length_flatMap_le_of_sublist hsublist).2 (congrArg List.length hpieces)).symm

end Command

namespace Text

/-- The mode in which the reader of words goes on behind a character. -/
def modeAfter (mode : WordMode) (c : Char) : WordMode := (wordStep mode c).1

/-- The reader meets every character of the text in a mode that suits it. -/
def Meets (P : WordMode → Char → Prop) : WordMode → List Char → Prop
  | _, [] => True
  | mode, c :: rest => P mode c ∧ Meets P (modeAfter mode c) rest

instance decidableMeets (P : WordMode → Char → Prop) [∀ mode c, Decidable (P mode c)] :
    ∀ mode text, Decidable (Meets P mode text)
  | _, [] => isTrue trivial
  | mode, c :: rest =>
    have := decidableMeets P (modeAfter mode c) rest
    inferInstanceAs (Decidable (_ ∧ _))

/-- The character begins a comment. -/
def OpensComment (mode : WordMode) (c : Char) : Prop := mode = .gap ∧ c = '#'

/-- The character is between quotes or behind a backslash. -/
def WordMode.isSheltered : WordMode → Bool
  | .bareEscape | .single | .double | .doubleEscape => true
  | _ => false

/-- A backslash takes the meaning from a character that the splitter sees in it. -/
def IsMasked (mode : WordMode) (c : Char) : Prop :=
  mode = .bareEscape ∧ (c = '"' ∨ c = '\'' ∨ c = ';') ∨ mode = .doubleEscape ∧ c = '"'

instance (mode : WordMode) (c : Char) : Decidable (OpensComment mode c) :=
  inferInstanceAs (Decidable (_ ∧ _))

instance (mode : WordMode) (c : Char) : Decidable (IsMasked mode c) :=
  inferInstanceAs (Decidable (_ ∨ _))

/-- The quote between which the reader is. -/
def WordMode.quote : WordMode → Option Char
  | .single => some '\''
  | .double | .doubleEscape => some '"'
  | _ => none

theorem quoteAfter_none (c : Char) : quoteAfter none c = (bareStep c).1.quote := by
  by_cases hseparator : isSeparator c = true
  · have hblank := isBlank_of_isSeparator hseparator
    have hquote : ¬(c = '"' ∨ c = '\'') := by
      rintro (rfl | rfl) <;> exact absurd hblank (by decide)
    rw [bareStep, if_pos hseparator, quoteAfter, if_neg hquote]
    rfl
  · rw [bareStep, if_neg hseparator, quoteAfter]
    split_ifs <;> simp_all [WordMode.quote]

/-- Where nothing is masked the splitter sees the quotes that the reader sees. -/
theorem quoteAfter_quote {mode : WordMode} {c : Char} (hcomment : mode ≠ .comment)
    (hmasked : ¬IsMasked mode c) : quoteAfter mode.quote c = (modeAfter mode c).quote := by
  cases mode with
  | comment => exact absurd rfl hcomment
  | bare => exact quoteAfter_none c
  | gap =>
    by_cases hc : c = '#'
    · rw [hc]
      decide
    · rw [modeAfter, wordStep, if_neg hc]
      exact quoteAfter_none c
  | bareEscape =>
    have hquote : ¬(c = '"' ∨ c = '\'') :=
      fun hc => hmasked (.inl ⟨rfl, hc.imp_right .inl⟩)
    exact if_neg hquote
  | single =>
    by_cases hc : c = '\'' <;> simp [modeAfter, wordStep, quoteAfter, WordMode.quote, hc]
  | double =>
    by_cases hc : c = '"'
    · simp [modeAfter, wordStep, quoteAfter, WordMode.quote, hc]
    · by_cases hescape : c = '\\' <;>
        simp [modeAfter, wordStep, quoteAfter, WordMode.quote, hc, hescape]
  | doubleEscape =>
    have hc : c ≠ '"' := fun hc => hmasked (.inr ⟨rfl, hc⟩)
    have hmode : modeAfter .doubleEscape c = .double := by
      simp only [modeAfter, wordStep]
      split_ifs <;> rfl
    rw [hmode]
    exact if_neg hc

/-- A text that the reader takes ends outside quotes. -/
theorem quote_of_wordsFrom {mode : WordMode} {word text : List Char} {words : List (List Char)}
    (h : wordsFrom mode word text = some words) : (text.foldl modeAfter mode).quote = none := by
  induction text generalizing mode word words with
  | nil => cases mode <;> first | rfl | cases h
  | cons c rest ih =>
    rw [wordsFrom] at h
    dsimp only at h
    split at h
    · next hgap =>
      obtain ⟨words, hwords, -⟩ := Option.map_eq_some_iff.mp h
      have hmode : modeAfter mode c = .gap := hgap.2
      rw [List.foldl_cons, hmode]
      exact ih hwords
    · exact ih h

theorem comment_of_modeAfter {mode : WordMode} {c : Char} (h : modeAfter mode c = .comment) :
    mode = .comment ∨ OpensComment mode c := by
  have hbare : (bareStep c).1 ≠ .comment := by
    unfold bareStep
    split_ifs <;> exact nofun
  cases mode with
  | comment => exact .inl rfl
  | bare => exact absurd h hbare
  | gap =>
    by_cases hc : c = '#'
    · exact .inr ⟨rfl, hc⟩
    · rw [modeAfter, wordStep, if_neg hc] at h
      exact absurd h hbare
  | bareEscape => cases h
  | _ =>
    simp only [modeAfter, wordStep] at h
    split_ifs at h

/-- Without comments and masked characters all semicolons that are sheltered from the reader are
between quotes for the splitter too. -/
theorem isEnclosed_of_meets {mode : WordMode} {text : List Char} (hmode : mode ≠ .comment)
    (hcomment : Meets (¬OpensComment · ·) mode text)
    (hsheltered : Meets (fun mode c => c = ';' → mode.isSheltered = true) mode text)
    (hmasked : Meets (¬IsMasked · ·) mode text) :
    IsEnclosed mode.quote text ∧
      text.foldl quoteAfter mode.quote = (text.foldl modeAfter mode).quote := by
  induction text generalizing mode with
  | nil => exact ⟨isEnclosed_nil _, rfl⟩
  | cons c rest ih =>
    obtain ⟨hopens, hcomment⟩ := hcomment
    obtain ⟨hshelter, hsheltered⟩ := hsheltered
    obtain ⟨hmask, hmasked⟩ := hmasked
    have hnext : modeAfter mode c ≠ .comment :=
      fun hc => (comment_of_modeAfter hc).elim hmode hopens
    have hquote := quoteAfter_quote hmode hmask
    obtain ⟨henclosed, hend⟩ := ih hnext hcomment hsheltered hmasked
    rw [isEnclosed_cons, List.foldl_cons, List.foldl_cons, hquote]
    refine ⟨⟨?_, henclosed⟩, hend⟩
    rintro ⟨hnone, rfl⟩
    -- Of the sheltered modes only the one behind a backslash is outside quotes.
    have hescape : mode = .bareEscape := by
      have hshelter := hshelter rfl
      cases mode <;> first | rfl | exact absurd hshelter (by decide) | exact absurd hnone (by decide)
    exact hmask (.inl ⟨hescape, .inr (.inr rfl)⟩)

end Text

/-- The reader of words takes the text, which has no comment and no semicolon outside quotes
but behind a backslash. -/
structure IsShelteredCommand (text : List Char) : Prop where
  not_blank : text.all isBlank = false
  accepted : (words? text).isSome = true
  no_comment : Meets (¬OpensComment · ·) .gap text
  sheltered : Meets (fun mode c => c = ';' → mode.isSheltered = true) .gap text

theorem isShelteredCommand_iff {text : List Char} :
    IsShelteredCommand text ↔ text.all isBlank = false ∧ (words? text).isSome = true ∧
      Meets (¬OpensComment · ·) .gap text ∧
      Meets (fun mode c => c = ';' → mode.isSheltered = true) .gap text :=
  ⟨fun h => ⟨h.not_blank, h.accepted, h.no_comment, h.sheltered⟩,
    fun ⟨hblank, haccepted, hcomment, hsheltered⟩ => ⟨hblank, haccepted, hcomment, hsheltered⟩⟩

instance (text : List Char) : Decidable (IsShelteredCommand text) :=
  decidable_of_iff _ isShelteredCommand_iff.symm

/-- Joined commands are parted where they were joined if none has a backslash before a quote that
it masks or before a semicolon outside quotes. In general they are if the quotes alone enclose
each semicolon within a command and none reaches out of a command before the last. -/
theorem splitLine_of_shelteredCommands {commands : List (List Char)} (hne : commands ≠ [])
    (h : ∀ text ∈ commands, IsShelteredCommand text) :
    (splitLine ([';'].intercalate commands) = commands ↔
      (∀ text ∈ commands, IsEnclosed none text) ∧
        ∀ text ∈ commands.dropLast, text.foldl quoteAfter none = none) ∧
    ((∀ text ∈ commands, Meets (¬IsMasked · ·) .gap text) →
      splitLine ([';'].intercalate commands) = commands) := by
  have hexact : splitLine ([';'].intercalate commands) = commands ↔
      (∀ text ∈ commands, IsEnclosed none text) ∧
        ∀ text ∈ commands.dropLast, text.foldl quoteAfter none = none := by
    rw [← pieces_intercalate_iff hne]
    exact ⟨pieces_of_splitLine hne,
      fun hpieces => splitLine_of_pieces hpieces fun text hm => (h text hm).not_blank⟩
  refine ⟨hexact, fun hmasked => hexact.mpr ?_⟩
  have hseen : ∀ text ∈ commands, IsEnclosed none text ∧ text.foldl quoteAfter none = none := by
    intro text hm
    obtain ⟨words, hwords⟩ := Option.isSome_iff_exists.mp (h text hm).accepted
    have hgap : WordMode.gap ≠ .comment := nofun
    obtain ⟨henclosed, hend⟩ := isEnclosed_of_meets hgap (h text hm).no_comment
      (h text hm).sheltered (hmasked text hm)
    exact ⟨henclosed, hend.trans (quote_of_wordsFrom hwords)⟩
  exact ⟨fun text hm => (hseen text hm).1,
    fun text hm => (hseen text (List.dropLast_subset commands hm)).2⟩

theorem splitLine_of_shelteredCommands_quoted :
    let commands := ["track \"a;b\\\\\"".toList, " seq 1 'p0 \";\" ~8'".toList]
    (splitLine ([';'].intercalate commands) = commands ↔
      (∀ text ∈ commands, IsEnclosed none text) ∧
        ∀ text ∈ commands.dropLast, text.foldl quoteAfter none = none) ∧
    ((∀ text ∈ commands, Meets (¬IsMasked · ·) .gap text) →
      splitLine ([';'].intercalate commands) = commands) ∧
    ∀ text ∈ commands, Meets (¬IsMasked · ·) .gap text := by
  intro commands
  have hne : commands ≠ [] := List.cons_ne_nil _ _
  obtain ⟨hexact, hunmasked⟩ := splitLine_of_shelteredCommands hne (by decide)
  exact ⟨hexact, hunmasked, by decide⟩

/-- A backslash before a quote ends the quoted text for the splitter, which cuts inside it. -/
theorem splitLine_cuts_behind_masked_quote :
    let command := "track \"a\\\";b\"".toList
    IsShelteredCommand command ∧
      words? command = some ["track".toList, "a\";b".toList] ∧
      splitLine ([';'].intercalate [command]) = ["track \"a\\\"".toList, "b\"".toList] := by
  decide

end Groovebox

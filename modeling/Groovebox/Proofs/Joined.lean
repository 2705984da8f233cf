import Groovebox.Command.Line
import Groovebox.Proofs.Words
import Groovebox.Text.Lines

/-! Commands joined into one text, with semicolons between them or each on a line of its own.
Quotes that are balanced in each command do not reach into the next, so the line is cut where
the commands were joined. -/

namespace Groovebox

open Text Command

namespace Command

/-- All semicolons of the text stand between quotes, where the scan comes to it with `quote`. -/
def IsEnclosed (quote : Option Char) (text : List Char) : Prop :=
  ∀ before behind, text = before ++ ';' :: behind → before.foldl quoteAfter quote ≠ none

theorem isEnclosed_nil (quote : Option Char) : IsEnclosed quote [] :=
  fun _ _ heq => absurd heq.symm (List.append_ne_nil_of_right_ne_nil _ (List.cons_ne_nil _ _))

theorem isEnclosed_cons {quote : Option Char} {c : Char} {text : List Char} :
    IsEnclosed quote (c :: text) ↔
      ¬(quote = none ∧ c = ';') ∧ IsEnclosed (quoteAfter quote c) text := by
  constructor
  · refine fun h => ⟨?_, fun before behind heq => h (c :: before) behind (congrArg (c :: ·) heq)⟩
    rintro ⟨rfl, rfl⟩
    exact h [] text rfl rfl
  · rintro ⟨hc, htext⟩ before behind heq hquote
    cases before with
    | nil => exact hc ⟨hquote, (List.cons.inj heq).1⟩
    | cons first before =>
      obtain ⟨rfl, hrest⟩ := List.cons.inj heq
      exact htext before behind hrest hquote

instance decidableIsEnclosed (quote : Option Char) :
    ∀ text, Decidable (IsEnclosed quote text)
  | [] => isTrue (isEnclosed_nil quote)
  | c :: text =>
    have := decidableIsEnclosed (quoteAfter quote c) text
    decidable_of_iff _ isEnclosed_cons.symm

theorem pieces_append {quote : Option Char} {text : List Char} (h : IsEnclosed quote text)
    (rest : List Char) :
    pieces quote (text ++ rest) =
      (pieces (text.foldl quoteAfter quote) rest).modifyHead (text ++ ·) := by
  induction text generalizing quote with
  | nil => exact congrFun List.modifyHead_id.symm _
  | cons c text ih =>
    obtain ⟨hc, htext⟩ := isEnclosed_cons.mp h
    rw [List.cons_append, pieces, if_neg hc, ih htext, List.modifyHead_modifyHead]
    rfl

theorem pieces_of_isEnclosed {text : List Char} (h : IsEnclosed none text) :
    pieces none text = [text] := by
  have happend := pieces_append h []
  rwa [List.append_nil, pieces, List.modifyHead_cons, List.append_nil] at happend

theorem pieces_append_separator {text : List Char} (h : IsEnclosed none text)
    (hclosed : text.foldl quoteAfter none = none) (rest : List Char) :
    pieces none (text ++ ';' :: rest) = text :: pieces none rest := by
  have hcut : pieces none (';' :: rest) = [] :: pieces none rest := if_pos ⟨rfl, rfl⟩
  rw [pieces_append h, hclosed, hcut, List.modifyHead_cons, List.append_nil]

/-- Texts are cut where they were joined if no quote of one reaches into the next. -/
theorem pieces_intercalate {texts : List (List Char)} (h : ∀ text ∈ texts, IsEnclosed none text)
    (hclosed : ∀ text ∈ texts.dropLast, text.foldl quoteAfter none = none) (hne : texts ≠ []) :
    pieces none ([';'].intercalate texts) = texts := by
  induction texts with
  | nil => exact absurd rfl hne
  | cons text texts ih =>
    obtain ⟨htext, htexts⟩ := List.forall_mem_cons.mp h
    cases texts with
    | nil => rw [List.intercalate_singleton, pieces_of_isEnclosed htext]
    | cons next more =>
      obtain ⟨hfirst, hmore⟩ := List.forall_mem_cons.mp hclosed
      have hrest := ih htexts hmore (List.cons_ne_nil next more)
      rw [List.intercalate_cons_cons, List.append_assoc, List.singleton_append,
        pieces_append_separator htext hfirst, hrest]

theorem splitLine_of_pieces {line : List Char} {texts : List (List Char)}
    (h : pieces none line = texts) (hblank : ∀ text ∈ texts, text.all isBlank = false) :
    splitLine line = texts := by
  rw [splitLine, h, List.filter_eq_self]
  intro text hm
  rw [hblank text hm]
  rfl

end Command

/-- A text that is one command of a line and one line of a script. -/
structure IsCommand (text : List Char) : Prop where
  not_blank : text.all isBlank = false
  one_line : ∀ c ∈ text, c ≠ '\n' ∧ c ≠ '\r'
  balanced : text.foldl quoteAfter none = none
  enclosed : IsEnclosed none text

theorem isCommand_iff {text : List Char} :
    IsCommand text ↔ text.all isBlank = false ∧ (text.all fun c => c ≠ '\n' && c ≠ '\r') = true ∧
      text.foldl quoteAfter none = none ∧ IsEnclosed none text := by
  have hline : (text.all fun c => c ≠ '\n' && c ≠ '\r') = true ↔
      ∀ c ∈ text, c ≠ '\n' ∧ c ≠ '\r' := by
    simp only [List.all_eq_true, Bool.and_eq_true, decide_eq_true_iff]
  rw [hline]
  exact ⟨fun h => ⟨h.not_blank, h.one_line, h.balanced, h.enclosed⟩,
    fun ⟨hblank, hone, hquotes, hcuts⟩ => ⟨hblank, hone, hquotes, hcuts⟩⟩

instance (text : List Char) : Decidable (IsCommand text) := decidable_of_iff _ isCommand_iff.symm

variable {text : List Char} {texts : List (List Char)}

namespace IsCommand

theorem ne_nil (h : IsCommand text) : text ≠ [] := by
  rintro rfl
  exact Bool.false_ne_true h.not_blank.symm

end IsCommand

theorem splitLine_intercalate (h : ∀ text ∈ texts, IsCommand text) :
    splitLine ([';'].intercalate texts) = texts := by
  by_cases hne : texts = []
  · rw [hne]
    rfl
  · have hclosed : ∀ text ∈ texts.dropLast, text.foldl quoteAfter none = none :=
      fun text hm => (h text ((List.dropLast_subset texts) hm)).balanced
    have hpieces := pieces_intercalate (fun text hm => (h text hm).enclosed) hclosed hne
    exact splitLine_of_pieces hpieces fun text hm => (h text hm).not_blank

theorem IsCommand.splitLine_eq (h : IsCommand text) : splitLine text = [text] := by
  have hone := splitLine_intercalate (List.forall_mem_singleton.mpr h)
  rwa [List.intercalate_singleton] at hone

namespace Text

theorem endedLines_append (h : ∀ c ∈ text, c ≠ '\n') (rest : List Char) :
    endedLines (text ++ '\n' :: rest) = (text ++ ['\n']) :: endedLines rest := by
  induction text with
  | nil => exact if_pos rfl
  | cons c text ih =>
    obtain ⟨hc, htext⟩ := List.forall_mem_cons.mp h
    rw [List.cons_append, endedLines, if_neg hc, ih htext]
    rfl

theorem endedLines_eq_singleton (h : ∀ c ∈ text, c ≠ '\n') (hne : text ≠ []) :
    endedLines text = [text] := by
  induction text with
  | nil => exact absurd rfl hne
  | cons c text ih =>
    obtain ⟨hc, htext⟩ := List.forall_mem_cons.mp h
    by_cases hlast : text = []
    · rw [hlast, endedLines, if_neg hc]
      rfl
    · rw [endedLines, if_neg hc, ih htext hlast]

theorem withoutEnd_append (h : ∀ c ∈ text, c ≠ '\r') : withoutEnd (text ++ ['\n']) = text := by
  rw [withoutEnd, List.reverse_append, List.reverse_singleton, List.singleton_append]
  cases hreverse : text.reverse with
  | nil => exact (List.reverse_eq_nil_iff.mp hreverse).symm
  | cons c before =>
    have hc : c ≠ '\r' := h c (by rw [← List.mem_reverse, hreverse]; exact List.mem_cons_self)
    split
    · next heq =>
      obtain ⟨-, heq⟩ := List.cons.inj heq
      exact absurd (List.cons.inj heq).1 hc
    · next heq =>
      rw [← (List.cons.inj heq).2, ← hreverse, List.reverse_reverse]
    · next _ hno =>
      exact absurd rfl (hno _)

theorem withoutEnd_eq_self (h : ∀ c ∈ text, c ≠ '\n') : withoutEnd text = text := by
  have hreverse : ∀ before, text.reverse ≠ '\n' :: before := by
    intro before heq
    exact h '\n' (by rw [← List.mem_reverse, heq]; exact List.mem_cons_self) rfl
  unfold withoutEnd
  split
  · next heq => exact absurd heq (hreverse _)
  · next heq => exact absurd heq (hreverse _)
  · rfl

end Text

theorem lines_intercalate (h : ∀ text ∈ texts, IsCommand text) :
    lines (['\n'].intercalate texts) = texts := by
  induction texts with
  | nil => rfl
  | cons text texts ih =>
    obtain ⟨htext, htexts⟩ := List.forall_mem_cons.mp h
    have hfeed : ∀ c ∈ text, c ≠ '\n' := fun c hc => (htext.one_line c hc).1
    have hreturn : ∀ c ∈ text, c ≠ '\r' := fun c hc => (htext.one_line c hc).2
    cases texts with
    | nil =>
      rw [List.intercalate_singleton, lines, endedLines_eq_singleton hfeed htext.ne_nil,
        List.map_singleton, withoutEnd_eq_self hfeed]
    | cons next more =>
      rw [List.intercalate_cons_cons, List.append_assoc, List.singleton_append, lines, endedLines_append hfeed,
        List.map_cons, withoutEnd_append hreturn]
      exact congrArg (text :: ·) (ih htexts)

/-! Comments. -/

theorem trimEnd_cons {c : Char} (h : isBlank c = false) (text : List Char) :
    trimEnd (c :: text) = c :: trimEnd text := by
  rw [trimEnd, trimEnd, List.reverse_cons, List.dropWhile_append]
  cases hend : text.reverse.dropWhile isBlank with
  | nil => simp [h]
  | cons last before => simp

theorem trimEnd_subset (text : List Char) : trimEnd text ⊆ text := by
  intro c hc
  rw [trimEnd, List.mem_reverse] at hc
  exact List.mem_reverse.mp ((List.dropWhile_sublist isBlank).subset hc)

/-- A line feed ends a comment, and nothing else does. -/
theorem wordsFrom_comment (h : ∀ c ∈ text, c ≠ '\n') (word : List Char) :
    wordsFrom .comment word text = some [] := by
  induction text generalizing word with
  | nil => rfl
  | cons c text ih =>
    obtain ⟨hc, htext⟩ := List.forall_mem_cons.mp h
    have hstep : wordStep .comment c = (.comment, []) := by rw [wordStep, if_neg hc]
    rw [wordsFrom, hstep]
    exact ih htext _

end Groovebox

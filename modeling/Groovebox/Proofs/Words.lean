import Mathlib.Data.List.Basic
import Groovebox.Command.Line

/-! Lines of plain words with one blank between them. Such a line is one piece, nothing is
trimmed off it, and it is taken apart into the words again. -/

namespace Groovebox.Text

variable {c : Char} {word text rest : List Char} {words : List (List Char)}

/-- The character stands for itself wherever it is in a line. -/
def isPlain (c : Char) : Bool :=
  !isBlank c && c ≠ '"' && c ≠ '\'' && c ≠ '\\' && c ≠ ';' && c ≠ '#'

structure IsPlainWord (word : List Char) : Prop where
  ne_nil : word ≠ []
  plain : ∀ c ∈ word, isPlain c

theorem not_isBlank_of_isPlain (h : isPlain c) : isBlank c = false := by
  simp only [isPlain, Bool.and_eq_true, Bool.not_eq_true'] at h
  exact h.1.1.1.1.1

theorem isBlank_of_isSeparator (h : isSeparator c) : isBlank c := by
  simp only [isSeparator, Bool.or_eq_true, decide_eq_true_eq] at h
  rcases h with (rfl | rfl) | rfl <;> decide

theorem bareStep_of_isPlain (h : isPlain c) : bareStep c = (.bare, [c]) := by
  have hseparator : isSeparator c = false := by
    cases hc : isSeparator c with
    | false => rfl
    | true => exact absurd (isBlank_of_isSeparator hc) (by simp [not_isBlank_of_isPlain h])
  simp only [isPlain, Bool.and_eq_true, decide_eq_true_eq] at h
  obtain ⟨⟨⟨⟨⟨-, hdouble⟩, hsingle⟩, hescape⟩, -⟩, -⟩ := h
  simp [bareStep, hseparator, hdouble, hsingle, hescape]

def spaced (words : List (List Char)) : List Char := [' '].intercalate words

theorem spaced_singleton (word : List Char) : spaced [word] = word := by
  simp [spaced]

theorem spaced_cons_cons (word next : List Char) (words : List (List Char)) :
    spaced (word :: next :: words) = word ++ ' ' :: spaced (next :: words) := by
  simp [spaced, List.intercalate_cons_cons]

/-! The words of the line. -/

theorem wordsFrom_append (h : ∀ c ∈ word, isPlain c) (before rest : List Char) :
    wordsFrom .bare before (word ++ rest) = wordsFrom .bare (before ++ word) rest := by
  induction word generalizing before with
  | nil => rw [List.nil_append, List.append_nil]
  | cons c word ih =>
    obtain ⟨hc, hword⟩ := List.forall_mem_cons.mp h
    rw [List.cons_append, wordsFrom, wordStep, bareStep_of_isPlain hc]
    simp [ih hword]

theorem wordsFrom_gap (h : IsPlainWord word) (rest : List Char) :
    wordsFrom .gap [] (word ++ rest) = wordsFrom .bare word rest := by
  obtain ⟨hne, hplain⟩ := h
  obtain ⟨c, more, rfl⟩ := List.exists_cons_of_ne_nil hne
  obtain ⟨hc, hmore⟩ := List.forall_mem_cons.mp hplain
  have hcomment : c ≠ '#' := by
    rintro rfl
    exact absurd hc (by decide)
  have hfirst : wordStep .gap c = (.bare, [c]) := by
    rw [wordStep, if_neg hcomment, bareStep_of_isPlain hc]
  rw [List.cons_append, wordsFrom, hfirst]
  simpa using wordsFrom_append hmore [c] rest

theorem words?_spaced (h : ∀ word ∈ words, IsPlainWord word) :
    words? (spaced words) = some words := by
  unfold words?
  induction words with
  | nil => rfl
  | cons word words ih =>
    obtain ⟨hword, hwords⟩ := List.forall_mem_cons.mp h
    cases words with
    | nil =>
      have hend := wordsFrom_gap hword []
      rw [List.append_nil] at hend
      rw [spaced_singleton, hend]
      rfl
    | cons next more =>
      rw [spaced_cons_cons, wordsFrom_gap hword, wordsFrom, wordStep]
      simp [bareStep, isSeparator, ih hwords]

/-! The line as a whole. -/

theorem trim_eq_self (hfirst : ∀ c ∈ text.head?, isBlank c = false)
    (hlast : ∀ c ∈ text.getLast?, isBlank c = false) : trim text = text := by
  have hstart : ∀ chars : List Char, (∀ c ∈ chars.head?, isBlank c = false) →
      chars.dropWhile isBlank = chars := by
    intro chars hchars
    cases chars with
    | nil => rfl
    | cons c chars => simp [hchars c rfl]
  rw [trim, trimStart, trimEnd, hstart text hfirst,
    hstart text.reverse (by rwa [List.head?_reverse]), List.reverse_reverse]

theorem head?_spaced (h : ∀ word ∈ words, IsPlainWord word) :
    ∀ c ∈ (spaced words).head?, isPlain c := by
  intro c hc
  cases words with
  | nil => cases hc
  | cons word words =>
    obtain ⟨hne, hplain⟩ := h word List.mem_cons_self
    have hword : (spaced (word :: words)).head? = word.head? := by
      cases words with
      | nil => rw [spaced_singleton]
      | cons next more => rw [spaced_cons_cons, List.head?_append_of_ne_nil _ hne]
    rw [hword] at hc
    exact hplain c (List.mem_of_mem_head? hc)

theorem spaced_ne_nil (h : ∀ word ∈ words, IsPlainWord word) (hne : words ≠ []) :
    spaced words ≠ [] := by
  obtain ⟨word, more, rfl⟩ := List.exists_cons_of_ne_nil hne
  have hword := (h word List.mem_cons_self).ne_nil
  cases more with
  | nil => rwa [spaced_singleton]
  | cons next more => simp [spaced_cons_cons]

theorem getLast?_spaced (h : ∀ word ∈ words, IsPlainWord word) :
    ∀ c ∈ (spaced words).getLast?, isPlain c := by
  induction words with
  | nil => exact nofun
  | cons word words ih =>
    obtain ⟨hword, hwords⟩ := List.forall_mem_cons.mp h
    intro c hc
    cases words with
    | nil =>
      rw [spaced_singleton] at hc
      exact hword.plain c (List.mem_of_mem_getLast? hc)
    | cons next more =>
      have hne := spaced_ne_nil hwords (List.cons_ne_nil next more)
      rw [spaced_cons_cons, List.getLast?_append_of_ne_nil _ (List.cons_ne_nil _ _),
        List.getLast?_cons_of_ne_nil hne] at hc
      exact ih hwords c hc

theorem trim_spaced (h : ∀ word ∈ words, IsPlainWord word) :
    trim (spaced words) = spaced words :=
  trim_eq_self (fun c hc => not_isBlank_of_isPlain (head?_spaced h c hc))
    fun c hc => not_isBlank_of_isPlain (getLast?_spaced h c hc)

theorem isPlain_or_eq_of_mem_spaced (h : ∀ word ∈ words, IsPlainWord word)
    (hc : c ∈ spaced words) : isPlain c ∨ c = ' ' := by
  induction words with
  | nil => cases hc
  | cons word words ih =>
    obtain ⟨hword, hwords⟩ := List.forall_mem_cons.mp h
    cases words with
    | nil =>
      rw [spaced_singleton] at hc
      exact .inl (hword.plain c hc)
    | cons next more =>
      rw [spaced_cons_cons, List.mem_append, List.mem_cons] at hc
      rcases hc with hc | rfl | hc
      · exact .inl (hword.plain c hc)
      · exact .inr rfl
      · exact ih hwords hc

theorem pieces_eq_singleton (h : ∀ c ∈ text, c ≠ ';' ∧ c ≠ '"' ∧ c ≠ '\'') :
    Command.pieces none text = [text] := by
  induction text with
  | nil => rfl
  | cons c rest ih =>
    obtain ⟨⟨hsemicolon, hdouble, hsingle⟩, hrest⟩ := List.forall_mem_cons.mp h
    simp [Command.pieces, Command.quoteAfter, hsemicolon, hdouble, hsingle, ih hrest]

theorem splitLine_spaced (h : ∀ word ∈ words, IsPlainWord word) (hne : words ≠ []) :
    Command.splitLine (spaced words) = [spaced words] := by
  have hpieces : Command.pieces none (spaced words) = [spaced words] := by
    refine pieces_eq_singleton fun c hc => ?_
    rcases isPlain_or_eq_of_mem_spaced h hc with hplain | rfl
    · simp only [isPlain, Bool.and_eq_true, decide_eq_true_eq] at hplain
      exact ⟨hplain.1.2, hplain.1.1.1.1.2, hplain.1.1.1.2⟩
    · decide
  obtain ⟨c, rest, hcons⟩ := List.exists_cons_of_ne_nil (spaced_ne_nil h hne)
  have hfirst : isBlank c = false :=
    not_isBlank_of_isPlain (head?_spaced h c (by rw [hcons]; rfl))
  rw [Command.splitLine, hpieces]
  simp [hcons, hfirst]

end Groovebox.Text

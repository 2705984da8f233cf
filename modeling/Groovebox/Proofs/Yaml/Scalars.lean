import Mathlib.Data.List.Basic
import Mathlib.Data.String.Basic
import Groovebox.Proofs.Numerals
import Groovebox.Yaml.Printer
import Groovebox.Yaml.Scalar

/-! Scalars of printable ASCII characters. They are printed as they are or between single
quotes, and what is read in their place is the text that they were printed for. -/

namespace Groovebox.Yaml

def isPrintableAscii (c : Char) : Bool := 0x20 ≤ c.toNat && c.toNat ≤ 0x7e

def IsPrintableAscii (text : List Char) : Prop := ∀ c ∈ text, isPrintableAscii c

instance (text : List Char) : Decidable (IsPrintableAscii text) :=
  List.decidableBAll _ text

variable {c quote : Char} {text more rest : List Char} {n fuel indent : Nat} {cursor : Cursor}

theorem isPrintableAscii_iff : isPrintableAscii c ↔ 0x20 ≤ c.toNat ∧ c.toNat ≤ 0x7e := by
  simp [isPrintableAscii]

theorem isBreak_eq_false (h : isPrintableAscii c) : isBreak c = false := by
  have hbounds := isPrintableAscii_iff.mp h
  have hne : ∀ d : Char, d.toNat < 0x20 ∨ 0x7e < d.toNat → c ≠ d := by
    rintro d hd rfl
    omega
  simp only [isBreak, hne '\n' (by decide), hne '\x0d' (by decide), hne '\x85' (by decide),
    hne '\u2028' (by decide), hne '\u2029' (by decide), decide_false, Bool.or_false]

theorem isGap_iff (h : isPrintableAscii c) : isGap c ↔ c = ' ' := by
  have htab : c ≠ '\t' := by
    rintro rfl
    exact absurd h (by decide)
  simp [isGap, isBlank, isBreak_eq_false h, htab]

theorem isGap_eq_false (h : isPrintableAscii c) (hne : c ≠ ' ') : isGap c = false := by
  rw [← Bool.not_eq_true, isGap_iff h]
  exact hne

theorem isPrintable_of_ascii (h : isPrintableAscii c) : isPrintable c := by
  have hbounds := isPrintableAscii_iff.mp h
  simp [isPrintable, hbounds.1, hbounds.2]

theorem utf8Size_of_ascii (h : isPrintableAscii c) : c.utf8Size = 1 := by
  have hbounds := isPrintableAscii_iff.mp h
  rw [Char.utf8Size_eq_one_iff, UInt32.le_iff_toNat_le]
  show c.toNat ≤ 127
  omega

namespace IsPrintableAscii

theorem not_mem_newline (h : IsPrintableAscii text) : '\n' ∉ text :=
  fun hm => absurd (h '\n' hm) (by decide)

theorem append (h : IsPrintableAscii text) (hmore : IsPrintableAscii more) :
    IsPrintableAscii (text ++ more) := by
  intro c hc
  rcases List.mem_append.mp hc with hc | hc
  · exact h c hc
  · exact hmore c hc

theorem singleton (h : isPrintableAscii c) : IsPrintableAscii [c] := by
  intro d hd
  rw [List.mem_singleton.mp hd]
  exact h

theorem spaces (n : Nat) : IsPrintableAscii (spaces n) := by
  intro c hc
  rw [List.eq_of_mem_replicate hc]
  decide

end IsPrintableAscii

/-! Cursors go on in a line by as many columns and bytes as there are characters. -/

theorem skip_add (m n : Nat) (cursor : Cursor) :
    cursor.skip (m + n) = (cursor.skip m).skip n := by
  induction m generalizing cursor with
  | zero => rw [Nat.zero_add, Cursor.skip]
  | succ m ih => rw [Nat.succ_add, Cursor.skip, Cursor.skip, ih]

theorem skip_length (h : IsPrintableAscii text) (hrest : cursor.rest = text ++ more) :
    cursor.skip text.length =
      ⟨more, cursor.index + text.length, cursor.line, cursor.column + text.length⟩ := by
  induction text generalizing cursor with
  | nil =>
    obtain ⟨rest, index, line, column⟩ := cursor
    rw [show rest = more from hrest]
    rfl
  | cons c text ih =>
    obtain ⟨hc, htext⟩ := List.forall_mem_cons.mp h
    have hnext : cursor.next =
        ⟨text ++ more, cursor.index + 1, cursor.line, cursor.column + 1⟩ := by
      rw [Cursor.next, hrest]
      simp only [List.cons_append, isBreak_eq_false hc, Bool.false_eq_true, if_false,
        utf8Size_of_ascii hc]
    rw [List.length_cons, Cursor.skip, ih htext (congrArg Cursor.rest hnext), hnext]
    simp only [Nat.add_assoc, Nat.add_comm 1]

theorem next_newline (hrest : cursor.rest = '\n' :: more) :
    cursor.next = ⟨more, cursor.index + 1, cursor.line + 1, 0⟩ := by
  rw [Cursor.next, hrest]
  rfl

theorem isAtBoundary_eq_false (h : cursor.column ≠ 0) : cursor.isAtBoundary = false := by
  simp [Cursor.isAtBoundary, Cursor.isAtMark, h]

/-! Between single quotes a single quote stands twice. -/

def doubled (c : Char) : List Char := if c = '\'' then ['\'', '\''] else [c]

def betweenQuotes (text : List Char) : List Char := '\'' :: text.flatMap doubled ++ ['\'']

theorem isPrintableAscii_doubled (h : IsPrintableAscii text) :
    IsPrintableAscii (text.flatMap doubled) := by
  intro c hc
  obtain ⟨d, hd, hc⟩ := List.mem_flatMap.mp hc
  unfold doubled at hc
  split at hc
  · simp only [List.mem_cons, List.not_mem_nil, or_false, or_self] at hc
    rw [hc]
    decide
  · rw [List.mem_singleton.mp hc]
    exact h d hd

theorem isPrintableAscii_betweenQuotes (h : IsPrintableAscii text) :
    IsPrintableAscii (betweenQuotes text) := by
  have hquote : IsPrintableAscii ['\''] := .singleton (by decide)
  exact (hquote.append (isPrintableAscii_doubled h)).append hquote

theorem length_doubled_le (text : List Char) :
    (text.flatMap doubled).length ≤ 2 * text.length := by
  induction text with
  | nil => exact Nat.le_refl 0
  | cons c text ih =>
    have hfirst : (doubled c).length ≤ 2 := by
      unfold doubled
      split <;> simp
    rw [List.flatMap_cons, List.length_append, List.length_cons]
    omega

theorem le_length_doubled (text : List Char) : text.length ≤ (text.flatMap doubled).length := by
  induction text with
  | nil => exact Nat.le_refl 0
  | cons c text ih =>
    have hfirst : 1 ≤ (doubled c).length := by
      unfold doubled
      split <;> simp
    rw [List.flatMap_cons, List.length_append, List.length_cons]
    omega

theorem singleQuoted_eq (h : IsPrintableAscii text) (indent : Nat) :
    singleQuoted indent false text = text.flatMap doubled := by
  induction text with
  | nil => rfl
  | cons c text ih =>
    obtain ⟨hc, htext⟩ := List.forall_mem_cons.mp h
    simp only [singleQuoted, isBreak_eq_false hc, ih htext, Bool.false_eq_true, if_false,
      List.nil_append, List.flatMap_cons, doubled]

/-! A gap within a scalar of one line is read as it stands. -/

theorem exists_spaces (text : List Char) :
    ∃ n tail, text = spaces n ++ tail ∧ tail.head? ≠ some ' ' := by
  induction text with
  | nil => exact ⟨0, [], rfl, nofun⟩
  | cons c text ih =>
    by_cases hc : c = ' '
    · subst c
      obtain ⟨n, tail, rfl, htail⟩ := ih
      exact ⟨n + 1, tail, rfl, htail⟩
    · exact ⟨0, c :: text, rfl, by simpa using hc⟩

theorem foldGap_spaces (n : Nat) : foldGap false (spaces n) = spaces n := by
  have hnone : (spaces n).filter isBreak = [] := by
    rw [List.filter_eq_nil_iff]
    intro c hc
    rw [isBreak_eq_false (IsPrintableAscii.spaces n c hc)]
    exact Bool.false_ne_true
  unfold foldGap
  rw [hnone]

theorem takeWhile_isGap_spaces (n : Nat) (h : ∀ c ∈ rest.head?, isGap c = false) :
    (spaces n ++ rest).takeWhile isGap = spaces n := by
  refine Text.takeWhile_append_of_head ?_ h
  intro c hc
  rw [List.eq_of_mem_replicate hc]
  decide

theorem flatMap_doubled_spaces (n : Nat) : (spaces n).flatMap doubled = spaces n := by
  induction n with
  | zero => rfl
  | succ n ih =>
    show doubled ' ' ++ (spaces n).flatMap doubled = ' ' :: spaces n
    rw [ih]
    rfl

theorem isGap_head_doubled {tail : List Char} (h : IsPrintableAscii tail)
    (htail : tail.head? ≠ some ' ') :
    ∀ c ∈ (tail.flatMap doubled ++ '\'' :: more).head?, isGap c = false := by
  have hhead : (tail.flatMap doubled).head? = tail.head? := by
    cases tail with
    | nil => rfl
    | cons d tail =>
      unfold doubled
      by_cases hd : d = '\'' <;> simp [hd]
  cases tail with
  | nil =>
    rintro _ ⟨⟩
    decide
  | cons d tail =>
    rintro c hc
    rw [List.head?_append, hhead, List.head?_cons, Option.some_or, Option.mem_some_iff] at hc
    subst c
    exact isGap_eq_false (h d List.mem_cons_self) (by simpa using htail)

theorem readQuoted_gap {tail : List Char} (hcolumn : cursor.column ≠ 0)
    (hrest : cursor.rest = spaces (n + 1) ++ tail) (htail : ∀ c ∈ tail.head?, isGap c = false) :
    readQuoted quote (fuel + 1) cursor =
      (readQuoted quote fuel (cursor.skip (n + 1))).before (spaces (n + 1)) := by
  have hgap := takeWhile_isGap_spaces (n + 1) htail
  have hspace : isGap ' ' = true := by decide
  rw [show spaces (n + 1) ++ tail = ' ' :: (spaces n ++ tail) from rfl] at hrest hgap
  rw [readQuoted, isAtBoundary_eq_false hcolumn, hrest]
  simp only [hspace, hgap, foldGap_spaces, Bool.false_eq_true, if_false, if_true]
  simp only [spaces, List.length_replicate]

theorem readQuoted_end (hcolumn : cursor.column ≠ 0) (hrest : cursor.rest = '\'' :: more)
    (hmore : more.head? ≠ some '\'') :
    readQuoted '\'' (fuel + 1) cursor = some ([], cursor.next) := by
  have hgap : isGap '\'' = false := by decide
  rw [readQuoted, isAtBoundary_eq_false hcolumn, hrest]
  simp only [hgap, hmore, Bool.false_eq_true, if_false, if_true, decide_true, decide_false,
    Bool.and_false]

theorem readQuoted_twice (hcolumn : cursor.column ≠ 0)
    (hrest : cursor.rest = '\'' :: '\'' :: more) :
    readQuoted '\'' (fuel + 1) cursor = (readQuoted '\'' fuel (cursor.skip 2)).before ['\''] := by
  have hgap : isGap '\'' = false := by decide
  rw [readQuoted, isAtBoundary_eq_false hcolumn, hrest]
  simp only [hgap, Bool.false_eq_true, if_false, if_true, List.head?_cons, decide_true,
    Bool.and_true]

theorem readQuoted_char (hcolumn : cursor.column ≠ 0) (hrest : cursor.rest = c :: more)
    (hgap : isGap c = false) (hquote : c ≠ '\'') :
    readQuoted '\'' (fuel + 1) cursor = (readQuoted '\'' fuel cursor.next).before [c] := by
  have hescape : '\'' ≠ '"' := by decide
  rw [readQuoted, isAtBoundary_eq_false hcolumn, hrest]
  simp only [hgap, hquote, hescape, Bool.false_eq_true, if_false, decide_false, Bool.and_false]

/-- One round of the reader takes a gap, a doubled quote or another character. -/
theorem exists_readQuoted_front (h : IsPrintableAscii text) (hne : text ≠ [])
    (hcolumn : cursor.column ≠ 0) (hrest : cursor.rest = text.flatMap doubled ++ '\'' :: more) :
    ∃ front tail, text = front ++ tail ∧ front ≠ [] ∧ ∀ fuel,
      readQuoted '\'' (fuel + 1) cursor =
        (readQuoted '\'' fuel (cursor.skip (front.flatMap doubled).length)).before front := by
  obtain ⟨n, tail, rfl, htail⟩ := exists_spaces text
  cases n with
  | succ n =>
    refine ⟨spaces (n + 1), tail, rfl, nofun, fun fuel => ?_⟩
    have htailAscii : IsPrintableAscii tail := fun c hc => h c (List.mem_append_right _ hc)
    rw [List.flatMap_append, flatMap_doubled_spaces, List.append_assoc] at hrest
    have hbehind : ∀ c ∈ (tail.flatMap doubled ++ '\'' :: more).head?, isGap c = false :=
      isGap_head_doubled htailAscii htail
    rw [flatMap_doubled_spaces, readQuoted_gap hcolumn hrest hbehind]
    simp only [spaces, List.length_replicate]
  | zero =>
    cases tail with
    | nil => exact absurd rfl hne
    | cons c tail =>
      have hc : isPrintableAscii c := h c (by simp)
      refine ⟨[c], tail, rfl, nofun, fun fuel => ?_⟩
      by_cases hquote : c = '\''
      · subst c
        exact readQuoted_twice hcolumn hrest
      · have hgap : isGap c = false := isGap_eq_false hc (by simpa using htail)
        have hsingle : doubled c = [c] := if_neg hquote
        have hfirst : cursor.rest = c :: (tail.flatMap doubled ++ '\'' :: more) := by
          rw [hrest, show spaces 0 ++ c :: tail = c :: tail from rfl, List.flatMap_cons, hsingle]
          rfl
        rw [readQuoted_char hcolumn hfirst hgap hquote, List.flatMap_singleton, hsingle]
        rfl

theorem readQuoted_doubled (h : IsPrintableAscii text) (hfuel : text.length < fuel)
    (hcolumn : cursor.column ≠ 0) (hrest : cursor.rest = text.flatMap doubled ++ '\'' :: more)
    (hmore : more.head? ≠ some '\'') :
    readQuoted '\'' fuel cursor =
      some (text, cursor.skip ((text.flatMap doubled).length + 1)) := by
  induction fuel generalizing text cursor with
  | zero => omega
  | succ fuel ih =>
    by_cases hne : text = []
    · subst text
      exact readQuoted_end hcolumn hrest hmore
    · -- one round takes `front`, so the fuel is counted in characters of the text
      obtain ⟨front, tail, rfl, hfront, hstep⟩ := exists_readQuoted_front h hne hcolumn hrest
      have hfrontAscii : IsPrintableAscii front := fun c hc => h c (List.mem_append_left _ hc)
      have htailAscii : IsPrintableAscii tail := fun c hc => h c (List.mem_append_right _ hc)
      rw [List.flatMap_append, List.append_assoc] at hrest
      have hskip := skip_length (isPrintableAscii_doubled hfrontAscii) hrest
      have hshort : tail.length < fuel := by
        have hpos := List.length_pos_iff.mpr hfront
        rw [List.length_append] at hfuel
        omega
      have hnext := ih htailAscii hshort (by rw [hskip]; show _ + _ ≠ 0; omega)
        (congrArg Cursor.rest hskip)
      rw [hstep, hnext, List.flatMap_append, List.length_append, Nat.add_assoc,
        skip_add (front.flatMap doubled).length]
      rfl

/-! Plain scalars. They are read in chunks, up to a value or to a line that stands too far out
to belong to them. -/

/-- `ending` ends a plain scalar, and `gap` of it is passed. -/
inductive EndsPlain (indent : Nat) : List Char → List Char → Prop
  | value {more : List Char} : isBlankOrEnd more.head? → EndsPlain indent (':' :: more) []
  | line {n : Nat} {more : List Char} : n < indent → (∀ c ∈ more.head?, isGap c = false) →
    EndsPlain indent ('\n' :: spaces n ++ more) ('\n' :: spaces n)

variable {before : Option Char} {ending gap behind : List Char}

theorem plainChunk?_append (h : IsPrintableAscii text) (hinside : isPlainInside before text)
    (hending : EndsPlain indent ending behind) :
    plainChunk? false (text ++ ending) = some (text.takeWhile (!isGap ·)) := by
  induction text generalizing before with
  | nil =>
    cases hending with
    | value hblank => simp [plainChunk?, hblank, isGap, isBlank, isBreak]
    | line => rfl
  | cons c text ih =>
    obtain ⟨hc, htext⟩ := List.forall_mem_cons.mp h
    simp only [isPlainInside, Bool.and_eq_true, Bool.not_eq_true', Bool.and_eq_false_iff] at hinside
    by_cases hgap : isGap c = true
    · simp [plainChunk?, hgap]
    · have hcolon : (decide (c = ':') && isBlankOrEnd (text ++ ending).head?) = false := by
        rw [Bool.and_eq_false_iff]
        cases text with
        | nil => exact hinside.1.1.imp_right nofun
        | cons d text => exact hinside.1.1
      have hrest := ih htext hinside.2
      rw [List.cons_append, plainChunk?, if_neg hgap, hcolon, hrest]
      simp [hgap]

theorem hasTabIndent_eq_false (h : '\t' ∉ gap) (cursor : Cursor) (behindBreak : Bool) :
    hasTabIndent indent cursor gap behindBreak = false := by
  induction gap generalizing cursor behindBreak with
  | nil => rfl
  | cons c gap ih =>
    rw [List.mem_cons, not_or] at h
    have hc : c ≠ '\t' := fun heq => h.1 heq.symm
    rw [hasTabIndent, ih h.2]
    simp [hc]

theorem isPlainInside_of_space {front : List Char}
    (h : isPlainInside before (front ++ ' ' :: text)) : isPlainInside (some ' ') text := by
  induction front generalizing before with
  | nil =>
    simp only [List.nil_append, isPlainInside, Bool.and_eq_true] at h
    exact h.2
  | cons c front ih =>
    simp only [List.cons_append, isPlainInside, Bool.and_eq_true] at h
    exact ih h.2

/-- Text that a plain scalar may hold behind the character `before`. -/
structure IsPlainFrom (before : Option Char) (text : List Char) : Prop where
  ascii : IsPrintableAscii text
  ne_nil : text ≠ []
  head_ne : text.head? ≠ some ' '
  last_ne : text.getLast? ≠ some ' '
  inside : isPlainInside before text

theorem IsPlainFrom.not_comment (h : IsPlainFrom before text) (hbefore : isBlankOrEnd before) :
    text.head? ≠ some '#' := by
  obtain ⟨c, text, rfl⟩ := List.exists_cons_of_ne_nil h.ne_nil
  have hinside := h.inside
  rintro ⟨⟩
  simp [isPlainInside, hbefore] at hinside

theorem IsPlainFrom.behind_spaces {front : List Char}
    (h : IsPlainFrom before (front ++ (spaces (n + 1) ++ text))) (hhead : text.head? ≠ some ' ') :
    IsPlainFrom (some ' ') text := by
  have hspaces : spaces (n + 1) = spaces n ++ [' '] := List.replicate_succ'
  refine ⟨fun c hc => h.ascii c (by simp [hc]), ?_, hhead, ?_, ?_⟩
  · rintro rfl
    apply h.last_ne
    rw [List.append_nil, hspaces, ← List.append_assoc, List.getLast?_concat]
  · have hlast := h.last_ne
    rw [← List.append_assoc] at hlast
    cases text with
    | nil => exact nofun
    | cons c text => rwa [List.getLast?_append_of_ne_nil _ (List.cons_ne_nil c text)] at hlast
  · have hinside := h.inside
    rw [hspaces, List.append_assoc, ← List.append_assoc, List.singleton_append] at hinside
    exact isPlainInside_of_space hinside

theorem IsPlainFrom.exists_chunk (h : IsPlainFrom before text) :
    ∃ c chunk tail, text = c :: chunk ++ tail ∧ text.takeWhile (!isGap ·) = c :: chunk ∧
      (tail = [] ∨ ∃ n more, tail = spaces (n + 1) ++ more ∧ more.head? ≠ some ' ') := by
  obtain ⟨c, text, rfl⟩ := List.exists_cons_of_ne_nil h.ne_nil
  obtain ⟨hc, htext⟩ := List.forall_mem_cons.mp h.ascii
  have hgap : isGap c = false := isGap_eq_false hc (by simpa using h.head_ne)
  have hsplit := List.takeWhile_append_dropWhile (p := (!isGap ·)) (l := text)
  refine ⟨c, text.takeWhile (!isGap ·), text.dropWhile (!isGap ·), ?_, ?_, ?_⟩
  · rw [List.cons_append, hsplit]
  · rw [List.takeWhile_cons, hgap, Bool.not_false, if_pos rfl]
  · obtain ⟨n, more, htail, hmore⟩ := exists_spaces (text.dropWhile (!isGap ·))
    have hstop := List.head?_dropWhile_not (!isGap ·) text
    cases n with
    | succ n => exact .inr ⟨n, more, htail, hmore⟩
    | zero =>
      have hstart : text.dropWhile (!isGap ·) = more := htail
      cases more with
      | nil => exact .inl hstart
      | cons d more =>
        have hd : isPrintableAscii d := htext d
          ((List.dropWhile_sublist _).subset (by rw [hstart]; exact List.mem_cons_self))
        rw [hstart, List.head?_cons] at hstop
        have hspace : d = ' ' := (isGap_iff hd).mp (by simpa using hstop)
        exact absurd (congrArg some hspace) hmore

theorem skip_line (hrest : cursor.rest = '\n' :: spaces n ++ more) :
    cursor.skip (n + 1) = ⟨more, cursor.index + 1 + n, cursor.line + 1, n⟩ := by
  have hnext := next_newline hrest
  have hskip := skip_length (IsPrintableAscii.spaces n) (congrArg Cursor.rest hnext)
  rw [hnext] at hskip
  rw [Cursor.skip, hnext]
  simpa [spaces] using hskip

theorem EndsPlain.takeWhile_isGap (h : EndsPlain indent ending behind) :
    ending.takeWhile isGap = behind := by
  cases h with
  | value => rfl
  | line _ hmore =>
    have hbreak : isGap '\n' = true := by decide
    rw [List.cons_append, List.takeWhile_cons, hbreak, if_pos rfl, takeWhile_isGap_spaces _ hmore]

theorem EndsPlain.stops (h : EndsPlain indent ending behind) (hrest : cursor.rest = ending) :
    behind = [] ∨ '\t' ∉ behind ∧ (cursor.skip behind.length).column < indent := by
  cases h with
  | value => exact .inl rfl
  | line hn =>
    refine .inr ⟨by simp [spaces], ?_⟩
    rw [List.length_cons, spaces, List.length_replicate, skip_line hrest]
    exact hn

section Chunk

variable {chunk next : List Char} (hboundary : cursor.isAtBoundary = false)
  (hcomment : cursor.rest.head? ≠ some '#')
  (hread : plainChunk? false cursor.rest = some (c :: chunk))
  (hgap : (cursor.skip (c :: chunk).length).rest.takeWhile isGap = next)

include hboundary hcomment hread hgap

theorem readPlain_last (hstop : next = [] ∨ '\t' ∉ next ∧
      ((cursor.skip (c :: chunk).length).skip next.length).column < indent) :
    readPlain false indent (fuel + 1) gap cursor =
      some ⟨foldGap false gap ++ c :: chunk, next.any isBreak,
        (cursor.skip (c :: chunk).length).skip next.length⟩ := by
  rw [readPlain, hboundary]
  simp only [hcomment, hread, hgap, decide_false, Bool.or_self, Bool.false_eq_true, if_false]
  by_cases hempty : next = []
  · subst hempty
    rfl
  · obtain ⟨htab, hcolumn⟩ := hstop.resolve_left hempty
    simp only [List.isEmpty_eq_false_iff.mpr hempty, hasTabIndent_eq_false htab, hcolumn,
      Bool.false_eq_true, Bool.not_false, Bool.true_and, decide_true, if_false, if_true]

theorem readPlain_chunk (hne : next ≠ []) (htab : '\t' ∉ next)
    (hcolumn : indent ≤ ((cursor.skip (c :: chunk).length).skip next.length).column) :
    readPlain false indent (fuel + 1) gap cursor =
      (readPlain false indent fuel next
        ((cursor.skip (c :: chunk).length).skip next.length)).map fun s =>
          { s with text := foldGap false gap ++ c :: chunk ++ s.text } := by
  rw [readPlain, hboundary]
  simp only [hcomment, hread, hgap, decide_false, Bool.or_self, Bool.false_eq_true, if_false]
  simp only [List.isEmpty_eq_false_iff.mpr hne, hasTabIndent_eq_false htab,
    Nat.not_lt.mpr hcolumn, Bool.false_eq_true, Bool.not_false, Bool.true_and, decide_false,
    if_false]

end Chunk

theorem readPlain_append {text : List Char} (gap : List Char) (h : IsPlainFrom before text)
    (hbefore : isBlankOrEnd before) (hending : EndsPlain indent ending behind)
    (hfuel : text.length < fuel) (hboundary : cursor.isAtBoundary = false)
    (hindent : indent ≤ cursor.column + 1) (hrest : cursor.rest = text ++ ending) :
    readPlain false indent fuel gap cursor =
      some ⟨foldGap false gap ++ text, behind.any isBreak,
        cursor.skip (text.length + behind.length)⟩ := by
  induction fuel generalizing text before gap cursor with
  | zero => omega
  | succ fuel ih =>
    have hread := plainChunk?_append h.ascii h.inside hending
    have hcomment : cursor.rest.head? ≠ some '#' := by
      rw [hrest, List.head?_append_of_ne_nil _ h.ne_nil]
      exact h.not_comment hbefore
    obtain ⟨c, chunk, tail, rfl, htake, htail⟩ := h.exists_chunk
    have hchunk : IsPrintableAscii (c :: chunk) :=
      fun d hd => h.ascii d (List.mem_append_left _ hd)
    rw [htake, ← hrest] at hread
    rw [List.append_assoc] at hrest
    have hskip := skip_length hchunk hrest
    rcases htail with rfl | ⟨n, more, rfl, hmore⟩
    -- the last chunk ends where the scalar does, another one at the spaces before the next
    · have hstop : (cursor.skip (c :: chunk).length).rest = ending := congrArg Cursor.rest hskip
      rw [List.append_nil, skip_add]
      refine readPlain_last hboundary hcomment hread ?_ (hending.stops hstop)
      rw [hstop, hending.takeWhile_isGap]
    · have hplain := h.behind_spaces hmore
      have hspaces : spaces (n + 1) ≠ [] := nofun
      have htab : '\t' ∉ spaces (n + 1) := by simp [spaces]
      have hgap : ∀ d ∈ (more ++ ending).head?, isGap d = false := by
        obtain ⟨d, more, rfl⟩ := List.exists_cons_of_ne_nil hplain.ne_nil
        rintro _ ⟨⟩
        exact isGap_eq_false (hplain.ascii d List.mem_cons_self) (by simpa using hmore)
      have hstop : (cursor.skip (c :: chunk).length).rest = spaces (n + 1) ++ (more ++ ending) := by
        rw [hskip, List.append_assoc]
      have hbehind := skip_length (IsPrintableAscii.spaces (n + 1)) hstop
      have hcolumn :
          indent ≤ ((cursor.skip (c :: chunk).length).skip (spaces (n + 1)).length).column ∧
            ((cursor.skip (c :: chunk).length).skip (spaces (n + 1)).length).column ≠ 0 := by
        rw [hbehind, hskip]
        simp only [List.length_cons]
        omega
      have hshort : more.length < fuel := by
        simp only [List.length_append, List.length_cons] at hfuel
        omega
      have hinside := isAtBoundary_eq_false hcolumn.2
      have hmoreRead := ih (spaces (n + 1)) hplain rfl hshort hinside (by omega)
        (congrArg Cursor.rest hbehind)
      have hnext : (cursor.skip (c :: chunk).length).rest.takeWhile isGap = spaces (n + 1) := by
        rw [hstop, takeWhile_isGap_spaces _ hgap]
      rw [readPlain_chunk hboundary hcomment hread hnext hspaces htab hcolumn.1, hmoreRead]
      simp only [Option.map_some, foldGap_spaces, List.append_assoc, List.length_append,
        ← skip_add, Nat.add_assoc]

/-! How texts are printed. -/

/-- Text that is read as a plain scalar where one may begin. -/
structure IsPlain (text : List Char) : Prop extends IsPlainFrom none text where
  start : isPlainStart text
  unmarked : isMarked text = false

theorem isPlain_of_isPlainAllowed (h : IsPrintableAscii text) (hne : text ≠ [])
    (hallowed : isPlainAllowed text) : IsPlain text := by
  simp only [isPlainAllowed, Bool.and_eq_true, Bool.not_eq_true', decide_eq_true_eq] at hallowed
  obtain ⟨⟨⟨⟨⟨⟨hstart, hinside⟩, hmarked⟩, -⟩, hhead⟩, hlast⟩, -⟩ := hallowed
  exact ⟨⟨h, hne, hhead, hlast, hinside⟩, hstart, hmarked⟩

def isPrintedPlain (s : String) : Bool :=
  meaning s.toList = .text && !isZeroPadded s.toList && isPlainAllowed s.toList

def styleOf (s : String) : Style := if isPrintedPlain s then .plain else .quoted

def printedText (s : String) : List Char :=
  if isPrintedPlain s then s.toList else betweenQuotes s.toList

theorem hasPair_eq_false {first second : Char → Bool}
    (h : (∀ c ∈ text, first c = false) ∨ ∀ c ∈ text, second c = false) :
    hasPair first second text = false := by
  fun_induction hasPair first second text with
  | case1 a b rest ih =>
    rw [ih (h.imp (fun h c hc => h c (List.mem_cons_of_mem a hc))
      fun h c hc => h c (List.mem_cons_of_mem a hc)), Bool.or_false, Bool.and_eq_false_iff]
    exact h.imp (fun h => h a (by simp)) fun h => h b (by simp)
  | case2 => rfl

theorem hasSpecial_eq_false (h : IsPrintableAscii text) : hasSpecial text = false := by
  have hbreak : ∀ c ∈ text, isBreak c = false := fun c hc => isBreak_eq_false (h c hc)
  have hall : text.all isPrintable := List.all_eq_true.mpr fun c hc => isPrintable_of_ascii (h c hc)
  rw [hasSpecial, hasPair_eq_false (.inr hbreak), hall]
  rfl

theorem scalar_eq {s : String} (h : IsPrintableAscii s.toList) (indent : Nat) :
    scalar indent s = printedText s := by
  have hbreak : ∀ c ∈ s.toList, isBreak c = false := fun c hc => isBreak_eq_false (h c hc)
  have hquoted : isSingleQuotedAllowed s.toList = true := by
    rw [isSingleQuotedAllowed, hasPair_eq_false (.inl hbreak), hasSpecial_eq_false h]
    rfl
  rw [scalar, printedText, isPrintedPlain, betweenQuotes, singleQuoted_eq h]
  simp only [h.not_mem_newline, hquoted, decide_false, decide_true, not_false_eq_true,
    Bool.false_and, Bool.true_and, Bool.false_eq_true, if_false, if_true]

/-- The characters are printed for the scalar. -/
inductive Prints : List Char → Token → Prop
  | plain {text : List Char} : IsPlain text →
    Prints text (.scalar .plain (String.ofList text))
  | quoted {text : List Char} : IsPrintableAscii text →
    Prints (betweenQuotes text) (.scalar .quoted (String.ofList text))

theorem Prints.ascii {t : Token} (h : Prints text t) : IsPrintableAscii text := by
  cases h with
  | plain hplain => exact hplain.ascii
  | quoted htext => exact isPrintableAscii_betweenQuotes htext

theorem prints_printedText {s : String} (h : IsPrintableAscii s.toList) :
    Prints (printedText s) (.scalar (styleOf s) s) := by
  rw [printedText, styleOf]
  by_cases hplain : isPrintedPlain s
  · have hallowed := hplain
    simp only [isPrintedPlain, Bool.and_eq_true, decide_eq_true_eq] at hallowed
    have hne : s.toList ≠ [] := by
      intro hempty
      rw [hempty] at hallowed
      exact absurd hallowed.1.1 (by decide)
    have hprints := Prints.plain (isPlain_of_isPlainAllowed h hne hallowed.2)
    simpa only [hplain, if_true, String.ofList_toList] using hprints
  · have hprints := Prints.quoted h
    rw [String.ofList_toList] at hprints
    rwa [if_neg hplain, if_neg hplain]

theorem length_le_utf8ByteSize (s : String) : s.toList.length ≤ s.utf8ByteSize := by
  have hle : ∀ text : List Char, text.length ≤ String.utf8Len text := by
    intro text
    induction text with
    | nil => exact Nat.zero_le _
    | cons c text ih =>
      rw [String.utf8Len_cons, List.length_cons]
      exact Nat.add_le_add ih c.utf8Size_pos
  rw [← String.utf8Len_toList]
  exact hle s.toList

/-- What is printed of a simple key is short enough for the colon behind it to be found. -/
theorem length_printedText_le {s : String} (h : isSimpleKey s) :
    (printedText s).length ≤ 1024 := by
  simp only [isSimpleKey, Bool.and_eq_true, decide_eq_true_eq] at h
  have hlength := length_le_utf8ByteSize s
  have hdoubled := length_doubled_le s.toList
  unfold printedText
  split
  · omega
  · simp only [betweenQuotes, List.length_append, List.length_cons, List.length_nil]
    omega

theorem isPlainInside_of_not_mem (hcolon : ':' ∉ text) (hhash : '#' ∉ text) :
    isPlainInside before text := by
  induction text generalizing before with
  | nil => rfl
  | cons c text ih =>
    simp only [List.mem_cons, not_or] at hcolon hhash
    have hc : c ≠ ':' ∧ c ≠ '#' := ⟨fun h => hcolon.1 h.symm, fun h => hhash.1 h.symm⟩
    simp [isPlainInside, hc, ih hcolon.2 hhash.2]

theorem prints_of_digits (hne : text ≠ []) (h : ∀ c ∈ text, Text.isDigit c) :
    Prints text (.scalar .plain (String.ofList text)) := by
  have hmem : ∀ d, Text.isDigit d = false → d ∉ text := by
    intro d hd hm
    rw [h d hm] at hd
    cases hd
  refine .plain ⟨⟨?_, hne, ?_, ?_, ?_⟩, ?_, ?_⟩
  · intro c hc
    have hbounds := Text.toNat_of_isDigit (h c hc)
    rw [isPrintableAscii_iff]
    omega
  · exact fun hhead => hmem ' ' (by decide) (List.mem_of_mem_head? hhead)
  · exact fun hlast => hmem ' ' (by decide) (List.mem_of_getLast? hlast)
  · exact isPlainInside_of_not_mem (hmem ':' (by decide)) (hmem '#' (by decide))
  · obtain ⟨c, text, rfl⟩ := List.exists_cons_of_ne_nil hne
    have hc : ∀ d, Text.isDigit d = false → c ≠ d := by
      rintro d hd rfl
      exact hmem c hd List.mem_cons_self
    have hopener : c ∉ openers := by
      have hopeners : ∀ d ∈ openers, !Text.isDigit d := List.all_eq_true.mp (by decide)
      exact fun hm => hc c (by simpa using hopeners c hm) rfl
    simp [isPlainStart, hopener, hc '?' (by decide), hc '-' (by decide)]
  · have hmark : ∀ d, Text.isDigit d = false → text.take 3 ≠ [d, d, d] := by
      intro d hd htake
      exact hmem d hd ((List.take_sublist 3 text).subset (by rw [htake]; exact List.mem_cons_self))
    simp [isMarked, hmark '-' (by decide), hmark '.' (by decide)]

end Groovebox.Yaml

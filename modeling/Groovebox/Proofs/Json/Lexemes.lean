import Groovebox.Json.Lexeme
import Groovebox.Json.Printer
import Groovebox.Json.Value
import Groovebox.Proofs.Numerals

/-! The lexemes of a printed tree. What is printed of a tree falls into the lexemes of the
tree whatever follows, unless the tree is a number and what follows would go on with it. -/

namespace Groovebox.Json

open Text

/-- The text falls into `lexemes` up to `rest`, in front of which the lexer goes on. -/
def LexesTo (text : List Char) (lexemes : List Lexeme) (rest : List Char) : Prop :=
  ∀ length, text.length ≤ length → ∃ left, rest.length ≤ left ∧
    lexFrom length text = lexemes ++ lexFrom left rest

namespace LexesTo

variable {text middle rest : List Char} {xs ys : List Lexeme} {c : Char} {first : Lexeme}

theorem refl (text : List Char) : LexesTo text [] text :=
  fun length h => ⟨length, h, rfl⟩

theorem trans (hx : LexesTo text xs middle) (hy : LexesTo middle ys rest) :
    LexesTo text (xs ++ ys) rest := by
  intro length hlength
  obtain ⟨left, hleft, hfirst⟩ := hx length hlength
  obtain ⟨last, hlast, hsecond⟩ := hy left hleft
  exact ⟨last, hlast, by rw [hfirst, hsecond, List.append_assoc]⟩

theorem space (hc : isSpace c) (h : LexesTo text xs rest) : LexesTo (c :: text) xs rest := by
  intro length hlength
  obtain ⟨length, rfl⟩ := Nat.exists_eq_add_of_lt (Nat.lt_of_lt_of_le (Nat.succ_pos _) hlength)
  rw [List.length_cons] at hlength
  obtain ⟨left, hleft, heq⟩ := h (0 + length) (by omega)
  exact ⟨left, hleft, by rw [lexFrom, if_pos hc, heq]⟩

theorem lexeme (hc : isSpace c = false) (hread : readLexeme c text = (first, middle))
    (hle : middle.length ≤ text.length) (h : LexesTo middle xs rest) :
    LexesTo (c :: text) (first :: xs) rest := by
  intro length hlength
  obtain ⟨length, rfl⟩ := Nat.exists_eq_add_of_lt (Nat.lt_of_lt_of_le (Nat.succ_pos _) hlength)
  rw [List.length_cons] at hlength
  obtain ⟨left, hleft, heq⟩ := h (0 + length) (by omega)
  have hstep : lexFrom (0 + length + 1) (c :: text) = first :: lexFrom (0 + length) middle := by
    rw [lexFrom, hc, if_neg Bool.false_ne_true, hread]
  exact ⟨left, hleft, by rw [hstep, heq, List.cons_append]⟩

theorem lex_eq (h : LexesTo text xs []) : lex text = xs := by
  obtain ⟨left, -, heq⟩ := h text.length (Nat.le_refl _)
  have hnil : lexFrom left [] = [] := by cases left <;> rfl
  rw [lex, heq, hnil, List.append_nil]

theorem newLine (depth : Nat) (h : LexesTo text xs rest) :
    LexesTo (Json.newLine depth ++ text) xs rest := by
  have hspaces : ∀ n, LexesTo (List.replicate n ' ' ++ text) xs rest := by
    intro n
    induction n with
    | zero => exact h
    | succ n ih => exact ih.space rfl
  exact (hspaces (2 * depth)).space rfl

theorem mark (hc : c ∈ ['[', ']', '\x7b', '\x7d', ',', ':']) (h : LexesTo text xs rest) :
    LexesTo (c :: text) (.mark c :: xs) rest := by
  refine .lexeme ?_ ?_ (Nat.le_refl _) h
  · have hmarks : ∀ d ∈ ['[', ']', '\x7b', '\x7d', ',', ':'], !isSpace d :=
      List.all_eq_true.mp (by decide)
    simpa using hmarks c hc
  · rw [readLexeme, if_pos hc]

end LexesTo

/-! Strings. -/

/-- What a character is read as from its escaped form: a unit where that is the long form of
six characters. -/
def piece (c : Char) : Piece :=
  if (escaped c).length = 6 then .unit c.toNat else .char c

theorem hexValue?_hexDigit {n : Nat} (h : n < 16) : hexValue? (hexDigit n) = some n := by
  have hall : ∀ n < 16, hexValue? (hexDigit n) = some n := by decide
  exact hall n h

theorem unitValue?_escaped {c : Char} (h : c.toNat < 32) :
    unitValue? '0' '0' (hexDigit (c.toNat / 16)) (hexDigit (c.toNat % 16)) = some c.toNat := by
  have hzero : hexValue? '0' = some 0 := by decide
  simp only [unitValue?, hzero, hexValue?_hexDigit (show c.toNat / 16 < 16 by omega),
    hexValue?_hexDigit (show c.toNat % 16 < 16 by omega), Option.bind_eq_bind, Option.bind_some,
    Option.pure_def, Option.some.injEq]
  omega

theorem readString_escaped (c : Char) (rest : List Char) :
    readString (escaped c ++ rest) = (readString rest).cons (piece c) := by
  by_cases hshort : c ∈ ['"', '\\', '\x08', '\t', '\n', '\x0c', '\x0d']
  · simp only [List.mem_cons, List.not_mem_nil, or_false] at hshort
    rcases hshort with rfl | rfl | rfl | rfl | rfl | rfl | rfl <;> rfl
  · simp only [List.mem_cons, List.not_mem_nil, or_false, not_or] at hshort
    obtain ⟨hquote, hslash, hb, ht, hn, hf, hr⟩ := hshort
    have hescaped : escaped c = if c.toNat < 32 then
        ['\\', 'u', '0', '0', hexDigit (c.toNat / 16), hexDigit (c.toNat % 16)] else [c] := by
      simp only [escaped, hquote, hslash, hb, ht, hn, hf, hr, if_false]
    by_cases hcontrol : c.toNat < 32
    · rw [piece, hescaped, if_pos hcontrol]
      simp only [List.cons_append, List.nil_append, List.length_cons, List.length_nil, if_true]
      rw [readString, unitValue?_escaped hcontrol]
    · rw [piece, hescaped, if_neg hcontrol]
      simp only [List.cons_append, List.nil_append, List.length_cons, List.length_nil]
      simp [readString, hslash, hcontrol]

theorem joinPieces_map_piece (text : List Char) : joinPieces none (text.map piece) = .ok text := by
  induction text with
  | nil => rfl
  | cons c rest ih =>
    rw [List.map_cons, piece]
    split
    · have hlow : c.toNat < 0xd800 ∨ 0xdfff < c.toNat := by
        have hvalid := c.valid
        simp only [UInt32.isValidChar, Nat.isValidChar, Char.toNat_val] at hvalid
        omega
      rw [joinPieces.eq_def]
      simp only [if_pos hlow, ih, Char.ofNat_toNat]
      rfl
    · rw [joinPieces, ih]
      rfl

def stringLexeme (s : String) : Lexeme := .string (s.toList.map piece) none

theorem content_map_piece (s : String) : content (s.toList.map piece) none = .ok s := by
  rw [content, joinPieces_map_piece]
  exact congrArg Except.ok String.ofList_toList

theorem LexesTo.quoted (s : String) {rest last : List Char} {xs : List Lexeme}
    (h : LexesTo rest xs last) : LexesTo (quoted s ++ rest) (stringLexeme s :: xs) last := by
  have hread : ∀ text : List Char,
      readString (text.flatMap escaped ++ ('"' :: rest)) = ⟨text.map piece, none, rest⟩ := by
    intro text
    induction text with
    | nil => rfl
    | cons c text ih =>
      rw [List.flatMap_cons, List.append_assoc, readString_escaped, ih]
      rfl
  have hquoted : Json.quoted s ++ rest = '"' :: (s.toList.flatMap escaped ++ '"' :: rest) := by
    simp [Json.quoted]
  rw [hquoted]
  refine .lexeme rfl ?_ ?_ h
  · rw [readLexeme, if_neg (by decide), if_pos rfl, hread]
    rfl
  · simp only [List.length_append, List.length_cons]
    omega

/-! Words and numbers. -/

theorem readWord_append (word : List Char) (lexeme : Lexeme) (rest : List Char) :
    readWord word lexeme (word ++ rest) = (lexeme, rest) := by
  induction word with
  | nil => cases rest <;> rfl
  | cons c word ih => rw [List.cons_append, readWord, if_pos rfl, ih]

/-- The text does not go on with a number in front of it. -/
def EndsNumber (text : List Char) : Prop :=
  ∀ c ∈ text.head?, isDigit c = false ∧ c ≠ '.' ∧ c ≠ 'e' ∧ c ≠ 'E'

theorem endsNumber_cons {c : Char} (hc : c ∈ [',', '\n']) (rest : List Char) :
    EndsNumber (c :: rest) := by
  rintro _ ⟨⟩
  simp only [List.mem_cons, List.not_mem_nil, or_false] at hc
  obtain rfl | rfl := hc <;> decide

def wholeNumber (n : Nat) : Number :=
  if n < leadingBound then .natural n else .ofDigits (Nat.toDigits 10 n) [] 0

theorem readNumber_toDigits_append (n : Nat) {rest : List Char} (h : EndsNumber rest) :
    readNumber false (Nat.toDigits 10 n ++ rest) = .ok (wholeNumber n, rest) := by
  have htake : (Nat.toDigits 10 n ++ rest).takeWhile isDigit = Nat.toDigits 10 n :=
    takeWhile_append_of_head (fun _ => isDigit_of_mem_toDigits) fun c hc => (h c hc).1
  have hempty : (Nat.toDigits 10 n).isEmpty = false := by
    rw [List.isEmpty_eq_false_iff]
    exact Nat.toDigits_ne_nil
  have hzero : (decide (1 < (Nat.toDigits 10 n).length) &&
      decide ((Nat.toDigits 10 n).head? = some '0')) = false := by
    rw [Bool.and_eq_false_imp]
    intro hlength
    exact decide_eq_false (head?_toDigits_of_length (of_decide_eq_true hlength))
  unfold readNumber
  simp only [htake, hempty, hzero, List.drop_left, Bool.false_eq_true, if_false,
    digitsValue_toDigits]
  split
  · exact absurd rfl (h '.' rfl).2.1
  · simp only [pure_bind]
    split
    · exact absurd rfl (h 'e' rfl).2.2.1
    · exact absurd rfl (h 'E' rfl).2.2.2
    · simp only [Bool.not_false, List.isEmpty_nil, Option.isNone_none, Bool.true_and,
        decide_eq_true_eq, Option.getD_none, wholeNumber]
      split <;> rfl

theorem ne_of_isDigit {c d : Char} (h : isDigit c) (hd : isDigit d = false) : c ≠ d := by
  rintro rfl
  rw [h] at hd
  cases hd

namespace LexesTo

variable {rest last : List Char} {xs : List Lexeme}

theorem word {c : Char} {word : List Char} {lexeme : Lexeme} (hc : isSpace c = false)
    (hread : readLexeme c (word ++ rest) = readWord word lexeme (word ++ rest))
    (h : LexesTo rest xs last) : LexesTo (c :: word ++ rest) (lexeme :: xs) last := by
  rw [readWord_append] at hread
  exact .lexeme hc hread (List.suffix_append word rest).length_le h

theorem number (n : Nat) (hrest : EndsNumber rest) (h : LexesTo rest xs last) :
    LexesTo ((toString n).toList ++ rest) (.number (wholeNumber n) :: xs) last := by
  have hread := readNumber_toDigits_append n hrest
  have hdigit : ∀ c ∈ Nat.toDigits 10 n, isDigit c := fun _ => isDigit_of_mem_toDigits
  rw [Nat.toString_eq_ofList_toDigits, String.toList_ofList]
  cases hdigits : Nat.toDigits 10 n with
  | nil => exact absurd hdigits Nat.toDigits_ne_nil
  | cons c digits =>
    rw [hdigits] at hread
    have hc : isDigit c := hdigit c (hdigits ▸ List.mem_cons_self)
    have hne : ∀ {d}, isDigit d = false → c ≠ d := ne_of_isDigit hc
    refine .lexeme ?_ ?_ (List.suffix_append digits rest).length_le h
    · simp only [isSpace, Bool.or_eq_false_iff, decide_eq_false_iff_not]
      exact ⟨⟨⟨hne (by decide), hne (by decide)⟩, hne (by decide)⟩, hne (by decide)⟩
    · have hmark : c ∉ ['[', ']', '\x7b', '\x7d', ',', ':'] := by
        have hmarks : ∀ d ∈ ['[', ']', '\x7b', '\x7d', ',', ':'], !isDigit d :=
          List.all_eq_true.mp (by decide)
        exact fun hm => hne (by simpa using hmarks c hm) rfl
      have hquote : c ≠ '"' := hne (by decide)
      have hn : c ≠ 'n' := hne (by decide)
      have ht : c ≠ 't' := hne (by decide)
      have hf : c ≠ 'f' := hne (by decide)
      have hminus : c ≠ '-' := hne (by decide)
      rw [List.cons_append] at hread
      simp only [readLexeme, if_neg hmark, if_neg hquote, if_neg hn, if_neg ht, if_neg hf,
        if_neg hminus, if_pos hc, List.append_eq, hread]

end LexesTo

/-! Trees. -/

mutual

def lexemes : Tree → List Lexeme
  | .null => [.null]
  | .bool b => [.bool b]
  | .number n => [.number (wholeNumber n)]
  | .text s => [stringLexeme s]
  | .list [] => [.mark '[', .mark ']']
  | .list (item :: rest) => .mark '[' :: (lexemes item ++ itemsLexemes rest ++ [.mark ']'])
  | .record [] => [.mark '\x7b', .mark '\x7d']
  | .record ((key, value) :: rest) =>
    .mark '\x7b' :: stringLexeme key :: .mark ':' ::
      (lexemes value ++ entriesLexemes rest ++ [.mark '\x7d'])

def itemsLexemes : List Tree → List Lexeme
  | [] => []
  | item :: rest => .mark ',' :: (lexemes item ++ itemsLexemes rest)

def entriesLexemes : List (String × Tree) → List Lexeme
  | [] => []
  | (key, value) :: rest =>
    .mark ',' :: stringLexeme key :: .mark ':' :: (lexemes value ++ entriesLexemes rest)

end

theorem endsNumber_printedItems (depth : Nat) (items : List Tree) {rest : List Char}
    (h : EndsNumber rest) : EndsNumber (printedItems depth items ++ rest) := by
  cases items with
  | nil => exact h
  | cons item items =>
    rw [printedItems]
    exact endsNumber_cons (by decide) _

theorem endsNumber_printedEntries (depth : Nat) (entries : List (String × Tree))
    {rest : List Char} (h : EndsNumber rest) :
    EndsNumber (printedEntries depth entries ++ rest) := by
  cases entries with
  | nil => exact h
  | cons entry entries =>
    rw [printedEntries]
    exact endsNumber_cons (by decide) _

theorem endsNumber_newLine (depth : Nat) (rest : List Char) :
    EndsNumber (newLine depth ++ rest) :=
  endsNumber_cons (by decide) _

theorem LexesTo.keyed (key : String) {text last : List Char} {xs : List Lexeme}
    (h : LexesTo text xs last) :
    LexesTo (Json.quoted key ++ ':' :: ' ' :: text) (stringLexeme key :: .mark ':' :: xs) last :=
  .quoted key (.mark (by decide) (h.space rfl))

mutual

theorem lexesTo_printed (depth : Nat) :
    ∀ (tree : Tree) {rest last : List Char} {xs : List Lexeme}, EndsNumber rest →
      LexesTo rest xs last → LexesTo (printed depth tree ++ rest) (lexemes tree ++ xs) last
  | .null, _, _, _, _, h => .word rfl rfl h
  | .bool true, _, _, _, _, h => .word rfl rfl h
  | .bool false, _, _, _, _, h => .word rfl rfl h
  | .number n, _, _, _, hrest, h => .number n hrest h
  | .text s, _, _, _, _, h => .quoted s h
  | .list [], _, _, _, _, h => .mark (by decide) (.mark (by decide) h)
  | .list (item :: items), rest, _, _, _, h => by
    have hclose := LexesTo.newLine depth (.mark (show ']' ∈ _ by decide) h)
    have hends := endsNumber_newLine depth (']' :: rest)
    have hitems := lexesTo_printedItems (depth + 1) items hends hclose
    have hitem := lexesTo_printed (depth + 1) item (endsNumber_printedItems _ items hends) hitems
    have hopen := LexesTo.mark (show '[' ∈ _ by decide) (hitem.newLine (depth + 1))
    simpa only [printed_list_cons, lexemes, List.cons_append, List.append_assoc,
      List.nil_append] using hopen
  | .record [], _, _, _, _, h => .mark (by decide) (.mark (by decide) h)
  | .record ((key, value) :: entries), rest, _, _, _, h => by
    have hclose := LexesTo.newLine depth (.mark (show '\x7d' ∈ _ by decide) h)
    have hends := endsNumber_newLine depth ('\x7d' :: rest)
    have hentries := lexesTo_printedEntries (depth + 1) entries hends hclose
    have hvalueEnds := endsNumber_printedEntries (depth + 1) entries hends
    have hvalue := lexesTo_printed (depth + 1) value hvalueEnds hentries
    have hopen := LexesTo.mark (show '\x7b' ∈ _ by decide) ((hvalue.keyed key).newLine (depth + 1))
    simpa only [printed_record_cons, lexemes, List.cons_append, List.append_assoc,
      List.nil_append] using hopen

theorem lexesTo_printedItems (depth : Nat) :
    ∀ (items : List Tree) {rest last : List Char} {xs : List Lexeme}, EndsNumber rest →
      LexesTo rest xs last →
      LexesTo (printedItems depth items ++ rest) (itemsLexemes items ++ xs) last
  | [], _, _, _, _, h => h
  | item :: items, _, _, _, hrest, h => by
    have hitems := lexesTo_printedItems depth items hrest h
    have hitem := lexesTo_printed depth item (endsNumber_printedItems depth items hrest) hitems
    have hcomma := LexesTo.mark (show ',' ∈ _ by decide) (hitem.newLine depth)
    simpa only [printedItems, itemsLexemes, List.cons_append, List.append_assoc] using hcomma

theorem lexesTo_printedEntries (depth : Nat) :
    ∀ (entries : List (String × Tree)) {rest last : List Char} {xs : List Lexeme},
      EndsNumber rest → LexesTo rest xs last →
      LexesTo (printedEntries depth entries ++ rest) (entriesLexemes entries ++ xs) last
  | [], _, _, _, _, h => h
  | (key, value) :: entries, _, _, _, hrest, h => by
    have hentries := lexesTo_printedEntries depth entries hrest h
    have hvalue :=
      lexesTo_printed depth value (endsNumber_printedEntries depth entries hrest) hentries
    have hcomma := LexesTo.mark (show ',' ∈ _ by decide) ((hvalue.keyed key).newLine depth)
    simpa only [printedEntries, entriesLexemes, List.cons_append, List.append_assoc,
      List.nil_append] using hcomma

end

theorem lex_print (tree : Tree) : lex (print tree).toList = lexemes tree := by
  have hlexes := lexesTo_printed 0 tree (fun _ hc => by cases hc) (.refl [])
  rw [List.append_nil, List.append_nil] at hlexes
  rw [print, String.toList_ofList, hlexes.lex_eq]

end Groovebox.Json

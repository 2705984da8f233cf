import Groovebox.Proofs.Yaml.Steps

/-! The tokens of a printed tree. Each tree emits its tokens where it is printed, whatever is
open around it and whatever follows further out. -/

namespace Groovebox.Yaml

mutual

/-- All texts and keys of the tree are made of printable ASCII characters. -/
def IsPrintableTree : Tree → Prop
  | .text s => IsPrintableAscii s.toList
  | .list items => ArePrintableItems items
  | .record entries => ArePrintableEntries entries
  | .null | .bool _ | .number _ => True

def ArePrintableItems : List Tree → Prop
  | [] => True
  | item :: rest => IsPrintableTree item ∧ ArePrintableItems rest

def ArePrintableEntries : List (String × Tree) → Prop
  | [] => True
  | (key, value) :: rest =>
    IsPrintableAscii key.toList ∧ IsPrintableTree value ∧ ArePrintableEntries rest

end

mutual

/-- The tokens of a tree. A list at the column of its key has no indent of its own. -/
def blockTokens (indentless : Bool) : Tree → List Token
  | .null => [.scalar .plain "null"]
  | .bool true => [.scalar .plain "true"]
  | .bool false => [.scalar .plain "false"]
  | .number n => [.scalar .plain (toString n)]
  | .text s => [.scalar (styleOf s) s]
  | .list [] => [.flowSequence, .flowSequenceEnd]
  | .record [] => [.flowMapping, .flowMappingEnd]
  | .list (item :: rest) =>
    if indentless then itemsTokens (item :: rest)
    else .blockSequence :: (itemsTokens (item :: rest) ++ [.blockEnd])
  | .record (entry :: rest) => .blockMapping :: (entriesTokens (entry :: rest) ++ [.blockEnd])

def itemsTokens : List Tree → List Token
  | [] => []
  | item :: rest => .blockEntry :: (blockTokens false item ++ itemsTokens rest)

def entriesTokens : List (String × Tree) → List Token
  | [] => []
  | (key, value) :: rest =>
    .key :: .scalar (styleOf key) key :: .value ::
      (blockTokens (isSimpleKey key) value ++ entriesTokens rest)

end

def isFlat : Tree → Bool
  | .list (_ :: _) | .record (_ :: _) => false
  | _ => true

variable {tree : Tree} {key : String} {value : Tree} {column indent outer n : Nat}
  {indents : List Nat} {allowed indentless : Bool} {text tail : List Char}

/-! Trees of one line. -/

theorem endLine_eq (h : IsPrintableAscii text) : endLine text = text ++ ['\n'] := by
  have hlast : text.getLast?.any isBreak = false := by
    cases hlast : text.getLast? with
    | none => rfl
    | some c => exact isBreak_eq_false (h c (List.mem_of_getLast? hlast))
  rw [endLine, hlast, if_neg Bool.false_ne_true]

theorem printBlock_of_isFlat (h : isFlat tree) (indent : Nat) :
    printBlock indent tree = endLine (flat indent tree) := by
  match tree with
  | .null | .bool _ | .number _ | .text _ | .list [] | .record [] => rfl

theorem prints_word {s : String} (h : IsPrintableAscii s.toList) (hne : s.toList ≠ [])
    (hallowed : isPlainAllowed s.toList) : Prints s.toList (.scalar .plain s) := by
  have hprints := Prints.plain (isPlain_of_isPlainAllowed h hne hallowed)
  rwa [String.ofList_toList] at hprints

theorem prints_number (n : Nat) :
    Prints (toString n).toList (.scalar .plain (toString n)) := by
  have hdigits := prints_of_digits (Nat.toDigits_ne_nil (b := 10) (n := n))
    fun _ => Text.isDigit_of_mem_toDigits
  rwa [Nat.toString_eq_ofList_toDigits, String.toList_ofList]

/-- What is printed of a tree of one line: a scalar, or brackets. -/
theorem flat_cases (indentless : Bool) (h : isFlat tree) (htree : IsPrintableTree tree)
    (indent : Nat) :
    (∃ t, blockTokens indentless tree = [t] ∧ Prints (flat indent tree) t) ∨
      tree = .list [] ∨ tree = .record [] := by
  match tree with
  | .null => exact .inl ⟨_, rfl, prints_word (by decide) (by decide) (by decide)⟩
  | .bool true => exact .inl ⟨_, rfl, prints_word (by decide) (by decide) (by decide)⟩
  | .bool false => exact .inl ⟨_, rfl, prints_word (by decide) (by decide) (by decide)⟩
  | .number n => exact .inl ⟨_, rfl, prints_number n⟩
  | .text s =>
    have hprints := prints_printedText htree
    rw [← scalar_eq htree indent] at hprints
    exact .inl ⟨_, rfl, hprints⟩
  | .list [] => exact .inr (.inl rfl)
  | .record [] => exact .inr (.inr rfl)

theorem emits_flat (h : isFlat tree) (htree : IsPrintableTree tree) (hcolumn : outer < column)
    (hn : n ≤ outer) (htail : IsFront tail) :
    Emits ⟨column, printBlock indent tree ++ (spaces n ++ tail), outer :: indents, allowed⟩
      (blockTokens indentless tree) ⟨n, tail, outer :: indents, true⟩ := by
  rw [printBlock_of_isFlat h]
  obtain ⟨t, htokens, hprints⟩ | rfl | rfl := flat_cases indentless h htree indent
  · rw [endLine_eq hprints.ascii, htokens, List.append_assoc]
    exact emits_scalar hprints hcolumn hn htail
  · exact emits_emptyList hcolumn htail
  · exact emits_emptyRecord hcolumn htail

/-! Fronts. -/

theorem Prints.isFront {t : Token} (h : Prints text t) (more : List Char) :
    IsFront (text ++ more) := by
  cases h with
  | plain hplain =>
    obtain ⟨c, text, rfl⟩ := List.exists_cons_of_ne_nil hplain.ne_nil
    rintro _ ⟨⟩
    have hspace : c ≠ ' ' := by simpa using hplain.head_ne
    have hcomment : c ≠ '#' := by simpa using hplain.not_comment rfl
    exact ⟨hplain.ascii c List.mem_cons_self, hspace, hcomment⟩
  | quoted =>
    rintro _ ⟨⟩
    decide

theorem isFront_cons {c : Char} (hc : isPrintableAscii c ∧ c ≠ ' ' ∧ c ≠ '#') (more : List Char) :
    IsFront (c :: more) := by
  rintro _ ⟨⟩
  exact hc

theorem isFront_keyPart (hkey : IsPrintableAscii key.toList) (indent : Nat) (value : Tree)
    (more : List Char) : IsFront (keyPart indent key value ++ more) := by
  unfold keyPart
  split
  · rw [scalar_eq hkey, List.append_assoc]
    exact (prints_printedText hkey).isFront _
  · exact isFront_cons (by decide) _

theorem isFront_printBlock (htree : IsPrintableTree tree) (indent : Nat) (more : List Char) :
    IsFront (printBlock indent tree ++ more) := by
  by_cases h : isFlat tree
  · rw [printBlock_of_isFlat h]
    obtain ⟨t, -, hprints⟩ | rfl | rfl := flat_cases false h htree indent
    · rw [endLine_eq hprints.ascii, List.append_assoc]
      exact hprints.isFront _
    · exact isFront_cons (by decide) _
    · exact isFront_cons (by decide) _
  · match tree with
    | .list (item :: rest) => exact isFront_cons (by decide) _
    | .record ((key, value) :: rest) =>
      rw [IsPrintableTree, ArePrintableEntries] at htree
      rw [printBlock, List.append_assoc, List.append_assoc]
      exact isFront_keyPart htree.1 _ _ _
    | .null | .bool _ | .number _ | .text _ | .list [] | .record [] => exact absurd rfl h

/-! Blocks. -/

/-- Where a tree may be printed inside of a block at `outer`: what has one line anywhere to
the right of it, a block at a column where a key may begin. Only a list may stand at the
column of the block around it. -/
inductive Placed (outer : Nat) : Tree → Bool → Nat → Nat → Bool → Prop
  | flat {tree : Tree} {indentless allowed : Bool} {column indent : Nat} :
    isFlat tree → outer < column → Placed outer tree indentless column indent allowed
  | list {item : Tree} {rest : List Tree} {indent : Nat} :
    outer < indent → Placed outer (.list (item :: rest)) false indent indent true
  | indentless {item : Tree} {rest : List Tree} :
    Placed outer (.list (item :: rest)) true outer outer true
  | record {entry : String × Tree} {rest : List (String × Tree)} {indentless : Bool}
    {indent : Nat} :
    outer < indent → Placed outer (.record (entry :: rest)) indentless indent indent true

theorem placed_of_lt (tree : Tree) (h : outer < indent) :
    Placed outer tree false indent indent true := by
  match tree with
  | .list (item :: rest) => exact .list h
  | .record (entry :: rest) => exact .record h
  | .null | .bool _ | .number _ | .text _ | .list [] | .record [] => exact .flat rfl h

/-- The tree emits its tokens wherever it is printed, up to what follows no further in than
the block around it. -/
def EmitsBlock (tree : Tree) : Prop :=
  ∀ {outer column indent n : Nat} {indents : List Nat} {indentless allowed : Bool}
    {tail : List Char}, Placed outer tree indentless column indent allowed → n ≤ outer →
    IsFront tail →
    Emits ⟨column, printBlock indent tree ++ (spaces n ++ tail), outer :: indents, allowed⟩
      (blockTokens indentless tree) ⟨n, tail, outer :: indents, true⟩

theorem exists_opened (h : ∀ i ∈ indents.head?, i ≤ indent) :
    ∃ rest, opened indent indents = indent :: rest := by
  cases indents with
  | nil => exact ⟨[], rfl⟩
  | cons i rest =>
    by_cases hlt : i < indent
    · exact ⟨i :: rest, by simp [opened, hlt]⟩
    · obtain rfl : i = indent := Nat.le_antisymm (h i rfl) (Nat.not_lt.mp hlt)
      exact ⟨rest, by simp [opened]⟩

theorem emits_item {item : Tree} (hitem : IsPrintableTree item) (hemits : EmitsBlock item)
    (hindents : ∀ i ∈ indents.head?, i ≤ indent) (hn : n ≤ indent) (htail : IsFront tail) :
    Emits ⟨indent, '-' :: ' ' :: (printBlock (indent + 2) item ++ (spaces n ++ tail)), indents,
        true⟩
      (opening .blockSequence indent indents ++ .blockEntry :: blockTokens false item)
      ⟨n, tail, opened indent indents, true⟩ := by
  obtain ⟨rest, hopened⟩ := exists_opened hindents
  have hdash := emits_dash (isFront_printBlock hitem (indent + 2) (spaces n ++ tail)) hindents
  rw [hopened] at hdash ⊢
  have hplaced := placed_of_lt item (show indent < indent + 2 by omega)
  have hline := hdash.trans (hemits hplaced hn htail)
  rwa [List.append_assoc] at hline

section Entry

variable (hkey : IsPrintableAscii key.toList) (hvalue : IsPrintableTree value)
  (hemits : EmitsBlock value) (hindents : ∀ i ∈ indents.head?, i ≤ indent) (hn : n ≤ indent)
  (htail : IsFront tail)

include hkey hvalue hemits hindents hn htail

theorem emits_simpleEntry (hsimple : isSimpleKey key) :
    Emits ⟨indent, printedText key ++ ':' :: (valueGap indent value ++
        (printBlock (valueIndent indent value) value ++ (spaces n ++ tail))), indents, true⟩
      (opening .blockMapping indent indents ++ .key :: .scalar (styleOf key) key :: .value ::
        blockTokens true value)
      ⟨n, tail, opened indent indents, true⟩ := by
  obtain ⟨rest, hopened⟩ := exists_opened hindents
  have hprints := prints_printedText hkey
  have hlength := length_printedText_le hsimple
  have hfront := isFront_printBlock hvalue (valueIndent indent value) (spaces n ++ tail)
  by_cases hflat : isFlat value
  · have hgap : valueGap indent value = [' '] := by
      match value with
      | .null | .bool _ | .number _ | .text _ | .list [] | .record [] => rfl
    have hentry := emits_key hprints hlength hindents hfront
    rw [hopened] at hentry ⊢
    rw [hgap]
    have hplaced : Placed indent value true (indent + (printedText key).length + 2)
      (valueIndent indent value) false := .flat hflat (by omega)
    have hline := hentry.trans (hemits hplaced hn htail)
    rwa [List.append_assoc] at hline
  · match value with
    | .list (item :: items) =>
      have hentry := emits_key_line hprints hlength hindents hfront (n := indent)
      rw [hopened] at hentry ⊢
      have hline := hentry.trans (hemits .indentless hn htail)
      rwa [List.append_assoc] at hline
    | .record (entry :: entries) =>
      have hentry := emits_key_line hprints hlength hindents hfront (n := indent + 2)
      rw [hopened] at hentry ⊢
      have hplaced :
          Placed indent (.record (entry :: entries)) true (indent + 2) (indent + 2) true :=
        .record (by omega)
      have hline := hentry.trans (hemits hplaced hn htail)
      rwa [List.append_assoc] at hline
    | .null | .bool _ | .number _ | .text _ | .list [] | .record [] => exact absurd rfl hflat

theorem emits_longEntry :
    Emits ⟨indent, '?' :: ' ' :: (printedText key ++ ('\n' :: spaces indent ++ ':' :: ' ' ::
        (printBlock (indent + 2) value ++ (spaces n ++ tail)))), indents, true⟩
      (opening .blockMapping indent indents ++ .key :: .scalar (styleOf key) key :: .value ::
        blockTokens false value)
      ⟨n, tail, opened indent indents, true⟩ := by
  obtain ⟨rest, hopened⟩ := exists_opened hindents
  have hprints := prints_printedText hkey
  have hquestion := emits_question (hprints.isFront ('\n' :: spaces indent ++ ':' :: ' ' ::
    (printBlock (indent + 2) value ++ (spaces n ++ tail)))) hindents
  rw [hopened] at hquestion ⊢
  have hcolon : IsFront (':' :: ' ' :: (printBlock (indent + 2) value ++ (spaces n ++ tail))) :=
    isFront_cons (by decide) _
  have hlt : indent < indent + 2 := by omega
  have hkeyLine := hquestion.trans (emits_scalar hprints hlt (Nat.le_refl indent) hcolon)
  have hvalueFront := isFront_printBlock hvalue (indent + 2) (spaces n ++ tail)
  have hline := (hkeyLine.trans (emits_colon hvalueFront)).trans
    (hemits (placed_of_lt value hlt) hn htail)
  simpa only [List.append_assoc, List.cons_append, List.nil_append] using hline

theorem emits_entry :
    Emits ⟨indent, keyPart indent key value ++
        (printBlock (if isSimpleKey key then valueIndent indent value else indent + 2) value ++
          (spaces n ++ tail)), indents, true⟩
      (opening .blockMapping indent indents ++ .key :: .scalar (styleOf key) key :: .value ::
        blockTokens (isSimpleKey key) value)
      ⟨n, tail, opened indent indents, true⟩ := by
  have hprints := prints_printedText hkey
  unfold keyPart
  rw [scalar_eq hkey]
  by_cases hsimple : isSimpleKey key
  · have hentry := emits_simpleEntry hkey hvalue hemits hindents hn htail hsimple
    simpa only [hsimple, if_true, List.append_assoc, List.cons_append] using hentry
  · have hentry := emits_longEntry hkey hvalue hemits hindents hn htail
    rw [endLine_eq hprints.ascii]
    simpa only [hsimple, if_false, List.append_assoc, List.cons_append, List.nil_append,
      Bool.false_eq_true, Bool.eq_false_of_not_eq_true hsimple] using hentry

end Entry

/-- The items behind the first emit their tokens in the block of the list. -/
def EmitsItems (items : List Tree) : Prop :=
  ∀ {indent n : Nat} {indents : List Nat} {tail : List Char}, n ≤ indent → IsFront tail →
    ∃ m front, printItems indent items ++ (spaces n ++ tail) = spaces m ++ front ∧ m ≤ indent ∧
      IsFront front ∧ Emits ⟨m, front, indent :: indents, true⟩ (itemsTokens items)
        ⟨n, tail, indent :: indents, true⟩

def EmitsEntries (entries : List (String × Tree)) : Prop :=
  ∀ {indent n : Nat} {indents : List Nat} {tail : List Char}, n ≤ indent → IsFront tail →
    ∃ m front, printEntries indent entries ++ (spaces n ++ tail) = spaces m ++ front ∧
      m ≤ indent ∧ IsFront front ∧ Emits ⟨m, front, indent :: indents, true⟩
        (entriesTokens entries) ⟨n, tail, indent :: indents, true⟩

theorem le_of_head?_cons (h : outer ≤ indent) (indents : List Nat) :
    ∀ i ∈ (outer :: indents).head?, i ≤ indent := by
  rintro _ ⟨⟩
  exact h

theorem opening_self (token : Token) (indents : List Nat) :
    opening token indent (indent :: indents) = [] := by
  simp [opening]

theorem opened_self (indents : List Nat) :
    opened indent (indent :: indents) = indent :: indents := by
  simp [opened]

theorem opening_of_lt (token : Token) (indents : List Nat) (h : outer < indent) :
    opening token indent (outer :: indents) = [token] := by
  simp [opening, h]

theorem opened_of_lt (indents : List Nat) (h : outer < indent) :
    opened indent (outer :: indents) = indent :: outer :: indents := by
  simp [opened, h]

section List

variable {item : Tree} {rest : List Tree} (hitem : IsPrintableTree item)
  (hemits : EmitsBlock item) (hrest : EmitsItems rest)

include hitem hemits hrest

theorem emits_list (hindents : ∀ i ∈ indents.head?, i ≤ indent) (hn : n ≤ indent)
    (htail : IsFront tail) :
    Emits ⟨indent, printBlock indent (.list (item :: rest)) ++ (spaces n ++ tail), indents, true⟩
      (opening .blockSequence indent indents ++ itemsTokens (item :: rest))
      ⟨n, tail, opened indent indents, true⟩ := by
  obtain ⟨outer, hopened⟩ := exists_opened hindents
  obtain ⟨m, front, hfollow, hm, hfront, hbehind⟩ := hrest hn htail
  have hline := emits_item hitem hemits hindents hm hfront
  rw [hopened] at hline ⊢
  have hlist := hline.trans hbehind
  rw [← hfollow] at hlist
  simpa only [printBlock, itemsTokens, List.append_assoc, List.cons_append] using hlist

theorem EmitsItems.cons : EmitsItems (item :: rest) := by
  intro indent n indents tail hn htail
  have hindents := le_of_head?_cons (Nat.le_refl indent) indents
  have hlist := emits_list hitem hemits hrest hindents hn htail
  rw [opening_self, opened_self, List.nil_append] at hlist
  refine ⟨indent, _, ?_, Nat.le_refl indent, isFront_cons (by decide) _, hlist⟩
  simp [printItems]

theorem EmitsBlock.list : EmitsBlock (.list (item :: rest)) := by
  intro outer column indent n indents indentless allowed tail hplaced hn htail
  cases hplaced with
  | flat hflat => cases hflat
  | list hlt =>
    have hlist := emits_list hitem hemits hrest (le_of_head?_cons (Nat.le_of_lt hlt) indents)
      (Nat.le_of_lt (Nat.lt_of_le_of_lt hn hlt)) htail
    rw [opening_of_lt _ _ hlt, opened_of_lt _ hlt] at hlist
    exact hlist.trans (emits_close (.inr (Nat.lt_of_le_of_lt hn hlt)))
  | indentless =>
    have hlist :=
      emits_list hitem hemits hrest (le_of_head?_cons (Nat.le_refl outer) indents) hn htail
    rwa [opening_self, opened_self, List.nil_append] at hlist

end List

section Record

variable {rest : List (String × Tree)} (hkey : IsPrintableAscii key.toList)
  (hvalue : IsPrintableTree value) (hemits : EmitsBlock value) (hrest : EmitsEntries rest)

include hkey hvalue hemits hrest

theorem emits_record (hindents : ∀ i ∈ indents.head?, i ≤ indent) (hn : n ≤ indent)
    (htail : IsFront tail) :
    Emits ⟨indent, printBlock indent (.record ((key, value) :: rest)) ++ (spaces n ++ tail),
        indents, true⟩
      (opening .blockMapping indent indents ++ entriesTokens ((key, value) :: rest))
      ⟨n, tail, opened indent indents, true⟩ := by
  obtain ⟨outer, hopened⟩ := exists_opened hindents
  obtain ⟨m, front, hfollow, hm, hfront, hbehind⟩ := hrest hn htail
  have hline := emits_entry hkey hvalue hemits hindents hm hfront
  rw [hopened] at hline ⊢
  have hrecord := hline.trans hbehind
  rw [← hfollow] at hrecord
  simpa only [printBlock, entriesTokens, List.append_assoc, List.cons_append] using hrecord

theorem EmitsEntries.cons : EmitsEntries ((key, value) :: rest) := by
  intro indent n indents tail hn htail
  have hrecord :=
    emits_record hkey hvalue hemits hrest (le_of_head?_cons (Nat.le_refl indent) indents) hn htail
  rw [opening_self, opened_self, List.nil_append] at hrecord
  have hfront : IsFront (printBlock indent (.record ((key, value) :: rest)) ++
      (spaces n ++ tail)) := by
    rw [printBlock, List.append_assoc, List.append_assoc]
    exact isFront_keyPart hkey _ _ _
  refine ⟨indent, _, ?_, Nat.le_refl indent, hfront, hrecord⟩
  simp only [printEntries, printBlock, List.append_assoc]

theorem EmitsBlock.record : EmitsBlock (.record ((key, value) :: rest)) := by
  intro outer column indent n indents indentless allowed tail hplaced hn htail
  cases hplaced with
  | flat hflat => cases hflat
  | record hlt =>
    have hrecord := emits_record hkey hvalue hemits hrest
      (le_of_head?_cons (Nat.le_of_lt hlt) indents) (Nat.le_of_lt (Nat.lt_of_le_of_lt hn hlt)) htail
    rw [opening_of_lt _ _ hlt, opened_of_lt _ hlt] at hrecord
    exact hrecord.trans (emits_close (.inr (Nat.lt_of_le_of_lt hn hlt)))

end Record

theorem EmitsItems.nil : EmitsItems [] :=
  fun hn htail => ⟨_, _, rfl, hn, htail, .refl _⟩

theorem EmitsEntries.nil : EmitsEntries [] :=
  fun hn htail => ⟨_, _, rfl, hn, htail, .refl _⟩

theorem EmitsBlock.of_isFlat (h : isFlat tree) (htree : IsPrintableTree tree) :
    EmitsBlock tree := by
  intro outer column indent n indents indentless allowed tail hplaced hn htail
  cases hplaced with
  | flat _ hcolumn => exact emits_flat h htree hcolumn hn htail
  | list | indentless | record => cases h

-- One case for each constructor; the induction hypotheses are what the lemmas above take.
mutual

theorem emitsBlock : ∀ tree, IsPrintableTree tree → EmitsBlock tree
  | .list (item :: rest), h =>
    EmitsBlock.list h.1 (emitsBlock item h.1) (emitsItems rest h.2)
  | .record ((_, value) :: rest), h =>
    EmitsBlock.record h.1 h.2.1 (emitsBlock value h.2.1) (emitsEntries rest h.2.2)
  | .null, h | .bool _, h | .number _, h | .text _, h | .list [], h | .record [], h =>
    EmitsBlock.of_isFlat rfl h

theorem emitsItems : ∀ items, ArePrintableItems items → EmitsItems items
  | [], _ => EmitsItems.nil
  | item :: rest, h => EmitsItems.cons h.1 (emitsBlock item h.1) (emitsItems rest h.2)

theorem emitsEntries : ∀ entries, ArePrintableEntries entries → EmitsEntries entries
  | [], _ => EmitsEntries.nil
  | (_, value) :: rest, h =>
    EmitsEntries.cons h.1 h.2.1 (emitsBlock value h.2.1) (emitsEntries rest h.2.2)

end

/-! The characters of a printed tree. -/

def IsLines (text : List Char) : Prop := ∀ c ∈ text, isPrintableAscii c ∨ c = '\n'

theorem IsLines.append {more : List Char} (h : IsLines text) (hmore : IsLines more) :
    IsLines (text ++ more) := by
  intro c hc
  rcases List.mem_append.mp hc with hc | hc
  · exact h c hc
  · exact hmore c hc

theorem IsPrintableAscii.isLines (h : IsPrintableAscii text) : IsLines text :=
  fun c hc => .inl (h c hc)

theorem isLines_newline : IsLines ['\n'] :=
  fun _ hc => .inr (List.mem_singleton.mp hc)

theorem isLines_endLine (h : IsPrintableAscii text) : IsLines (endLine text) := by
  rw [endLine_eq h]
  exact h.isLines.append isLines_newline

theorem isLines_valueGap (indent : Nat) (value : Tree) : IsLines (valueGap indent value) := by
  have hline : ∀ n, IsLines ('\n' :: spaces n) :=
    fun n => isLines_newline.append (IsPrintableAscii.spaces n).isLines
  have hspace : IsLines [' '] := (IsPrintableAscii.singleton (by decide)).isLines
  unfold valueGap
  split
  · exact hline indent
  · exact hline (indent + 2)
  · exact hspace

theorem isLines_keyPart (hkey : IsPrintableAscii key.toList) (indent : Nat) (value : Tree) :
    IsLines (keyPart indent key value) := by
  have hprinted := (prints_printedText hkey).ascii
  unfold keyPart
  rw [scalar_eq hkey]
  split
  · have hcolon : IsLines [':'] := (IsPrintableAscii.singleton (by decide)).isLines
    exact hprinted.isLines.append (hcolon.append (isLines_valueGap indent value))
  · have hquestion : IsPrintableAscii ['?', ' '] := by decide
    have hcolon : IsPrintableAscii [':', ' '] := by decide
    exact ((hquestion.isLines.append (isLines_endLine hprinted)).append
      (IsPrintableAscii.spaces indent).isLines).append hcolon.isLines

theorem isLines_of_isFlat (h : isFlat tree) (htree : IsPrintableTree tree) (indent : Nat) :
    IsLines (printBlock indent tree) := by
  rw [printBlock_of_isFlat h]
  obtain ⟨t, -, hprints⟩ | rfl | rfl := flat_cases false h htree indent
  · exact isLines_endLine hprints.ascii
  · exact isLines_endLine (show IsPrintableAscii ['[', ']'] by decide)
  · exact isLines_endLine (show IsPrintableAscii ['\x7b', '\x7d'] by decide)

mutual

theorem isLines_printBlock : ∀ (tree : Tree) (indent : Nat), IsPrintableTree tree →
    IsLines (printBlock indent tree)
  | .list (item :: rest), indent, h => by
    have hdash : IsPrintableAscii ['-', ' '] := by decide
    exact (hdash.isLines.append (isLines_printBlock item _ h.1)).append
      (isLines_printItems rest indent h.2)
  | .record ((key, value) :: rest), indent, h =>
    ((isLines_keyPart h.1 indent value).append (isLines_printBlock value _ h.2.1)).append
      (isLines_printEntries rest indent h.2.2)
  | .null, indent, h | .bool _, indent, h | .number _, indent, h | .text _, indent, h
  | .list [], indent, h | .record [], indent, h => isLines_of_isFlat rfl h indent

theorem isLines_printItems : ∀ (items : List Tree) (indent : Nat), ArePrintableItems items →
    IsLines (printItems indent items)
  | [], _, _ => nofun
  | item :: rest, indent, h => by
    have hdash : IsPrintableAscii ['-', ' '] := by decide
    have hitem := hdash.isLines.append (isLines_printBlock item (indent + 2) h.1)
    exact ((IsPrintableAscii.spaces indent).isLines.append hitem).append
      (isLines_printItems rest indent h.2)

theorem isLines_printEntries : ∀ (entries : List (String × Tree)) (indent : Nat),
    ArePrintableEntries entries → IsLines (printEntries indent entries)
  | [], _, _ => nofun
  | (_, value) :: rest, indent, h =>
    (((IsPrintableAscii.spaces indent).isLines.append (isLines_keyPart h.1 indent value)).append
      (isLines_printBlock value _ h.2.1)).append (isLines_printEntries rest indent h.2.2)

end

theorem isAllowed_of_isLines (h : IsLines text) : text.all isAllowed := by
  rw [List.all_eq_true]
  intro c hc
  have hprintable : isPrintable c := by
    rcases h c hc with hc | rfl
    · exact isPrintable_of_ascii hc
    · decide
  simp [isAllowed, hprintable]

theorem unifyBreaks_eq (h : IsLines text) : unifyBreaks text = text := by
  fun_induction unifyBreaks text with
  | case1 => rfl
  | case2 rest ih =>
    rcases h '\x0d' List.mem_cons_self with hc | hc <;> exact absurd hc (by decide)
  | case3 c rest _ ih =>
    have hreturn : c ≠ '\x0d' ∧ c ≠ '\x85' := by
      constructor <;> rintro rfl <;>
        rcases h _ List.mem_cons_self with hc | hc <;> exact absurd hc (by decide)
    have hrest : IsLines rest := fun d hd => h d (List.mem_cons_of_mem c hd)
    simp [hreturn, ih hrest]

/-! The whole text. -/

theorem emits_root {entry : String × Tree} {rest : List (String × Tree)}
    (h : IsPrintableTree (.record (entry :: rest))) :
    Emits ⟨0, printBlock 0 (.record (entry :: rest)), [], true⟩
      (blockTokens false (.record (entry :: rest))) ⟨0, [], [], true⟩ := by
  obtain ⟨key, value⟩ := entry
  obtain ⟨hkey, hvalue, hrest⟩ := h
  have hindents : ∀ i ∈ ([] : List Nat).head?, i ≤ 0 := nofun
  have hrecord := emits_record hkey hvalue (emitsBlock value hvalue) (emitsEntries rest hrest)
    hindents (Nat.le_refl 0) isFront_nil
  have hroot := hrecord.trans (emits_close (.inl rfl))
  rwa [show spaces 0 ++ [] = [] from rfl, List.append_nil] at hroot

theorem scan_eq {tokens : List Token} (hfront : IsFront text)
    (h : Emits ⟨0, text, [], true⟩ tokens ⟨0, [], [], true⟩) :
    (Layout.scan (text.length + 1) { cursor := { rest := text } }).map (fun found =>
      (settle found).1) = some tokens := by
  obtain ⟨found, last, hlast, hleads, hsettles⟩ :=
    h { cursor := { rest := text } } ⟨rfl, rfl, rfl, rfl, rfl⟩
  have harrives : Layout.Arrives { cursor := { rest := text } } { cursor := { rest := text } } :=
    Layout.arrives_self hfront fun k hk => by simp at hk
  obtain ⟨left, -, heq⟩ := hleads text.length (Nat.le_refl _)
  have hend : Layout.resume left last = some [] := by
    obtain ⟨index, line, count, rfl⟩ := hlast.exists_eq
    rfl
  have hsettle := hsettles [] rfl
  rw [Layout.scan_succ harrives, heq, hend]
  simp only [Option.map_some, hsettle]
  rw [settle, List.append_nil]

theorem tokens?_print {entry : String × Tree} {rest : List (String × Tree)}
    (h : IsPrintableTree (.record (entry :: rest))) :
    tokens? (print (.record (entry :: rest))) =
      some (blockTokens false (.record (entry :: rest))) := by
  have hlines := isLines_printBlock _ 0 h
  have hfront := isFront_printBlock h 0 []
  rw [List.append_nil] at hfront
  rw [tokens?, print, String.toList_ofList, isAllowed_of_isLines hlines, if_pos rfl,
    unifyBreaks_eq hlines, scan_eq hfront (emits_root h)]

end Groovebox.Yaml

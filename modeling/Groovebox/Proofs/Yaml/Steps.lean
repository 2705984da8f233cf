import Groovebox.Proofs.Yaml.Layouts

/-! The steps between tokens: blocks that end, marks that open them, scalars, empty brackets
and keys. -/

namespace Groovebox.Yaml

variable {s : Layout} {column indent n : Nat} {text more tail ending : List Char}
  {indents : List Nat} {allowed : Bool}

/-! A block ends where the text ends or goes on further out. -/

theorem closeBlocks_cons (hs : s.IsAt ⟨column, text, indent :: indents, allowed⟩)
    (hlt : column < indent) :
    s.closeBlocks s.cursor.column =
      (.token .blockEnd :: ({ s with indents }.closeBlocks s.cursor.column).1,
        ({ s with indents }.closeBlocks s.cursor.column).2) := by
  obtain ⟨index, line, count, rfl⟩ := hs.exists_eq
  simp [Layout.closeBlocks, Layout.inFlow, hlt]

theorem emits_close (hclose : text = [] ∨ column < indent) :
    Emits ⟨column, text, indent :: indents, allowed⟩ [.blockEnd]
      ⟨column, text, indents, allowed⟩ := by
  intro s hs
  refine ⟨[.token .blockEnd], { s with indents },
    ⟨hs.rest, hs.column, rfl, hs.keyAllowed, hs.candidates⟩, ?_, settles_token _⟩
  intro fuel hfuel
  refine ⟨fuel, hfuel, ?_⟩
  cases text with
  | nil =>
    obtain ⟨index, line, count, rfl⟩ := hs.exists_eq
    rfl
  | cons c text =>
    have hrest : s.cursor.rest = c :: text := hs.rest
    have hlt : column < indent := hclose.resolve_left (List.cons_ne_nil c text)
    simp only [Layout.resume, hrest, closeBlocks_cons hs hlt]
    cases ({ s with indents }.closeBlocks s.cursor.column).2.fetch c with
    | none => rfl
    | some result =>
      simp only [Option.bind_eq_bind, Option.bind_some]
      cases Layout.scan fuel result.2 <;> rfl

/-- What a token that needs a block at its column opens. -/
def opening (token : Token) (column : Nat) (indents : List Nat) : List Token :=
  if indents.head?.all (· < column) then [token] else []

def opened (column : Nat) (indents : List Nat) : List Nat :=
  if indents.head?.all (· < column) then column :: indents else indents

theorem closeBlocks_eq (h : ∀ i ∈ s.indents.head?, i ≤ s.cursor.column) :
    s.closeBlocks s.cursor.column = ([], s) := by
  have hnone : s.indents.takeWhile (s.cursor.column < ·) = [] := by
    cases hindents : s.indents with
    | nil => rfl
    | cons i rest =>
      have hle := h i (by rw [hindents]; rfl)
      simp [Nat.not_lt.mpr hle]
  rw [Layout.closeBlocks, hnone]
  split <;> rfl

theorem openBlock_eq {p : Spot} (hs : s.IsAt p) (token : Token) :
    s.openBlock token = ((opening token p.column p.indents).map .token,
      { s with indents := opened p.column p.indents }) := by
  rw [Layout.openBlock, Layout.inFlow_eq_false hs.candidates, Layout.isDeeper, hs.indents,
    hs.column, opening, opened, ← hs.indents]
  split <;> simp_all

/-- A mark with a blank behind it that opens a block where it may stand. -/
theorem emits_indicator {mark : Char} {block token : Token} (hmore : IsFront more)
    (hindents : ∀ i ∈ indents.head?, i ≤ column) (hmark : isPrintableAscii mark)
    (hfetch : ∀ s : Layout, s.IsAt ⟨column, mark :: ' ' :: more, indents, true⟩ →
      s.fetch mark = s.indicator block token true) :
    Emits ⟨column, mark :: ' ' :: more, indents, true⟩
      (opening block column indents ++ [token])
      ⟨column + 2, more, opened column indents, true⟩ := by
  intro s hs
  have hskip : s.cursor.skip 1 = ⟨' ' :: more, s.cursor.index + 1, s.cursor.line, column + 1⟩ := by
    have hlength := skip_length (.singleton hmark) hs.rest
    rwa [hs.column] at hlength
  have hindicator : s.indicator block token true =
      some ((opening block column indents).map .token ++ [.token token],
        { s with
          cursor := s.cursor.skip 1, indents := opened column indents, keyAllowed := true }) := by
    have hallowed : s.keyAllowed = true := hs.keyAllowed
    rw [Layout.indicator, openBlock_eq hs]
    simp [hallowed, Layout.andThen, Layout.dropCandidate, hs.candidates, Layout.accept]
  obtain ⟨next, harrives, hnext⟩ := Layout.arrives_spaces
    (s := { s with
      cursor := s.cursor.skip 1, indents := opened column indents, keyAllowed := true })
    (n := 1) (congrArg Cursor.rest hskip) hmore (.inl hs.candidates)
  have hcolumn : (s.cursor.skip 1).column + 1 = column + 2 := by rw [hskip]
  refine ⟨_, next, hcolumn ▸ hnext, ?_, (settles_tokens _).append (settles_token token)⟩
  refine Layout.leads_of_fetch hs.rest (closeBlocks_eq (hs.indents_le hindents))
    ((hfetch s hs).trans hindicator) harrives ?_
  rw [hnext.rest, List.length_cons]
  exact Nat.le_succ _

theorem emits_dash (hmore : IsFront more) (hindents : ∀ i ∈ indents.head?, i ≤ column) :
    Emits ⟨column, '-' :: ' ' :: more, indents, true⟩
      (opening .blockSequence column indents ++ [.blockEntry])
      ⟨column + 2, more, opened column indents, true⟩ := by
  refine emits_indicator hmore hindents (by decide) fun s hs => ?_
  obtain ⟨index, line, count, rfl⟩ := hs.exists_eq
  simp [Layout.fetch, Cursor.isAtMark, Cursor.isBlankAt, isBlankOrEnd]

theorem emits_question (hmore : IsFront more) (hindents : ∀ i ∈ indents.head?, i ≤ column) :
    Emits ⟨column, '?' :: ' ' :: more, indents, true⟩
      (opening .blockMapping column indents ++ [.key])
      ⟨column + 2, more, opened column indents, true⟩ := by
  refine emits_indicator hmore hindents (by decide) fun s hs => ?_
  obtain ⟨index, line, count, rfl⟩ := hs.exists_eq
  simp [Layout.fetch, Cursor.isAtMark, Cursor.isBlankAt, isBlankOrEnd, Layout.inFlow]

theorem emits_colon (hmore : IsFront more) :
    Emits ⟨column, ':' :: ' ' :: more, column :: indents, true⟩ [.value]
      ⟨column + 2, more, column :: indents, true⟩ := by
  have hopening : opening .blockMapping column (column :: indents) ++ [.value] = [.value] := by
    simp [opening]
  have hopened : opened column (column :: indents) = column :: indents := by simp [opened]
  have hemits : Emits ⟨column, ':' :: ' ' :: more, column :: indents, true⟩
      (opening .blockMapping column (column :: indents) ++ [.value])
      ⟨column + 2, more, opened column (column :: indents), true⟩ := by
    refine emits_indicator hmore (by simp) (by decide) fun s hs => ?_
    obtain ⟨index, line, count, rfl⟩ := hs.exists_eq
    simp [Layout.fetch, Cursor.isAtMark, Cursor.isBlankAt, isBlankOrEnd, Layout.inFlow,
      Layout.colon, Layout.indicator, Layout.openBlock, Layout.isDeeper, Layout.andThen,
      Layout.dropCandidate, Layout.accept]
  rwa [hopening, hopened] at hemits

/-! A scalar may be a key where one may begin. -/

def noted (s : Layout) : List Found × Layout :=
  if s.keyAllowed then
    ([.candidate s.count], { s with
      candidates := [some ⟨s.count, s.indents.head? = some s.cursor.column, s.cursor.index,
        s.cursor.line, s.cursor.column⟩]
      count := s.count + 1 })
  else ([], s)

theorem noteCandidate_eq {p : Spot} (hs : s.IsAt p) : s.noteCandidate = some (noted s) := by
  obtain ⟨index, line, count, rfl⟩ := hs.exists_eq
  cases p.keyAllowed <;> rfl

theorem noted_cursor (s : Layout) : (noted s).2.cursor = s.cursor := by
  unfold noted
  split <;> rfl

theorem noted_indents (s : Layout) : (noted s).2.indents = s.indents := by
  unfold noted
  split <;> rfl

theorem noted_inFlow {p : Spot} (hs : s.IsAt p) : (noted s).2.inFlow = false := by
  obtain ⟨index, line, count, rfl⟩ := hs.exists_eq
  cases p.keyAllowed <;> rfl

/-- Where the lines of a plain scalar stand at least. -/
def innerIndent (indents : List Nat) : Nat := (indents.head?.map (· + 1)).getD 0

theorem innerIndent_le (h : ∀ i ∈ indents.head?, i ≤ column) :
    innerIndent indents ≤ column + 1 := by
  unfold innerIndent
  cases indents with
  | nil => exact Nat.zero_le _
  | cons i indents => exact Nat.succ_le_succ (h i rfl)

theorem head?_of_endsPlain {behind : List Char} (h : EndsPlain indent ending behind) :
    ending.head? = some ':' ∨ ending.head? = some '\n' := by
  cases h with
  | value => exact .inl rfl
  | line => exact .inr rfl

theorem isAtMark_eq_false_of_plain {mark : Char} {cursor : Cursor} {behind : List Char}
    (h : isMarked text = false) (hending : EndsPlain indent ending behind)
    (hrest : cursor.rest = text ++ ending) (hmark : mark ∈ ['-', '.']) :
    cursor.isAtMark mark = false := by
  have htake : (text ++ ending).take 3 ≠ [mark, mark, mark] := by
    by_cases hlength : 3 ≤ text.length
    · rw [List.take_append_of_le_length hlength]
      simp only [isMarked, Bool.or_eq_false_iff, decide_eq_false_iff_not] at h
      rcases List.mem_pair.mp hmark with rfl | rfl
      · exact h.1
      · exact h.2
    · have hhead : ∀ c ∈ ending.head?, c ≠ mark := by
        rcases List.mem_pair.mp hmark with rfl | rfl <;>
          rcases head?_of_endsPlain hending with hhead | hhead <;> rw [hhead] <;> simp
      cases ending with
      | nil => rcases head?_of_endsPlain hending with hhead | hhead <;> cases hhead
      | cons c ending =>
        intro htake
        have hat : ((text ++ c :: ending).take 3)[text.length]? = some c := by
          rw [List.getElem?_take_of_lt (Nat.not_le.mp hlength),
            List.getElem?_append_right (Nat.le_refl _), Nat.sub_self]
          rfl
        rw [htake] at hat
        have hmark : c = mark := by simpa using List.mem_of_getElem? hat
        exact hhead c rfl hmark
  simp only [Cursor.isAtMark, hrest, htake, decide_false, Bool.and_false, Bool.false_and]

theorem IsPlain.not_mem_openers {c : Char} (h : IsPlain (c :: text)) : c ∉ openers := by
  have hstart := h.start
  simp only [isPlainStart, Bool.and_eq_true, decide_eq_true_eq] at hstart
  exact hstart.1

/-- A plain scalar that begins with a mark goes on behind it. -/
theorem exists_second {c : Char} (h : IsPlain (c :: text)) (hc : c ∈ ['-', '?', ':']) :
    ∃ d tail, text = d :: tail ∧ isBlankOrEnd (some d) = false := by
  have hstart := h.start
  have hinside := h.inside
  simp only [isPlainStart, Bool.and_eq_true, Bool.not_eq_true', Bool.and_eq_false_iff] at hstart
  simp only [isPlainInside, Bool.and_eq_true, Bool.not_eq_true', Bool.and_eq_false_iff] at hinside
  have hhead : isBlankOrEnd text.head? = false := by
    by_cases hcolon : c = ':'
    · exact hinside.1.1.resolve_left (by simp [hcolon])
    · have hmark : c = '-' ∨ c = '?' := by simpa [hcolon] using hc
      exact hstart.2.resolve_left (by rcases hmark with rfl | rfl <;> decide)
  cases text with
  | nil => cases hhead
  | cons d tail => exact ⟨d, tail, rfl, hhead⟩

theorem isPlainFirst_of_isPlain {c : Char} (h : IsPlain (c :: text)) (hflow : s.inFlow = false)
    (hrest : s.cursor.rest = c :: text ++ ending) : s.isPlainFirst c := by
  by_cases hc : c ∈ ['-', '?', ':']
  · obtain ⟨d, tail, rfl, hd⟩ := exists_second h hc
    have hblank : isBlank d = false := by
      simp only [isBlankOrEnd, Bool.or_eq_false_iff] at hd
      simp only [isBlank, Bool.or_eq_false_iff]
      exact ⟨hd.1.1.1, hd.1.1.2⟩
    have hsecond : s.cursor.rest[1]? = some d := by simp [hrest]
    simp only [List.mem_cons, List.not_mem_nil, or_false] at hc
    rcases hc with rfl | rfl | rfl <;> simp [Layout.isPlainFirst, hsecond, hblank, hd, hflow]
  · have hascii : isPrintableAscii c := h.ascii c List.mem_cons_self
    have hgap := isGap_eq_false hascii (by simpa using h.head_ne)
    have hnull : c ≠ '\x00' := by
      rintro rfl
      exact absurd hascii (by decide)
    have hblank : isBlankOrEnd (some c) = false := by
      simp only [isGap, isBlank, Bool.or_eq_false_iff] at hgap
      simp [isBlankOrEnd, hgap, hnull]
    have hmark : c ∉ ['-', '?', ':', ',', '[', ']', '\x7b', '\x7d', '#', '&', '*', '!', '|', '>',
        '\'', '"', '%', '@', '\x60'] := by
      have hmarks : ['-', '?', ':', ',', '[', ']', '\x7b', '\x7d', '#', '&', '*', '!', '|', '>',
          '\'', '"', '%', '@', '\x60'] ⊆ openers ++ ['-', '?', ':'] := by decide
      exact fun hm => (List.mem_append.mp (hmarks hm)).elim h.not_mem_openers hc
    rw [Layout.isPlainFirst, hblank, decide_eq_true hmark]
    rfl

theorem fetch_of_isPlain {c : Char} {behind : List Char} (h : IsPlain (c :: text))
    (hs : s.IsAt ⟨column, c :: text ++ ending, indents, allowed⟩)
    (hending : EndsPlain indent ending behind) : s.fetch c = s.plain := by
  have hdash := isAtMark_eq_false_of_plain h.unmarked hending hs.rest (show '-' ∈ _ by decide)
  have hdot := isAtMark_eq_false_of_plain h.unmarked hending hs.rest (show '.' ∈ _ by decide)
  have hflow := Layout.inFlow_eq_false hs.candidates
  have hmark : ∀ d ∈ ['-', '?', ':'], (decide (c = d) && s.cursor.isBlankAt 1) = false := by
    intro d hd
    by_cases hc : c = d
    · subst d
      obtain ⟨d, tail, rfl, hblank⟩ := exists_second h hd
      have hrest : s.cursor.rest = c :: d :: (tail ++ ending) := hs.rest
      simpa [Cursor.isBlankAt, hrest] using hblank
    · simp [hc]
  have hne : ∀ d ∈ openers, c ≠ d := by
    rintro d hd rfl
    exact h.not_mem_openers hd
  have hfirst := isPlainFirst_of_isPlain h hflow hs.rest
  simp only [Layout.fetch, hdash, hdot, hflow, hmark '-' (by decide), hmark '?' (by decide),
    hmark ':' (by decide), hne '%' (by decide), hne '[' (by decide), hne ']' (by decide),
    hne '\x7b' (by decide), hne '\x7d' (by decide), hne ',' (by decide), hne '*' (by decide),
    hne '&' (by decide), hne '!' (by decide), hne '|' (by decide), hne '>' (by decide),
    hne '\'' (by decide), hne '"' (by decide), hfirst, decide_false, Bool.and_false,
    Bool.false_and, Bool.false_or, Bool.false_eq_true, if_false, if_true]

theorem plain_eq {behind : List Char} (h : IsPlain text)
    (hs : s.IsAt ⟨column, text ++ ending, indents, allowed⟩)
    (hindents : ∀ i ∈ indents.head?, i ≤ column)
    (hending : EndsPlain (innerIndent indents) ending behind) :
    s.plain = some ((noted s).1 ++ [.token (.scalar .plain (String.ofList text))],
      { (noted s).2 with
        cursor := s.cursor.skip (text.length + behind.length)
        keyAllowed := behind.any isBreak }) := by
  have hdash := isAtMark_eq_false_of_plain h.unmarked hending hs.rest (show '-' ∈ _ by decide)
  have hdot := isAtMark_eq_false_of_plain h.unmarked hending hs.rest (show '.' ∈ _ by decide)
  have hboundary : s.cursor.isAtBoundary = false := by rw [Cursor.isAtBoundary, hdash, hdot]; rfl
  have hfuel : text.length < s.cursor.rest.length + 1 := by
    rw [hs.rest, List.length_append]
    omega
  have hindent : innerIndent indents ≤ s.cursor.column + 1 := by
    rw [hs.column]
    exact innerIndent_le hindents
  have hread := readPlain_append [] h.toIsPlainFrom rfl hending hfuel hboundary hindent hs.rest
  rw [innerIndent] at hread
  rw [Layout.plain, noteCandidate_eq hs]
  simp only [Layout.andThen, Option.bind_eq_bind, Option.bind_some, noted_cursor, noted_indents,
    noted_inFlow hs, hs.indents, hread]
  rfl

theorem quoted_eq (h : IsPrintableAscii text)
    (hs : s.IsAt ⟨column, betweenQuotes text ++ ending, indents, allowed⟩)
    (hending : ending.head? ≠ some '\'') :
    s.quoted '\'' = some ((noted s).1 ++ [.token (.scalar .quoted (String.ofList text))],
      { (noted s).2 with
        cursor := s.cursor.skip (betweenQuotes text).length
        keyAllowed := false }) := by
  have hrest : s.cursor.rest = ['\''] ++ (text.flatMap doubled ++ '\'' :: ending) := by
    rw [hs.rest, betweenQuotes]
    simp
  have hnext : s.cursor.next = _ := skip_length (.singleton (by decide)) hrest
  have hfuel : text.length < s.cursor.rest.length + 1 := by
    have hle := le_length_doubled text
    rw [hrest, List.length_append, List.length_append]
    omega
  have hread := readQuoted_doubled h hfuel (by rw [hnext]; exact Nat.succ_ne_zero _)
    (congrArg Cursor.rest hnext) hending
  have hskip : s.cursor.next.skip ((text.flatMap doubled).length + 1) =
      s.cursor.skip (betweenQuotes text).length := by
    rw [betweenQuotes, List.length_append, List.length_cons, List.length_singleton]
    rfl
  rw [Layout.quoted, Layout.keyToken, noteCandidate_eq hs]
  simp only [Layout.andThen, Option.bind_eq_bind, Option.bind_some, noted_cursor, hread, hskip,
    Option.map_some]
  rfl

/-- The scalar is read up to its end, or past the gap behind it. -/
theorem fetch_of_prints {t : Token} {behind : List Char} (h : Prints text t)
    (hs : s.IsAt ⟨column, text ++ ending, indents, allowed⟩)
    (hindents : ∀ i ∈ indents.head?, i ≤ column)
    (hending : EndsPlain (innerIndent indents) ending behind) :
    ∃ c tail passed, text = c :: tail ∧ (passed = [] ∨ passed = behind) ∧
      s.fetch c = some ((noted s).1 ++ [.token t],
        { (noted s).2 with
          cursor := s.cursor.skip (text.length + passed.length)
          keyAllowed := passed.any isBreak }) := by
  cases h with
  | plain hplain =>
    obtain ⟨c, tail, rfl⟩ := List.exists_cons_of_ne_nil hplain.ne_nil
    refine ⟨c, tail, behind, rfl, .inr rfl, ?_⟩
    rw [fetch_of_isPlain hplain hs hending, plain_eq hplain hs hindents hending]
  | @quoted text htext =>
    refine ⟨'\'', text.flatMap doubled ++ ['\''], [], rfl, .inl rfl, ?_⟩
    have hquote : ending.head? ≠ some '\'' := by
      rcases head?_of_endsPlain hending with hhead | hhead <;> rw [hhead] <;> decide
    have hfetch : s.fetch '\'' = s.quoted '\'' := by
      obtain ⟨index, line, count, rfl⟩ := hs.exists_eq
      simp [Layout.fetch, betweenQuotes, Cursor.isAtMark, Layout.inFlow]
    rw [hfetch, quoted_eq htext hs hquote]
    rfl

theorem settles_noted (s : Layout) : Settles (noted s).1 [] := by
  unfold noted
  split
  · exact settles_candidate s.count
  · exact settles_nil

/-- What was noted right of the innermost block is dropped on a later line. -/
theorem isDroppable_noted {p : Spot} (hs : s.IsAt p) (hindents : p.indents.head? ≠ some p.column)
    {cursor : Cursor} (hline : s.cursor.line < cursor.line) (allowed : Bool) :
    { (noted s).2 with cursor, keyAllowed := allowed : Layout }.IsDroppable := by
  obtain ⟨index, line, count, rfl⟩ := hs.exists_eq
  unfold noted
  split
  · exact .inr ⟨_, rfl, decide_eq_false hindents, hline⟩
  · exact .inl rfl

theorem arrives_noted_line {p : Spot} (hs : s.IsAt p) (hindents : p.indents.head? ≠ some p.column)
    {cursor : Cursor} (hrest : cursor.rest = '\n' :: spaces n ++ tail)
    (hline : cursor.line = s.cursor.line) (htail : IsFront tail) (allowed : Bool) :
    ∃ next : Layout, Layout.Arrives { (noted s).2 with cursor, keyAllowed := allowed } next ∧
      next.IsAt ⟨n, tail, p.indents, true⟩ := by
  have hskip := skip_line hrest
  rw [← hs.indents, ← noted_indents s]
  refine Layout.arrives_line hrest htail (isDroppable_noted hs hindents ?_ true)
  rw [show (cursor.skip (n + 1)).line = cursor.line + 1 from congrArg Cursor.line hskip, hline]
  exact Nat.lt_succ_self _

theorem arrives_noted_front {p : Spot} (hs : s.IsAt p) (hindents : p.indents.head? ≠ some p.column)
    {cursor : Cursor} (hrest : cursor.rest = tail) (hline : s.cursor.line < cursor.line)
    (htail : IsFront tail) :
    ∃ next : Layout, Layout.Arrives { (noted s).2 with cursor, keyAllowed := true } next ∧
      next.IsAt ⟨cursor.column, tail, p.indents, true⟩ := by
  rw [← hs.indents, ← noted_indents s]
  exact Layout.arrives_spaces (n := 0) hrest htail (isDroppable_noted hs hindents hline true)

theorem isGap_of_isFront (h : IsFront tail) : ∀ c ∈ tail.head?, isGap c = false :=
  fun c hc => isGap_eq_false (h c hc).1 (h c hc).2.1

theorem emits_scalar {t : Token} (h : Prints text t) (hcolumn : indent < column)
    (hn : n ≤ indent) (htail : IsFront tail) :
    Emits ⟨column, text ++ ('\n' :: spaces n ++ tail), indent :: indents, allowed⟩ [t]
      ⟨n, tail, indent :: indents, true⟩ := by
  intro s hs
  have hindents : ∀ i ∈ (indent :: indents).head?, i ≤ column := by
    rintro _ ⟨⟩
    exact Nat.le_of_lt hcolumn
  have hne : (indent :: indents).head? ≠ some column := fun heq => by
    have hindent := Option.some.inj heq
    omega
  have hending : EndsPlain (innerIndent (indent :: indents)) ('\n' :: spaces n ++ tail)
      ('\n' :: spaces n) := .line (Nat.lt_succ_of_le hn) (isGap_of_isFront htail)
  obtain ⟨c, more, passed, rfl, hpassed, hfetch⟩ := fetch_of_prints h hs hindents hending
  have hskip := skip_length h.ascii hs.rest
  have hline := skip_line (congrArg Cursor.rest hskip)
  have hfound : Settles ((noted s).1 ++ [.token t]) [t] :=
    (settles_noted s).append (settles_token t)
  have harrives : ∃ next : Layout, Layout.Arrives { (noted s).2 with
      cursor := s.cursor.skip ((c :: more).length + passed.length)
      keyAllowed := passed.any isBreak } next ∧ next.IsAt ⟨n, tail, indent :: indents, true⟩ := by
    rcases hpassed with rfl | rfl
    · have hsame : (s.cursor.skip (c :: more).length).line = s.cursor.line := by rw [hskip]
      exact arrives_noted_line hs hne (congrArg Cursor.rest hskip) hsame htail _
    · have hbehind : s.cursor.skip ((c :: more).length + ('\n' :: spaces n).length) =
          ⟨tail, s.cursor.index + (c :: more).length + 1 + n, s.cursor.line + 1, n⟩ := by
        rw [skip_add, List.length_cons (a := '\n'), spaces, List.length_replicate, hline, hskip]
      have hfront := arrives_noted_front hs hne (congrArg Cursor.rest hbehind)
        (by rw [hbehind]; exact Nat.lt_succ_self _) htail
      rwa [hbehind] at hfront ⊢
  obtain ⟨next, harrives, hnext⟩ := harrives
  refine ⟨_, next, hnext, ?_, hfound⟩
  refine Layout.leads_of_fetch hs.rest (closeBlocks_eq (hs.indents_le hindents)) hfetch harrives ?_
  rw [hnext.rest]
  show tail.length ≤ (more ++ ('\n' :: spaces n ++ tail)).length
  simp only [List.length_append]
  omega

theorem exists_noted_candidates {p : Spot} (hs : s.IsAt p) :
    ∃ k, (noted s).2.candidates = [k] := by
  unfold noted
  split
  · exact ⟨_, rfl⟩
  · exact ⟨none, hs.candidates⟩

theorem fresh_noted {p : Spot} (hs : s.IsAt p) {k : Candidate}
    (h : some k ∈ (noted s).2.candidates) : k.line = s.cursor.line ∧ k.index = s.cursor.index := by
  have hnone := hs.candidates
  unfold noted at h
  split at h
  · obtain rfl : k = _ := by simpa using h
    exact ⟨rfl, rfl⟩
  · simp [hnone] at h

theorem closeBracket_eq {candidates : List (Option Candidate)} (token : Token)
    (hflow : s.inFlow = true) (h : s.candidates = none :: candidates) :
    s.closeBracket token = some ([.token token],
      { s with cursor := s.cursor.skip 1, candidates, keyAllowed := false }) := by
  simp [Layout.closeBracket, Layout.dropCandidate, h, hflow, Layout.accept]

theorem emits_brackets {first last : Char} {opens closes : Token}
    (hfirst : ∀ s : Layout, s.IsAt ⟨column, [first, last] ++ ('\n' :: spaces n ++ tail),
      indent :: indents, allowed⟩ → s.fetch first = s.openBracket opens)
    (hlast : ∀ s : Layout, s.cursor.rest = [last] ++ ('\n' :: spaces n ++ tail) →
      s.fetch last = s.closeBracket closes)
    (hascii : IsPrintableAscii [first, last]) (hfront : last ≠ ' ' ∧ last ≠ '#')
    (hcolumn : indent < column) (htail : IsFront tail) :
    Emits ⟨column, [first, last] ++ ('\n' :: spaces n ++ tail), indent :: indents, allowed⟩
      [opens, closes] ⟨n, tail, indent :: indents, true⟩ := by
  intro s hs
  have hone := skip_length (.singleton (hascii first (by simp))) hs.rest
  have htwo := skip_length hascii hs.rest
  let inside : Layout := { (noted s).2 with
    cursor := s.cursor.skip 1, candidates := none :: (noted s).2.candidates, keyAllowed := true }
  have hinside : inside.cursor.rest = [last] ++ ('\n' :: spaces n ++ tail) :=
    congrArg Cursor.rest hone
  have hopen : s.fetch first = some ((noted s).1 ++ [.token opens], inside) := by
    rw [hfirst s hs, Layout.openBracket, noteCandidate_eq hs]
    simp only [Layout.andThen, Option.bind_eq_bind, Option.bind_some, Layout.accept, noted_cursor]
    rfl
  have hstay : inside.Arrives inside := by
    refine Layout.arrives_self ?_ fun k hk => ?_
    · rw [hinside]
      rintro _ ⟨⟩
      exact ⟨hascii last (by simp), hfront⟩
    · have hm : some k ∈ (noted s).2.candidates := (List.mem_cons.mp hk).resolve_left nofun
      obtain ⟨hline, hindex⟩ := fresh_noted hs hm
      have hcursor : inside.cursor = _ := hone
      rw [hline, hindex, hcursor]
      exact ⟨Nat.le_refl _, Nat.add_le_add_left (show 1 ≤ 1024 by decide) _⟩
  have hflow : inside.inFlow = true := by
    obtain ⟨k, hk⟩ := exists_noted_candidates hs
    simp [Layout.inFlow, inside, hk]
  -- inside of brackets no block closes, and the second bracket is found at once
  have hclose : inside.fetch last = some ([.token closes],
      { (noted s).2 with cursor := s.cursor.skip 2, keyAllowed := false }) := by
    rw [hlast inside hinside, closeBracket_eq closes hflow rfl]
    rfl
  have hne : (indent :: indents).head? ≠ some column := fun heq => by
    have hindent := Option.some.inj heq
    omega
  have hsame : (s.cursor.skip 2).line = s.cursor.line := by
    rw [show s.cursor.skip 2 = _ from htwo]
  obtain ⟨next, harrives, hnext⟩ :=
    arrives_noted_line hs hne (congrArg Cursor.rest htwo) hsame htail false
  refine ⟨_, next, hnext, ?_,
    ((settles_noted s).append (settles_token opens)).append (settles_token closes)⟩
  have hindents : ∀ i ∈ (indent :: indents).head?, i ≤ column := by
    rintro _ ⟨⟩
    exact Nat.le_of_lt hcolumn
  have hopenFlow : inside.closeBlocks inside.cursor.column = ([], inside) := by
    rw [Layout.closeBlocks, hflow]
    rfl
  refine (Layout.leads_of_fetch hs.rest (closeBlocks_eq (hs.indents_le hindents)) hopen hstay
    ?_).trans (Layout.leads_of_fetch hinside hopenFlow hclose harrives ?_)
  · rw [hinside]
    exact Nat.le_refl _
  · rw [hnext.rest]
    show tail.length ≤ ('\n' :: spaces n ++ tail).length
    simp only [List.length_append]
    omega

theorem emits_emptyList (hcolumn : indent < column) (htail : IsFront tail) :
    Emits ⟨column, ['[', ']'] ++ ('\n' :: spaces n ++ tail), indent :: indents, allowed⟩
      [.flowSequence, .flowSequenceEnd] ⟨n, tail, indent :: indents, true⟩ := by
  refine emits_brackets (fun s hs => ?_) (fun s hrest => ?_)
    (by decide) (by decide) hcolumn htail
  · obtain ⟨index, line, count, rfl⟩ := hs.exists_eq
    simp [Layout.fetch, Cursor.isAtMark]
  · simp [Layout.fetch, Cursor.isAtMark, hrest]

theorem emits_emptyRecord (hcolumn : indent < column) (htail : IsFront tail) :
    Emits ⟨column, ['\x7b', '\x7d'] ++ ('\n' :: spaces n ++ tail), indent :: indents, allowed⟩
      [.flowMapping, .flowMappingEnd] ⟨n, tail, indent :: indents, true⟩ := by
  refine emits_brackets (fun s hs => ?_) (fun s hrest => ?_)
    (by decide) (by decide) hcolumn htail
  · obtain ⟨index, line, count, rfl⟩ := hs.exists_eq
    simp [Layout.fetch, Cursor.isAtMark]
  · simp [Layout.fetch, Cursor.isAtMark, hrest]

theorem fetch_colon (hrest : s.cursor.rest = ':' :: more) (hblank : isBlankOrEnd more.head?) :
    s.fetch ':' = s.colon := by
  have hsecond : s.cursor.isBlankAt 1 = true := by
    cases more with
    | nil => simp [Cursor.isBlankAt, hrest, isBlankOrEnd]
    | cons d more => simpa [Cursor.isBlankAt, hrest] using hblank
  simp [Layout.fetch, hsecond, Cursor.isAtMark, hrest]

/-- A colon confirms that the scalar before it was a key. -/
theorem colon_eq {k : Candidate} (h : s.candidates = [some k]) :
    s.colon = some ([.confirmed k.number (s.indents.head?.all (· < k.column)), .token .value],
      { s with
        cursor := s.cursor.skip 1, indents := opened k.column s.indents
        candidates := [none], keyAllowed := false }) := by
  have hflow : s.inFlow = false := Layout.inFlow_eq_false h
  simp [Layout.colon, h, hflow, Layout.isDeeper, Layout.andThen, Layout.accept, opened]

/-- A key with its colon. The layout behind them has not come to its next token yet. -/
theorem exists_behind_key {t : Token} (h : Prints text t) (hlength : text.length ≤ 1024)
    (hs : s.IsAt ⟨column, text ++ ':' :: more, indents, true⟩)
    (hindents : ∀ i ∈ indents.head?, i ≤ column) (hblank : isBlankOrEnd more.head?) :
    ∃ found, ∃ behind : Layout,
      behind.IsAt ⟨column + text.length + 1, more, opened column indents, false⟩ ∧
        Settles found (opening .blockMapping column indents ++ [.key, t, .value]) ∧
          ∀ next : Layout, behind.Arrives next → next.cursor.rest.length ≤ more.length →
            s.Leads found next := by
  obtain ⟨c, tail, passed, rfl, hpassed, hfetch⟩ :=
    fetch_of_prints h hs hindents (.value hblank)
  obtain rfl : passed = [] := or_self_iff.mp hpassed
  have hskip := skip_length h.ascii hs.rest
  have hallowed : s.keyAllowed = true := hs.keyAllowed
  let k : Candidate := ⟨s.count, s.indents.head? = some s.cursor.column, s.cursor.index,
    s.cursor.line, s.cursor.column⟩
  let middle : Layout := { s with
    cursor := s.cursor.skip (c :: tail).length, candidates := [some k], keyAllowed := false
    count := s.count + 1 }
  have hscalar : s.fetch c = some ([.candidate s.count, .token t], middle) := by
    rw [hfetch, noted, hallowed]
    rfl
  have hcursor : middle.cursor = _ := hskip
  have hmiddle : middle.cursor.rest = ':' :: more := congrArg Cursor.rest hskip
  have hstay : middle.Arrives middle := by
    refine Layout.arrives_self ?_ fun k' hk' => ?_
    · rw [hmiddle]
      rintro _ ⟨⟩
      decide
    · obtain rfl : k' = k := by simpa [middle] using hk'
      rw [hcursor]
      exact ⟨Nat.le_refl _, Nat.add_le_add_left hlength _⟩
  have hcolon := (fetch_colon hmiddle hblank).trans (colon_eq (k := k) rfl)
  have hbehind : middle.cursor.skip 1 =
      ⟨more, s.cursor.index + (c :: tail).length + 1, s.cursor.line,
        column + (c :: tail).length + 1⟩ := by
    rw [hcursor, hs.column]
    rfl
  refine ⟨_, _, ⟨congrArg Cursor.rest hbehind, congrArg Cursor.column hbehind, ?_, rfl, rfl⟩, ?_,
    fun next harrives hle => (Layout.leads_of_fetch hs.rest
      (closeBlocks_eq (hs.indents_le hindents)) hscalar hstay ?_).trans
      (Layout.leads_of_fetch hmiddle (closeBlocks_eq ?_) hcolon harrives hle)⟩
  · show opened s.cursor.column s.indents = opened column indents
    rw [hs.column, hs.indents]
  · have hopening : opening .blockMapping column indents ++ [.key, t, .value] =
        (if indents.head?.all (· < column) then [.blockMapping, .key] else [.key]) ++
          [t, .value] := by
      unfold opening
      split <;> rfl
    have hcolumn : s.cursor.column = column := hs.column
    have hopen : s.indents = indents := hs.indents
    rw [hopening, ← hopen, ← hcolumn]
    exact settles_key s.count t (s.indents.head?.all (· < s.cursor.column))
  · rw [hmiddle]
    show (':' :: more).length ≤ (tail ++ ':' :: more).length
    simp only [List.length_append]
    omega
  · show ∀ i ∈ s.indents.head?, i ≤ middle.cursor.column
    rw [hcursor, hs.indents]
    intro i hi
    exact Nat.le_trans (hs.column ▸ hindents i hi) (Nat.le_add_right _ _)

theorem emits_key {t : Token} (h : Prints text t) (hlength : text.length ≤ 1024)
    (hindents : ∀ i ∈ indents.head?, i ≤ column) (hmore : IsFront more) :
    Emits ⟨column, text ++ ':' :: ' ' :: more, indents, true⟩
      (opening .blockMapping column indents ++ [.key, t, .value])
      ⟨column + text.length + 2, more, opened column indents, false⟩ := by
  intro s hs
  obtain ⟨found, behind, hbehind, hsettles, hleads⟩ := exists_behind_key h hlength hs hindents rfl
  obtain ⟨next, harrives, hnext⟩ :=
    Layout.arrives_spaces (n := 1) hbehind.rest hmore (.inl hbehind.candidates)
  rw [hbehind.column, hbehind.indents, hbehind.keyAllowed] at hnext
  refine ⟨found, next, hnext, hleads next harrives ?_, hsettles⟩
  rw [hnext.rest, List.length_cons]
  exact Nat.le_succ _

theorem emits_key_line {t : Token} (h : Prints text t) (hlength : text.length ≤ 1024)
    (hindents : ∀ i ∈ indents.head?, i ≤ column) (hmore : IsFront more) :
    Emits ⟨column, text ++ ':' :: ('\n' :: spaces n ++ more), indents, true⟩
      (opening .blockMapping column indents ++ [.key, t, .value])
      ⟨n, more, opened column indents, true⟩ := by
  intro s hs
  obtain ⟨found, behind, hbehind, hsettles, hleads⟩ := exists_behind_key h hlength hs hindents rfl
  obtain ⟨next, harrives, hnext⟩ :=
    Layout.arrives_line hbehind.rest hmore (.inl hbehind.candidates)
  rw [hbehind.indents] at hnext
  refine ⟨found, next, hnext, hleads next harrives ?_, hsettles⟩
  rw [hnext.rest]
  show more.length ≤ ('\n' :: spaces n ++ more).length
  simp only [List.length_append]
  omega

end Groovebox.Yaml

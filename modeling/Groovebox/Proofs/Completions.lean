import Mathlib.Data.List.TakeWhile
import Mathlib.Data.String.Basic
import Groovebox.Completion
import Groovebox.Proofs.Grammar

/-! What completion puts in place of what was typed. The texts offered for the argument of
`save` or `open` stand behind the last quote or the last blank, one byte behind where it
begins, and there is no answer where that blank is wider. The texts offered for a command
stand as many bytes before the end as its word has, which is where the word begins if
nothing is typed behind it. -/

namespace Groovebox

open Text

namespace Completion

open String (utf8Len)

variable {p : Char → Bool} {line : String} {position : Nat} {names : List String}
  {text : String} {texts : List String} {c : Char} {completion : Completion}
  {typed front back before after lead word trail more segment : List Char}

/-- The completion begins in the line between two characters, not behind the place, and each of
its texts begins with what is typed from there up to the place. -/
structure Extends (completion : Completion) (line : String) (position : Nat) : Prop where
  start_le : completion.start ≤ position
  isValid : String.Pos.Raw.IsValid line ⟨completion.start⟩
  starts : ∀ text ∈ completion.candidates,
    (String.Pos.Raw.extract line ⟨completion.start⟩ ⟨position⟩).toList <+: text.toList

/-- White space, the first word of the text and what is behind it. -/
structure FirstWord (text lead word more : List Char) : Prop where
  split : text = lead ++ (word ++ more)
  lead_blank : ∀ c ∈ lead, isBlank c
  plain : ∀ c ∈ word, isBlank c = false
  ends : ∀ c ∈ more.head?, isBlank c
  more_eq_nil : word = [] → more = []

/-- The argument of `save` or `open` is being typed. -/
def IsArgument (typed : List Char) : Prop :=
  ∃ lead command more, FirstWord typed lead command more ∧
    (command = "save".toList ∨ command = "open".toList) ∧ more ≠ []

/-- There is no quote before the argument, and the last blank has more than one byte. -/
def FollowsWideBlank (typed : List Char) : Prop :=
  IsArgument typed ∧ '"' ∉ typed ∧ ∃ front blank argument, typed = front ++ blank :: argument ∧
    isBlank blank ∧ (∀ c ∈ argument, isBlank c = false) ∧ 1 < blank.utf8Size

/-- What is typed behind the last `;`. -/
structure LastCommand (typed before segment : List Char) : Prop where
  split : typed = before ++ segment
  ends : before = [] ∨ before.getLast? = some ';'
  plain : ';' ∉ segment

/-- The last command typed is a word with white space behind it, which does not end in an
ordinary blank. Counted back from there, the bytes of the word do not reach its beginning, and
that shows where a command begins with the word or the place is within a character. -/
def FallsShort (typed : List Char) : Prop :=
  typed.head? ≠ some ':' ∧ ¬ IsArgument typed ∧ ∃ before segment lead word trail,
    LastCommand typed before segment ∧ FirstWord segment lead word trail ∧ word ≠ [] ∧
    trail ≠ [] ∧ (∀ c ∈ trail, isBlank c) ∧ trail.getLast? ≠ some ' ' ∧
    ((∃ command ∈ commands, word <+: command.toList) ∨
      ¬ Notation.IsPlace 0 typed (utf8Len typed - utf8Len word))

/-! Places and cuts. -/

theorem bytes_eq_utf8Len (text : List Char) : bytes text = utf8Len text := by
  induction text with
  | nil => rfl
  | cons c text ih =>
    rw [String.utf8Len_cons, ← ih, Nat.add_comm]
    rfl

theorem cut?_append (before after : List Char) :
    cut? (utf8Len before) (before ++ after) = some (before, after) := by
  induction before with
  | nil => cases after <;> rfl
  | cons c before ih =>
    have hsize := c.utf8Size_pos
    obtain ⟨count, hcount⟩ : ∃ count, utf8Len (c :: before) = count + 1 :=
      ⟨utf8Len before + c.utf8Size - 1, by rw [String.utf8Len_cons]; omega⟩
    have hrest : count + 1 - c.utf8Size = utf8Len before := by
      rw [← hcount, String.utf8Len_cons]
      omega
    have hreach : ¬ count + 1 < c.utf8Size := by
      rw [← hcount, String.utf8Len_cons]
      omega
    rw [hcount, List.cons_append, cut?, if_neg hreach, hrest, ih]
    rfl

theorem cut?_within (h : 1 < c.utf8Size) (front back : List Char) :
    cut? (utf8Len front + 1) (front ++ c :: back) = none := by
  induction front with
  | nil => simp [cut?, h]
  | cons d front ih =>
    have hreach : ¬ utf8Len front + d.utf8Size + 1 < d.utf8Size := by omega
    have hrest : utf8Len front + d.utf8Size + 1 - d.utf8Size = utf8Len front + 1 := by omega
    rw [String.utf8Len_cons, List.cons_append, cut?, if_neg hreach, hrest, ih]
    rfl

theorem exists_last (h : ∃ c ∈ typed, p c) :
    ∃ front mark back, typed = front ++ mark :: back ∧ p mark ∧ ∀ d ∈ back, p d = false := by
  induction typed with
  | nil => simp at h
  | cons d typed ih =>
    by_cases hbehind : ∃ c ∈ typed, p c
    · obtain ⟨front, mark, back, rfl, hmark, hback⟩ := ih hbehind
      exact ⟨d :: front, mark, back, rfl, hmark, hback⟩
    · have hnone : ∀ c ∈ typed, p c = false := by simpa using hbehind
      obtain ⟨c, hc, hpc⟩ := h
      rcases List.mem_cons.mp hc with rfl | hc
      · exact ⟨[], c, typed, rfl, hpc, hnone⟩
      · exact absurd hpc (by simp [hnone c hc])

theorem lastPlace?_append (hc : p c) (hback : ∀ d ∈ back, p d = false) :
    lastPlace? p (front ++ c :: back) = some (utf8Len front) := by
  have hdrop : (front ++ c :: back).reverse.dropWhile (!p ·) = c :: front.reverse := by
    rw [List.reverse_append, List.reverse_cons, List.append_assoc,
      List.dropWhile_append_of_pos fun d hd => by simp [hback d (List.mem_reverse.mp hd)]]
    simp [hc]
  rw [lastPlace?, hdrop]
  exact congrArg some ((bytes_eq_utf8Len _).trans (String.utf8Len_reverse front))

theorem lastPlace?_eq_none (h : ∀ d ∈ typed, p d = false) : lastPlace? p typed = none := by
  have hdrop : typed.reverse.dropWhile (!p ·) = [] :=
    List.dropWhile_eq_nil_iff.mpr fun d hd => by simp [h d (List.mem_reverse.mp hd)]
  rw [lastPlace?, hdrop]

theorem exists_firstWord (text : List Char) : ∃ lead word more, FirstWord text lead word more := by
  refine ⟨text.takeWhile isBlank, (trimStart text).takeWhile (!isBlank ·),
    (trimStart text).dropWhile (!isBlank ·), ⟨?_, ?_, ?_, ?_, ?_⟩⟩
  · rw [List.takeWhile_append_dropWhile, trimStart, List.takeWhile_append_dropWhile]
  · exact fun c hc => List.mem_takeWhile_imp hc
  · exact fun c hc => by simpa using List.mem_takeWhile_imp hc
  · intro c hc
    have hhead := List.head?_dropWhile_not (!isBlank ·) (trimStart text)
    rw [Option.mem_def.mp hc] at hhead
    simpa using hhead
  · intro hword
    have hhead := List.head?_dropWhile_not isBlank text
    cases htrim : trimStart text with
    | nil => rfl
    | cons c rest =>
      rw [trimStart] at htrim
      have hc : isBlank c = false := by simpa [htrim] using hhead
      simp [trimStart, htrim, hc] at hword

theorem FirstWord.trimStart_eq (h : FirstWord segment lead word more) :
    trimStart segment = word ++ more := by
  rw [h.split, trimStart, List.dropWhile_append_of_pos h.lead_blank]
  cases word with
  | nil => rw [h.more_eq_nil rfl, List.append_nil, List.dropWhile_nil]
  | cons c word =>
    rw [List.cons_append, List.dropWhile_cons, h.plain c List.mem_cons_self,
      if_neg Bool.false_ne_true]

theorem FirstWord.takeWhile_eq (h : FirstWord segment lead word more) :
    (word ++ more).takeWhile (!isBlank ·) = word :=
  takeWhile_append_of_head (fun c hc => by simp [h.plain c hc]) fun c hc => by simp [h.ends c hc]

theorem mem_startingWith : text ∈ startingWith typed texts ↔ text ∈ texts ∧ typed <+: text.toList := by
  rw [startingWith, List.mem_filter, List.isPrefixOf_iff_prefix]

/-! Completions of what is typed, as lists of characters. -/

def ExtendsTyped (completion : Completion) (typed : List Char) : Prop :=
  ∃ front back, typed = front ++ back ∧ completion.start = utf8Len front ∧
    ∀ text ∈ completion.candidates, back <+: text.toList

theorem extendsTyped_startingWith (front back : List Char) (texts : List String) :
    ExtendsTyped ⟨utf8Len front, startingWith back texts⟩ (front ++ back) :=
  ⟨front, back, rfl, rfl, fun _ h => (mem_startingWith.mp h).2⟩

theorem exists_split_of_isValid {place : Nat}
    (h : String.Pos.Raw.IsValid (String.ofList (typed ++ after)) ⟨place⟩)
    (hle : place ≤ utf8Len typed) : ∃ front back, typed = front ++ back ∧ place = utf8Len front := by
  obtain ⟨count, hcount⟩ := String.Pos.Raw.isValid_ofList.mp h
  rw [String.utf8ByteSize_ofList, List.take_append, String.utf8Len_append] at hcount
  refine ⟨typed.take count, typed.drop count, (List.take_append_drop count typed).symm, ?_⟩
  rcases Nat.le_total count typed.length with hshort | hlong
  · rwa [Nat.sub_eq_zero_of_le hshort, List.take_zero, String.utf8Len_nil, Nat.add_zero] at hcount
  · rw [List.take_of_length_le hlong] at hcount ⊢
    dsimp only at hcount
    omega

theorem extends_iff (typed after : List Char) :
    completion.Extends (String.ofList (typed ++ after)) (utf8Len typed) ↔
      completion.ExtendsTyped typed := by
  have hextract : ∀ front back, typed = front ++ back → (String.Pos.Raw.extract
      (String.ofList (typed ++ after)) ⟨utf8Len front⟩ ⟨utf8Len typed⟩).toList = back := by
    rintro front back rfl
    rw [String.utf8Len_append, String.extract_of_valid, String.toList_ofList]
  constructor
  · intro h
    obtain ⟨front, back, hsplit, hstart⟩ := exists_split_of_isValid h.isValid h.start_le
    have hstarts := h.starts
    rw [hstart, hextract front back hsplit] at hstarts
    exact ⟨front, back, hsplit, hstart, hstarts⟩
  · rintro ⟨front, back, hsplit, hstart, hstarts⟩
    refine ⟨?_, ?_, ?_⟩
    · rw [hstart, hsplit, String.utf8Len_append]
      exact Nat.le_add_right _ _
    · rw [hstart, String.Pos.Raw.isValid_iff_exists_append]
      refine ⟨String.ofList front, String.ofList (back ++ after), ?_, ?_⟩
      · rw [← String.ofList_append, hsplit, List.append_assoc]
      · rw [String.rawEndPos_ofList]
    · rw [hstart, hextract front back hsplit]
      exact hstarts

/-! The argument of `save` or `open`. -/

theorem IsArgument.head?_ne_colon (h : IsArgument typed) : typed.head? ≠ some ':' := by
  obtain ⟨lead, command, more, hword, hcommand, -⟩ := h
  rw [hword.split]
  cases lead with
  | nil => rcases hcommand with rfl | rfl <;> simp
  | cons c lead =>
    rintro hc
    obtain rfl := Option.some.inj hc
    exact absurd (hword.lead_blank _ List.mem_cons_self) (by decide)

theorem argumentStart?_of_isArgument (h : IsArgument typed) : argumentStart? typed =
    (lastPlace? (· = '"') typed <|> lastPlace? isBlank typed).map (· + 1) := by
  obtain ⟨lead, command, more, hword, hcommand, hmore⟩ := h
  have hlength : command.length ≠ (command ++ more).length := by simpa using hmore
  rw [argumentStart?, hword.trimStart_eq, hword.takeWhile_eq, if_pos hcommand, if_neg hlength]

theorem argumentStart?_eq_none (h : ¬ IsArgument typed) : argumentStart? typed = none := by
  obtain ⟨lead, word, more, hword⟩ := exists_firstWord typed
  rw [argumentStart?, hword.trimStart_eq, hword.takeWhile_eq]
  split
  · next hcommand =>
    have hmore : more = [] := by_contra fun hmore => h ⟨lead, word, more, hword, hcommand, hmore⟩
    rw [hmore, List.append_nil, if_pos rfl]
  · rfl

theorem exists_blank_of_isArgument (h : IsArgument typed) : ∃ c ∈ typed, isBlank c := by
  obtain ⟨lead, command, more, hword, -, hmore⟩ := h
  obtain ⟨c, more, rfl⟩ := List.exists_cons_of_ne_nil hmore
  exact ⟨c, by simp [hword.split], hword.ends c rfl⟩

theorem argumentStart?_of_quote (h : IsArgument (front ++ '"' :: back)) (hback : '"' ∉ back) :
    argumentStart? (front ++ '"' :: back) = some (utf8Len front + 1) := by
  have hlast : lastPlace? (· = '"') (front ++ '"' :: back) = some (utf8Len front) :=
    lastPlace?_append (by decide) fun d hd => by simpa using ne_of_mem_of_not_mem hd hback
  rw [argumentStart?_of_isArgument h, hlast]
  rfl

theorem argumentStart?_of_blank (h : IsArgument (front ++ c :: back))
    (hquote : '"' ∉ front ++ c :: back) (hc : isBlank c) (hback : ∀ d ∈ back, isBlank d = false) :
    argumentStart? (front ++ c :: back) = some (utf8Len front + 1) := by
  have hnone : lastPlace? (· = '"') (front ++ c :: back) = none :=
    lastPlace?_eq_none fun d hd => by simpa using ne_of_mem_of_not_mem hd hquote
  rw [argumentStart?_of_isArgument h, hnone, lastPlace?_append hc hback]
  rfl

/-- The argument begins one byte behind the start of the last quote or blank. -/
theorem ofTyped_of_argumentStart? (hcolon : (front ++ c :: back).head? ≠ some ':')
    (h : argumentStart? (front ++ c :: back) = some (utf8Len front + 1)) :
    ofTyped (front ++ c :: back) names =
      if c.utf8Size = 1 then
        some ⟨utf8Len (front ++ [c]), startingWith back (songNames names)⟩
      else none := by
  rw [ofTyped, if_neg hcolon, h]
  split_ifs with hsize
  · have hstart : utf8Len (front ++ [c]) = utf8Len front + 1 := by
      rw [String.utf8Len_append, ← hsize]
      simp
    have hcut := cut?_append (front ++ [c]) back
    rw [hstart, List.append_assoc, List.singleton_append] at hcut
    rw [hstart]
    simp [hcut]
  · have hwide : 1 < c.utf8Size := by
      have := c.utf8Size_pos
      omega
    simp [cut?_within hwide]

theorem exists_argument (h : IsArgument typed) : ∃ front mark back,
    typed = front ++ mark :: back ∧ argumentStart? typed = some (utf8Len front + 1) ∧
      (mark.utf8Size = 1 ∨ FollowsWideBlank typed) := by
  by_cases hquote : '"' ∈ typed
  · obtain ⟨front, mark, back, rfl, hmark, hback⟩ :=
      exists_last (p := fun c => decide (c = '"')) ⟨'"', hquote, by decide⟩
    obtain rfl := of_decide_eq_true hmark
    have hplain : '"' ∉ back := fun hc => by simpa using hback _ hc
    exact ⟨front, '"', back, rfl, argumentStart?_of_quote h hplain, .inl (by decide)⟩
  · obtain ⟨front, blank, back, rfl, hblank, hback⟩ := exists_last (exists_blank_of_isArgument h)
    refine ⟨front, blank, back, rfl, argumentStart?_of_blank h hquote hblank hback, ?_⟩
    by_cases hwide : 1 < blank.utf8Size
    · exact .inr ⟨h, hquote, front, blank, back, rfl, hblank, hback, hwide⟩
    · have := blank.utf8Size_pos
      exact .inl (by omega)

/-! The first word of a command. -/

theorem exists_lastCommand (typed : List Char) :
    ∃ before segment, LastCommand typed before segment := by
  by_cases h : ∃ c ∈ typed, c = ';'
  · obtain ⟨front, mark, back, rfl, hmark, hback⟩ :=
      exists_last (p := fun c => decide (c = ';')) (by simpa using h)
    obtain rfl := of_decide_eq_true hmark
    refine ⟨front ++ [';'], back, ⟨by simp, .inr List.getLast?_concat, fun hc => ?_⟩⟩
    simpa using hback _ hc
  · exact ⟨[], typed, ⟨rfl, .inl rfl, fun hc => h ⟨_, hc, rfl⟩⟩⟩

theorem LastCommand.takeWhile_eq (h : LastCommand typed before segment) :
    (typed.reverse.takeWhile (· ≠ ';')).reverse = segment := by
  have htake : (segment.reverse ++ before.reverse).takeWhile (· ≠ ';') = segment.reverse := by
    refine takeWhile_append_of_head (fun c hc => ?_) fun c hc => ?_
    · simpa using ne_of_mem_of_not_mem (List.mem_reverse.mp hc) h.plain
    · rw [List.head?_reverse] at hc
      rcases h.ends with rfl | hlast
      · cases hc
      · obtain rfl := Option.some.inj (hc.symm.trans hlast)
        rfl
  rw [h.split, List.reverse_append, htake, List.reverse_reverse]

theorem FirstWord.getLast?_eq (h : FirstWord segment lead word more) (hmore : more ≠ []) :
    segment.getLast? = more.getLast? := by
  rw [h.split, List.getLast?_append_of_ne_nil _ (List.append_ne_nil_of_right_ne_nil word hmore),
    List.getLast?_append_of_ne_nil word hmore]

theorem LastCommand.getLast?_eq (h : LastCommand typed before segment)
    (hword : FirstWord segment lead word more) (hmore : more ≠ []) :
    typed.getLast? = more.getLast? := by
  have hsegment : segment ≠ [] := by simp [hword.split, hmore]
  rw [h.split, List.getLast?_append_of_ne_nil before hsegment, hword.getLast?_eq hmore]

theorem FirstWord.commandWord?_eq (h : FirstWord segment lead word more) :
    commandWord? segment = if word = [] then some []
      else if more.all isBlank ∧ segment.getLast? ≠ some ' ' then some word else none := by
  have hblank : trimStart more = [] ↔ more.all isBlank := by
    rw [trimStart, List.dropWhile_eq_nil_iff, List.all_eq_true]
  rw [commandWord?, h.trimStart_eq, h.takeWhile_eq, List.drop_left]
  simp only [List.isEmpty_iff, hblank]

/-- The word is looked for among the commands where nothing is typed behind it, and also where
white space is that does not end in an ordinary blank. -/
theorem ofTyped_of_lastCommand (hcolon : typed.head? ≠ some ':') (hargument : ¬ IsArgument typed)
    (hlast : LastCommand typed before segment) (hword : FirstWord segment lead word more) :
    ofTyped typed names = some
      (if word = [] ∨ more.all isBlank ∧ segment.getLast? ≠ some ' ' then
        ⟨utf8Len typed - utf8Len word, startingWith word commands⟩
      else ⟨utf8Len typed, []⟩) := by
  rw [ofTyped, if_neg hcolon, argumentStart?_eq_none hargument, hlast.takeWhile_eq]
  dsimp only
  rw [hword.commandWord?_eq]
  by_cases hnil : word = []
  · simp [hnil, bytes_eq_utf8Len]
  · simp only [hnil, false_or, if_false]
    split_ifs <;> simp [bytes_eq_utf8Len]

theorem isBlank_of_mem_commands :
    ∀ command ∈ commands, ∀ c ∈ command.toList, isBlank c = false := by
  have hall : commands.all fun command => command.toList.all fun c => !isBlank c := by decide
  simpa using hall

theorem ofTyped_eq_none_iff : ofTyped typed names = none ↔ FollowsWideBlank typed := by
  constructor
  · intro hnone
    by_cases hcolon : typed.head? = some ':'
    · simp [ofTyped, hcolon] at hnone
    by_cases hargument : IsArgument typed
    · obtain ⟨front, mark, back, rfl, hstart, hsize | hwide⟩ := exists_argument hargument
      · simp [ofTyped_of_argumentStart? hcolon hstart, hsize] at hnone
      · exact hwide
    · obtain ⟨before, segment, hlast⟩ := exists_lastCommand typed
      obtain ⟨lead, word, more, hword⟩ := exists_firstWord segment
      simp [ofTyped_of_lastCommand hcolon hargument hlast hword] at hnone
  · rintro ⟨hargument, hquote, front, blank, argument, rfl, hblank, hplain, hwide⟩
    rw [ofTyped_of_argumentStart? hargument.head?_ne_colon
      (argumentStart?_of_blank hargument hquote hblank hplain), if_neg hwide.ne']

/-- Short of its word's beginning, a completion does not extend what is typed: it begins within
a character or what is typed from there ends in white space, which no command has. -/
theorem not_extendsTyped_of_fallsShort (hshort : FallsShort typed)
    (h : ofTyped typed names = some completion) : ¬ completion.ExtendsTyped typed := by
  obtain ⟨hcolon, hargument, before, segment, lead, word, trail, hlast, hword, hne, htrail, hblank,
    hend, hmiss⟩ := hshort
  rw [ofTyped_of_lastCommand hcolon hargument hlast hword,
    if_pos (.inr ⟨List.all_eq_true.mpr hblank, hword.getLast?_eq htrail ▸ hend⟩),
    Option.some_inj] at h
  subst h
  rintro ⟨front, back, hsplit, hstart, hstarts⟩
  dsimp only at hstart hstarts
  rcases hmiss with ⟨command, hcommand, hbegins⟩ | hplace
  · have hback : back ≠ [] := by
      rintro rfl
      rw [List.append_nil] at hsplit
      have hlength : utf8Len word ≤ utf8Len typed := by
        simp only [hlast.split, hword.split, String.utf8Len_append]
        omega
      have hempty : utf8Len word = 0 := by
        rw [← hsplit] at hstart
        omega
      exact hne (String.utf8Len_eq_zero.mp hempty)
    have hsame : back.getLast? = trail.getLast? := by
      rw [← List.getLast?_append_of_ne_nil front hback, ← hsplit, hlast.getLast?_eq hword htrail]
    have hlastBlank := hblank _ (List.getLast_mem htrail)
    have hmem : trail.getLast htrail ∈ back :=
      List.mem_of_getLast? (hsame.trans (List.getLast?_eq_some_getLast htrail))
    have hmiss := hstarts command (mem_startingWith.mpr ⟨hcommand, hbegins⟩)
    have hplain := isBlank_of_mem_commands command hcommand _ (hmiss.subset hmem)
    exact absurd hlastBlank (by simp [hplain])
  · exact hplace ⟨front, back, hsplit, by rw [hstart, Nat.zero_add]⟩

theorem LastCommand.extendsTyped (h : LastCommand typed before segment)
    (hword : FirstWord segment lead word []) :
    ExtendsTyped ⟨utf8Len typed - utf8Len word, startingWith word commands⟩ typed := by
  have hsplit : typed = (before ++ lead) ++ word := by
    rw [h.split, hword.split, List.append_nil, List.append_assoc]
  have hstart : utf8Len typed - utf8Len word = utf8Len (before ++ lead) := by
    rw [hsplit, String.utf8Len_append, Nat.add_sub_cancel]
  rw [hstart, hsplit]
  exact extendsTyped_startingWith (before ++ lead) word commands

theorem extendsTyped_of_not_fallsShort (hshort : ¬ FallsShort typed)
    (h : ofTyped typed names = some completion) : completion.ExtendsTyped typed := by
  by_cases hcolon : typed.head? = some ':'
  · rw [ofTyped, if_pos hcolon, Option.some_inj] at h
    exact h ▸ extendsTyped_startingWith [] typed colonCommands
  by_cases hargument : IsArgument typed
  · obtain ⟨front, mark, back, rfl, hstart, -⟩ := exists_argument hargument
    rw [ofTyped_of_argumentStart? hcolon hstart] at h
    split_ifs at h with hsize
    obtain rfl := Option.some.inj h
    simpa using extendsTyped_startingWith (front ++ [mark]) back (songNames names)
  obtain ⟨before, segment, hlast⟩ := exists_lastCommand typed
  obtain ⟨lead, word, more, hword⟩ := exists_firstWord segment
  rw [ofTyped_of_lastCommand hcolon hargument hlast hword, Option.some_inj] at h
  split_ifs at h with hfound
  · subst h
    by_cases hmore : more = []
    · exact hlast.extendsTyped (hmore ▸ hword)
    · have hne : word ≠ [] := fun hnil => hmore (hword.more_eq_nil hnil)
      obtain ⟨hblank, hend⟩ := hfound.resolve_left hne
      rw [hword.getLast?_eq hmore] at hend
      have hmiss : ¬ ((∃ command ∈ commands, word <+: command.toList) ∨
          ¬ Notation.IsPlace 0 typed (utf8Len typed - utf8Len word)) := fun hmiss =>
        hshort ⟨hcolon, hargument, before, segment, lead, word, more, hlast, hword, hne, hmore,
          List.all_eq_true.mp hblank, hend, hmiss⟩
      rw [not_or, not_not] at hmiss
      obtain ⟨hnone, front, back, hsplit, hstart⟩ := hmiss
      exact ⟨front, back, hsplit, hstart.trans (Nat.zero_add _), fun text htext =>
        absurd ⟨text, mem_startingWith.mp htext⟩ hnone⟩
  · exact h ▸ ⟨typed, [], (List.append_nil typed).symm, rfl, by simp⟩

theorem not_fallsShort_of_getLast? (h : typed.getLast? = some c) (hc : isBlank c = false) :
    ¬ FallsShort typed := by
  rintro ⟨-, -, before, segment, lead, word, trail, hlast, hword, -, htrail, hblank, -⟩
  rw [hlast.getLast?_eq hword htrail] at h
  have hblankEnd := hblank c (List.mem_of_getLast? h)
  rw [hc] at hblankEnd
  exact Bool.false_ne_true hblankEnd

/-- There is no answer just where the argument of `save` or `open` stands behind a wide blank,
and an answer extends what is typed unless it falls short of the word of a command. -/
theorem complete_extends_iff (h : String.Pos.Raw.IsValid line ⟨position⟩) (names : List String) :
    let typed := (String.Pos.Raw.extract line 0 ⟨position⟩).toList
    (complete line position names = none ↔ FollowsWideBlank typed) ∧
      ∀ completion, complete line position names = some completion →
        (completion.Extends line position ↔ ¬ FallsShort typed) := by
  obtain ⟨first, second, rfl, hposition⟩ := String.Pos.Raw.isValid_iff_exists_append.mp h
  have hline : first ++ second = String.ofList (first.toList ++ second.toList) := by
    rw [String.ofList_append, String.ofList_toList, String.ofList_toList]
  obtain rfl : position = utf8Len first.toList := by
    rw [String.utf8Len_toList]
    exact congrArg String.Pos.Raw.byteIdx hposition
  have htyped : (String.Pos.Raw.extract (first ++ second) 0 ⟨utf8Len first.toList⟩).toList =
      first.toList := by
    have hextract := String.extract_of_valid [] first.toList second.toList
    rw [List.nil_append, ← hline, String.utf8Len_nil, Nat.zero_add] at hextract
    exact (congrArg String.toList hextract).trans String.toList_ofList
  have hcomplete : complete (first ++ second) (utf8Len first.toList) names =
      ofTyped first.toList names := by
    rw [complete, String.toList_append, cut?_append]
    rfl
  dsimp only
  rw [htyped, hcomplete, ofTyped_eq_none_iff, hline]
  refine ⟨Iff.rfl, fun completion hcompletion => (extends_iff _ _).trans ⟨fun h hshort => ?_, ?_⟩⟩
  · exact not_extendsTyped_of_fallsShort hshort hcompletion h
  · exact fun hshort => extendsTyped_of_not_fallsShort hshort hcompletion

theorem complete_extends_iff_behind_semicolon :
    String.Pos.Raw.IsValid "sé; se p0" ⟨7⟩ ∧
      complete "sé; se p0" 7 [] = some ⟨5, ["seq", "select"]⟩ ∧
      Completion.Extends ⟨5, ["seq", "select"]⟩ "sé; se p0" 7 := by
  have hvalid : String.Pos.Raw.IsValid "sé; se p0" ⟨7⟩ := by decide
  have hcomplete : complete "sé; se p0" 7 [] = some ⟨5, ["seq", "select"]⟩ := by decide
  refine ⟨hvalid, hcomplete, ?_⟩
  have hlast : (String.Pos.Raw.extract "sé; se p0" 0 ⟨7⟩).toList.getLast? = some 'e' := by decide
  exact ((complete_extends_iff hvalid []).2 _ hcomplete).mpr
    (not_fallsShort_of_getLast? hlast (by decide))

theorem complete_splits_wide_blank :
    complete "s\u3000" 4 [] = some ⟨3, ["seq", "show", "select", "supergroup", "save"]⟩ ∧
      ¬ String.Pos.Raw.IsValid "s\u3000" ⟨3⟩ ∧
      complete "open\u3000x" 8 [] = none := by
  decide

end Completion

end Groovebox

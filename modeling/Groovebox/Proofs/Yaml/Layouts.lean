import Groovebox.Proofs.Results
import Groovebox.Proofs.Yaml.Scalars
import Groovebox.Yaml.Layout

/-! How layouts go from token to token. What a layout finds on its way does not depend on how
far into the text it is, so it is said of spots: a column, the text from there on, and the
columns of the open blocks. -/

namespace Groovebox.Yaml

/-- The text goes on with a token. -/
def IsFront (text : List Char) : Prop :=
  ∀ c ∈ text.head?, isPrintableAscii c ∧ c ≠ ' ' ∧ c ≠ '#'

theorem isFront_nil : IsFront [] := nofun

namespace Layout

variable {s next : Layout} {text more tail : List Char} {n fuel : Nat} {found : List Found}

/-- The layout goes past blanks to its next token, where it is `next`. -/
def Arrives (s next : Layout) : Prop :=
  (s.toNextToken (s.cursor.rest.length + 1)).dropStale = some next

/-- Scan on from a layout that is at a token. -/
def resume (fuel : Nat) (s : Layout) : Option (List Found) := do
  match s.cursor.rest with
  | [] =>
    let (closed, s) := s.closeAll
    let _ ← s.dropCandidate
    return closed
  | ch :: _ =>
    let (closed, s) := s.closeBlocks s.cursor.column
    let (found, s) ← s.fetch ch
    return closed ++ found ++ (← scan fuel s)

theorem scan_succ (h : s.Arrives next) : scan (fuel + 1) s = resume fuel next := by
  rw [scan, show (s.toNextToken (s.cursor.rest.length + 1)).dropStale = some next from h]
  rfl

/-- Scanning on from `s` finds `found` and then what is found from `next` on. -/
def Leads (s : Layout) (found : List Found) (next : Layout) : Prop :=
  ∀ fuel, s.cursor.rest.length ≤ fuel → ∃ left, next.cursor.rest.length ≤ left ∧
    resume fuel s = (resume left next).map (found ++ ·)

theorem Leads.refl (s : Layout) : s.Leads [] s := by
  intro fuel hfuel
  exact ⟨fuel, hfuel, by simp⟩

theorem Leads.trans {last : Layout} {others : List Found} (h : s.Leads found next)
    (hnext : next.Leads others last) : s.Leads (found ++ others) last := by
  intro fuel hfuel
  obtain ⟨left, hleft, heq⟩ := h fuel hfuel
  obtain ⟨end_, hend, hlast⟩ := hnext left hleft
  refine ⟨end_, hend, ?_⟩
  rw [heq, hlast, Option.map_map]
  congr 1
  funext rest
  exact (List.append_assoc found others rest).symm

theorem leads_of_fetch {behind : Layout} {ch : Char} (hrest : s.cursor.rest = ch :: text)
    (hopen : s.closeBlocks s.cursor.column = ([], s)) (hfetch : s.fetch ch = some (found, behind))
    (harrives : behind.Arrives next) (hle : next.cursor.rest.length ≤ text.length) :
    s.Leads found next := by
  intro fuel hfuel
  rw [hrest, List.length_cons] at hfuel
  obtain ⟨fuel, rfl⟩ := Nat.exists_eq_add_of_le' (Nat.le_of_add_left_le hfuel)
  refine ⟨fuel, by omega, ?_⟩
  have hscan : scan (fuel + 1) behind = resume fuel next := scan_succ harrives
  rw [resume, hrest]
  simp only [hopen, hfetch, Option.bind_eq_bind, Option.bind_some, hscan, List.nil_append]
  cases resume fuel next <;> rfl

/-! Going to the next token. -/

theorem takeWhile_spaces (tabs : Bool) (h : IsFront tail) :
    (spaces n ++ tail).takeWhile (fun c => c = ' ' || (tabs && c = '\t')) = spaces n := by
  refine Text.takeWhile_append_of_head ?_ ?_
  · intro c hc
    rw [List.eq_of_mem_replicate hc]
    rfl
  · intro c hc
    have htab : c ≠ '\t' := by
      rintro rfl
      exact absurd (h _ hc).1 (by decide)
    simp [(h c hc).2.1, htab]

theorem head?_spaces_append_ne {c : Char} (hc : c ≠ ' ') (h : ∀ d ∈ tail.head?, d ≠ c) :
    (spaces n ++ tail).head? ≠ some c := by
  cases n with
  | zero => exact fun heq => h c heq rfl
  | succ n =>
    show some ' ' ≠ some c
    exact fun heq => hc (Option.some.inj heq).symm

theorem isFront_ne {c : Char} (hc : isPrintableAscii c = false) (h : IsFront tail) :
    ∀ d ∈ tail.head?, d ≠ c := by
  rintro d hd rfl
  rw [(h d hd).1] at hc
  cases hc

theorem next_of_unmarked {cursor : Cursor} (h : cursor.rest.head? ≠ some '\ufeff') :
    (if (decide (cursor.column = 0) && decide (cursor.rest.head? = some '\ufeff')) = true
      then cursor.next else cursor) = cursor :=
  if_neg (by simp [h])

theorem toNextToken_spaces (hrest : s.cursor.rest = spaces n ++ tail) (htail : IsFront tail) :
    s.toNextToken (fuel + 1) = { s with cursor := s.cursor.skip n } := by
  have hmark : s.cursor.rest.head? ≠ some '\ufeff' := by
    rw [hrest]
    exact head?_spaces_append_ne (by decide) (isFront_ne (by decide) htail)
  have hstart := next_of_unmarked hmark
  have hblanks : ∀ tabs, s.cursor.skipWhile (fun c => c = ' ' || (tabs && c = '\t')) =
      s.cursor.skip n := by
    intro tabs
    rw [Cursor.skipWhile, hrest, takeWhile_spaces tabs htail, spaces, List.length_replicate]
  have hskip : (s.cursor.skip n).rest = tail := by
    have hlength := skip_length (IsPrintableAscii.spaces n) hrest
    rw [spaces, List.length_replicate] at hlength
    exact congrArg Cursor.rest hlength
  have hcomment : tail.head? ≠ some '#' := fun hhead => (htail _ hhead).2.2 rfl
  have hbreak : tail.head?.any isBreak = false := by
    cases hhead : tail.head? with
    | none => rfl
    | some c => exact isBreak_eq_false (htail c hhead).1
  rw [toNextToken]
  simp only [hstart, hblanks, hskip, hcomment, hbreak, if_false, Bool.false_eq_true]

theorem toNextToken_line (hrest : s.cursor.rest = '\n' :: spaces n ++ tail) (htail : IsFront tail)
    (hflow : s.inFlow = false) :
    s.toNextToken (fuel + 2) =
      { s with cursor := s.cursor.skip (n + 1), keyAllowed := true } := by
  have hmark : s.cursor.rest.head? ≠ some '\ufeff' := by
    rw [hrest]
    exact nofun
  have hstart := next_of_unmarked hmark
  have hblanks : ∀ tabs, s.cursor.skipWhile (fun c => c = ' ' || (tabs && c = '\t')) =
      s.cursor := by
    intro tabs
    simp [Cursor.skipWhile, hrest, Cursor.skip]
  have hhead : s.cursor.rest.head? = some '\n' := by rw [hrest]; rfl
  have hcomment : s.cursor.rest.head? ≠ some '#' := by rw [hhead]; decide
  have hbreak : s.cursor.rest.head?.any isBreak = true := by rw [hhead]; rfl
  have hnext : s.cursor.next.rest = spaces n ++ tail := congrArg Cursor.rest (next_newline hrest)
  rw [toNextToken]
  simp only [hstart, hblanks, hcomment, hbreak, if_false, if_true, hflow, Bool.not_false,
    Bool.or_true]
  rw [toNextToken_spaces hnext htail]
  rfl

/-- A candidate that a later line may drop. -/
def IsDroppable (s : Layout) : Prop :=
  s.candidates = [none] ∨
    ∃ k, s.candidates = [some k] ∧ k.required = false ∧ k.line < s.cursor.line

theorem dropStale_of_isDroppable (h : s.IsDroppable) :
    s.dropStale = some { s with candidates := [none] } := by
  obtain hnone | ⟨k, hk, hrequired, hline⟩ := h
  · simp [dropStale, hnone]
  · simp [dropStale, hk, hrequired, hline]

theorem dropStale_of_fresh (h : ∀ k, some k ∈ s.candidates →
      s.cursor.line ≤ k.line ∧ s.cursor.index ≤ k.index + 1024) : s.dropStale = some s := by
  rw [dropStale, mapM_eq_some_map (g := id), List.map_id]
  · rfl
  · intro candidate hm
    cases candidate with
    | none => rfl
    | some k =>
      obtain ⟨hline, hindex⟩ := h k hm
      simp [Nat.not_lt.mpr hline, Nat.not_lt.mpr hindex]

theorem arrives_self (hrest : IsFront s.cursor.rest) (h : ∀ k, some k ∈ s.candidates →
      s.cursor.line ≤ k.line ∧ s.cursor.index ≤ k.index + 1024) : s.Arrives s := by
  have hnext : s.toNextToken (s.cursor.rest.length + 1) = s :=
    toNextToken_spaces (n := 0) rfl hrest
  rw [Arrives, hnext, dropStale_of_fresh h]

end Layout

/-- Where a layout stands: the column, the text from there on, the columns of the open blocks,
and whether a key may begin. -/
structure Spot where
  column : Nat
  text : List Char
  indents : List Nat
  keyAllowed : Bool := true

namespace Layout

structure IsAt (s : Layout) (p : Spot) : Prop where
  rest : s.cursor.rest = p.text
  column : s.cursor.column = p.column
  indents : s.indents = p.indents
  keyAllowed : s.keyAllowed = p.keyAllowed
  candidates : s.candidates = [none]

/-- All that is left open of a layout at a spot. -/
theorem IsAt.exists_eq {p : Spot} {s : Layout} (h : s.IsAt p) : ∃ index line count,
    s = ⟨⟨p.text, index, line, p.column⟩, p.indents, [none], p.keyAllowed, count⟩ := by
  obtain ⟨⟨rest, index, line, column⟩, indents, candidates, keyAllowed, count⟩ := s
  obtain ⟨hrest, hcolumn, hindents, hallowed, hcandidates⟩ := h
  cases hrest
  cases hcolumn
  cases hindents
  cases hallowed
  cases hcandidates
  exact ⟨index, line, count, rfl⟩

theorem IsAt.indents_le {p : Spot} {s : Layout} (h : s.IsAt p)
    (hindents : ∀ i ∈ p.indents.head?, i ≤ p.column) :
    ∀ i ∈ s.indents.head?, i ≤ s.cursor.column := by
  rw [h.indents, h.column]
  exact hindents

variable {s : Layout} {n : Nat} {tail : List Char}

theorem inFlow_eq_false {k : Option Candidate} (h : s.candidates = [k]) : s.inFlow = false := by
  rw [inFlow, h]
  rfl

theorem arrives_spaces (hrest : s.cursor.rest = spaces n ++ tail) (htail : IsFront tail)
    (hdrop : { s with cursor := s.cursor.skip n : Layout }.IsDroppable) :
    ∃ next : Layout, s.Arrives next ∧
      next.IsAt ⟨s.cursor.column + n, tail, s.indents, s.keyAllowed⟩ := by
  refine ⟨{ s with cursor := s.cursor.skip n, candidates := [none] }, ?_, ?_⟩
  · rw [Arrives, toNextToken_spaces hrest htail, dropStale_of_isDroppable hdrop]
  · have hskip := skip_length (IsPrintableAscii.spaces n) hrest
    rw [spaces, List.length_replicate] at hskip
    exact ⟨congrArg Cursor.rest hskip, congrArg Cursor.column hskip, rfl, rfl, rfl⟩

theorem arrives_line (hrest : s.cursor.rest = '\n' :: spaces n ++ tail) (htail : IsFront tail)
    (hdrop : { s with cursor := s.cursor.skip (n + 1), keyAllowed := true : Layout }.IsDroppable) :
    ∃ next : Layout, s.Arrives next ∧ next.IsAt ⟨n, tail, s.indents, true⟩ := by
  refine ⟨{ s with cursor := s.cursor.skip (n + 1), keyAllowed := true, candidates := [none] },
    ?_, ?_⟩
  · have hflow : s.inFlow = false := by
      obtain h | ⟨k, h, -⟩ := hdrop <;> exact inFlow_eq_false h
    have hlength : s.cursor.rest.length = (spaces n ++ tail).length + 1 := by rw [hrest]; rfl
    rw [Arrives, hlength, toNextToken_line hrest htail hflow, dropStale_of_isDroppable hdrop]
  · have hskip := skip_line hrest
    exact ⟨congrArg Cursor.rest hskip, congrArg Cursor.column hskip, rfl, rfl, rfl⟩

end Layout

/-- What was found settles to the tokens, in front of finds that settle by themselves. -/
def Settles (found : List Found) (tokens : List Token) : Prop :=
  ∀ rest, (settle rest).2 = [] → settle (found ++ rest) = (tokens ++ (settle rest).1, [])

theorem settles_nil : Settles [] [] := by
  intro rest hrest
  exact Prod.ext rfl hrest

theorem Settles.append {found others : List Found} {tokens behind : List Token}
    (h : Settles found tokens) (hothers : Settles others behind) :
    Settles (found ++ others) (tokens ++ behind) := by
  intro rest hrest
  have hsettle := hothers rest hrest
  have hnext : (settle (others ++ rest)).2 = [] := congrArg Prod.snd hsettle
  rw [List.append_assoc, h _ hnext, hsettle, List.append_assoc]

theorem settles_token (t : Token) : Settles [.token t] [t] := by
  intro rest hrest
  have hsettle : settle rest = ((settle rest).1, []) := Prod.ext rfl hrest
  rw [List.singleton_append, settle, hsettle]
  rfl

theorem settles_tokens (tokens : List Token) : Settles (tokens.map .token) tokens := by
  induction tokens with
  | nil => exact settles_nil
  | cons t tokens ih => exact (settles_token t).append ih

/-- A candidate that no colon confirms is nothing. -/
theorem settles_candidate (n : Nat) : Settles [.candidate n] [] := by
  intro rest hrest
  have hsettle : settle rest = ((settle rest).1, []) := Prod.ext rfl hrest
  rw [List.singleton_append, settle, hsettle]
  rfl

theorem settles_key (n : Nat) (t : Token) (opens : Bool) :
    Settles [.candidate n, .token t, .confirmed n opens, .token .value]
      ((if opens then [.blockMapping, .key] else [.key]) ++ [t, .value]) := by
  intro rest hrest
  have hsettle : settle rest = ((settle rest).1, []) := Prod.ext rfl hrest
  simp only [List.cons_append, List.nil_append, settle]
  rw [hsettle]
  simp

/-- Between the spots the layout emits the tokens. -/
def Emits (p : Spot) (tokens : List Token) (q : Spot) : Prop :=
  ∀ s : Layout, s.IsAt p → ∃ found, ∃ next : Layout,
    next.IsAt q ∧ s.Leads found next ∧ Settles found tokens

theorem Emits.refl (p : Spot) : Emits p [] p :=
  fun s hs => ⟨[], s, hs, .refl s, settles_nil⟩

theorem Emits.trans {p q r : Spot} {tokens behind : List Token} (h : Emits p tokens q)
    (hq : Emits q behind r) : Emits p (tokens ++ behind) r := by
  intro s hs
  obtain ⟨found, next, hnext, hleads, hsettles⟩ := h s hs
  obtain ⟨others, last, hlast, hothers, hbehind⟩ := hq next hnext
  exact ⟨found ++ others, last, hlast, hleads.trans hothers, hsettles.append hbehind⟩

end Groovebox.Yaml

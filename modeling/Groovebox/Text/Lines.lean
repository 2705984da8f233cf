/-! White space and lines. White space is what has the Unicode property `White_Space`. A line
ends in a line feed, with or without a carriage return before it, or where the text ends. -/

namespace Groovebox.Text

def blankRanges : List (Nat × Nat) :=
  [(0x09, 0x0d), (0x20, 0x20), (0x85, 0x85), (0xa0, 0xa0), (0x1680, 0x1680), (0x2000, 0x200a),
    (0x2028, 0x2029), (0x202f, 0x202f), (0x205f, 0x205f), (0x3000, 0x3000)]

def isBlank (c : Char) : Bool := blankRanges.any fun r => r.1 ≤ c.toNat && c.toNat ≤ r.2

def trimStart (text : List Char) : List Char := text.dropWhile isBlank

def trimEnd (text : List Char) : List Char := (text.reverse.dropWhile isBlank).reverse

def trim (text : List Char) : List Char := trimEnd (trimStart text)

theorem isBlank_of_isWhitespace {c : Char} (h : c.isWhitespace) : isBlank c := by
  simp only [Char.isWhitespace, Bool.or_eq_true, decide_eq_true_eq] at h
  rcases h with ((rfl | rfl) | rfl) | rfl <;> decide

def endedLines : List Char → List (List Char)
  | [] => []
  | c :: rest =>
    if c = '\n' then [c] :: endedLines rest
    else
      match endedLines rest with
      | [] => [[c]]
      | line :: more => (c :: line) :: more

def withoutEnd (line : List Char) : List Char :=
  match line.reverse with
  | '\n' :: '\r' :: before => before.reverse
  | '\n' :: before => before.reverse
  | _ => line

def lines (text : List Char) : List (List Char) := (endedLines text).map withoutEnd

theorem flatten_endedLines (text : List Char) : (endedLines text).flatten = text := by
  induction text with
  | nil => rfl
  | cons c rest ih =>
    rw [endedLines]
    split
    · simp [ih]
    · cases h : endedLines rest with
      | nil => simp_all
      | cons line more => simp_all

end Groovebox.Text

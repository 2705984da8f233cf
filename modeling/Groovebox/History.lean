import Groovebox.Text.Lines

/-! The history of typed lines: the latest of them, and the file that keeps them. -/

namespace Groovebox

open Text

structure History where
  entries : List String := []
  isNew : Bool := false
  deriving DecidableEq

namespace History

def limit : Nat := 100

/-- Add a line that is not empty and differs from the one before. -/
def add (h : History) (line : String) : History :=
  if line.isEmpty ∨ h.entries.getLast? = some line then h
  else ⟨h.entries.drop (h.entries.length + 1 - limit) ++ [line], true⟩

/-- The first line of a file in which line feeds and backslashes are escaped. -/
def mark : String := "#V2"

def escape : List Char → List Char
  | [] => []
  | '\n' :: rest => '\\' :: 'n' :: escape rest
  | '\\' :: rest => '\\' :: '\\' :: escape rest
  | c :: rest => c :: escape rest

def unescape? : List Char → Option (List Char)
  | [] => some []
  | '\\' :: 'n' :: rest => (unescape? rest).map ('\n' :: ·)
  | '\\' :: '\\' :: rest => (unescape? rest).map ('\\' :: ·)
  | '\\' :: _ => none
  | c :: rest => (unescape? rest).map (c :: ·)

/-- The history in a file. A line with other escapes stands for itself. -/
def read (text : String) : History :=
  let entries := match lines text.toList with
    | [] => []
    | first :: rest =>
      if String.ofList first = mark then rest.map fun line => (unescape? line).getD line
      else first :: rest
  let start : History := {}
  { entries.foldl (fun h line => h.add (String.ofList line)) start with isNew := false }

def write (h : History) : String :=
  mark ++ "\n" ++ String.join (h.entries.map fun line =>
    String.ofList (escape line.toList) ++ "\n")

theorem unescape?_escape (line : List Char) : unescape? (escape line) = some line := by
  fun_induction escape line with
  | case1 => rfl
  | case2 rest ih => simp [unescape?, ih]
  | case3 rest ih => simp [unescape?, ih]
  | case4 c rest _ hc ih =>
    rw [unescape?.eq_def]
    split <;> simp_all

end History

end Groovebox

import Groovebox.Folder
import Groovebox.Text.Lines

/-! Completion of a line while it is typed: of commands, of what stands behind a
colon, and of the names of songs. Places in a line are counted in bytes. -/

namespace Groovebox

open Text

/-- Texts that may stand in place of what was typed from `start` on. -/
structure Completion where
  start : Nat
  candidates : List String
  deriving DecidableEq, Repr

namespace Completion

def bytes (text : List Char) : Nat := text.foldr (·.utf8Size + ·) 0

/-- Cut a text behind so many bytes; there is no cut within a character. -/
def cut? : Nat → List Char → Option (List Char × List Char)
  | 0, text => some ([], text)
  | _ + 1, [] => none
  | count + 1, c :: rest =>
    if count + 1 < c.utf8Size then none
    else (cut? (count + 1 - c.utf8Size) rest).map fun (before, after) => (c :: before, after)

theorem append_eq_of_cut? {count : Nat} {text before after : List Char}
    (h : cut? count text = some (before, after)) : before ++ after = text ∧ bytes before = count := by
  induction text generalizing count before after with
  | nil =>
    cases count with
    | zero => simp_all [cut?, bytes]
    | succ count => simp [cut?] at h
  | cons c rest ih =>
    cases count with
    | zero =>
      simp only [cut?, Option.some.injEq, Prod.mk.injEq] at h
      obtain ⟨rfl, rfl⟩ := h
      simp [bytes]
    | succ count =>
      rw [cut?] at h
      split at h
      · simp at h
      · obtain ⟨⟨b, a⟩, hb, he⟩ := Option.map_eq_some_iff.mp h
        simp only [Prod.mk.injEq] at he
        obtain ⟨rfl, rfl⟩ := he
        obtain ⟨hr, hn⟩ := ih hb
        refine ⟨by simp [hr], ?_⟩
        simp only [bytes, List.foldr_cons] at hn ⊢
        omega

def commands : List String := [
  "track", "remove", "list", "bpm", "pad", "padsteps", "seq", "show", "insert", "del", "mv",
  "replace", "select", "deselect", "group", "supergroup", "ungroup", "cut", "drag", "drop",
  "cancel", "move", "events", "check", "save", "open"]

def colonCommands : List String := [":help", ":q", ":quit", ":exit"]

def songNames (names : List String) : List String :=
  let songs := names.filter fun name =>
    (Path.nameExtension? name.toList).any fun extension =>
      String.ofList (extension.map Char.toLower) ∈ ["yaml", "yml", "json"]
  songs.mergeSort fun a b => !(b < a)

def startingWith (typed : List Char) (texts : List String) : List String :=
  texts.filter fun text => typed.isPrefixOf text.toList

def lastPlace? (p : Char → Bool) (text : List Char) : Option Nat :=
  match text.reverse.dropWhile (!p ·) with
  | [] => none
  | _ :: before => some (bytes before)

/-- Where the argument of `save` or `open` begins: one byte behind the last quote, or
else the last blank. -/
def argumentStart? (typed : List Char) : Option Nat :=
  let line := trimStart typed
  let command := line.takeWhile (!isBlank ·)
  if command = "save".toList ∨ command = "open".toList then
    if command.length = line.length then none
    else
      (lastPlace? (· = '"') typed <|> lastPlace? isBlank typed).map (· + 1)
  else none

def commandWord? (segment : List Char) : Option (List Char) :=
  let text := trimStart segment
  let word := text.takeWhile (!isBlank ·)
  let more := text.drop word.length
  if word.isEmpty then some []
  else if (trimStart more).isEmpty ∧ segment.getLast? ≠ some ' ' then some word
  else none

def ofTyped (typed : List Char) (names : List String) : Option Completion :=
  if typed.head? = some ':' then some ⟨0, startingWith typed colonCommands⟩
  else
    match argumentStart? typed with
    | some start => do
      let (_, argument) ← cut? start typed
      return ⟨start, startingWith argument (songNames names)⟩
    | none =>
      let segment := (typed.reverse.takeWhile (· ≠ ';')).reverse
      match commandWord? segment with
      | some word => some ⟨bytes typed - bytes word, startingWith word commands⟩
      | none => some ⟨bytes typed, []⟩

/-- Complete a line at a place, among the names of a folder. There is no answer where
the place, or that of an argument, lies within a character. -/
def complete (line : String) (position : Nat) (names : List String) : Option Completion := do
  let (typed, _) ← cut? position line.toList
  ofTyped typed names

def shownHint (hint : String) : String := s!"\x1b[90m{hint}\x1b[0m"

end Completion

end Groovebox

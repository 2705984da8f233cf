import Groovebox.Proofs.Json.Lexemes

/-! The value that the lexemes of a tree hold. It is whole, so no fault stands in it. -/

namespace Groovebox.Json

mutual

def shown : Tree → Value
  | .null => .null
  | .bool b => .bool b
  | .number n => .number (wholeNumber n)
  | .text s => .string (.ok s)
  | .list items => .list (shownItems items) none
  | .record entries => .object (shownEntries entries) none

def shownItems : List Tree → List Value
  | [] => []
  | item :: rest => shown item :: shownItems rest

def shownEntries : List (String × Tree) → List (Content × Value)
  | [] => []
  | (key, value) :: rest => (.ok key, shown value) :: shownEntries rest

end

/-- The lexemes hold the value, whatever follows. -/
def Holds (lexemes : List Lexeme) (value : Value) : Prop :=
  ∀ (fuel : Nat) (rest : List Lexeme), lexemes.length ≤ fuel →
    readValue fuel (lexemes ++ rest) = (value, some rest)

theorem holds_singleton {lexeme : Lexeme} {value : Value}
    (h : ∀ fuel rest, readValue (fuel + 1) (lexeme :: rest) = (value, some rest)) :
    Holds [lexeme] value := by
  intro fuel rest hfuel
  obtain ⟨fuel, rfl⟩ := Nat.exists_eq_add_of_le' hfuel
  exact h fuel rest

theorem head_lexemes (tree : Tree) :
    ∃ first more, lexemes tree = first :: more ∧ first ≠ .mark ']' := by
  cases tree with
  | null => exact ⟨_, _, rfl, nofun⟩
  | bool b => exact ⟨_, _, rfl, nofun⟩
  | number n => exact ⟨_, _, rfl, nofun⟩
  | text s => exact ⟨_, _, rfl, nofun⟩
  | list items => cases items <;> exact ⟨_, _, rfl, by decide⟩
  | record entries =>
    cases entries with
    | nil => exact ⟨_, _, rfl, by decide⟩
    | cons entry rest => exact ⟨_, _, by rw [lexemes], by decide⟩

theorem readValue_bracket (fuel : Nat) (tree : Tree) (more : List Lexeme) :
    readValue (fuel + 1) (.mark '[' :: (lexemes tree ++ more)) =
      (.list (readItems fuel (lexemes tree ++ more)).1.1
          (readItems fuel (lexemes tree ++ more)).1.2,
        (readItems fuel (lexemes tree ++ more)).2) := by
  obtain ⟨first, lexemes, heq, hne⟩ := head_lexemes tree
  rw [heq, List.cons_append, readValue.eq_def]
  simp only [if_true]
  split
  · next h => exact absurd (List.cons.inj h).1 hne
  · next h => cases h
  · rfl

theorem readValue_brace (fuel : Nat) (key : String) (more : List Lexeme) :
    readValue (fuel + 1) (.mark '\x7b' :: stringLexeme key :: more) =
      (.object (readEntries fuel (stringLexeme key :: more)).1.1
          (readEntries fuel (stringLexeme key :: more)).1.2,
        (readEntries fuel (stringLexeme key :: more)).2) :=
  rfl

mutual

theorem holds_lexemes : ∀ tree, Holds (lexemes tree) (shown tree)
  | .null => holds_singleton fun _ _ => rfl
  | .bool _ => holds_singleton fun _ _ => rfl
  | .number _ => holds_singleton fun _ _ => rfl
  | .text s => by
    refine holds_singleton fun fuel rest => ?_
    rw [stringLexeme, readValue, content_map_piece, shown]
  | .list [] => by
    intro fuel rest hfuel
    obtain ⟨fuel, rfl⟩ := Nat.exists_eq_add_of_le' (Nat.le_of_succ_le hfuel)
    rfl
  | .list (item :: items) => by
    intro fuel rest hfuel
    rw [lexemes, List.length_cons, List.length_append, List.length_singleton] at hfuel
    obtain ⟨fuel, rfl⟩ := Nat.exists_eq_add_of_le' (Nat.le_of_add_left_le hfuel)
    have hitems := readItems_lexemes items (holds_lexemes item) fuel rest (by omega)
    simp only [List.append_assoc] at hitems
    simp only [lexemes, List.cons_append, List.append_assoc, List.nil_append, readValue_bracket,
      hitems, shown, shownItems]
  | .record [] => by
    intro fuel rest hfuel
    obtain ⟨fuel, rfl⟩ := Nat.exists_eq_add_of_le' (Nat.le_of_succ_le hfuel)
    rfl
  | .record ((key, value) :: entries) => by
    intro fuel rest hfuel
    simp only [lexemes, List.length_cons, List.length_append] at hfuel
    obtain ⟨fuel, rfl⟩ := Nat.exists_eq_add_of_le' (Nat.le_of_add_left_le hfuel)
    have hentries := readEntries_lexemes entries key (holds_lexemes value) fuel rest
      (by rw [List.length_append]; omega)
    simp only [List.append_assoc] at hentries
    simp only [lexemes, List.cons_append, List.append_assoc, List.nil_append, readValue_brace,
      hentries, shown, shownEntries]

theorem readItems_lexemes : ∀ (items : List Tree) {first : List Lexeme} {value : Value},
    Holds first value → ∀ (fuel : Nat) (rest : List Lexeme),
      (first ++ itemsLexemes items).length < fuel →
      readItems fuel (first ++ itemsLexemes items ++ .mark ']' :: rest) =
        ((value :: shownItems items, none), some rest)
  | [], first, value, hfirst, fuel + 1, rest, h => by
    rw [itemsLexemes, List.append_nil] at h
    have hvalue := hfirst fuel (.mark ']' :: rest) (Nat.le_of_lt_succ h)
    simp only [itemsLexemes, List.append_nil, readItems, hvalue, shownItems]
  | item :: items, first, value, hfirst, fuel + 1, rest, h => by
    rw [itemsLexemes, List.length_append, List.length_cons, List.length_append] at h
    have hvalue := hfirst fuel
      (.mark ',' :: (lexemes item ++ itemsLexemes items ++ .mark ']' :: rest)) (by omega)
    have hitems := readItems_lexemes items (holds_lexemes item) fuel rest
      (by rw [List.length_append]; omega)
    simp only [itemsLexemes, List.append_assoc, List.cons_append] at hvalue hitems ⊢
    simp only [readItems, hvalue, hitems, shownItems]

theorem readEntries_lexemes : ∀ (entries : List (String × Tree)) (key : String)
    {first : List Lexeme} {value : Value},
    Holds first value → ∀ (fuel : Nat) (rest : List Lexeme),
      (first ++ entriesLexemes entries).length < fuel →
      readEntries fuel (stringLexeme key :: .mark ':' ::
          (first ++ entriesLexemes entries ++ .mark '\x7d' :: rest)) =
        (((.ok key, value) :: shownEntries entries, none), some rest)
  | [], key, first, value, hfirst, fuel + 1, rest, h => by
    rw [entriesLexemes, List.append_nil] at h
    have hvalue := hfirst fuel (.mark '\x7d' :: rest) (Nat.le_of_lt_succ h)
    simp only [entriesLexemes, List.append_nil, stringLexeme, readEntries, hvalue,
      content_map_piece, shownEntries]
  | (next, tree) :: entries, key, first, value, hfirst, fuel + 1, rest, h => by
    simp only [entriesLexemes, List.length_append, List.length_cons] at h
    have hvalue := hfirst fuel (.mark ',' :: stringLexeme next :: .mark ':' ::
      (lexemes tree ++ entriesLexemes entries ++ .mark '\x7d' :: rest)) (by omega)
    have hentries := readEntries_lexemes entries next (holds_lexemes tree) fuel rest
      (by rw [List.length_append]; omega)
    simp only [entriesLexemes, List.append_assoc, List.cons_append] at hvalue hentries ⊢
    rw [stringLexeme, readEntries, hvalue]
    simp only [hentries, content_map_piece, shownEntries]

end

theorem readDocument_of_lex {text : String} {tree : Tree} (h : lex text.toList = lexemes tree) :
    readDocument text = (shown tree, some []) := by
  have hholds := holds_lexemes tree (2 * (lexemes tree).length + 1) [] (by omega)
  rw [List.append_nil] at hholds
  rw [readDocument, h, hholds]

end Groovebox.Json

import Mathlib.Data.List.Nodup
import Mathlib.Order.Bounds.Basic
import Groovebox.Grouping
import Groovebox.Proofs.Inlining

/-! Numbered ids. Ids of different numbers differ, so a table cannot use as many of them
as it has entries and one more. The search for an unused number therefore ends, with the
least one, and the name that grouping picks is not defined. -/

namespace Groovebox

namespace Pattern

theorem numberedId_injective (kind : GroupKind) : Function.Injective (numberedId kind) := by
  intro m n h
  have hchars := congrArg String.toList h
  simp only [numberedId, String.toList_append] at hchars
  have hread := congrArg (Nat.ofDigitChars 10 · 0) (List.append_cancel_left hchars)
  simpa [Nat.toString_eq_ofList_toDigits] using hread

def IsUnused (p : Pattern) (kind : GroupKind) (n : Nat) : Prop :=
  (p.table kind).find? (numberedId kind n) = none

/-- Trying one number after the other from `start` on ends after some turns, with the number
that it finds unused. -/
inductive Seeks (p : Pattern) (kind : GroupKind) : (start turns found : Nat) → Prop
  | unused {start : Nat} (h : p.IsUnused kind start) : Seeks p kind start 1 start
  | used {start turns found : Nat} (h : ¬p.IsUnused kind start)
      (rest : Seeks p kind (start + 1) turns found) : Seeks p kind start (turns + 1) found

variable {p : Pattern} {kind : GroupKind} {start turns found : Nat}

/-- One of the first `size + 1` numbers is free in the table. -/
theorem exists_free_number (p : Pattern) (kind : GroupKind) :
    ∃ n ∈ List.range' 1 ((p.table kind).size + 1), p.IsUnused kind n := by
  by_contra hnone
  have hused : (List.range' 1 ((p.table kind).size + 1)).map (numberedId kind) ⊆
      (p.table kind).keys := by
    intro id hid
    obtain ⟨n, hn, rfl⟩ := List.mem_map.mp hid
    have htaken : (p.table kind).find? (numberedId kind n) ≠ none :=
      fun hfree => hnone ⟨n, hn, hfree⟩
    obtain ⟨items, hitems⟩ := Option.ne_none_iff_exists'.mp htaken
    exact Table.mem_keys_of_find? hitems
  have hnodup : ((List.range' 1 ((p.table kind).size + 1)).map (numberedId kind)).Nodup :=
    (List.nodup_range' 1).map (numberedId_injective kind)
  have hlength := hnodup.length_le_of_subset hused
  simp only [List.length_map, List.length_range', Table.keys, Table.size] at hlength
  omega

/-- The number of the fresh id is the least one that is free. -/
theorem exists_freshId_eq (p : Pattern) (kind : GroupKind) :
    ∃ n ∈ List.range' 1 ((p.table kind).size + 1), p.freshId kind = numberedId kind n ∧
      IsLeast {m | 1 ≤ m ∧ p.IsUnused kind m} n := by
  obtain ⟨m, hm, hfree⟩ := p.exists_free_number kind
  have hsome : ((List.range' 1 ((p.table kind).size + 1)).find? fun n =>
      ((p.table kind).find? (numberedId kind n)).isNone).isSome := by
    rw [List.find?_isSome]
    exact ⟨m, hm, Option.isNone_iff_eq_none.mpr hfree⟩
  obtain ⟨n, hn⟩ := Option.isSome_iff_exists.mp hsome
  obtain ⟨hunused, hmem, hused⟩ := List.find?_range'_eq_some.mp hn
  refine ⟨n, hmem, by rw [freshId, hn, Option.getD_some],
    ⟨(List.mem_range'_1.mp hmem).1, Option.isNone_iff_eq_none.mp hunused⟩, fun k hk => ?_⟩
  by_contra hless
  have hno := hused k hk.1 (Nat.not_le.mp hless)
  rw [Option.isNone_iff_eq_none.mpr hk.2] at hno
  exact absurd hno (by decide)

theorem body?_freshName (p : Pattern) (kind : GroupKind) :
    p.body? (p.freshName kind) = none := by
  obtain ⟨n, -, hid, ⟨-, hunused⟩, -⟩ := p.exists_freshId_eq kind
  rw [body?, freshName, hid]
  exact hunused

theorem ne_freshName {p : Pattern} {container : Container} {items : List Item}
    (hc : p.sequence? container = some items) (kind : GroupKind) :
    container ≠ .named (p.freshName kind) := by
  rintro rfl
  have hfresh := p.body?_freshName kind
  simp [show p.body? (p.freshName kind) = _ from hc] at hfresh

/-! The search, number by number. -/

theorem Seeks.isLeast (h : p.Seeks kind start turns found) :
    IsLeast {n | start ≤ n ∧ p.IsUnused kind n} found ∧ start + turns = found + 1 := by
  induction h with
  | unused h => exact ⟨⟨⟨le_rfl, h⟩, fun n hn => hn.1⟩, rfl⟩
  | @used start turns found h rest ih =>
    obtain ⟨⟨⟨hle, hunused⟩, hleast⟩, hturns⟩ := ih
    refine ⟨⟨⟨by omega, hunused⟩, fun n hn => hleast ⟨?_, hn.2⟩⟩, by omega⟩
    have hne : n ≠ start := fun heq => h (heq ▸ hn.2)
    have hstart := hn.1
    omega

theorem seeks_of_isLeast (h : IsLeast {n | start ≤ n ∧ p.IsUnused kind n} found)
    (hturns : start + turns = found + 1) : p.Seeks kind start turns found := by
  induction turns generalizing start with
  | zero =>
    have hle : start ≤ found := h.1.1
    omega
  | succ turns ih =>
    by_cases heq : start = found
    · subst heq
      obtain rfl : turns = 0 := by omega
      exact .unused h.1.2
    · have hle : start ≤ found := h.1.1
      have hused : ¬p.IsUnused kind start := fun hunused => by
        have hfound : found ≤ start := h.2 ⟨le_rfl, hunused⟩
        omega
      have hnext : IsLeast {n | start + 1 ≤ n ∧ p.IsUnused kind n} found := by
        refine ⟨⟨by omega, h.1.2⟩, fun n hn => h.2 ⟨?_, hn.2⟩⟩
        have hstart := hn.1
        omega
      exact .used hused (ih hnext (by omega))

theorem seeks_iff :
    p.Seeks kind start turns found ↔
      IsLeast {n | start ≤ n ∧ p.IsUnused kind n} found ∧ start + turns = found + 1 :=
  ⟨Seeks.isLeast, fun ⟨hleast, hturns⟩ => seeks_of_isLeast hleast hturns⟩

/-- The search from one on ends in one way, within a turn for each entry and one more, and the
fresh id has the number that it finds: the least one that no entry uses. -/
theorem freshId_least_unused (p : Pattern) (kind : GroupKind) :
    ∃ n ≤ (p.table kind).size + 1,
      (∀ turns found, p.Seeks kind 1 turns found ↔ turns = n ∧ found = n) ∧
        IsLeast {m | 1 ≤ m ∧ p.IsUnused kind m} n ∧
        p.freshId kind = kind.letter ++ String.ofList (Nat.toDigits 10 n) := by
  obtain ⟨n, hn, hid, hleast⟩ := p.exists_freshId_eq kind
  have hbound := (List.mem_range'_1.mp hn).2
  refine ⟨n, by omega, fun turns found => ?_, hleast, ?_⟩
  · rw [seeks_iff]
    constructor
    · rintro ⟨hfound, hturns⟩
      obtain rfl := hfound.unique hleast
      exact ⟨by omega, rfl⟩
    · rintro ⟨rfl, rfl⟩
      exact ⟨hleast, Nat.add_comm 1 _⟩
  · rw [hid, numberedId, Nat.toString_eq_ofList_toDigits]

/-- A padded number is another id. -/
example :
    let p : Pattern := { groups := .ofList [("g1", []), ("g02", []), ("g3", []), ("tune", [])] }
    p.freshId .group = "g2" := by
  decide

end Pattern

end Groovebox

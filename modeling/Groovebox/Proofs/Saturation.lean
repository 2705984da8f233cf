import Groovebox.Step
import Mathlib.Algebra.BigOperators.Group.List.Basic
import Mathlib.Algebra.GroupWithZero.Nat

/-! Saturating sums in closed form: a sum that stops at the last step is the plain
sum, cut once. Whole lengths are those that `quantize` leaves alone. -/

namespace Groovebox

@[simp]
theorem satAdd_zero {a : Nat} (ha : a ≤ maxStep) : satAdd a 0 = a := Nat.min_eq_left ha

theorem satAdd_assoc (a b c : Nat) : satAdd (satAdd a b) c = satAdd a (satAdd b c) := by
  simp only [satAdd]
  omega

theorem satAdd_of_le {a b : Nat} (h : a + b ≤ maxStep) : satAdd a b = a + b := Nat.min_eq_left h

theorem le_satAdd {a : Nat} (ha : a ≤ maxStep) (b : Nat) : a ≤ satAdd a b := by
  simp only [satAdd]
  omega

theorem lt_satAdd {a b : Nat} (ha : a < maxStep) (hb : 0 < b) : a < satAdd a b := by
  simp only [satAdd]
  omega

/-- A saturating fold of lengths equals one cut of the plain sum. -/
theorem foldl_satAdd (lengths : List Nat) {a : Nat} (ha : a ≤ maxStep) :
    lengths.foldl satAdd a = satAdd a lengths.sum := by
  induction lengths generalizing a with
  | nil => simp [ha]
  | cons n rest ih =>
    rw [List.foldl_cons, ih (satAdd_le_maxStep a n), List.sum_cons]
    simp only [satAdd]
    omega

theorem total_eq (lengths : List Nat) : total lengths = min lengths.sum maxStep := by
  rw [total, foldl_satAdd lengths (Nat.zero_le _), satAdd, Nat.zero_add]

theorem satAdd_total {a : Nat} (lengths : List Nat) :
    satAdd a (total lengths) = satAdd a lengths.sum := by
  rw [total_eq]
  simp only [satAdd]
  omega

theorem total_cons (n : Nat) (rest : List Nat) : total (n :: rest) = satAdd n (total rest) := by
  rw [satAdd_total, total_eq, List.sum_cons, satAdd]

theorem total_singleton {n : Nat} (hn : n ≤ maxStep) : total [n] = n := by
  rw [total_eq, List.sum_singleton, Nat.min_eq_left hn]

theorem total_append (xs ys : List Nat) : total (xs ++ ys) = satAdd (total xs) (total ys) := by
  rw [satAdd_total, total_eq, total_eq, List.sum_append]
  simp only [satAdd]
  omega

theorem total_flatten (groups : List (List Nat)) :
    total groups.flatten = total (groups.map total) := by
  induction groups with
  | nil => rfl
  | cons group rest ih =>
    rw [List.flatten_cons, List.map_cons, total_append, total_cons, ih]

/-- A multiple of the quantum, or the last step, where every longer length is cut. -/
def IsWhole (n : Nat) : Prop := n ≤ maxStep ∧ (quantum ∣ n ∨ n = maxStep)

theorem IsWhole.le {n : Nat} (h : IsWhole n) : n ≤ maxStep := h.1

theorem IsWhole.dvd {n : Nat} (h : IsWhole n) (hn : n < maxStep) : quantum ∣ n := by
  rcases h.2 with hd | he
  · exact hd
  · omega

theorem isWhole_zero : IsWhole 0 := ⟨Nat.zero_le _, .inl (Nat.dvd_zero _)⟩

theorem isWhole_quantize (n : Nat) : IsWhole (quantize n) := by
  refine ⟨quantize_le_maxStep n, ?_⟩
  simp only [quantize, quantum, maxStep]
  omega

theorem IsWhole.satAdd {a b : Nat} (ha : IsWhole a) (hb : IsWhole b) : IsWhole (satAdd a b) := by
  obtain ⟨ha, ha'⟩ := ha
  obtain ⟨hb, hb'⟩ := hb
  simp only [IsWhole, Groovebox.satAdd, quantum, maxStep] at *
  omega

theorem quantize_of_isWhole {n : Nat} (h : IsWhole n) (hn : 0 < n) : quantize n = n := by
  obtain ⟨hle, hd⟩ := h
  simp only [quantize, quantum, maxStep] at *
  omega

end Groovebox

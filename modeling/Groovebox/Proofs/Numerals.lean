import Groovebox.Text.Lines
import Groovebox.Text.Decimal

/-! Written numbers and how they are read. Digits are read to their value, unless it is over
the limit, and what is written for a number reads back to it. -/

namespace Groovebox.Text

variable {limit n m : Nat} {c : Char} {text digits rest : List Char}

theorem isDigit_iff : isDigit c ↔ c.isDigit := by
  simp [isDigit, Char.isDigit, Char.le_def]

theorem isBlank_eq_false_of_lt (hlow : 0x20 < c.toNat) (hhigh : c.toNat < 0x85) :
    isBlank c = false := by
  simp only [isBlank, blankRanges, List.any_cons, List.any_nil, Bool.or_false, Bool.or_eq_false_iff,
    Bool.and_eq_false_iff, decide_eq_false_iff_not, Nat.not_le]
  omega

theorem toNat_of_isDigit (h : isDigit c) : 48 ≤ c.toNat ∧ c.toNat ≤ 57 := by
  simp only [isDigit, Bool.and_eq_true, decide_eq_true_eq, Char.le_def, UInt32.le_iff_toNat_le] at h
  exact h

theorem not_isBlank_of_isDigit (h : isDigit c) : isBlank c = false := by
  have hrange := toNat_of_isDigit h
  exact isBlank_eq_false_of_lt (by omega) (by omega)

def valueFrom (n : Nat) (digits : List Char) : Nat :=
  digits.foldl (fun n c => n * 10 + digitValue c) n

theorem le_valueFrom (n : Nat) (digits : List Char) : n ≤ valueFrom n digits := by
  induction digits generalizing n with
  | nil => exact Nat.le_refl n
  | cons c rest ih =>
    have hnext := ih (n * 10 + digitValue c)
    rw [valueFrom, List.foldl_cons, ← valueFrom]
    omega

theorem readDigits_of_le (hdigits : ∀ c ∈ digits, isDigit c) (hle : valueFrom n digits ≤ limit) :
    readDigits limit n digits = .ok (valueFrom n digits) := by
  induction digits generalizing n with
  | nil => rfl
  | cons c rest ih =>
    obtain ⟨hc, hrest⟩ := List.forall_mem_cons.mp hdigits
    rw [valueFrom, List.foldl_cons, ← valueFrom] at hle ⊢
    have hfirst : ¬limit < n * 10 + digitValue c :=
      Nat.not_lt.mpr (Nat.le_trans (le_valueFrom _ rest) hle)
    rw [readDigits, hc, if_neg (by simp), if_neg hfirst]
    exact ih hrest hle

theorem readDigits_le (h : readDigits limit n text = .ok m) (hn : n ≤ limit) : m ≤ limit := by
  fun_induction readDigits with
  | case1 => exact Except.ok.inj h ▸ hn
  | case2 => cases h
  | case3 => cases h
  | case4 n c rest hdigit hle ih => exact ih h (Nat.not_lt.mp hle)

theorem readNumber_le (h : readNumber limit text = .ok m) : m ≤ limit := by
  unfold readNumber at h
  split at h
  · cases h
  · exact readDigits_le h (Nat.zero_le limit)
  · exact readDigits_le h (Nat.zero_le limit)

theorem readNumber_eq_readDigits (hdigits : ∀ c ∈ digits, isDigit c) (hne : digits ≠ []) :
    readNumber limit digits = readDigits limit 0 digits := by
  unfold readNumber
  split
  · exact absurd rfl hne
  · have hplus := hdigits '+' List.mem_cons_self
    exact absurd hplus (by decide)
  · rfl

/-- One or more decimal digits and the number that they denote. -/
structure IsNumeral (digits : List Char) (n : Nat) : Prop where
  ne_nil : digits ≠ []
  decimal : ∀ c ∈ digits, c.isDigit
  value : Nat.ofDigitChars 10 digits 0 = n

theorem digitsValue_eq (digits : List Char) :
    digitsValue digits = Nat.ofDigitChars 10 digits 0 := by
  rw [Nat.ofDigitChars_eq_foldl]
  simp only [digitsValue, digitValue, Nat.mul_comm]

theorem IsNumeral.digitsValue_eq (h : IsNumeral digits n) : digitsValue digits = n :=
  (Text.digitsValue_eq digits).trans h.value

theorem takeWhile_append_of_head {p : Char → Bool} (hdigits : ∀ c ∈ digits, p c)
    (hrest : ∀ c ∈ rest.head?, p c = false) : (digits ++ rest).takeWhile p = digits := by
  rw [List.takeWhile_append_of_pos hdigits]
  cases rest with
  | nil => rw [List.takeWhile_nil, List.append_nil]
  | cons c rest =>
    rw [List.takeWhile_cons, hrest c rfl, if_neg Bool.false_ne_true, List.append_nil]

/-! What is written for a number. -/

theorem isDigit_of_mem_toDigits (h : c ∈ Nat.toDigits 10 n) : isDigit c :=
  isDigit_iff.mpr (Nat.isDigit_of_mem_toDigits (by omega) (Nat.le_refl 10) h)

theorem digitsValue_toDigits (n : Nat) : digitsValue (Nat.toDigits 10 n) = n := by
  rw [digitsValue_eq, Nat.ofDigitChars_ten_toDigits]

theorem isNumeral_toDigits (n : Nat) : IsNumeral (Nat.toDigits 10 n) n where
  ne_nil := Nat.toDigits_ne_nil
  decimal _ hc := isDigit_iff.mp (isDigit_of_mem_toDigits hc)
  value := Nat.ofDigitChars_ten_toDigits

theorem head?_toDigits_ne_zero (h : 10 ≤ n) : (Nat.toDigits 10 n).head? ≠ some '0' := by
  induction n using Nat.strongRecOn with
  | ind n ih =>
    rw [Nat.toDigits_of_base_le (by omega) h, List.head?_append]
    by_cases hten : 10 ≤ n / 10
    · have hne := ih (n / 10) (by omega) hten
      rwa [List.head?_eq_some_head Nat.toDigits_ne_nil] at hne ⊢
    · have hpos : ∀ d < 10, d ≠ 0 → some d.digitChar ≠ some '0' := by decide
      rw [Nat.toDigits_of_lt_base (by omega), List.head?_cons, Option.some_or]
      exact hpos (n / 10) (by omega) (by omega)

/-- Only a number of one digit begins with a zero. -/
theorem head?_toDigits_of_length (h : 1 < (Nat.toDigits 10 n).length) :
    (Nat.toDigits 10 n).head? ≠ some '0' := by
  by_cases hten : 10 ≤ n
  · exact head?_toDigits_ne_zero hten
  · rw [Nat.toDigits_of_lt_base (by omega)] at h
    exact absurd h (by simp)

theorem readNumber_toDigits (h : n ≤ limit) : readNumber limit (Nat.toDigits 10 n) = .ok n := by
  have hvalue : valueFrom 0 (Nat.toDigits 10 n) = n := digitsValue_toDigits n
  rw [readNumber_eq_readDigits (fun _ => isDigit_of_mem_toDigits) Nat.toDigits_ne_nil,
    readDigits_of_le (fun _ => isDigit_of_mem_toDigits) (hvalue.symm ▸ h), hvalue]

end Groovebox.Text

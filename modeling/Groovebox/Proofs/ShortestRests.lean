import Mathlib.Order.Bounds.Basic
import Groovebox.Proofs.TypedItems

/-! Rests in as few parts as can be. Each length goes a whole number of times into the next
longer one. So whatever shorter parts make up can be made up with the longer part where that
fits, in no more parts, and the rest that takes the longest part first is the shortest. -/

namespace Groovebox

variable {part longer : Nat} {lengths parts : List Nat}

theorem greedyParts_zero (lengths : List Nat) : greedyParts lengths 0 = [] := by
  induction lengths with
  | nil => rw [greedyParts, if_pos rfl]
  | cons length shorter ih =>
    have hno : ¬(0 < length ∧ length ≤ 0) := by omega
    rw [greedyParts, if_neg hno, ih]

theorem length_greedyParts_add (hpart : 0 < part) (shorter : List Nat) (count steps : Nat) :
    (greedyParts (part :: shorter) (count * part + steps)).length =
      count + (greedyParts (part :: shorter) steps).length := by
  rw [greedyParts_cons hpart, greedyParts_cons hpart, List.length_append, List.length_append,
    List.length_replicate, List.length_replicate, Nat.mul_comm, Nat.mul_add_div hpart,
    Nat.mul_add_mod, Nat.add_assoc]

/-- The parts that make up a longer part are traded for it. -/
theorem length_greedyParts_longer (hlonger : 0 < longer) (hpart : part ∣ longer)
    (shorter : List Nat) (steps : Nat) :
    (greedyParts (longer :: part :: shorter) steps).length ≤
      (greedyParts (part :: shorter) steps).length := by
  obtain ⟨times, rfl⟩ := hpart
  have hpos : 0 < part := Nat.pos_of_mul_pos_right hlonger
  have htimes : 0 < times := Nat.pos_of_mul_pos_left hlonger
  have hsteps : steps / (part * times) * times * part + steps % (part * times) = steps := by
    rw [Nat.mul_assoc, Nat.mul_comm times, Nat.div_add_mod']
  calc (greedyParts (part * times :: part :: shorter) steps).length
      = steps / (part * times) +
          (greedyParts (part :: shorter) (steps % (part * times))).length := by
        rw [greedyParts_cons hlonger, List.length_append, List.length_replicate]
    _ ≤ steps / (part * times) * times +
          (greedyParts (part :: shorter) (steps % (part * times))).length :=
        Nat.add_le_add_right (Nat.le_mul_of_pos_right _ htimes) _
    _ = (greedyParts (part :: shorter) steps).length := by
        rw [← length_greedyParts_add hpos, hsteps]

/-- No parts of these lengths that come to as much are fewer than those taken greedily. -/
theorem length_greedyParts_le (hpos : ∀ length ∈ lengths, 0 < length)
    (hdvd : lengths.IsChain fun longer part => part ∣ longer)
    (hparts : ∀ part ∈ parts, part ∈ lengths) :
    (greedyParts lengths parts.sum).length ≤ parts.length := by
  induction lengths generalizing parts with
  | nil =>
    obtain rfl := List.eq_nil_iff_forall_not_mem.mpr fun part h => List.not_mem_nil (hparts part h)
    rw [List.sum_nil, greedyParts_zero]
  | cons longer lengths ih =>
    obtain ⟨hlonger, hpos⟩ := List.forall_mem_cons.mp hpos
    let others := parts.filter fun part => !part == longer
    have hperm : (List.replicate (parts.count longer) longer ++ others).Perm parts := by
      rw [← List.filter_beq]
      exact List.filter_append_perm (· == longer) parts
    have hothers : ∀ part ∈ others, part ∈ lengths := by
      intro part h
      obtain ⟨hmem, hne⟩ := List.mem_filter.mp h
      simpa [show part ≠ longer by simpa using hne] using hparts part hmem
    have hsum : parts.sum = parts.count longer * longer + others.sum := by
      rw [← hperm.sum_eq, List.sum_append, List.sum_replicate_nat]
    have hlength : parts.length = parts.count longer + others.length := by
      rw [← hperm.length_eq, List.length_append, List.length_replicate]
    -- The other parts are no fewer than shorter lengths need, and `longer` needs no more.
    have hfewer : (greedyParts (longer :: lengths) others.sum).length ≤ others.length := by
      cases lengths with
      | nil =>
        have hnil : others = [] :=
          List.eq_nil_iff_forall_not_mem.mpr fun part h => List.not_mem_nil (hothers part h)
        rw [hnil, List.sum_nil, greedyParts_zero]
      | cons part shorter =>
        obtain ⟨hpart, hdvd⟩ := List.isChain_cons_cons.mp hdvd
        exact (length_greedyParts_longer hlonger hpart shorter _).trans (ih hpos hdvd hothers)
    rw [hsum, hlength, length_greedyParts_add hlonger]
    exact Nat.add_le_add_left hfewer _

theorem mem_of_mem_greedyParts {steps : Nat} (h : part ∈ greedyParts lengths steps) :
    part ∈ lengths ∨ part = quantum := by
  fun_induction greedyParts lengths steps with
  | case1 => exact absurd h List.not_mem_nil
  | case2 steps hleft => exact .inr (List.mem_singleton.mp h)
  | case3 length shorter steps hfits ih =>
    rcases List.mem_cons.mp h with rfl | h
    · exact .inl List.mem_cons_self
    · exact ih h
  | case4 length shorter steps hno ih => exact (ih h).imp_left (List.mem_cons_of_mem _)

theorem pairwise_greedyParts (hdesc : lengths.Pairwise (· ≥ ·))
    (hquantum : ∀ length ∈ lengths, quantum ≤ length) (steps : Nat) :
    (greedyParts lengths steps).Pairwise (· ≥ ·) := by
  fun_induction greedyParts lengths steps with
  | case1 => exact .nil
  | case2 steps hleft => exact List.pairwise_singleton _ _
  | case3 length shorter steps hfits ih =>
    refine List.pairwise_cons.mpr ⟨fun part h => ?_, ih hdesc hquantum⟩
    rcases mem_of_mem_greedyParts h with hmem | rfl
    · rcases List.mem_cons.mp hmem with rfl | hmem
      · exact Nat.le_refl part
      · exact List.rel_of_pairwise_cons hdesc hmem
    · exact hquantum length List.mem_cons_self
  | case4 length shorter steps hno ih =>
    exact ih hdesc.of_cons (List.forall_mem_cons.mp hquantum).2

theorem isLeast_sum_restParts (steps : Nat) :
    IsLeast {whole | quantum ∣ whole ∧ steps ≤ whole} (restParts steps).sum := by
  rw [sum_restParts]
  refine ⟨⟨Nat.dvd_mul_left quantum _, by omega⟩, fun whole ⟨hwhole, hle⟩ => ?_⟩
  simp only [quantum] at hwhole
  omega

/-- A rest is written longest part first, comes to its steps in whole quanta, and cannot be
written in fewer parts. -/
theorem restParts_shortest (steps : Nat) :
    greedyParts restLengths.reverse steps = restParts steps ∧
      (restParts steps).Pairwise (· ≥ ·) ∧
      (∀ part ∈ restParts steps, part ∈ restLengths) ∧
      IsLeast {whole | quantum ∣ whole ∧ steps ≤ whole} (restParts steps).sum ∧
      (restParts steps = [] ↔ steps = 0) ∧
      ∀ parts : List Nat, (∀ part ∈ parts, part ∈ restLengths) → parts.sum = steps →
        (restParts steps).length ≤ parts.length := by
  have hgreedy : greedyParts restLengths.reverse steps = restParts steps :=
    greedyParts_eq_restParts steps
  refine ⟨hgreedy, ?_, fun _ => mem_restLengths_of_mem_restParts, isLeast_sum_restParts steps,
    ?_, ?_⟩
  · rw [← hgreedy]
    exact pairwise_greedyParts (by decide) (by decide) steps
  · rw [← List.length_eq_zero_iff]
    simp only [restParts, List.length_append, List.length_replicate]
    omega
  · rintro parts hparts rfl
    rw [← hgreedy]
    exact length_greedyParts_le (by decide) (by decide) (by simpa using hparts)

theorem restParts_shortest_of_halves :
    let parts := [16, 16, 32, 4, 16, 16, 8]
    (∀ part ∈ parts, part ∈ restLengths) ∧ parts.sum = 108 ∧
      restParts 108 = [32, 32, 32, 8, 4] ∧ (restParts 108).length ≤ parts.length := by
  intro parts
  have hparts : ∀ part ∈ parts, part ∈ restLengths := by decide
  have hsum : parts.sum = 108 := rfl
  obtain ⟨-, -, -, -, -, hshortest⟩ := restParts_shortest 108
  exact ⟨hparts, hsum, by decide, hshortest parts hparts hsum⟩

end Groovebox

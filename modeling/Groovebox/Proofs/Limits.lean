import Groovebox.Config
import Groovebox.Proofs.Effects
import Groovebox.Proofs.Numerals

/-! Pad lengths over runs. The operations give pads no length over the limit, but the length
of new tracks comes from a variable that is held to no limit. -/

namespace Groovebox

/-- The lengths that an operation takes for a pad. -/
def IsPadLength (steps : UInt32) : Prop := 0 < steps.toNat ∧ steps.toNat ≤ stepLimit

theorem Editor.checkSteps_eq_ok_iff {steps : UInt32} :
    checkSteps steps = .ok () ↔ IsPadLength steps := by
  have hzero : steps = 0 ↔ steps.toNat = 0 := UInt32.toNat_inj.symm
  unfold checkSteps IsPadLength
  by_cases hs : steps = 0
  · simp [hs]
  · have hpos : 0 < steps.toNat := Nat.pos_of_ne_zero (hzero.not.mp hs)
    by_cases hlimit : stepLimit < steps.toNat
    · simp [hs, hlimit]
    · simp [hs, hlimit, hpos, Nat.not_lt.mp hlimit]

namespace PadLengths

variable {pads : PadLengths} {pad : UInt8} {standard : UInt32}

/-- The pads have lengths that operations took, or the length `standard` of a new track. -/
structure IsWithin (pads : PadLengths) (standard : UInt32) : Prop where
  own : ∀ steps, some steps ∈ pads.own → IsPadLength steps
  fallback : pads.fallback = standard ∨ IsPadLength pads.fallback

theorem isWithin_standard (standard : UInt32) : IsWithin { fallback := standard } standard where
  own steps h := by simp [Vector.mem_replicate] at h
  fallback := .inl rfl

theorem IsWithin.setOwn (h : pads.IsWithin standard) {steps : Option UInt32}
    (hsteps : ∀ n, steps = some n → IsPadLength n) :
    (pads.setOwn pad steps).IsWithin standard := by
  unfold PadLengths.setOwn
  by_cases hpad : pad.toNat < 8
  · rw [dif_pos hpad]
    refine ⟨fun n (hn : some n ∈ pads.own.set pad.toNat steps hpad) => ?_, h.fallback⟩
    rcases Vector.mem_or_eq_of_mem_set hn with hold | hnew
    · exact h.own n hold
    · exact hsteps n hnew.symm
  · rwa [dif_neg hpad]

end PadLengths

namespace Editor

variable {e changed : Editor} {op : Operation} {answer : Answer}

def HasPadLengths (e : Editor) : Prop := ∀ t ∈ e.song.tracks, t.pads.IsWithin e.padSteps

theorem HasPadLengths.updateTrack (h : e.HasPadLengths) {track : Nat} {f : Track → Track}
    (hf : ∀ t, t.pads.IsWithin e.padSteps → (f t).pads.IsWithin e.padSteps) :
    (e.updateTrack track f).HasPadLengths := by
  intro t ht
  obtain ⟨old, hold, rfl | ⟨-, rfl⟩⟩ := exists_of_mem_updateTrack ht
  · exact h t hold
  · exact hf old (h old hold)

theorem Effect.hasPadLengths (h : e.Effect op answer changed) (hold : e.HasPadLengths)
    (hop : ∀ song, op ≠ .replaceSong song) : changed.HasPadLengths := by
  cases h with
  | replaceSong song => exact absurd rfl (hop song)
  | addTrack name =>
    intro t ht
    rcases List.mem_append.mp ht with ht | ht
    · exact hold t ht
    · obtain rfl := List.mem_singleton.mp ht
      exact PadLengths.isWithin_standard e.padSteps
  | removeTrack => exact fun t ht => hold t (List.mem_of_mem_eraseIdx ht)
  | setPadSteps pad steps hpad hsteps =>
    exact hold.updateTrack fun t ht =>
      ht.setOwn fun n hn => checkSteps_eq_ok_iff.mp (hsteps n hn)
  | setDefaultPadSteps steps hsteps =>
    exact hold.updateTrack fun t ht => ⟨ht.own, .inr (checkSteps_eq_ok_iff.mp hsteps)⟩
  | edited => exact hold.updateTrack fun t ht => ht
  | dropped => exact HasPadLengths.updateTrack (e := { e with drag := none }) hold fun t ht => ht
  | _ => exact hold

theorem Effect.padSteps_eq (h : e.Effect op answer changed) : changed.padSteps = e.padSteps := by
  cases h <;> rfl

theorem hasPadLengths_run {ops : List Operation} (hold : e.HasPadLengths)
    (hops : ∀ song, .replaceSong song ∉ ops) :
    (e.run ops).HasPadLengths ∧ (e.run ops).padSteps = e.padSteps := by
  induction ops generalizing e with
  | nil => exact ⟨hold, rfl⟩
  | cons op rest ih =>
    have hrest : ∀ song, .replaceSong song ∉ rest := fun song hm =>
      hops song (List.mem_cons_of_mem _ hm)
    cases hop : e.perform op with
    | error fault =>
      rw [run_cons, after_of_error hop]
      exact ih hold hrest
    | ok changed =>
      obtain ⟨answer, heffect⟩ := exists_effect hop
      have hnew := heffect.hasPadLengths hold fun song heq => hops song (heq ▸ List.mem_cons_self)
      rw [run_cons, after_of_perform hop, ← heffect.padSteps_eq]
      exact ih hnew hrest

end Editor

namespace Config

theorem pos_of_parsePadSteps {raw : String} {steps : UInt32} (h : parsePadSteps raw = some steps) :
    0 < steps.toNat := by
  unfold parsePadSteps at h
  split at h
  · next n hread =>
    obtain rfl := Option.some.inj h
    have hle : n + 1 ≤ maxStep := Text.readNumber_le hread
    rw [maxStep] at hle
    rw [UInt32.toNat_ofNat_of_lt' (by simp [UInt32.size]; omega)]
    exact n.succ_pos
  · cases h

theorem padSteps_ofVariables (lookup : String → Option String) :
    (ofVariables lookup).1.padSteps = standardPadSteps ∨
      ∃ raw, lookup padStepsVariable = some raw ∧
        parsePadSteps raw = some (ofVariables lookup).1.padSteps := by
  unfold ofVariables
  cases hraw : lookup padStepsVariable with
  | none => exact .inl rfl
  | some raw =>
    cases hparse : parsePadSteps raw with
    | none => exact .inl (by simp [hparse])
    | some steps => exact .inr ⟨raw, rfl, by simp [hparse]⟩

end Config

namespace Editor

/-- In an editor set up from variables each pad has a length within the limit, unless the
variable for the length of new tracks has a greater number. -/
theorem pad_lengths_within_limit (lookup : String → Option String) {ops : List Operation}
    (h : ∀ song, .replaceSong song ∉ ops) {t : Track}
    (ht : t ∈ (({ padSteps := (Config.ofVariables lookup).1.padSteps } : Editor).run
      ops).song.tracks) :
    (∀ steps, some steps ∈ t.pads.own → IsPadLength steps) ∧
      (IsPadLength t.pads.fallback ∨
        stepLimit < t.pads.fallback.toNat ∧ ∃ raw, lookup Config.padStepsVariable = some raw ∧
          Config.parsePadSteps raw = some t.pads.fallback) := by
  have hstart : ({ padSteps := (Config.ofVariables lookup).1.padSteps } : Editor).HasPadLengths :=
    fun t ht => by cases ht
  obtain ⟨hlengths, hsteps⟩ := hasPadLengths_run hstart h
  have hwithin := hlengths t ht
  refine ⟨hwithin.own, ?_⟩
  rcases hwithin.fallback with hfallback | haccepted
  · rw [hfallback, hsteps]
    rcases Config.padSteps_ofVariables lookup with hstandard | ⟨raw, hraw, hparse⟩
    · exact .inl (hstandard ▸ ⟨by decide, by decide⟩)
    · by_cases hlimit : (Config.ofVariables lookup).1.padSteps.toNat ≤ stepLimit
      · exact .inl ⟨Config.pos_of_parsePadSteps hparse, hlimit⟩
      · exact .inr ⟨Nat.not_le.mp hlimit, raw, hraw, hparse⟩
  · exact .inl haccepted

/-- The longest length is taken for a pad and the next one is not. -/
theorem pad_lengths_within_limit_at_limit :
    let ops : List Operation :=
      [.addTrack "kick", .setPadSteps 0 3 (some 65536), .setDefaultPadSteps 0 65537]
    let pads : PadLengths := { fallback := 32 }
    let t : Track := { name := "kick", pads := pads.setOwn 3 (some 65536) }
    (({ padSteps := (Config.ofVariables fun _ => some " 32 ").1.padSteps } : Editor).run
      ops).song.tracks = [t] ∧
      (∀ steps, some steps ∈ t.pads.own → IsPadLength steps) ∧
      IsPadLength t.pads.fallback := by
  intro ops pads t
  have hops : ∀ song, .replaceSong song ∉ ops := fun song => by simp [ops]
  have htracks : (({ padSteps := (Config.ofVariables fun _ => some " 32 ").1.padSteps } :
      Editor).run ops).song.tracks = [t] := by rfl
  have hlengths := pad_lengths_within_limit (fun _ => some " 32 ") hops
    (htracks ▸ List.mem_singleton_self t)
  exact ⟨htracks, hlengths.1, by decide, by decide⟩

/-- A length over the limit comes in through the variable. -/
theorem default_length_over_limit :
    ∃ (lookup : String → Option String) (t : Track),
      t ∈ (({ padSteps := (Config.ofVariables lookup).1.padSteps } : Editor).run
        [.addTrack "kick"]).song.tracks ∧ ¬IsPadLength t.pads.fallback :=
  ⟨fun _ => some "65537", { name := "kick", pads.fallback := 65537 },
    List.mem_singleton.mpr rfl, fun h => absurd h.2 (by decide)⟩

end Editor

end Groovebox

/-! Results that may be absent or errors, taken apart step by step. -/

namespace Groovebox

variable {ε ε' α β : Type} {x : Except ε α} {P : α → Prop}

theorem ok_bind (a : α) (f : α → Except ε β) : (Except.ok a >>= f) = f a := rfl

theorem map_eq_bind_return (x : Except ε α) (f : α → β) : x.map f = do return f (← x) := by
  cases x <;> rfl

theorem exists_of_bind_eq_ok {f : α → Except ε β} {b : β} (h : (x >>= f) = .ok b) :
    ∃ a, x = .ok a ∧ f a = .ok b := by
  cases x with
  | error fault => cases h
  | ok a => exact ⟨a, rfl, h⟩

theorem exists_of_map_eq_ok {f : α → β} {b : β} (h : x.map f = .ok b) :
    ∃ a, x = .ok a ∧ f a = b := by
  cases x with
  | error fault => cases h
  | ok a => exact ⟨a, rfl, Except.ok.inj h⟩

theorem eq_ok_of_mapError_eq_ok {f : ε → ε'} {a : α} (h : x.mapError f = .ok a) : x = .ok a := by
  cases x with
  | error fault => cases h
  | ok b => exact congrArg Except.ok (Except.ok.inj h)

theorem mapM_eq_some_map {f : α → Option β} {g : α → β} {xs : List α}
    (h : ∀ x ∈ xs, f x = some (g x)) : xs.mapM f = some (xs.map g) := by
  induction xs with
  | nil => rfl
  | cons x xs ih =>
    have hrest := ih fun y hy => h y (List.mem_cons_of_mem _ hy)
    rw [List.mapM_cons, h x List.mem_cons_self, hrest]
    rfl

/-- What the step answers, if it does, has the property. -/
def Yields (P : α → Prop) (x : Except ε α) : Prop := ∀ a, x = .ok a → P a

theorem yields_pure {a : α} (h : P a) : Yields P (pure a : Except ε α) := by
  intro b hb
  exact Except.ok.inj hb ▸ h

theorem yields_throw (fault : ε) : Yields P (throw fault : Except ε α) := nofun

theorem Yields.bind {f : α → Except ε β} {R : β → Prop} (hx : Yields P x)
    (hf : ∀ a, P a → Yields R (f a)) : Yields R (x >>= f) := by
  intro b hb
  obtain ⟨a, ha, hrest⟩ := exists_of_bind_eq_ok hb
  exact hf a (hx a ha) b hrest

theorem yields_bind {f : α → Except ε β} {R : β → Prop} (hf : ∀ a, Yields R (f a)) :
    Yields R (x >>= f) := by
  intro b hb
  obtain ⟨a, -, hrest⟩ := exists_of_bind_eq_ok hb
  exact hf a b hrest

theorem yields_unless {c : Prop} [Decidable c] {fault : ε} {f : Unit → Except ε α}
    (hf : ∀ r, Yields P (f r)) : Yields P (if c then throw fault >>= f else f ()) := by
  split
  · exact yields_bind hf
  · exact hf ()

end Groovebox

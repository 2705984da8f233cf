import Groovebox.Session
import Groovebox.Proofs.Answers

/-! Actions by what they do to a session: one may keep it, fail only where it has kept it, and
take its editor through operations of some kind. Each carries over to actions in sequence. -/

namespace Groovebox

namespace Action

variable {α β : Type} {x : Action α} {f : α → Action β} {s left : Session}
  {P : Operation → Prop}

theorem run_bind (x : Action α) (f : α → Action β) (s : Session) :
    (x >>= f).run s = match x.run s with
      | (.ok a, next) => (f a).run next
      | (.error fault, next) => (.error fault, next) := by
  unfold ExceptT.run
  simp only [bind, ExceptT.bind, ExceptT.mk, StateT.bind, ExceptT.bindCont]
  rcases x s with ⟨fault | a, next⟩ <;> rfl

theorem run_bind_of_ok {a : α} (h : x.run s = (.ok a, left)) :
    (x >>= f).run s = (f a).run left := by
  rw [run_bind, h]

theorem run_bind_cases {result : Except CommandError β} (h : (x >>= f).run s = (result, left)) :
    (∃ fault, x.run s = (.error fault, left) ∧ result = .error fault) ∨
      ∃ a next, x.run s = (.ok a, next) ∧ (f a).run next = (result, left) := by
  rw [run_bind] at h
  rcases hx : x.run s with ⟨fault | a, next⟩
  · rw [hx] at h
    obtain ⟨rfl, rfl⟩ := Prod.mk.inj h
    exact .inl ⟨fault, rfl, rfl⟩
  · rw [hx] at h
    exact .inr ⟨a, next, rfl, h⟩

/-- The session stays as it is. -/
def Keeps (x : Action α) : Prop := ∀ s result left, x.run s = (result, left) → left = s

theorem keeps_pure (a : α) : Keeps (pure a) := fun _ _ _ h => (Prod.mk.inj h).2.symm

theorem keeps_throw (fault : CommandError) : Keeps (throw fault : Action α) :=
  fun _ _ _ h => (Prod.mk.inj h).2.symm

theorem run_get (s : Session) : (get : Action Session).run s = (.ok s, s) := rfl

theorem keeps_get : Keeps (get : Action Session) := fun _ _ _ h => (Prod.mk.inj h).2.symm

theorem run_lift (read : Except CommandError α) (s : Session) :
    (liftM read : Action α).run s = (read, s) := by
  cases read <;> rfl

theorem keeps_lift (read : Except CommandError α) : Keeps (liftM read) := by
  intro s result left h
  rw [run_lift] at h
  exact (Prod.mk.inj h).2.symm

theorem Keeps.bind (hx : Keeps x) (hf : ∀ a, Keeps (f a)) : Keeps (x >>= f) := by
  intro s result left h
  rcases run_bind_cases h with ⟨fault, hfail, -⟩ | ⟨a, next, hok, hrest⟩
  · exact hx s _ left hfail
  · have hnext : next = s := hx s _ next hok
    exact (hf a next result left hrest).trans hnext

/-- An action leaves the session that it leaves before others that keep it. -/
theorem exists_run_of_bind_keeps {result : Except CommandError β} (hf : ∀ a, Keeps (f a))
    (h : (x >>= f).run s = (result, left)) : ∃ first, x.run s = (first, left) := by
  rcases run_bind_cases h with ⟨fault, hfail, -⟩ | ⟨a, next, hok, hrest⟩
  · exact ⟨_, hfail⟩
  · obtain rfl := hf a next result left hrest
    exact ⟨_, hok⟩

def Succeeds (x : Action α) : Prop := ∀ s, ∃ a left, x.run s = (.ok a, left)

theorem succeeds_pure (a : α) : Succeeds (pure a) := fun s => ⟨a, s, rfl⟩

/-- Where the action fails, it has changed nothing. -/
def IsAtomic (x : Action α) : Prop := ∀ s fault left, x.run s = (.error fault, left) → left = s

theorem Keeps.isAtomic (h : Keeps x) : IsAtomic x := fun s fault left => h s (.error fault) left

theorem Succeeds.isAtomic (h : Succeeds x) : IsAtomic x := by
  intro s fault left hfail
  obtain ⟨a, next, hok⟩ := h s
  cases (Prod.mk.inj (hok.symm.trans hfail)).1

theorem Keeps.bind_isAtomic (hx : Keeps x) (hf : ∀ a, IsAtomic (f a)) : IsAtomic (x >>= f) := by
  intro s fault left h
  rcases run_bind_cases h with ⟨stop, hfail, -⟩ | ⟨a, next, hok, hfail⟩
  · exact hx s _ left hfail
  · have hnext : next = s := hx s _ next hok
    exact (hf a next fault left hfail).trans hnext

theorem IsAtomic.bind (hx : IsAtomic x) (hf : ∀ a, Succeeds (f a)) : IsAtomic (x >>= f) := by
  intro s fault left h
  rcases run_bind_cases h with ⟨stop, hfail, -⟩ | ⟨a, next, -, hfail⟩
  · exact hx s stop left hfail
  · obtain ⟨b, last, hok⟩ := hf a next
    cases (Prod.mk.inj (hok.symm.trans hfail)).1

/-- The editor goes through operations with the property `P`, and changes in no other way. -/
def MovesBy (P : Operation → Prop) (x : Action α) : Prop :=
  ∀ s result left, x.run s = (result, left) →
    ∃ ops, (∀ op ∈ ops, P op) ∧ left.editor = s.editor.run ops

theorem Keeps.movesBy (h : Keeps x) : MovesBy P x := by
  intro s result left hrun
  exact ⟨[], by simp, by rw [h s result left hrun]; rfl⟩

theorem MovesBy.bind (hx : MovesBy P x) (hf : ∀ a, MovesBy P (f a)) : MovesBy P (x >>= f) := by
  intro s result left h
  rcases run_bind_cases h with ⟨fault, hfail, -⟩ | ⟨a, next, hok, hrest⟩
  · exact hx s _ left hfail
  · exact Editor.exists_run_trans (hx s _ next hok) (hf a next result left hrest)

end Action

namespace Session

open Groovebox.Action

variable {α β : Type} {P : Operation → Prop}

theorem run_query (f : Editor → Except EditError α) (s : Session) :
    (query f).run s = ((f s.editor).mapError CommandError.edit, s) := by
  rw [query, run_bind_of_ok (run_get s)]
  cases f s.editor <;> rfl

theorem keeps_query (f : Editor → Except EditError α) : Keeps (query f) := by
  intro s result left h
  rw [run_query] at h
  exact (Prod.mk.inj h).2.symm

theorem run_perform (f : Editor → Except EditError (Outcome α)) (s : Session) :
    (perform f).run s = match f s.editor with
      | .error fault => (.error (.edit fault), s)
      | .ok done =>
        (.ok done.value, { s with editor := done.editor, log := s.log ++ done.log }) := by
  rw [perform, run_bind, run_query]
  cases f s.editor <;> rfl

theorem isAtomic_perform (f : Editor → Except EditError (Outcome α)) : IsAtomic (perform f) := by
  intro s fault left h
  rw [run_perform] at h
  cases hf : f s.editor with
  | error stop =>
    rw [hf] at h
    exact (Prod.mk.inj h).2.symm
  | ok done =>
    rw [hf] at h
    cases (Prod.mk.inj h).1

/-- Where `f` stands for an operation the editor moves by it. -/
theorem movesBy_perform {f : Editor → Except EditError (Outcome α)} {op : Operation}
    (hf : ∀ e, (f e).map (·.editor) = e.perform op) (hop : P op) : MovesBy P (perform f) := by
  intro s result left h
  rw [run_perform] at h
  have hafter := hf s.editor
  refine ⟨[op], by simpa using hop, ?_⟩
  have hone : s.editor.run [op] = s.editor.after op := rfl
  rw [hone]
  cases hdone : f s.editor with
  | error fault =>
    rw [hdone] at h hafter
    rw [Editor.after_of_error hafter.symm, ← (Prod.mk.inj h).2]
  | ok done =>
    rw [hdone] at h hafter
    rw [Editor.after_of_perform hafter.symm, ← (Prod.mk.inj h).2]

theorem run_update (f : Editor → Except EditError (α × Editor)) (s : Session) :
    (update f).run s = match f s.editor with
      | .error fault => (.error (.edit fault), s)
      | .ok (value, editor) => (.ok value, { s with editor }) := by
  rw [update, run_perform]
  cases f s.editor with
  | error fault => rfl
  | ok done => simp [Except.map]

theorem exists_of_run_update_eq_ok {f : Editor → Except EditError (α × Editor)}
    {s left : Session} {a : α} (h : (update f).run s = (.ok a, left)) :
    ∃ editor, f s.editor = .ok (a, editor) ∧ left = { s with editor } := by
  rw [run_update] at h
  cases hf : f s.editor with
  | error fault =>
    rw [hf] at h
    cases (Prod.mk.inj h).1
  | ok changed =>
    rw [hf] at h
    obtain ⟨hvalue, rfl⟩ := Prod.mk.inj h
    cases hvalue
    exact ⟨changed.2, rfl, rfl⟩

theorem isAtomic_update (f : Editor → Except EditError (α × Editor)) : IsAtomic (update f) :=
  isAtomic_perform _

theorem movesBy_update {f : Editor → Except EditError (α × Editor)} {op : Operation}
    (hf : ∀ e, (f e).map (·.2) = e.perform op) (hop : P op) : MovesBy P (update f) := by
  refine movesBy_perform (fun e => ?_) hop
  rw [← hf e]
  cases f e <;> rfl

theorem run_update_map (f : Editor → Except EditError Editor) (s : Session) :
    (update fun e => (f e).map (((), ·))).run s = match f s.editor with
      | .error fault => (.error (.edit fault), s)
      | .ok editor => (.ok (), { s with editor }) := by
  rw [run_update]
  cases f s.editor <;> rfl

theorem movesBy_update_map {f : Editor → Except EditError Editor} {op : Operation}
    (hf : ∀ e, f e = e.perform op) (hop : P op) :
    MovesBy P (update fun e => (f e).map (((), ·))) := by
  refine movesBy_update (fun e => ?_) hop
  rw [← hf e]
  cases f e <;> rfl

end Session

end Groovebox

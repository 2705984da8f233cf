import Groovebox.Proofs.References

/-! What the diagnostics report. Cyclic names come in the order of the tables, dangling names
in the order in which they are first called. The search along calls is done here once more
with a stack, one name at a turn. A turn that ends nothing takes one name off the stack and
puts on it only names that were never there, so the names that are called bound the turns. -/

namespace Groovebox

theorem Table.keys_pairwise {α : Type} (t : Table α) : t.keys.Pairwise (· < ·) :=
  List.pairwise_map.mpr t.ascending

/-- Groups come before super-groups, and names of one kind in the order of their ids. -/
def GroupName.Before (a b : GroupName) : Prop :=
  (a.kind = .group ∧ b.kind = .super) ∨ (a.kind = b.kind ∧ a.id < b.id)

section Occurrences

variable {α : Type} [DecidableEq α]

theorem idxOf_lt_idxOf_of_filter {q : α → Bool} {names : List α} {a b : α} (ha : q a = true)
    (hb : q b = true) (h : (names.filter q).idxOf a < (names.filter q).idxOf b) :
    names.idxOf a < names.idxOf b := by
  induction names with
  | nil => simp at h
  | cons head rest ih =>
    by_cases hq : q head = true
    · rw [List.filter_cons_of_pos hq] at h
      by_cases hheada : head = a
      · subst hheada
        by_cases hheadb : head = b
        · simp [hheadb] at h
        · simp [List.idxOf_cons_ne _ hheadb]
      · by_cases hheadb : head = b
        · simp [hheadb] at h
        · rw [List.idxOf_cons_ne _ hheada, List.idxOf_cons_ne _ hheadb] at h ⊢
          exact Nat.succ_lt_succ (ih (Nat.lt_of_succ_lt_succ h))
    · rw [List.filter_cons_of_neg hq] at h
      have hheada : head ≠ a := fun he => hq (he ▸ ha)
      have hheadb : head ≠ b := fun he => hq (he ▸ hb)
      rw [List.idxOf_cons_ne _ hheada, List.idxOf_cons_ne _ hheadb]
      exact Nat.succ_lt_succ (ih h)

/-- Leaving out repetitions keeps the order of first occurrences. -/
theorem eraseDups_pairwise_idxOf (names : List α) :
    names.eraseDups.Pairwise fun a b => names.idxOf a < names.idxOf b := by
  induction hn : names.length using Nat.strongRecOn generalizing names with
  | ind n ih =>
    cases names with
    | nil => exact .nil
    | cons head rest =>
      have hlt : (rest.filter fun name => !name == head).length < n := by
        have hle := List.length_filter_le (fun name => !name == head) rest
        rw [List.length_cons] at hn
        omega
      have hother : ∀ name ∈ (rest.filter fun name => !name == head).eraseDups,
          (!name == head) = true := by
        intro name hm
        exact (List.mem_filter.mp (List.mem_eraseDups.mp hm)).2
      have hne : ∀ name, (!name == head) = true → head ≠ name := by
        rintro name hname rfl
        simp at hname
      rw [List.eraseDups_cons, List.pairwise_cons]
      refine ⟨fun name hm => ?_, ?_⟩
      · rw [List.idxOf_cons_self, List.idxOf_cons_ne _ (hne name (hother name hm))]
        exact Nat.succ_pos _
      · refine (ih _ hlt _ rfl).imp_of_mem fun {a b} ha hb hab => ?_
        rw [List.idxOf_cons_ne _ (hne a (hother a ha)), List.idxOf_cons_ne _ (hne b (hother b hb))]
        exact Nat.succ_lt_succ (idxOf_lt_idxOf_of_filter (hother a ha) (hother b hb) hab)

end Occurrences

namespace Pattern

variable {p : Pattern} {name target : GroupName} {names seen stack found : List GroupName}

/-- The names that the items of the containers call, from the root on. -/
def calledNames (p : Pattern) : List GroupName :=
  p.containers.flatMap fun container => ((p.sequence? container).getD []).filterMap Item.name?

/-- Put the names of `names` on the stack that were not seen before, unless one of them is
`target`. -/
def look? (target : GroupName) :
    List GroupName → List GroupName → List GroupName → Option (List GroupName × List GroupName)
  | [], seen, stack => some (seen, stack)
  | called :: rest, seen, stack =>
    if called = target then none
    else if called ∈ seen then look? target rest seen stack
    else look? target rest (called :: seen) (called :: stack)

/-- Whether the names on `stack` lead to `target`, with one name taken off the stack at a
turn. There is no answer when the turns do not suffice. -/
def seek? (p : Pattern) (target : GroupName) :
    Nat → List GroupName → List GroupName → Option Bool
  | _, _, [] => some false
  | 0, _, _ :: _ => none
  | turns + 1, seen, current :: stack =>
    match look? target (p.successors current) seen stack with
    | none => some true
    | some (seen, stack) => p.seek? target turns seen stack

theorem look?_of_mem (h : target ∈ names) (seen stack : List GroupName) :
    look? target names seen stack = none := by
  induction names generalizing seen stack with
  | nil => simp at h
  | cons called rest ih =>
    by_cases heq : called = target
    · rw [look?, if_pos heq]
    · have hrest : target ∈ rest := (List.mem_cons.mp h).resolve_left (Ne.symm heq)
      rw [look?, if_neg heq]
      split
      · exact ih hrest seen stack
      · exact ih hrest (called :: seen) (called :: stack)

theorem exists_look?_eq_some (h : target ∉ names) (seen stack : List GroupName) :
    ∃ found, look? target names seen stack = some (found ++ seen, found ++ stack) ∧ found.Nodup ∧
      ∀ called, called ∈ found ↔ called ∈ names ∧ called ∉ seen := by
  induction names generalizing seen stack with
  | nil => exact ⟨[], rfl, .nil, by simp⟩
  | cons called rest ih =>
    have hne : called ≠ target := (List.ne_of_not_mem_cons h).symm
    have hrest : target ∉ rest := List.not_mem_of_not_mem_cons h
    by_cases hseen : called ∈ seen
    · obtain ⟨found, hlook, hnodup, hfound⟩ := ih hrest seen stack
      refine ⟨found, by rw [look?, if_neg hne, if_pos hseen, hlook], hnodup, ?_⟩
      intro other
      rw [hfound, List.mem_cons]
      refine ⟨fun ⟨hm, hn⟩ => ⟨.inr hm, hn⟩, fun ⟨hm, hn⟩ => ⟨hm.resolve_left ?_, hn⟩⟩
      rintro rfl
      exact hn hseen
    · obtain ⟨found, hlook, hnodup, hfound⟩ := ih hrest (called :: seen) (called :: stack)
      have hnot : called ∉ found := fun hm => ((hfound called).mp hm).2 List.mem_cons_self
      refine ⟨found ++ [called], ?_, ?_, ?_⟩
      · rw [look?, if_neg hne, if_neg hseen, hlook]
        simp
      · rw [List.nodup_append]
        refine ⟨hnodup, List.nodup_singleton _, fun a ha b hb => ?_⟩
        rw [List.mem_singleton.mp hb]
        exact fun he => hnot (he ▸ ha)
      · intro other
        by_cases heq : other = called
        · subst heq
          simp [hseen]
        · simp [hfound, heq]

/-- The names that can still be put on the stack. -/
def unseen (p : Pattern) (seen : List GroupName) : List GroupName :=
  (p.names ++ p.danglingNames).filter (· ∉ seen)

theorem length_unseen_append (hnodup : found.Nodup) (hfound : found ⊆ p.unseen seen) :
    (p.unseen (found ++ seen)).length + found.length ≤ (p.unseen seen).length := by
  have heq : p.unseen (found ++ seen) = (p.unseen seen).filter (· ∉ found) := by
    rw [unseen, unseen, List.filter_filter]
    exact List.filter_congr fun other _ => by simp
  have hle : found.length ≤ ((p.unseen seen).filter (· ∈ found)).length := by
    refine hnodup.length_le_of_subset fun other hm => ?_
    exact List.mem_filter.mpr ⟨hfound hm, decide_eq_true hm⟩
  have hsplit := List.length_eq_length_filter_add (l := p.unseen seen) (· ∈ found)
  simp only [← decide_not] at hsplit
  rw [heq]
  omega

theorem mem_unseen_of_calls {caller : Container} {called : GroupName}
    (h : p.Calls caller (.named called)) (hn : called ∉ seen) : called ∈ p.unseen seen := by
  refine List.mem_filter.mpr ⟨List.mem_append.mpr ?_, decide_eq_true hn⟩
  cases hb : p.body? called with
  | none => exact .inr (mem_danglingNames_iff.mpr ⟨h.holds, hb⟩)
  | some body => exact .inl (mem_names_of_body? hb)

theorem Searches.mem_seen_iff (h : p.Searches name seen []) :
    target ∈ seen ↔ target ∈ p.reached name := by
  have hnone : p.newNames seen [] = [] := newNames_eq_nil (fun _ hm => by simp at hm) seen
  rw [mem_reached_iff, h.mem_iff_reaches hnone]

theorem Searches.mem_reached_of_mem_successors {current : GroupName}
    (h : p.Searches name seen (current :: stack)) (hcall : target ∈ p.successors current) :
    target ∈ p.reached name := by
  have hcalls := mem_successors_iff.mp hcall
  rw [mem_reached_iff]
  rcases h.entered current List.mem_cons_self with rfl | hseen
  · exact .single hcalls
  · exact (h.reaches current hseen).tail hcalls

/-- A search that has not met `target` answers while there are turns for all names that it
can still come across. -/
theorem Searches.seek?_eq_some {turns : Nat} (h : p.Searches name seen stack)
    (hmet : target ∉ seen) (hturns : (p.unseen seen).length + stack.length ≤ turns) :
    p.seek? target turns seen stack = some (decide (target ∈ p.reached name)) := by
  induction turns generalizing seen stack with
  | zero =>
    obtain rfl : stack = [] := List.eq_nil_of_length_eq_zero (by omega)
    simp only [seek?, ← h.mem_seen_iff, hmet, decide_false]
  | succ turns ih =>
    cases stack with
    | nil => simp only [seek?, ← h.mem_seen_iff, hmet, decide_false]
    | cons current stack =>
      by_cases hcall : target ∈ p.successors current
      · simp only [seek?, look?_of_mem hcall, h.mem_reached_of_mem_successors hcall, decide_true]
      · obtain ⟨found, hlook, hnodup, hfound⟩ := exists_look?_eq_some hcall seen stack
        have hsub : found ⊆ p.unseen seen := fun called hm =>
          mem_unseen_of_calls (mem_successors_iff.mp ((hfound called).mp hm).1)
            ((hfound called).mp hm).2
        have hnext : p.Searches name (found ++ seen) (found ++ stack) := by
          have hcurrent : p.Searches name seen ([current] ++ stack) := h
          refine hcurrent.advance (fun called => ?_) fun called => ?_
          · simp only [hfound, mem_successors_iff, List.mem_singleton, exists_eq_left]
          · rw [List.mem_append, or_comm]
        have hmet' : target ∉ found ++ seen := by
          rw [List.mem_append]
          exact fun hm => hm.elim (fun hnew => hcall ((hfound target).mp hnew).1) hmet
        have hfewer := length_unseen_append hnodup hsub
        rw [List.length_cons] at hturns
        simp only [seek?, hlook]
        refine ih hnext hmet' ?_
        rw [List.length_append]
        omega

theorem seek?_eq_some (p : Pattern) (name target : GroupName) (further : Nat) :
    p.seek? target (p.names.length + p.danglingNames.length + 1 + further) [] [name] =
      some (decide (target ∈ p.reached name)) := by
  refine (Searches.start p name).seek?_eq_some List.not_mem_nil ?_
  have hle : (p.unseen []).length ≤ (p.names ++ p.danglingNames).length := List.length_filter_le ..
  rw [List.length_append] at hle
  rw [List.length_singleton]
  omega

theorem names_pairwise_before (p : Pattern) : p.names.Pairwise GroupName.Before := by
  rw [names, List.pairwise_append, List.pairwise_map, List.pairwise_map]
  refine ⟨p.groups.keys_pairwise.imp fun hlt => .inr ⟨rfl, hlt⟩,
    p.supers.keys_pairwise.imp fun hlt => .inr ⟨rfl, hlt⟩, fun a ha b hb => .inl ?_⟩
  obtain ⟨_, -, rfl⟩ := List.mem_map.mp ha
  obtain ⟨_, -, rfl⟩ := List.mem_map.mp hb
  exact ⟨rfl, rfl⟩

theorem danglingNames_pairwise_idxOf (p : Pattern) :
    p.danglingNames.Pairwise fun a b => p.calledNames.idxOf a < p.calledNames.idxOf b := by
  have hundefined : ∀ name ∈ p.danglingNames, (p.body? name).isNone = true := fun name hm =>
    Option.isNone_iff_eq_none.mpr (mem_danglingNames_iff.mp hm).2
  refine (eraseDups_pairwise_idxOf _).imp_of_mem fun {a b} ha hb hab => ?_
  exact idxOf_lt_idxOf_of_filter (q := fun name => (p.body? name).isNone) (hundefined a ha)
    (hundefined b hb) hab

/-- The diagnostics are exact. Cyclic names are the defined ones that a chain of calls leads
back to, in the order of the tables, and dangling names are those that are called and not
defined, in the order of their first calls from the root on. Either order leaves no room for
repetitions. The search for a cycle with a stack ends: its turns are at most one more than
there are names, and what it finds is what is reported. -/
theorem diagnose_exact (p : Pattern) :
    (∀ name, name ∈ p.diagnose.cyclic ↔
      (p.body? name).isSome ∧ p.Reaches (.named name) (.named name)) ∧
    p.diagnose.cyclic.Pairwise GroupName.Before ∧
    (∀ name, name ∈ p.diagnose.dangling ↔ p.Holds (.call name) ∧ p.body? name = none) ∧
    p.diagnose.dangling.Pairwise (fun a b => p.calledNames.idxOf a < p.calledNames.idxOf b) ∧
    ∀ name further,
      p.seek? name (p.names.length + p.diagnose.dangling.length + 1 + further) [] [name] =
        some (decide (name ∈ p.diagnose.cyclic)) := by
  refine ⟨fun name => ?_, p.names_pairwise_before.filter _, fun name => mem_danglingNames_iff,
    p.danglingNames_pairwise_idxOf, fun name further => ?_⟩
  · refine mem_cyclicNames_iff.trans (iff_and_self.mpr fun hreach => ?_)
    obtain ⟨_, ⟨body, -, hb, -⟩, -⟩ := Relation.TransGen.head'_iff.mp hreach
    exact Option.isSome_of_mem hb
  · have hcyclic : name ∈ p.reached name ↔ name ∈ p.diagnose.cyclic :=
      mem_reached_iff.trans mem_cyclicNames_iff.symm
    refine (p.seek?_eq_some name name further).trans ?_
    simp only [hcyclic]

end Pattern

end Groovebox

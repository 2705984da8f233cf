import Groovebox.Diagnostics
import Groovebox.Proofs.Contents

/-! The search along calls finds what calls lead to. What it has seen is reached, and it
has seen what all names call that it went past. A round that enters no defined name is the
last one to find anything, so the names of the pattern bound the rounds. -/

namespace Groovebox

namespace Pattern

variable {p : Pattern} {name caller called : GroupName} {seen frontier : List GroupName}

theorem mem_successors_iff :
    called ∈ p.successors caller ↔ p.Calls (.named caller) (.named called) := by
  simp only [successors, List.mem_filterMap, Item.name?_eq_some_iff]
  constructor
  · rintro ⟨item, hm, rfl⟩
    cases hb : p.body? caller with
    | none => simp [hb] at hm
    | some body =>
      rw [hb] at hm
      exact ⟨body, called, hb, hm, rfl⟩
  · rintro ⟨body, _, hb, hm, heq⟩
    obtain rfl := Container.named.inj heq
    have hbody : p.body? caller = some body := hb
    exact ⟨.call called, by rwa [hbody], rfl⟩

theorem exists_body_of_calls (h : p.Calls (.named caller) (.named called)) :
    ∃ body, p.body? caller = some body := by
  obtain ⟨body, -, hb, -⟩ := h
  exact ⟨body, hb⟩

theorem mem_newNames_iff :
    called ∈ p.newNames seen frontier ↔
      (∃ caller ∈ frontier, p.Calls (.named caller) (.named called)) ∧ called ∉ seen := by
  simp only [newNames, List.mem_eraseDups, List.mem_filter, List.mem_flatMap,
    mem_successors_iff, decide_eq_true_iff]

theorem length_closedNames_le_of_subset (p : Pattern) {path inner : List GroupName}
    (h : path ⊆ inner) : (p.closedNames inner).length ≤ (p.closedNames path).length := by
  refine (List.monotone_filter_right p.names fun name hn => ?_).length_le
  simp only [decide_eq_true_eq] at hn ⊢
  exact fun hm => hn (h hm)

/-- A search from `name` has seen `seen`, and has yet to look at what `frontier` calls. -/
structure Searches (p : Pattern) (name : GroupName) (seen frontier : List GroupName) : Prop where
  entered : ∀ caller ∈ frontier, caller = name ∨ caller ∈ seen
  reaches : ∀ called ∈ seen, p.Reaches (.named name) (.named called)
  looked : ∀ caller, caller = name ∨ caller ∈ seen → caller ∉ frontier →
    ∀ called, p.Calls (.named caller) (.named called) → called ∈ seen

namespace Searches

theorem start (p : Pattern) (name : GroupName) : p.Searches name [] [name] where
  entered caller hm := .inl (List.mem_singleton.mp hm)
  reaches called hm := absurd hm List.not_mem_nil
  looked caller hc hn := by
    rcases hc with rfl | hm
    · exact absurd List.mem_cons_self hn
    · exact absurd hm List.not_mem_nil

/-- Looking at what some names of the frontier call puts the names that are new there. -/
theorem advance {now later found grown : List GroupName} (h : p.Searches name seen (now ++ later))
    (hfound : ∀ called, called ∈ found ↔
      (∃ caller ∈ now, p.Calls (.named caller) (.named called)) ∧ called ∉ seen)
    (hgrown : ∀ called, called ∈ grown ↔ called ∈ seen ∨ called ∈ found) :
    p.Searches name grown (found ++ later) where
  entered caller hm := by
    rcases List.mem_append.mp hm with hnew | hlater
    · exact .inr ((hgrown caller).mpr (.inr hnew))
    · exact (h.entered caller (List.mem_append_right _ hlater)).imp_right fun hseen =>
        (hgrown caller).mpr (.inl hseen)
  reaches called hm := by
    rcases (hgrown called).mp hm with hold | hnew
    · exact h.reaches called hold
    · obtain ⟨⟨caller, hc, hcalls⟩, -⟩ := (hfound called).mp hnew
      rcases h.entered caller (List.mem_append_left _ hc) with rfl | hseen
      · exact .single hcalls
      · exact (h.reaches caller hseen).tail hcalls
  looked caller hc hn called hcalls := by
    have hnew : caller ∉ found := fun hm => hn (List.mem_append_left _ hm)
    have hold : caller = name ∨ caller ∈ seen :=
      hc.imp_right fun hm => ((hgrown caller).mp hm).resolve_right hnew
    refine (hgrown called).mpr ?_
    by_cases hseen : called ∈ seen
    · exact .inl hseen
    · by_cases hnow : caller ∈ now
      · exact .inr ((hfound called).mpr ⟨⟨caller, hnow, hcalls⟩, hseen⟩)
      · have hfrontier : caller ∉ now ++ later := fun hm =>
          (List.mem_append.mp hm).elim hnow fun hlater => hn (List.mem_append_right _ hlater)
        exact .inl (h.looked caller hold hfrontier called hcalls)

theorem next (h : p.Searches name seen frontier) :
    p.Searches name (seen ++ p.newNames seen frontier) (p.newNames seen frontier) := by
  have hall : p.Searches name seen (frontier ++ []) := by rwa [List.append_nil]
  have hnext := hall.advance (fun _ => mem_newNames_iff) fun _ => List.mem_append
  rwa [List.append_nil] at hnext

/-- A search with nothing new to enter is over. -/
theorem mem_of_reaches (h : p.Searches name seen frontier)
    (hnone : p.newNames seen frontier = []) {container : Container}
    (hreach : p.Reaches (.named name) container) : ∃ called ∈ seen, container = .named called := by
  have hover := h.next
  rw [hnone, List.append_nil] at hover
  have hlooked := fun caller hc => hover.looked caller hc List.not_mem_nil
  induction hreach with
  | single hcalls =>
    obtain ⟨body, called, hb, hm, rfl⟩ := hcalls
    exact ⟨called, hlooked name (.inl rfl) called ⟨body, called, hb, hm, rfl⟩, rfl⟩
  | tail _ hcalls ih =>
    obtain ⟨caller, hseen, rfl⟩ := ih
    obtain ⟨body, called, hb, hm, rfl⟩ := hcalls
    exact ⟨called, hlooked caller (.inr hseen) called ⟨body, called, hb, hm, rfl⟩, rfl⟩

theorem mem_iff_reaches (h : p.Searches name seen frontier)
    (hnone : p.newNames seen frontier = []) :
    called ∈ seen ↔ p.Reaches (.named name) (.named called) := by
  refine ⟨h.reaches called, fun hreach => ?_⟩
  obtain ⟨other, hm, heq⟩ := h.mem_of_reaches hnone hreach
  exact Container.named.inj heq ▸ hm

end Searches

theorem newNames_eq_nil (h : ∀ caller ∈ frontier, p.body? caller = none) (seen : List GroupName) :
    p.newNames seen frontier = [] := by
  rw [List.eq_nil_iff_forall_not_mem]
  intro called hm
  obtain ⟨⟨caller, hc, hcalls⟩, -⟩ := mem_newNames_iff.mp hm
  obtain ⟨body, hb⟩ := exists_body_of_calls hcalls
  exact Option.some_ne_none body (hb.symm.trans (h caller hc))

theorem mem_closure_iff {rounds : Nat} (h : p.Searches name seen frontier)
    (henough : (p.closedNames seen).length < rounds ∨ p.newNames seen frontier = []) :
    called ∈ p.closure rounds seen frontier ↔ p.Reaches (.named name) (.named called) := by
  induction rounds generalizing seen frontier with
  | zero => exact h.mem_iff_reaches (henough.resolve_left (Nat.not_lt_zero _))
  | succ rounds ih =>
    by_cases hnone : p.newNames seen frontier = []
    · simpa only [closure, hnone, List.isEmpty_nil, if_true] using h.mem_iff_reaches hnone
    have hclosure : p.closure (rounds + 1) seen frontier =
        p.closure rounds (seen ++ p.newNames seen frontier) (p.newNames seen frontier) :=
      if_neg (by simpa using hnone)
    have hbound : (p.closedNames seen).length < rounds + 1 := henough.resolve_right hnone
    rw [hclosure]
    refine ih h.next ?_
    by_cases hend : ∀ caller ∈ p.newNames seen frontier, p.body? caller = none
    · exact .inr (newNames_eq_nil hend _)
    · push Not at hend
      obtain ⟨caller, hm, hdefined⟩ := hend
      obtain ⟨body, hb⟩ := Option.ne_none_iff_exists'.mp hdefined
      have hlt := length_closedNames_lt (mem_newNames_iff.mp hm).2 hb
      have hsub : caller :: seen ⊆ seen ++ p.newNames seen frontier :=
        List.cons_subset.mpr ⟨List.mem_append_right _ hm, List.subset_append_left _ _⟩
      have hle := p.length_closedNames_le_of_subset hsub
      exact .inl (by omega)

theorem mem_reached_iff :
    called ∈ p.reached name ↔ p.Reaches (.named name) (.named called) := by
  refine mem_closure_iff (.start p name) (.inl ?_)
  have hle := p.length_closedNames_le []
  have hnames := p.length_names
  omega

/-- The names reported as cyclic are those that a chain of calls leads back to. -/
theorem mem_cyclicNames_iff :
    name ∈ p.cyclicNames ↔ p.Reaches (.named name) (.named name) := by
  simp only [cyclicNames, List.mem_filter, mem_reached_iff, decide_eq_true_iff,
    and_iff_right_iff_imp]
  intro hreach
  obtain ⟨_, ⟨body, -, hb, -⟩, -⟩ := Relation.TransGen.head'_iff.mp hreach
  exact mem_names_of_body? hb

theorem mem_containers_of_sequence? {container : Container} {items : List Item}
    (h : p.sequence? container = some items) : container ∈ p.containers := by
  cases container with
  | root => exact List.mem_cons_self
  | named name => exact List.mem_cons_of_mem _ (List.mem_map_of_mem (mem_names_of_body? h))

theorem holds_iff_mem_containers {item : Item} :
    p.Holds item ↔ ∃ container ∈ p.containers, item ∈ (p.sequence? container).getD [] := by
  constructor
  · rintro ⟨container, items, hc, hm⟩
    exact ⟨container, mem_containers_of_sequence? hc, by rwa [hc]⟩
  · rintro ⟨container, -, hm⟩
    cases hc : p.sequence? container with
    | none => simp [hc] at hm
    | some items =>
      rw [hc] at hm
      exact ⟨container, items, hc, hm⟩

instance (p : Pattern) (item : Item) : Decidable (p.Holds item) :=
  decidable_of_iff _ holds_iff_mem_containers.symm

/-- The names reported as dangling are those that are called and not defined. -/
theorem mem_danglingNames_iff :
    name ∈ p.danglingNames ↔ p.Holds (.call name) ∧ p.body? name = none := by
  simp only [danglingNames, List.mem_eraseDups, List.mem_filter, Option.isNone_iff_eq_none,
    List.mem_flatMap, List.mem_filterMap, Item.name?_eq_some_iff, exists_eq_right,
    holds_iff_mem_containers]

end Pattern

end Groovebox

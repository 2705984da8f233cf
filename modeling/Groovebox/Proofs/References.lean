import Groovebox.Proofs.Reached

/-! Structural edits and the faults of the reference graph. Where each call that an edit
leaves was a chain of calls before, chains lead to the same names as before, so nothing new
dangles or comes back to itself. Grouping sends chains through a fresh name. Seen from
before, that name is the container which the run was in. -/

namespace Groovebox

namespace Pattern

/-- `q` has no fault of the reference graph that `p` has not. -/
structure AddsNoFaults (p q : Pattern) : Prop where
  dangling : q.danglingNames ⊆ p.danglingNames
  cyclic : q.cyclicNames ⊆ p.cyclicNames

variable {p q : Pattern} {container caller called : Container}

theorem AddsNoFaults.refl (p : Pattern) : p.AddsNoFaults p :=
  ⟨List.Subset.refl _, List.Subset.refl _⟩

theorem Calls.holds {name : GroupName} (h : p.Calls caller (.named name)) :
    p.Holds (.call name) := by
  obtain ⟨items, _, hc, hm, heq⟩ := h
  obtain rfl := Container.named.inj heq
  exact ⟨caller, items, hc, hm⟩

theorem Reaches.holds {name : GroupName} (h : p.Reaches caller (.named name)) :
    p.Holds (.call name) := by
  obtain ⟨_, -, hcalls⟩ := Relation.TransGen.tail'_iff.mp h
  exact hcalls.holds

theorem Holds.exists_calls {name : GroupName} (h : p.Holds (.call name)) :
    ∃ caller, p.Calls caller (.named name) := by
  obtain ⟨caller, items, hc, hm⟩ := h
  exact ⟨caller, items, name, hc, hm, rfl⟩

theorem danglingNames_subset (hedits : p.EditsOnly container q)
    (hheld : ∀ name, q.Holds (.call name) → q.body? name = none → p.Holds (.call name)) :
    q.danglingNames ⊆ p.danglingNames := by
  intro name hm
  obtain ⟨hq, hnone⟩ := mem_danglingNames_iff.mp hm
  refine mem_danglingNames_iff.mpr ⟨hheld name hq hnone, ?_⟩
  have hdefined : (p.sequence? (.named name)).isSome → (q.sequence? (.named name)).isSome :=
    hedits.isSome
  rw [← Option.not_isSome_iff_eq_none] at hnone ⊢
  exact fun hsome => hnone (hdefined hsome)

theorem EditsOnly.addsNoFaults (hedits : p.EditsOnly container q)
    (hcalls : ∀ caller called, q.Calls caller called → p.Reaches caller called) :
    p.AddsNoFaults q where
  dangling := by
    refine danglingNames_subset hedits fun name hq _ => ?_
    obtain ⟨caller, hc⟩ := hq.exists_calls
    exact (hcalls caller (.named name) hc).holds
  cyclic := by
    intro name hm
    have hreach : q.Reaches (.named name) (.named name) := mem_cyclicNames_iff.mp hm
    exact mem_cyclicNames_iff.mpr (hreach.lift' id hcalls)

theorem Calls.of_put {items : List Item} (h : (p.put container items).Calls caller called) :
    p.Calls caller called ∨
      caller = container ∧ ∃ name, .call name ∈ items ∧ called = .named name := by
  obtain ⟨found, name, hfound, hm, rfl⟩ := h
  rw [sequence?_put] at hfound
  by_cases heq : caller = container
  · rw [if_pos heq] at hfound
    obtain rfl := Option.some.inj hfound
    exact .inr ⟨heq, name, hm, rfl⟩
  · rw [if_neg heq] at hfound
    exact .inl ⟨found, name, hfound, hm, rfl⟩

theorem addsNoFaults_setSequence? {items : List Item}
    (h : p.setSequence? container items = some q)
    (hcalls : ∀ name, .call name ∈ items → p.Reaches container (.named name)) :
    p.AddsNoFaults q := by
  refine (editsOnly_setSequence? h).addsNoFaults fun caller called hq => ?_
  obtain ⟨current, -, rfl⟩ := exists_put_of_setSequence? h
  rcases hq.of_put with hold | ⟨rfl, name, hm, rfl⟩
  · exact .single hold
  · exact hcalls name hm

theorem addsNoFaults_removeItems? {indices : List Nat}
    (h : p.removeItems? container indices = some q) : p.AddsNoFaults q := by
  obtain ⟨current, items, hc, hset, hsub⟩ := exists_set_of_removeItems? h
  exact addsNoFaults_setSequence? hset fun name hm => .single ⟨current, name, hc, hsub hm, rfl⟩

theorem addsNoFaults_moveItem? {source target : Nat}
    (h : p.moveItem? container source target = some q) : p.AddsNoFaults q := by
  obtain ⟨current, items, hc, hset, hsub⟩ := exists_set_of_moveItem? h
  exact addsNoFaults_setSequence? hset fun name hm => .single ⟨current, name, hc, hsub hm, rfl⟩

theorem addsNoFaults_ungroup? {indices : List Nat}
    (h : p.ungroup? container indices = some q) : p.AddsNoFaults q := by
  obtain ⟨current, items, hc, hset, hsource⟩ := exists_set_of_ungroup? h
  refine addsNoFaults_setSequence? hset fun name hm => ?_
  rcases hsource (.call name) hm with hcurrent | ⟨through, body, hcurrent, hbody, hin⟩
  · exact .single ⟨current, name, hc, hcurrent, rfl⟩
  · have hthrough : p.Calls container (.named through) := ⟨current, through, hc, hcurrent, rfl⟩
    exact .head hthrough (.single ⟨body, name, hbody, hin, rfl⟩)

theorem addsNoFaults_moveBlock? {pads : PadLengths} {first last target : Nat}
    (h : p.moveBlock? pads container first last target = some q) : p.AddsNoFaults q := by
  obtain ⟨current, items, hc, hset, hsource⟩ := exists_set_of_moveBlock? h
  refine addsNoFaults_setSequence? hset fun name hm => ?_
  rcases hsource (.call name) hm with hcurrent | ⟨length, hpause, -⟩
  · exact .single ⟨current, name, hc, hcurrent, rfl⟩
  · exact Item.noConfusion hpause

theorem addsNoFaults_getD {result : Option Pattern}
    (h : ∀ q, result = some q → p.AddsNoFaults q) : p.AddsNoFaults (result.getD p) := by
  cases result with
  | none => exact .refl p
  | some q => exact h q rfl

/-- What a container is before the run of `container` goes under `fresh`. -/
def ungrouped (container : Container) (fresh : GroupName) (other : Container) : Container :=
  if other = .named fresh then container else other

theorem ungrouped_of_ne (container : Container) {fresh : GroupName} {other : Container}
    (h : other ≠ .named fresh) : ungrouped container fresh other = other :=
  if_neg h

section Grouping

variable {indices : List Nat} {kind : GroupKind}

/-- A call after grouping is the call of the fresh name, or was a call before. -/
theorem calls_of_group? (h : p.group? container indices kind = some q)
    (huncalled : ¬p.Holds (.call (p.freshName kind))) (hq : q.Calls caller called) :
    caller = container ∧ called = .named (p.freshName kind) ∨
      p.Calls (ungrouped container (p.freshName kind) caller) called ∧
        called ≠ .named (p.freshName kind) := by
  obtain ⟨items, body, outer, hc, rfl, hbody, houter⟩ := exists_put_of_group? h
  have hne := ne_freshName hc kind
  have hcalls : ∀ {name}, .call name ∈ items → p.Calls container (.named name) :=
    fun {name} hm => ⟨items, name, hc, hm, rfl⟩
  have hold : ∀ {other}, p.Calls other called → called ≠ .named (p.freshName kind) := by
    rintro _ hcalled rfl
    exact huncalled hcalled.holds
  rcases hq.of_put with hq | ⟨rfl, name, hm, rfl⟩
  · rcases hq.of_put with hkept | ⟨rfl, name, hm, rfl⟩
    · refine .inr ⟨?_, hold hkept⟩
      have hcaller : caller ≠ .named (p.freshName kind) := by
        obtain ⟨found, -, hfound, -⟩ := hkept
        exact ne_freshName hfound kind
      rwa [ungrouped_of_ne container hcaller]
    · refine .inr ⟨?_, hold (hcalls (hbody hm))⟩
      rw [ungrouped, if_pos rfl]
      exact hcalls (hbody hm)
  · rcases List.mem_cons.mp (houter hm) with heq | hm
    · obtain rfl := Item.call.inj heq
      exact .inl ⟨rfl, rfl⟩
    · refine .inr ⟨?_, hold (hcalls hm)⟩
      rw [ungrouped_of_ne caller hne]
      exact hcalls hm

/-- The one chain that grouping adds is the call of the fresh name by the container. -/
theorem reaches_of_group? (h : p.group? container indices kind = some q)
    (huncalled : ¬p.Holds (.call (p.freshName kind))) (hq : q.Reaches caller called) :
    caller = container ∧ called = .named (p.freshName kind) ∨
      p.Reaches (ungrouped container (p.freshName kind) caller)
        (ungrouped container (p.freshName kind) called) := by
  obtain ⟨items, -, -, hc, -⟩ := exists_put_of_group? h
  have hcontainer : ungrouped container (p.freshName kind) container = container :=
    ungrouped_of_ne container (ne_freshName hc kind)
  have hfresh : ungrouped container (p.freshName kind) (.named (p.freshName kind)) = container :=
    if_pos rfl
  induction hq with
  | single hcall =>
    refine (calls_of_group? h huncalled hcall).imp_right fun ⟨hold, hne⟩ => ?_
    rw [ungrouped_of_ne container hne]
    exact .single hold
  | @tail between called hchain hcall ih =>
    refine .inr ?_
    rcases calls_of_group? h huncalled hcall with ⟨rfl, rfl⟩ | ⟨hold, hne⟩
    · -- The fresh name is entered from the container, and stands for it.
      rcases ih with ⟨-, heq⟩ | hreach
      · exact absurd heq (ne_freshName hc kind)
      · rw [hcontainer] at hreach
        rwa [hfresh]
    · rw [ungrouped_of_ne container hne]
      rcases ih with ⟨rfl, rfl⟩ | hreach
      · rw [hcontainer]
        rw [hfresh] at hold
        exact .single hold
      · exact hreach.tail hold

theorem danglingNames_group?_subset (h : p.group? container indices kind = some q)
    (huncalled : ¬p.Holds (.call (p.freshName kind))) : q.danglingNames ⊆ p.danglingNames := by
  refine danglingNames_subset (editsOnly_group? h) fun name hheld hnone => ?_
  obtain ⟨caller, hcall⟩ := hheld.exists_calls
  rcases calls_of_group? h huncalled hcall with ⟨-, heq⟩ | ⟨hold, -⟩
  · obtain rfl := Container.named.inj heq
    exact absurd hnone (Option.isSome_iff_ne_none.mp (isSome_freshName_of_group? h))
  · exact hold.holds

theorem mem_cyclicNames_of_group? (h : p.group? container indices kind = some q)
    (huncalled : ¬p.Holds (.call (p.freshName kind))) {name : GroupName}
    (hm : name ∈ q.cyclicNames) :
    name ∈ p.cyclicNames ∨
      name = p.freshName kind ∧ ∃ grouped ∈ p.cyclicNames, container = .named grouped := by
  obtain ⟨items, -, -, hc, -⟩ := exists_put_of_group? h
  have hreach : p.Reaches (ungrouped container (p.freshName kind) (.named name))
      (ungrouped container (p.freshName kind) (.named name)) := by
    rcases reaches_of_group? h huncalled (mem_cyclicNames_iff.mp hm) with ⟨heq, hfresh⟩ | hreach
    · exact absurd (heq.symm.trans hfresh) (ne_freshName hc kind)
    · exact hreach
  by_cases hname : name = p.freshName kind
  · refine .inr ⟨hname, ?_⟩
    rw [hname, ungrouped, if_pos rfl] at hreach
    cases container with
    | root => exact absurd hreach (not_reaches_root p .root)
    | named grouped => exact ⟨grouped, mem_cyclicNames_iff.mpr hreach, rfl⟩
  · rw [ungrouped_of_ne container fun heq => hname (Container.named.inj heq)] at hreach
    exact .inl (mem_cyclicNames_iff.mpr hreach)

end Grouping

/-- Removing, moving, ungrouping and block moves bring in no dangling call and no cycle.
Grouping under a name that nothing calls brings in no dangling call either, and no cycle but
one through the fresh name, inside a container that was on a cycle. -/
theorem structural_edits_add_no_faults (p : Pattern) (container : Container) :
    (∀ indices, p.AddsNoFaults ((p.removeItems? container indices).getD p)) ∧
      (∀ source target, p.AddsNoFaults ((p.moveItem? container source target).getD p)) ∧
      (∀ indices, p.AddsNoFaults ((p.ungroup? container indices).getD p)) ∧
      (∀ pads first last target,
        p.AddsNoFaults ((p.moveBlock? pads container first last target).getD p)) ∧
      ∀ indices kind, ¬p.Holds (.call (p.freshName kind)) →
        ((p.group? container indices kind).getD p).danglingNames ⊆ p.danglingNames ∧
          ∀ name ∈ ((p.group? container indices kind).getD p).cyclicNames,
            name ∈ p.cyclicNames ∨
              name = p.freshName kind ∧
                ∃ grouped ∈ p.cyclicNames, container = .named grouped := by
  refine ⟨fun indices => ?_, fun source target => ?_, fun indices => ?_,
    fun pads first last target => ?_, fun indices kind huncalled => ?_⟩
  · exact addsNoFaults_getD fun q h => addsNoFaults_removeItems? h
  · exact addsNoFaults_getD fun q h => addsNoFaults_moveItem? h
  · exact addsNoFaults_getD fun q h => addsNoFaults_ungroup? h
  · exact addsNoFaults_getD fun q h => addsNoFaults_moveBlock? h
  · cases h : p.group? container indices kind with
    | none => exact ⟨List.Subset.refl _, fun name hm => .inl hm⟩
    | some q =>
      exact ⟨danglingNames_group?_subset h huncalled,
        fun name hm => mem_cyclicNames_of_group? h huncalled hm⟩

theorem structural_edits_add_no_faults_within_cycle :
    let name : GroupName := ⟨.group, "g1"⟩
    let p : Pattern := ({ root := [.call name] } : Pattern).define name [.pad 0, .call name]
    let q := (p.group? (.named name) [1] .group).getD p
    ¬p.Holds (.call (p.freshName .group)) ∧ ⟨.group, "g2"⟩ ∈ q.cyclicNames ∧
      ∀ other ∈ q.cyclicNames, other ∈ p.cyclicNames ∨
        other = p.freshName .group ∧ ∃ grouped ∈ p.cyclicNames,
          Container.named name = .named grouped := by
  intro name p q
  have huncalled : ¬p.Holds (.call (p.freshName .group)) := by decide
  obtain ⟨-, -, -, -, hgroup⟩ := structural_edits_add_no_faults p (.named name)
  exact ⟨huncalled, by decide, (hgroup [1] .group huncalled).2⟩

end Pattern

end Groovebox

import Groovebox.Proofs.Containers
import Groovebox.Proofs.FreshNames

/-! Grouping a run under a fresh name. The name is called at one place only, inside the
container that held the run, and there it is never open already: the container would have
to be open twice. So each item stands for the same pads and pauses as before. -/

namespace Groovebox

theorem contiguousRun?_eq_some {length first last : Nat} {indices : List Nat}
    (hrun : ∀ i, i ∈ indices ↔ first ≤ i ∧ i ≤ last) (hle : first ≤ last) (hlast : last < length) :
    contiguousRun? length indices = some (first, last) := by
  have hmin : indices.min? = some first := by
    rw [List.min?_eq_some_iff]
    exact ⟨(hrun first).mpr ⟨Nat.le_refl _, hle⟩, fun i hi => ((hrun i).mp hi).1⟩
  have hmax : indices.max? = some last := by
    rw [List.max?_eq_some_iff]
    exact ⟨(hrun last).mpr ⟨hle, Nat.le_refl _⟩, fun i hi => ((hrun i).mp hi).2⟩
  have hall : (List.range' first (last + 1 - first)).all (· ∈ indices) = true := by
    rw [List.all_eq_true]
    intro i hi
    rw [List.mem_range'_1] at hi
    exact decide_eq_true ((hrun i).mpr (by omega))
  simp only [contiguousRun?, hmin, hmax, hall, Nat.not_le.mpr hlast, if_false, if_true]

namespace Pattern

/-- `q` is `p` with the run between `before` and `after` moved under `name`, which nothing
in `p` calls. -/
structure Groups (p q : Pattern) (container : Container) (name : GroupName)
    (before run after : List Item) : Prop where
  source : p.sequence? container = some (before ++ run ++ after)
  uncalled : ∀ caller items, p.sequence? caller = some items → .call name ∉ items
  run_ne_nil : run ≠ []
  defined : q.body? name = some run
  called : q.sequence? container = some (before ++ .call name :: after)
  others : ∀ other, other ≠ container → other ≠ .named name → q.sequence? other = p.sequence? other

/-- `inner` is `path` with `name` perhaps open as well, and that only inside the container. -/
structure Nests (container : Container) (name : GroupName) (path inner : List GroupName) :
    Prop where
  agrees : ∀ other, other ≠ name → (other ∈ inner ↔ other ∈ path)
  inside : name ∈ inner → ∀ caller, container = .named caller → caller ∈ path

namespace Nests

variable {container : Container} {name caller : GroupName} {path inner : List GroupName}

theorem refl (h : name ∉ path) : Nests container name path path where
  agrees _ _ := Iff.rfl
  inside hm := absurd hm h

theorem cons (h : Nests container name path inner) (hne : caller ≠ name) :
    Nests container name (caller :: path) (caller :: inner) where
  agrees other ho := by simp only [List.mem_cons, h.agrees other ho]
  inside hm other hc := by
    rcases List.mem_cons.mp hm with he | hm
    · exact absurd he.symm hne
    · exact List.mem_cons_of_mem _ (h.inside hm other hc)

theorem enter (h : Nests container name path inner)
    (hin : ∀ caller, container = .named caller → caller ∈ path) :
    Nests container name path (name :: inner) where
  agrees other ho := by simp only [List.mem_cons, ho, false_or, h.agrees other ho]
  inside _ := hin

theorem not_mem_cons (h : Nests (.named caller) name path inner) (hn : caller ∉ path)
    (hne : caller ≠ name) : name ∉ caller :: inner := by
  intro hm
  rcases List.mem_cons.mp hm with he | hm
  · exact hne he.symm
  · exact hn (h.inside hm caller rfl)

end Nests

namespace Groups

variable {p q : Pattern} {container : Container} {name : GroupName} {before run after : List Item}

theorem body?_eq (h : Groups p q container name before run after) {caller : GroupName}
    (hc : .named caller ≠ container) (hne : caller ≠ name) : q.body? caller = p.body? caller :=
  h.others (.named caller) hc fun he => hne (Container.named.inj he)

theorem silent (h : Groups p q container name before run after) {caller : GroupName}
    (hne : (.call caller : Item) ≠ .call name) (hs : (p.body? caller).getD [] = []) :
    (q.body? caller).getD [] = [] := by
  have hc : .named caller ≠ container := by
    rintro rfl
    simp [show p.body? caller = _ from h.source, h.run_ne_nil] at hs
  rw [h.body?_eq hc fun he => hne (he ▸ rfl), hs]

theorem ne_call (h : Groups p q container name before run after) {caller : Container}
    {items : List Item} (hitems : p.sequence? caller = some items) {item : Item}
    (hm : item ∈ items) : item ≠ .call name :=
  fun he => h.uncalled caller items hitems (he ▸ hm)

/-- The call stands for what the run stood for, where the name is not open. -/
theorem flatMap_called (h : Groups p q container name before run after)
    {path inner : List GroupName} (hclosed : name ∉ inner)
    (hkept : ∀ item ∈ before ++ run ++ after, q.inlineItem inner item = p.inlineItem path item)
    (hrun : ∀ item ∈ before ++ run ++ after,
      q.inlineItem (name :: inner) item = p.inlineItem path item) :
    (before ++ .call name :: after).flatMap (q.inlineItem inner) =
      (before ++ run ++ after).flatMap (p.inlineItem path) := by
  have hcall : q.inlineItem inner (.call name) = run.flatMap (p.inlineItem path) := by
    rw [inlineItem_call_of_body hclosed h.defined h.run_ne_nil]
    exact List.flatMap_congr fun item hm => hrun item (by simp [hm])
  have hbefore : before.flatMap (q.inlineItem inner) = before.flatMap (p.inlineItem path) :=
    List.flatMap_congr fun item hm => hkept item (by simp [hm])
  have hafter : after.flatMap (q.inlineItem inner) = after.flatMap (p.inlineItem path) :=
    List.flatMap_congr fun item hm => hkept item (by simp [hm])
  rw [List.flatMap_append, List.flatMap_cons, hcall, hbefore, hafter, List.flatMap_append,
    List.flatMap_append, List.append_assoc]

theorem inlineItem_eq (h : Groups p q container name before run after)
    {path inner : List GroupName} (hpath : Nests container name path inner) {item : Item}
    (hne : item ≠ .call name) : q.inlineItem inner item = p.inlineItem path item := by
  fun_induction inlineItem p path item generalizing inner with
  | case1 path pad => rw [inlineItem]
  | case2 path steps => rw [inlineItem]
  | case3 path caller hm =>
    have hcaller : caller ≠ name := fun he => hne (he ▸ rfl)
    exact inlineItem_call_of_mem ((hpath.agrees caller hcaller).mpr hm)
  | case4 path caller hn hb => exact inlineItem_call_of_silent inner (h.silent hne (by simp [hb]))
  | case5 path caller hn hb => exact inlineItem_call_of_silent inner (h.silent hne (by simp [hb]))
  | case6 path caller hn head rest hb ih =>
    have hcaller : caller ≠ name := fun he => hne (he ▸ rfl)
    have hinner : caller ∉ inner := fun hm => hn ((hpath.agrees caller hcaller).mp hm)
    have hsource : p.sequence? (.named caller) = some (head :: rest) := hb
    have hitem := fun {child : Item} (hm : child ∈ head :: rest) => h.ne_call hsource hm
    have hnests := hpath.cons hcaller
    have hkept := fun child hm => ih child hnests (hitem hm)
    -- Only the body of the container is another one than before; there the run has moved one
    -- call further in, so its items are resolved with `name` open as well.
    by_cases hc : .named caller = container
    · subst hc
      have hbody : head :: rest = before ++ run ++ after :=
        Option.some.inj (hb.symm.trans h.source)
      have hentered := hnests.enter fun other hother => by
        obtain rfl := Container.named.inj hother
        exact List.mem_cons_self
      have hrun := fun child hm => ih child hentered (hitem hm)
      rw [inlineItem_call_of_body hinner h.called (by simp), hbody]
      rw [hbody] at hkept hrun
      exact h.flatMap_called (hpath.not_mem_cons hn hcaller) hkept hrun
    · have hq : q.body? caller = some (head :: rest) := (h.body?_eq hc hcaller).trans hb
      rw [inlineItem_call_of_body hinner hq (by simp)]
      exact List.flatMap_congr hkept

theorem inlineItem_nil_eq (h : Groups p q container name before run after) {item : Item}
    (hne : item ≠ .call name) : q.inlineItem [] item = p.inlineItem [] item :=
  h.inlineItem_eq (.refl (by simp)) hne

theorem inlined_eq (h : Groups p q container name before run after) : q.inlined = p.inlined := by
  have hsource : p.sequence? .root = some p.root := rfl
  have hitem := fun {item : Item} (hm : item ∈ p.root) => h.ne_call hsource hm
  have hkept := fun item (hm : item ∈ p.root) => h.inlineItem_nil_eq (hitem hm)
  cases container with
  | root =>
    have hp : p.root = before ++ run ++ after := Option.some.inj h.source
    have hq : q.root = before ++ .call name :: after := Option.some.inj h.called
    have hentered : Nests .root name [] [name] := (Nests.refl (by simp)).enter (by simp)
    have hrun := fun item (hm : item ∈ p.root) => h.inlineItem_eq hentered (hitem hm)
    rw [inlined, inlined, hq, hp]
    rw [hp] at hkept hrun
    exact h.flatMap_called (by simp) hkept hrun
  | named caller =>
    have hroot : q.root = p.root := Option.some.inj (h.others .root (by simp) (by simp))
    rw [inlined, inlined, hroot]
    exact List.flatMap_congr hkept

end Groups

variable {p : Pattern} {container : Container} {items : List Item} {indices : List Nat}
  {first last : Nat}

theorem groups_group? (hc : p.sequence? container = some items)
    (hrun : ∀ i, i ∈ indices ↔ first ≤ i ∧ i ≤ last) (hle : first ≤ last)
    (hlast : last < items.length) {kind : GroupKind}
    (huncalled : ∀ caller body, p.sequence? caller = some body → .call (p.freshName kind) ∉ body) :
    ∃ q, p.group? container indices kind = some q ∧
      Groups p q container (p.freshName kind) (items.take first)
        ((items.drop first).take (last + 1 - first)) (items.drop (last + 1)) := by
  have hne := ne_freshName hc kind
  generalize hname : p.freshName kind = name at *
  generalize hcut : (items.drop first).take (last + 1 - first) = run at *
  have hlength : run.length = last + 1 - first := by
    rw [← hcut, List.length_take, List.length_drop]
    omega
  have hitems : items.take first ++ run ++ items.drop (last + 1) = items := by
    have hdrop : items.drop (last + 1) = (items.drop first).drop (last + 1 - first) := by
      rw [List.drop_drop]
      congr 1
      omega
    rw [hdrop, ← hcut, List.append_assoc, List.take_append_drop, List.take_append_drop]
  have hdefined : (p.put (.named name) run).sequence? container = some items := by
    rw [sequence?_put, if_neg hne, hc]
  refine ⟨(p.put (.named name) run).put container
    (items.take first ++ .call name :: items.drop (last + 1)), ?_, ?_⟩
  · simp only [group?, hc, contiguousRun?_eq_some hrun hle hlast, hname, hcut]
    exact congrArg some (getD_setSequence? hdefined _)
  · refine ⟨hc.trans (congrArg some hitems.symm), huncalled, ?_, ?_, ?_, ?_⟩
    · exact List.ne_nil_of_length_pos (by omega)
    · rw [body?_put, if_neg hne.symm, body?_put, if_pos rfl]
    · rw [sequence?_put, if_pos rfl]
    · intro other ho hn
      rw [sequence?_put, if_neg ho, sequence?_put, if_neg hn]

/-- Grouping changes no event, no length of the root and no length of an item. -/
theorem group_keeps_meaning (hc : p.sequence? container = some items)
    (hrun : ∀ i, i ∈ indices ↔ first ≤ i ∧ i ≤ last) (hle : first ≤ last)
    (hlast : last < items.length) {kind : GroupKind}
    (huncalled : ∀ caller body, p.sequence? caller = some body → .call (p.freshName kind) ∉ body) :
    ∃ q, p.group? container indices kind = some q ∧
      q.body? (p.freshName kind) = some ((items.drop first).take (last + 1 - first)) ∧
      q.sequence? container =
        some (items.take first ++ .call (p.freshName kind) :: items.drop (last + 1)) ∧
      ∀ (pads : PadLengths) (showPauses : Bool),
        q.events pads = p.events pads ∧
        (q.timeline pads .root showPauses).steps = (p.timeline pads .root showPauses).steps ∧
        ∀ item, item ≠ .call (p.freshName kind) → q.steps pads item = p.steps pads item := by
  obtain ⟨q, hq, hgroups⟩ := groups_group? hc hrun hle hlast huncalled
  refine ⟨q, hq, hgroups.defined, hgroups.called, fun pads showPauses => ⟨?_, ?_, ?_⟩⟩
  · exact events_eq_of_inlined_eq hgroups.inlined_eq pads
  · exact total_steps_eq_of_flatMap_eq hgroups.inlined_eq pads
  · exact fun item hne => steps_eq_of_inlineItem_eq (hgroups.inlineItem_nil_eq hne) pads

theorem group_keeps_meaning_within_cycle :
    let name : GroupName := ⟨.group, "g1"⟩
    let p : Pattern := ({ root := [.call name, .pad 7] } : Pattern).define name [.pad 0, .call name]
    let pads : PadLengths := { fallback := 4 }
    (∀ caller body, p.sequence? caller = some body → .call (p.freshName .group) ∉ body) ∧
      ∃ q, p.group? (.named name) [1, 0] .group = some q ∧ q.events pads = p.events pads ∧
        q.steps pads (.call name) = 8 := by
  intro name p pads
  have hfresh : p.freshName .group = ⟨.group, "g2"⟩ := by decide
  have huncalled : ∀ caller body, p.sequence? caller = some body →
      .call (p.freshName .group) ∉ body := by
    intro caller body hbody
    rw [hfresh]
    cases caller with
    | root =>
      obtain rfl : [.call name, .pad 7] = body := Option.some.inj hbody
      decide
    | named caller =>
      have hd : p.body? caller = _ := body?_define _ name caller [.pad 0, .call name]
      rw [show p.body? caller = some body from hbody] at hd
      split at hd
      · obtain rfl := Option.some.inj hd
        decide
      · simp [body?_of_root] at hd
  have hrun : ∀ i, i ∈ [1, 0] ↔ 0 ≤ i ∧ i ≤ 1 := by
    intro i
    simp only [List.mem_cons, List.not_mem_nil, or_false]
    omega
  have hc : p.sequence? (.named name) = some [.pad 0, .call name] := by decide
  obtain ⟨q, hq, -, -, hmeaning⟩ :=
    group_keeps_meaning hc hrun (by decide) (by decide) huncalled
  obtain ⟨hevents, -, hsteps⟩ := hmeaning pads true
  exact ⟨huncalled, q, hq, hevents, (hsteps (.call name) (by decide)).trans (by decide)⟩

end Pattern

end Groovebox

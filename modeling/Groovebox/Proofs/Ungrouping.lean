import Groovebox.Grouping
import Groovebox.Proofs.Containers
import Groovebox.Proofs.Inlining

/-! Splicing the sequences of names in place of their calls. A name that does not reach
itself is not met again inside its own sequence, so it makes no difference there whether
the name is open, and each item stands for the same pads and pauses as before. -/

namespace Groovebox

namespace Pattern

/-- `new` is `old` with the sequences of some called names in place of the calls. Such a
name has something to play and does not reach itself. -/
inductive Splices (p : Pattern) : List Item → List Item → Prop
  | nil : Splices p [] []
  | keep (item : Item) {old new : List Item} : Splices p old new →
    Splices p (item :: old) (item :: new)
  | splice {name : GroupName} {body old new : List Item} (body_eq : p.body? name = some body)
    (body_ne_nil : body ≠ []) (acyclic : ¬p.Reaches (.named name) (.named name)) :
    Splices p old new → Splices p (.call name :: old) (body ++ new)

variable {p : Pattern} {container : Container} {old new items : List Item}

/-- It matters only which of the names that an item leads to are open. -/
theorem inlineItem_eq_of_met {path other : List GroupName} {item : Item}
    (hpath : ∀ inner, ¬p.Avoids (.named inner) item → (inner ∈ other ↔ inner ∈ path)) :
    p.inlineItem other item = p.inlineItem path item := by
  have hmet : ∀ called, ¬p.Avoids (.named called) (.call called) :=
    fun called ha => ha called rfl .refl
  fun_induction inlineItem p path item generalizing other with
  | case1 path pad => rw [inlineItem]
  | case2 path steps => rw [inlineItem]
  | case3 path called hm => exact inlineItem_call_of_mem ((hpath called (hmet called)).mpr hm)
  | case4 path called hn hb => exact inlineItem_call_of_silent other (by simp [hb])
  | case5 path called hn hb => exact inlineItem_call_of_silent other (by simp [hb])
  | case6 path called hn head rest hb ih =>
    have hother : called ∉ other := fun hm => hn ((hpath called (hmet called)).mp hm)
    rw [inlineItem_call_of_body hother hb (by simp)]
    refine List.flatMap_congr fun child hm => ih child fun inner hi => ?_
    have hcall : ¬p.Avoids (.named inner) (.call called) := fun ha => hi (ha.of_mem_body hb hm)
    simp only [List.mem_cons, hpath inner hcall]

/-- Where a name is not met again it does not matter whether it is open. -/
theorem inlineItem_eq_of_avoids {name : GroupName} {path other : List GroupName} {item : Item}
    (hpath : ∀ inner, inner ≠ name → (inner ∈ other ↔ inner ∈ path))
    (h : p.Avoids (.named name) item) : p.inlineItem other item = p.inlineItem path item := by
  refine inlineItem_eq_of_met fun inner hmet => hpath inner ?_
  rintro rfl
  exact hmet h

theorem inlineItem_call_of_acyclic {name : GroupName} {path : List GroupName} {body : List Item}
    (hn : name ∉ path) (hb : p.body? name = some body) (hne : body ≠ [])
    (hno : ¬p.Reaches (.named name) (.named name)) :
    p.inlineItem path (.call name) = body.flatMap (p.inlineItem path) := by
  rw [inlineItem_call_of_body hn hb hne]
  have hpath : ∀ inner, inner ≠ name → (inner ∈ name :: path ↔ inner ∈ path) := by
    intro inner hi
    simp only [List.mem_cons, hi, false_or]
  have hsource : p.sequence? (.named name) = some body := hb
  exact List.flatMap_congr fun child hm =>
    inlineItem_eq_of_avoids hpath (avoids_of_mem hsource hno hm)

namespace Splices

theorem nil_iff (h : p.Splices old new) : new = [] ↔ old = [] := by
  cases h with
  | nil => simp
  | keep item h => simp
  | splice hb hne hno h => simp [hne]

theorem mem_or_of_mem (h : p.Splices old new) {item : Item} (hm : item ∈ new) :
    item ∈ old ∨ ∃ name body, .call name ∈ old ∧ p.body? name = some body ∧ item ∈ body := by
  induction h with
  | nil => exact .inl hm
  | keep kept h ih =>
    rcases List.mem_cons.mp hm with rfl | hm
    · exact .inl List.mem_cons_self
    · refine (ih hm).imp (List.mem_cons_of_mem _) ?_
      rintro ⟨name, body, hcall, hb, hi⟩
      exact ⟨name, body, List.mem_cons_of_mem _ hcall, hb, hi⟩
  | @splice name body old new hb hne hno h ih =>
    rcases List.mem_append.mp hm with hm | hm
    · exact .inr ⟨name, body, List.mem_cons_self, hb, hm⟩
    · refine (ih hm).imp (List.mem_cons_of_mem _) ?_
      rintro ⟨name, body, hcall, hb, hi⟩
      exact ⟨name, body, List.mem_cons_of_mem _ hcall, hb, hi⟩

/-- Both sequences stand for the same where no spliced name is open. -/
theorem flatMap_inlineItem (h : p.Splices old new) {path : List GroupName}
    (hpath : ∀ name ∈ path, .call name ∈ old → p.Reaches (.named name) (.named name)) :
    new.flatMap (p.inlineItem path) = old.flatMap (p.inlineItem path) := by
  induction h with
  | nil => rfl
  | keep item h ih =>
    have hrest := ih fun name hm hcall => hpath name hm (List.mem_cons_of_mem _ hcall)
    rw [List.flatMap_cons, List.flatMap_cons, hrest]
  | @splice name body old new hb hne hno h ih =>
    have hrest := ih fun name hm hcall => hpath name hm (List.mem_cons_of_mem _ hcall)
    have hclosed : name ∉ path := fun hm => hno (hpath name hm List.mem_cons_self)
    rw [List.flatMap_append, List.flatMap_cons, hrest,
      inlineItem_call_of_acyclic hclosed hb hne hno]

end Splices

/-- The open containers lead to the item, as they do when an item is inlined. -/
def LeadsTo (p : Pattern) (path : List GroupName) (item : Item) : Prop :=
  ∀ outer ∈ path, ∀ name, item = .call name → p.Reaches (.named outer) (.named name)

theorem LeadsTo.of_mem_body {path : List GroupName} {name : GroupName} {body : List Item}
    {item : Item} (h : p.LeadsTo path (.call name)) (hb : p.body? name = some body)
    (hm : item ∈ body) : p.LeadsTo (name :: path) item := by
  rintro outer ho inner rfl
  have hcalls : p.Calls (.named name) (.named inner) := ⟨body, inner, hb, hm, rfl⟩
  rcases List.mem_cons.mp ho with rfl | ho
  · exact .single hcalls
  · exact (h outer ho name rfl).tail hcalls

theorem LeadsTo.of_mem_splice {path : List GroupName} {name : GroupName} {body : List Item}
    {item : Item} (h : p.LeadsTo path (.call name)) (hb : p.body? name = some body)
    (hm : item ∈ body) : p.LeadsTo path item :=
  fun outer ho => h.of_mem_body hb hm outer (List.mem_cons_of_mem _ ho)

theorem Splices.flatMap_of_inner {q : Pattern} {name : GroupName} {path : List GroupName}
    (hs : p.Splices old new) (hb : p.body? name = some old) (h : p.LeadsTo path (.call name))
    (hinner : ∀ item, p.LeadsTo (name :: path) item →
      q.inlineItem (name :: path) item = p.inlineItem (name :: path) item) :
    new.flatMap (q.inlineItem (name :: path)) = old.flatMap (p.inlineItem (name :: path)) := by
  have hnew : new.flatMap (q.inlineItem (name :: path)) =
      new.flatMap (p.inlineItem (name :: path)) := by
    refine List.flatMap_congr fun item hm => hinner item ?_
    rcases hs.mem_or_of_mem hm with hold | ⟨called, body, hcall, hbody, hm⟩
    · exact h.of_mem_body hb hold
    · exact (h.of_mem_body hb hcall).of_mem_splice hbody hm
  have hsame : new.flatMap (p.inlineItem (name :: path)) =
      old.flatMap (p.inlineItem (name :: path)) :=
    hs.flatMap_inlineItem fun outer ho hcall => h.of_mem_body hb hcall outer ho outer rfl
  exact hnew.trans hsame

/-- Splicing in one container changes nothing about what any item stands for. -/
theorem inlineItem_put_of_splices (hc : p.sequence? container = some old)
    (hs : p.Splices old new) {path : List GroupName} {item : Item} (h : p.LeadsTo path item) :
    (p.put container new).inlineItem path item = p.inlineItem path item := by
  -- A spliced item is inlined one container further out than before, so the induction is on
  -- how many names are left to open and not along the calls.
  induction hn : (p.closedNames path).length using Nat.strongRecOn generalizing path item with
  | ind n ih =>
    cases item with
    | pad pad => rw [inlineItem, inlineItem]
    | pause steps => rw [inlineItem, inlineItem]
    | call name =>
      by_cases hopen : name ∈ path
      · rw [inlineItem_call_of_mem hopen, inlineItem_call_of_mem hopen]
      · have hq := body?_put p container new name
        rw [inlineItem_call_of_not_mem hopen, inlineItem_call_of_not_mem hopen, hq]
        cases hb : p.body? name with
        | none =>
          have hname : .named name ≠ container := by
            rintro rfl
            simp [show p.body? name = _ from hc] at hb
          rw [if_neg hname]
          rfl
        | some body =>
          have hlt := length_closedNames_lt hopen hb
          rw [hn] at hlt
          have hinner := fun item (hl : p.LeadsTo (name :: path) item) => ih _ hlt hl rfl
          by_cases hname : .named name = container
          · subst hname
            obtain rfl : body = old := Option.some.inj (hb.symm.trans hc)
            have hflat := hs.flatMap_of_inner hb h hinner
            simp only [if_true, Option.getD_some, hs.nil_iff, hflat]
          · have hflat : body.flatMap ((p.put container new).inlineItem (name :: path)) =
                body.flatMap (p.inlineItem (name :: path)) :=
              List.flatMap_congr fun item hm => hinner item (h.of_mem_body hb hm)
            simp only [if_neg hname, Option.getD_some, hflat]

theorem leadsTo_nil (p : Pattern) (item : Item) : p.LeadsTo [] item :=
  fun outer ho => by simp at ho

theorem Splices.flatMap_put (hc : p.sequence? container = some old) (hs : p.Splices old new)
    (other : Container) :
    (((p.put container new).sequence? other).getD []).flatMap
        ((p.put container new).inlineItem []) =
      ((p.sequence? other).getD []).flatMap (p.inlineItem []) := by
  have hitem : (p.put container new).inlineItem [] = p.inlineItem [] :=
    funext fun item => inlineItem_put_of_splices hc hs (p.leadsTo_nil item)
  rw [hitem, sequence?_put]
  by_cases ho : other = container
  · subst ho
    rw [if_pos rfl, hc]
    exact hs.flatMap_inlineItem fun name hm => by simp at hm
  · rw [if_neg ho]

theorem splices_flatMap {indices : List Nat} {start : Nat}
    (hsel : ∀ e ∈ items.zipIdx start, e.2 ∈ indices → ∀ name body, e.1 = .call name →
      p.body? name = some body → body ≠ [] ∧ ¬p.Reaches (.named name) (.named name)) :
    p.Splices items
      ((items.zipIdx start).flatMap fun e => if e.2 ∈ indices then p.spliced e.1 else [e.1]) := by
  induction items generalizing start with
  | nil => exact .nil
  | cons item rest ih =>
    rw [List.zipIdx_cons] at hsel ⊢
    have hrest := ih fun e hm => hsel e (List.mem_cons_of_mem _ hm)
    rw [List.flatMap_cons]
    by_cases hi : start ∈ indices
    · rw [if_pos hi]
      cases hb : item.name?.bind p.body? with
      | none =>
        rw [spliced, hb]
        exact .keep item hrest
      | some body =>
        obtain ⟨name, hname, hb'⟩ := Option.bind_eq_some_iff.mp hb
        obtain rfl := Item.name?_eq_some_iff.mp hname
        obtain ⟨hne, hno⟩ := hsel _ List.mem_cons_self hi name body rfl hb'
        rw [spliced, hb]
        exact .splice hb' hne hno hrest
    · rw [if_neg hi]
      exact .keep item hrest

/-- Ungrouping changes no event, no length of a container and no length of an item. -/
theorem ungroup_keeps_meaning {indices : List Nat} (hc : p.sequence? container = some items)
    (hsel : ∀ i ∈ indices, ∀ name body, items[i]? = some (.call name) →
      p.body? name = some body → body ≠ [] ∧ ¬p.Reaches (.named name) (.named name)) :
    let q := (p.ungroup? container indices).getD p
    q.sequence? container = some
        (items.zipIdx.flatMap fun e => if e.2 ∈ indices then p.spliced e.1 else [e.1]) ∧
      ∀ (pads : PadLengths) (showPauses : Bool),
        q.events pads = p.events pads ∧
        (∀ other, (q.timeline pads other showPauses).steps =
          (p.timeline pads other showPauses).steps) ∧
        ∀ item, q.steps pads item = p.steps pads item := by
  intro q
  have hs : p.Splices items
      (items.zipIdx.flatMap fun e => if e.2 ∈ indices then p.spliced e.1 else [e.1]) := by
    refine splices_flatMap fun e hm hi name body he hb => ?_
    have hget : items[e.2]? = some (.call name) := he ▸ List.mem_zipIdx_iff_getElem?.mp hm
    exact hsel e.2 hi name body hget hb
  have hq : q = p.put container
      (items.zipIdx.flatMap fun e => if e.2 ∈ indices then p.spliced e.1 else [e.1]) := by
    simp only [q, ungroup?, edit?, hc, Option.bind_some, getD_setSequence? hc]
  generalize items.zipIdx.flatMap _ = new at hs hq ⊢
  rw [hq]
  refine ⟨by rw [sequence?_put, if_pos rfl], fun pads showPauses => ⟨?_, ?_, ?_⟩⟩
  · exact events_eq_of_inlined_eq (hs.flatMap_put hc .root) pads
  · exact fun other => total_steps_eq_of_flatMap_eq (hs.flatMap_put hc other) pads
  · exact fun item =>
      steps_eq_of_inlineItem_eq (inlineItem_put_of_splices hc hs (p.leadsTo_nil item)) pads

/-- The container calls itself and a name of its own, and the call of that name is spliced. -/
theorem ungroup_keeps_meaning_within_cycle :
    let outer : GroupName := ⟨.group, "g1"⟩
    let inner : GroupName := ⟨.super, "s1"⟩
    let p := (({ root := [.call outer, .pad 7] } : Pattern).define inner [.pad 1, .pause 8]).define
      outer [.pad 0, .call inner, .call outer]
    let pads : PadLengths := { fallback := 4 }
    let q := (p.ungroup? (.named outer) [1]).getD p
    q.body? outer = some [.pad 0, .pad 1, .pause 8, .call outer] ∧ q.events pads = p.events pads ∧
      q.steps pads (.call outer) = 20 := by
  intro outer inner p pads q
  have hno : ¬p.Reaches (.named inner) (.named inner) := by
    intro hreach
    obtain ⟨next, ⟨items, name, hitems, hm, -⟩, -⟩ := Relation.TransGen.head'_iff.mp hreach
    obtain rfl : [.pad 1, .pause 8] = items := Option.some.inj hitems
    simp at hm
  have hsel : ∀ i ∈ [1], ∀ name body,
      ([.pad 0, .call inner, .call outer] : List Item)[i]? = some (.call name) →
      p.body? name = some body → body ≠ [] ∧ ¬p.Reaches (.named name) (.named name) := by
    intro i hi name body hname hb
    obtain rfl := List.mem_singleton.mp hi
    obtain rfl : inner = name := by simpa using hname
    obtain rfl : [.pad 1, .pause 8] = body := Option.some.inj hb
    exact ⟨by simp, hno⟩
  have hc : p.sequence? (.named outer) = some [.pad 0, .call inner, .call outer] := by decide
  obtain ⟨hbody, hmeaning⟩ := ungroup_keeps_meaning hc hsel
  obtain ⟨hevents, -, hsteps⟩ := hmeaning pads true
  exact ⟨hbody, hevents, (hsteps (.call outer)).trans (by decide)⟩

end Pattern

end Groovebox

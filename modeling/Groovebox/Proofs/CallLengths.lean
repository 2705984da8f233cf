import Groovebox.Proofs.Reached
import Groovebox.Proofs.Ungrouping

/-! How long a call is. The timeline of a container resolves its items where nothing is open,
and a call of it resolves them inside the container. If the container does not reach itself
no item tells the difference, and then the call is as long as the timeline. Nor does it tell
which other containers are open, as long as the call leads to none of them. -/

namespace Groovebox

namespace Pattern

variable {p : Pattern} {name : GroupName} {body : List Item}

/-- Open names that a call does not lead to make no difference to what it stands for. -/
theorem inlineItem_call_of_unreached {path : List GroupName} (hn : name ∉ path)
    (hpath : ∀ outer ∈ path, ¬p.Reaches (.named name) (.named outer)) :
    p.inlineItem path (.call name) = p.inlineItem [] (.call name) := by
  refine inlineItem_eq_of_met fun inner hmet => iff_of_false (fun hm => hmet ?_) List.not_mem_nil
  rintro called heq hreach
  obtain rfl := Item.call.inj heq
  rcases Relation.reflTransGen_iff_eq_or_transGen.mp hreach with he | hreach
  · exact hn (Container.named.inj he ▸ hm)
  · exact hpath inner hm hreach

theorem stepsWithin_eq_of_inlineItem_eq {pads : PadLengths} {path other : List GroupName}
    {depth further : Nat} {item : Item} (h : p.inlineItem path item = p.inlineItem other item)
    (hdepth : (p.closedNames path).length ≤ depth)
    (hfurther : (p.closedNames other).length ≤ further) :
    p.stepsWithin pads depth path item = p.stepsWithin pads further other item := by
  have hpath := (p.plays_inlineItem pads hdepth item).steps_eq
  rw [h] at hpath
  exact hpath.trans (p.plays_inlineItem pads hfurther item).steps_eq.symm

theorem steps_call_eq_total (hb : p.body? name = some body) (hne : body ≠ [])
    (hno : ¬p.Reaches (.named name) (.named name)) (pads : PadLengths) :
    p.steps pads (.call name) = total (body.map (p.steps pads)) := by
  have hcall : body.flatMap (p.inlineItem []) = [.call name].flatMap (p.inlineItem []) := by
    rw [List.flatMap_singleton, inlineItem_call_of_acyclic List.not_mem_nil hb hne hno]
  rw [total_steps_eq_of_flatMap_eq hcall, List.map_singleton,
    total_singleton ((p.measures_steps pads).whole _).le]

/-- A call is as long as the timeline of the container that it calls, and as long under every
path of open containers that it does not lead to. The depth is any that covers the names
which are not open. -/
theorem call_as_long_as_timeline (hb : p.body? name = some body) (hne : body ≠ [])
    (hno : ¬p.Reaches (.named name) (.named name)) (pads : PadLengths) (showPauses : Bool) :
    p.steps pads (.call name) = (p.timeline pads (.named name) showPauses).steps ∧
      p.containerSteps pads (.named name) = (p.timeline pads (.named name) showPauses).steps ∧
      ∀ path depth, name ∉ path →
        (∀ outer ∈ path, ¬p.Reaches (.named name) (.named outer)) →
        (p.closedNames path).length ≤ depth →
        p.stepsWithin pads depth path (.call name) = p.steps pads (.call name) := by
  have hsteps : p.steps pads (.call name) = (p.timeline pads (.named name) showPauses).steps := by
    have hsource : p.sequence? (.named name) = some body := hb
    rw [timeline, hsource, Option.getD_some, steps_call_eq_total hb hne hno]
  refine ⟨hsteps, hsteps, fun path depth hn hpath hdepth => ?_⟩
  exact stepsWithin_eq_of_inlineItem_eq (inlineItem_call_of_unreached hn hpath) hdepth
    (p.length_closedNames_le [])

/-- The called super-group calls a group that calls itself, and its length is cut. -/
theorem call_as_long_as_timeline_above_cycle :
    let cyclic : GroupName := ⟨.group, "g1"⟩
    let outer : GroupName := ⟨.group, "g2"⟩
    let name : GroupName := ⟨.super, "s1"⟩
    let p := ((({ root := [.call outer] } : Pattern).define cyclic [.pad 0, .call cyclic]).define
      outer [.call name]).define name [.call cyclic, .pause 4294967295]
    let pads : PadLengths := { fallback := 4 }
    p.steps pads (.call name) = (p.timeline pads (.named name) true).steps ∧
      p.containerSteps pads (.named name) = maxStep ∧
      p.stepsWithin pads 2 [outer] (.call name) = p.steps pads (.call name) := by
  intro cyclic outer name p pads
  have hb : p.body? name = some [.call cyclic, .pause 4294967295] := by decide
  have hno : ¬p.Reaches (.named name) (.named name) := by
    rw [← mem_reached_iff]
    decide
  have hpath : ∀ other ∈ [outer], ¬p.Reaches (.named name) (.named other) := by
    intro other hm
    obtain rfl := List.mem_singleton.mp hm
    rw [← mem_reached_iff]
    decide
  obtain ⟨hcall, hcontainer, hwithin⟩ := call_as_long_as_timeline hb (by simp) hno pads true
  exact ⟨hcall, hcontainer.trans (by decide), hwithin [outer] 2 (by decide) hpath (by decide)⟩

end Pattern

end Groovebox

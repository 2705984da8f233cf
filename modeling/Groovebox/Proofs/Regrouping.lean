import Mathlib.Data.List.Perm.Basic
import Groovebox.Proofs.Grouping
import Groovebox.Proofs.References
import Groovebox.Proofs.Snapshots

/-! What grouping adds to a pattern, and taking it back. Over all containers together the
items after grouping are those from before and one call of the fresh name. A call that
dangled under this name before is bound by it too. Ungrouping the one call that grouping
made leaves the pattern from before with the run under the fresh name. -/

namespace Groovebox

theorem contiguousRun?_eq_some_iff {length first last : Nat} {indices : List Nat} :
    contiguousRun? length indices = some (first, last) ↔
      (∀ i, i ∈ indices ↔ first ≤ i ∧ i ≤ last) ∧ first ≤ last ∧ last < length := by
  refine ⟨fun h => ?_, fun ⟨hrun, hle, hlast⟩ => contiguousRun?_eq_some hrun hle hlast⟩
  unfold contiguousRun? at h
  split at h
  · next low high hmin hmax =>
    obtain ⟨hlow, hbelow⟩ := List.min?_eq_some_iff.mp hmin
    obtain ⟨-, habove⟩ := List.max?_eq_some_iff.mp hmax
    split at h
    · cases h
    · next hlength =>
      split at h
      · next hall =>
        obtain ⟨rfl, rfl⟩ : low = first ∧ high = last := by simpa using h
        refine ⟨fun i => ⟨fun hi => ⟨hbelow i hi, habove i hi⟩, fun hi => ?_⟩,
          habove low hlow, Nat.not_le.mp hlength⟩
        have hin : i ∈ List.range' low (high + 1 - low) := by
          rw [List.mem_range'_1]
          omega
        exact of_decide_eq_true (List.all_eq_true.mp hall i hin)
      · cases h
  · cases h

theorem Table.lookup_eq_some_iff {α : Type} {id : String} {a : α} {entries : List (String × α)}
    (h : Ascending entries) : entries.lookup id = some a ↔ (id, a) ∈ entries := by
  induction entries with
  | nil => simp
  | cons head rest ih =>
    obtain ⟨k, b⟩ := head
    obtain ⟨hk, hrest⟩ := List.pairwise_cons.mp h
    rw [lookup_cons_eq, List.mem_cons, Prod.mk.injEq]
    by_cases heq : id = k
    · subst heq
      have hnot : (id, a) ∉ rest := fun hm => String.lt_irrefl id (hk _ hm)
      simp [hnot, eq_comm]
    · rw [if_neg heq, ih hrest]
      simp [heq]

theorem Table.flatMap_insertEntry {α : Type} (id : String) (new : List α)
    {entries : List (String × List α)} (h : Ascending entries) :
    (((entries.lookup id).getD []) ++ (insertEntry id new entries).flatMap (·.2)).Perm
      (new ++ entries.flatMap (·.2)) := by
  induction entries with
  | nil => simp [insertEntry]
  | cons head rest ih =>
    obtain ⟨k, old⟩ := head
    obtain ⟨hk, hrest⟩ := List.pairwise_cons.mp h
    rw [lookup_cons_eq, insertEntry]
    by_cases heq : id = k
    · have hlt : ¬id < k := heq ▸ String.lt_irrefl id
      simp only [if_neg hlt, if_pos heq, List.flatMap_cons, Option.getD_some]
      exact List.perm_append_comm_assoc _ _ _
    · rw [if_neg heq]
      by_cases hlt : id < k
      · have hnone : rest.lookup id = none := by
          cases hfound : rest.lookup id with
          | none => rfl
          | some a =>
            have hgt := lt_of_lookup hk hfound
            exact absurd (String.lt_trans hlt hgt) (String.lt_irrefl id)
        simp only [if_pos hlt, hnone, Option.getD_none, List.nil_append, List.flatMap_cons]
        exact .refl _
      · simp only [if_neg hlt, if_neg heq, List.flatMap_cons]
        have hih := (ih hrest).append_left old
        exact (List.perm_append_comm_assoc _ _ _).trans
          (hih.trans (List.perm_append_comm_assoc _ _ _))

namespace Pattern

/-- The items of all containers together. -/
def contents (p : Pattern) : List Item :=
  p.root ++ p.groups.entries.flatMap (·.2) ++ p.supers.entries.flatMap (·.2)

variable {p q : Pattern} {container : Container} {items : List Item} {indices : List Nat}
  {first last : Nat}

theorem mem_contents_iff {item : Item} : item ∈ p.contents ↔ p.Holds item := by
  have htable : ∀ (t : Table (List Item)),
      item ∈ t.entries.flatMap (·.2) ↔ ∃ id items, t.find? id = some items ∧ item ∈ items := by
    intro t
    simp only [List.mem_flatMap, Prod.exists, Table.find?, Table.lookup_eq_some_iff t.ascending]
  simp only [contents, List.mem_append, htable]
  constructor
  · rintro ((hroot | ⟨id, items, hfound, hm⟩) | ⟨id, items, hfound, hm⟩)
    · exact ⟨.root, p.root, rfl, hroot⟩
    · exact ⟨.named ⟨.group, id⟩, items, hfound, hm⟩
    · exact ⟨.named ⟨.super, id⟩, items, hfound, hm⟩
  · rintro ⟨container, items, hc, hm⟩
    cases container with
    | root =>
      obtain rfl : p.root = items := Option.some.inj hc
      exact .inl (.inl hm)
    | named name =>
      obtain ⟨kind, id⟩ := name
      cases kind with
      | group => exact .inl (.inr ⟨id, items, hc, hm⟩)
      | super => exact .inr ⟨id, items, hc, hm⟩

/-- What a container gets comes in, and what it held goes out. -/
theorem contents_put (p : Pattern) (container : Container) (new : List Item) :
    ((p.sequence? container).getD [] ++ (p.put container new).contents).Perm
      (new ++ p.contents) := by
  cases container with
  | root =>
    simp only [sequence?, put, contents, Option.getD_some, List.append_assoc]
    exact List.perm_append_comm_assoc _ _ _
  | named name =>
    obtain ⟨kind, id⟩ := name
    cases kind with
    | group =>
      have htable := Table.flatMap_insertEntry id new p.groups.ascending
      have hrest := (htable.append_right (p.supers.entries.flatMap (·.2))).append_left p.root
      simp only [List.append_assoc] at hrest
      simp only [sequence?, body?, table, Table.find?, put, define, contents, Table.insert,
        List.append_assoc]
      exact (List.perm_append_comm_assoc _ _ _).trans
        (hrest.trans (List.perm_append_comm_assoc _ _ _))
    | super =>
      have htable := Table.flatMap_insertEntry id new p.supers.ascending
      have hrest := htable.append_left (p.root ++ p.groups.entries.flatMap (·.2))
      simp only [sequence?, body?, table, Table.find?, put, define, contents, Table.insert]
      exact (List.perm_append_comm_assoc _ _ _).trans
        (hrest.trans (List.perm_append_comm_assoc _ _ _))

/-- What grouping makes of a run. -/
theorem group?_of_run (hc : p.sequence? container = some items)
    (hrun : contiguousRun? items.length indices = some (first, last)) (kind : GroupKind) :
    p.group? container indices kind =
      some ((p.put (.named (p.freshName kind)) ((items.drop first).take (last + 1 - first))).put
        container (items.take first ++ .call (p.freshName kind) :: items.drop (last + 1))) := by
  generalize hbody : (items.drop first).take (last + 1 - first) = run
  have hkept : (p.put (.named (p.freshName kind)) run).sequence? container = some items := by
    rw [sequence?_put, if_neg (ne_freshName hc kind), hc]
  simp only [group?, hc, hrun, hbody]
  exact congrArg some (getD_setSequence? hkept _)

theorem group?_eq_none (h : p.canGroup container indices = false) (kind : GroupKind) :
    p.group? container indices kind = none := by
  unfold canGroup at h
  unfold group?
  cases hc : p.sequence? container with
  | none => rfl
  | some items =>
    simp only [hc, Option.isSome_eq_false_iff, Option.isNone_iff_eq_none] at h
    simp only [h]

theorem canGroup_iff : p.canGroup container indices = true ↔
    ∃ items first last, p.sequence? container = some items ∧
      contiguousRun? items.length indices = some (first, last) := by
  unfold canGroup
  cases hc : p.sequence? container with
  | none => simp
  | some items => simp [Option.isSome_iff_exists]

theorem split_at_run (items : List Item) (hle : first ≤ last) :
    items = items.take first ++ (items.drop first).take (last + 1 - first) ++
      items.drop (last + 1) := by
  have hdrop : items.drop (last + 1) = (items.drop first).drop (last + 1 - first) := by
    rw [List.drop_drop]
    congr 1
    omega
  rw [hdrop, List.append_assoc, List.take_append_drop, List.take_append_drop]

/-- The run is there twice for a moment: in its place, and under the fresh name. -/
theorem contents_of_run (hc : p.sequence? container = some items) (hle : first ≤ last)
    (kind : GroupKind) :
    ((p.put (.named (p.freshName kind)) ((items.drop first).take (last + 1 - first))).put container
        (items.take first ++ .call (p.freshName kind) :: items.drop (last + 1))).contents.Perm
      (.call (p.freshName kind) :: p.contents) := by
  have hfree : p.sequence? (.named (p.freshName kind)) = none := p.body?_freshName kind
  have hne := ne_freshName hc kind
  have hitems := split_at_run items hle
  generalize p.freshName kind = name at *
  generalize (items.drop first).take (last + 1 - first) = run at *
  generalize items.take first = before at *
  generalize items.drop (last + 1) = after at *
  have hdefined := contents_put p (.named name) run
  rw [hfree, Option.getD_none, List.nil_append] at hdefined
  have hcalled := contents_put (p.put (.named name) run) container (before ++ .call name :: after)
  rw [sequence?_put, if_neg hne, hc, Option.getD_some] at hcalled
  generalize ((p.put (.named name) run).put container _).contents = new at *
  refine (List.perm_append_left_iff items).mp (hcalled.trans ?_)
  rw [List.perm_iff_count]
  intro item
  have hcount := hdefined.count_eq item
  rw [hitems]
  simp only [List.count_append, List.count_cons] at hcount ⊢
  omega

/-- Grouping adds one call of the fresh name, in place of the run. It is the only one just
where none dangled under this name before. -/
theorem group_calls_fresh_name_once_more (hcan : p.canGroup container indices = true)
    (kind : GroupKind) :
    ∃ q items first last, p.group? container indices kind = some q ∧
      p.sequence? container = some items ∧
      (∀ i, i ∈ indices ↔ first ≤ i ∧ i ≤ last) ∧ first ≤ last ∧ last < items.length ∧
      q.sequence? container =
        some (items.take first ++ .call (p.freshName kind) :: items.drop (last + 1)) ∧
      q.contents.Perm (.call (p.freshName kind) :: p.contents) ∧
      (q.contents.count (.call (p.freshName kind)) = 1 ↔ p.freshName kind ∉ p.danglingNames) := by
  obtain ⟨items, first, last, hc, hrun⟩ := canGroup_iff.mp hcan
  obtain ⟨hmem, hle, hlast⟩ := contiguousRun?_eq_some_iff.mp hrun
  have hcontents := contents_of_run hc hle kind
  refine ⟨_, items, first, last, group?_of_run hc hrun kind, hc, hmem, hle, hlast,
    ?_, hcontents, ?_⟩
  · rw [sequence?_put, if_pos rfl]
  · have hdangling : p.freshName kind ∈ p.danglingNames ↔
        .call (p.freshName kind) ∈ p.contents := by
      rw [mem_danglingNames_iff, mem_contents_iff, body?_freshName, eq_self, and_true]
    rw [hcontents.count_eq, List.count_cons_self, hdangling, ← List.count_eq_zero]
    omega

theorem group_calls_fresh_name_once_more_where_none_dangles :
    let p : Pattern := { root := [.pad 0, .call ⟨.group, "g2"⟩, .pad 1] }
    p.canGroup .root [1, 0] = true ∧ ∃ q, p.group? .root [1, 0] .group = some q ∧
      q.root = [.call ⟨.group, "g1"⟩, .pad 1] ∧ q.contents.count (.call ⟨.group, "g1"⟩) = 1 := by
  intro p
  have hcan : p.canGroup .root [1, 0] = true := by decide
  obtain ⟨q, items, first, last, hq, -, -, -, -, -, -, honce⟩ :=
    group_calls_fresh_name_once_more hcan .group
  have hroot : (p.group? .root [1, 0] .group).map (·.root) =
      some [.call ⟨.group, "g1"⟩, .pad 1] := by decide
  rw [hq] at hroot
  rw [show p.freshName .group = ⟨.group, "g1"⟩ by decide] at honce
  exact ⟨hcan, q, hq, Option.some.inj hroot, honce.mpr (by decide)⟩

/-- A call that dangled is bound by the fresh name, which is the least that no container has. -/
theorem group_binds_dangling_call :
    let name : GroupName := ⟨.group, "g1"⟩
    let p : Pattern := { root := [.pad 0, .call name] }
    p.canGroup .root [0] = true ∧ name ∈ p.danglingNames ∧
      ∃ q, p.group? .root [0] .group = some q ∧ q.body? name = some [.pad 0] ∧
        q.contents.count (.call name) = 2 ∧ q.danglingNames = [] := by
  intro name p
  refine ⟨by decide, by decide, (p.group? .root [0] .group).getD p, ?_, ?_, ?_, ?_⟩ <;> decide

/-! Taking the grouping back. -/

theorem flatMap_spliced_of_not_mem (p : Pattern) {items : List Item} {start index : Nat}
    (h : ∀ e ∈ items.zipIdx start, e.2 ≠ index) :
    (items.zipIdx start).flatMap (fun e => if e.2 = index then p.spliced e.1 else [e.1]) =
      items := by
  rw [List.flatMap_congr fun e he => if_neg (h e he), ← List.map_eq_flatMap, List.zipIdx_map_fst]

theorem after_ungroup?_call {before after body : List Item} {name : GroupName}
    (hc : p.sequence? container = some (before ++ .call name :: after))
    (hb : p.body? name = some body) :
    (p.ungroup? container [before.length]).getD p = p.put container (before ++ body ++ after) := by
  have hbefore := p.flatMap_spliced_of_not_mem fun e (he : e ∈ before.zipIdx 0) =>
    Nat.ne_of_lt (Nat.zero_add before.length ▸ List.snd_lt_add_of_mem_zipIdx he)
  have hafter := p.flatMap_spliced_of_not_mem fun e (he : e ∈ after.zipIdx (before.length + 1)) =>
    Nat.ne_of_gt (List.le_snd_of_mem_zipIdx he)
  have hspliced : p.spliced (.call name) = body := by simp [spliced, Item.name?, hb]
  simp only [ungroup?, edit?, hc, Option.bind_some, getD_setSequence? hc, List.zipIdx_append,
    List.flatMap_append, List.zipIdx_cons, List.flatMap_cons, Nat.zero_add, List.mem_singleton,
    if_true, hspliced]
  rw [hbefore, hafter, List.append_assoc]

/-- Where the indices make no run, grouping changes nothing. Where they do, ungrouping at the
run's first index takes the grouping back, and all that is left of it is the run under a
name that was not defined. -/
theorem ungroup_undoes_group (p : Pattern) (container : Container) (indices : List Nat)
    (kind : GroupKind) :
    if p.canGroup container indices then
      ∃ q items first last, p.group? container indices kind = some q ∧
        p.sequence? container = some items ∧
        (∀ i, i ∈ indices ↔ first ≤ i ∧ i ≤ last) ∧ first ≤ last ∧ last < items.length ∧
        p.body? (p.freshName kind) = none ∧
        (q.ungroup? container [first]).getD q =
          p.define (p.freshName kind) ((items.drop first).take (last + 1 - first))
    else p.group? container indices kind = none := by
  split
  · next hcan =>
    obtain ⟨items, first, last, hc, hrun⟩ := canGroup_iff.mp hcan
    obtain ⟨hmem, hle, hlast⟩ := contiguousRun?_eq_some_iff.mp hrun
    refine ⟨_, items, first, last, group?_of_run hc hrun kind, hc, hmem, hle, hlast,
      p.body?_freshName kind, ?_⟩
    have hne := ne_freshName hc kind
    have hitems := split_at_run items hle
    generalize (items.drop first).take (last + 1 - first) = run at hitems ⊢
    have hdefined : (p.put (.named (p.freshName kind)) run).sequence? container = some items := by
      rw [sequence?_put, if_neg hne, hc]
    have hlength : (items.take first).length = first := by
      rw [List.length_take]
      omega
    have hundone := after_ungroup?_call (p := (p.put (.named (p.freshName kind)) run).put container
      (items.take first ++ .call (p.freshName kind) :: items.drop (last + 1)))
      (by rw [sequence?_put, if_pos rfl])
      (by rw [body?_put, if_neg hne.symm, body?_put, if_pos rfl])
    rw [hlength, put_put, ← hitems, put_self hdefined] at hundone
    exact hundone
  · next hcan => exact group?_eq_none (Bool.not_eq_true _ ▸ hcan) kind

/-- The run holds calls that the fresh name binds. -/
example :
    let name : GroupName := ⟨.super, "s1"⟩
    let p : Pattern := { root := [.pad 0, .call name, .call name] }
    ∃ q, p.group? .root [2, 1, 2] .super = some q ∧ q.root = [.pad 0, .call name] ∧
      (q.ungroup? .root [1]).getD q = p.define name [.call name, .call name] := by
  intro name p
  exact ⟨_, rfl, by decide, by decide⟩

end Pattern

end Groovebox

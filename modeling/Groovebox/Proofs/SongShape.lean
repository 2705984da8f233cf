import Mathlib.Data.List.Forall2
import Groovebox.Song.Shape

/-! Reading a song from what its tree is shown as. Readers of all formats follow the same
laws: each part reads what is shown of it, and a record is filled entry by entry. Members of
a track that hold their default may be left out of the tree. -/

namespace Groovebox

theorem Table.insertEntry_of_forall_lt {α : Type} {id : String} (a : α)
    {entries : List (String × α)} (h : ∀ e ∈ entries, e.1 < id) :
    insertEntry id a entries = entries ++ [(id, a)] := by
  induction entries with
  | nil => rfl
  | cons head rest ih =>
    obtain ⟨k, b⟩ := head
    obtain ⟨hk, hrest⟩ := List.forall_mem_cons.mp h
    have hlt : ¬id < k := fun hlt => String.lt_irrefl _ (String.lt_trans hk hlt)
    have hne : id ≠ k := fun heq => String.lt_irrefl k (heq ▸ hk)
    rw [insertEntry, if_neg hlt, if_neg hne, ih hrest, List.cons_append]

theorem Table.entries_foldl_insert {α : Type} {entries : List (String × α)} (t : Table α)
    (h : Ascending (t.entries ++ entries)) :
    (entries.foldl (fun t e => t.insert e.1 e.2) t).entries = t.entries ++ entries := by
  induction entries generalizing t with
  | nil => rw [List.foldl_nil, List.append_nil]
  | cons head rest ih =>
    have hlt : ∀ e ∈ t.entries, e.1 < head.1 :=
      fun e he => (List.pairwise_append.mp h).2.2 e he head List.mem_cons_self
    have hinsert : (t.insert head.1 head.2).entries = t.entries ++ [head] :=
      insertEntry_of_forall_lt head.2 hlt
    rw [List.foldl_cons, ih, hinsert, List.append_assoc, List.singleton_append]
    rwa [hinsert, List.append_assoc, List.singleton_append]

theorem Table.ofList_entries {α : Type} (t : Table α) : ofList t.entries = t := by
  have heq : (ofList t.entries).entries = t.entries :=
    entries_foldl_insert (empty : Table α) t.ascending
  generalize ofList t.entries = s at heq
  cases s
  cases t
  cases heq
  rfl

mutual

/-- How deep the lists and records of a tree nest. -/
def Tree.depth : Tree → Nat
  | .null => 0
  | .bool _ => 0
  | .number _ => 0
  | .text _ => 0
  | .list items => itemsDepth items + 1
  | .record entries => entriesDepth entries + 1

def itemsDepth : List Tree → Nat
  | [] => 0
  | item :: rest => max item.depth (itemsDepth rest)

def entriesDepth : List (String × Tree) → Nat
  | [] => 0
  | (_, value) :: rest => max value.depth (entriesDepth rest)

end

theorem itemsDepth_le_iff {items : List Tree} {n : Nat} :
    itemsDepth items ≤ n ↔ ∀ tree ∈ items, tree.depth ≤ n := by
  induction items with
  | nil => simp [itemsDepth]
  | cons item rest ih => rw [itemsDepth, Nat.max_le, ih, List.forall_mem_cons]

theorem entriesDepth_le_iff {entries : List (String × Tree)} {n : Nat} :
    entriesDepth entries ≤ n ↔ ∀ e ∈ entries, e.2.depth ≤ n := by
  induction entries with
  | nil => simp [entriesDepth]
  | cons entry rest ih => rw [entriesDepth, Nat.max_le, ih, List.forall_mem_cons]

/-- The record is filled with the entries one by one, each in a field that is not set. -/
inductive Fills {ν : Type} {m : Type → Type} [Monad m] {σ : Type} (Shows : ν → Tree → Prop)
    (fields : List (Field ν m σ)) : σ → List (String × Tree) → σ → Prop
  | nil (s : σ) : Fills Shows fields s [] s
  | cons {s next last : σ} {name : String} {tree : Tree} {rest : List (String × Tree)}
    {field : Field ν m σ} (found : fields.find? (·.name = name) = some field)
    (unset : field.isSet s = false)
    (read : ∀ v, Shows v tree → field.read v s = pure next) :
    Fills Shows fields next rest last → Fills Shows fields s ((name, tree) :: rest) last

section Parts

variable {ν τ κ α σ : Type} {m : Type → Type} [Monad m] [LawfulMonad m]

/-- Parts that show trees are read one by one. -/
theorem mapM_shown {Shows : ν → τ → Prop} {read : ν → m α} {place : τ → ν} {trees : List τ}
    {items : List α} (hshows : ∀ tree ∈ trees, Shows (place tree) tree)
    (hall : List.Forall₂ (fun tree a => ∀ w, Shows w tree → read w = pure a) trees items) :
    (trees.map place).mapM read = pure items := by
  induction hall with
  | nil => rfl
  | cons hread _ ih =>
    obtain ⟨hfirst, hrest⟩ := List.forall_mem_cons.mp hshows
    rw [List.map_cons, List.mapM_cons, hread _ hfirst, pure_bind, ih hrest, pure_bind]

theorem foldlM_shown {Shows : ν → Tree → Prop} {fields : List (Field ν m σ)} {start last : σ}
    {entries : List (String × Tree)} {place : String × Tree → κ} {step : σ → κ → m σ}
    (hstep : ∀ e ∈ entries, ∀ field s next, fields.find? (·.name = e.1) = some field →
      field.isSet s = false → (∀ v, Shows v e.2 → field.read v s = pure next) →
        step s (place e) = pure next)
    (hfills : Fills Shows fields start entries last) :
    (entries.map place).foldlM step start = pure last := by
  induction hfills with
  | nil s => rfl
  | cons found unset read _ ih =>
    obtain ⟨hfirst, hrest⟩ := List.forall_mem_cons.mp hstep
    rw [List.map_cons, List.foldlM_cons, hfirst _ _ _ found unset read, pure_bind, ih hrest]

end Parts

/-- The laws of a reader whose values show trees. -/
structure Reader.Follows {ν : Type} {m : Type → Type} [Monad m] (r : Reader ν m)
    (Shows : ν → Tree → Prop) : Prop where
  text {v : ν} {s : String} : Shows v (.text s) → r.text v = pure s
  number {v : ν} {n : Nat} : Shows v (.number n) → n ≤ maxStep → r.number maxStep v = pure n
  flag {v : ν} {b : Bool} : Shows v (.bool b) → r.flag v = pure b
  absent {α : Type} (read : ν → m α) {v : ν} : Shows v .null → r.optional read v = pure none
  present {α : Type} {read : ν → m α} {v : ν} {n : Nat} {a : α} :
    Shows v (.number n) → read v = pure a → r.optional read v = pure (some a)
  list {α : Type} {read : ν → m α} {v : ν} {trees : List Tree} {items : List α} :
    Shows v (.list trees) →
    List.Forall₂ (fun tree a => ∀ w, Shows w tree → read w = pure a) trees items →
    r.list read v = pure items
  vector {α : Type} {n : Nat} {read : ν → m α} {v : ν} {trees : List Tree} {items : Vector α n} :
    Shows v (.list trees) →
    List.Forall₂ (fun tree a => ∀ w, Shows w tree → read w = pure a) trees items.toList →
    r.vector n read v = pure items
  table {α : Type} {read : ν → m α} {v : ν} {trees : List (String × Tree)}
    {entries : List (String × α)} :
    Shows v (.record trees) →
    List.Forall₂ (fun tree e => tree.1 = e.1 ∧ ∀ w, Shows w tree.2 → read w = pure e.2) trees
      entries →
    r.table read v = pure entries
  record {σ : Type} {fields : List (Field ν m σ)} {start last : σ} {v : ν}
    {entries : List (String × Tree)} :
    Shows v (.record entries) → Fills Shows fields start entries last →
    r.record fields start v = pure last
  item {v : ν} {item : Item} : Shows v (Song.itemTree item) → r.item Song.itemVariants v = pure item

namespace Song

/-- A member of a record, which may be left out where it holds its default. -/
def member (leave : String → Bool) (name : String) (isDefault : Bool) (tree : Tree) :
    List (String × Tree) :=
  if leave name && isDefault then [] else [(name, tree)]

/-- What is read of a member: nothing where it is left out. -/
def kept {α : Type} (leave : String → Bool) (name : String) (isDefault : Bool) (a : α) : Option α :=
  if leave name && isDefault then none else some a

theorem getD_kept {α : Type} {leave : String → Bool} {name : String} {isDefault : Bool}
    {a default : α} (h : isDefault → a = default) :
    (kept leave name isDefault a).getD default = a := by
  unfold kept
  split
  · next hleft =>
    rw [Bool.and_eq_true] at hleft
    exact (h hleft.2).symm
  · rfl

def patternEntries (leave : String → Bool) (p : Pattern) : List (String × Tree) :=
  member leave "root" p.root.isEmpty (itemsTree p.root) ++
    member leave "groups" p.groups.entries.isEmpty (tableTree p.groups) ++
    member leave "supers" p.supers.entries.isEmpty (tableTree p.supers)

def trackEntries (leave : String → Bool) (t : Track) : List (String × Tree) :=
  ("name", .text t.name) ::
    (member leave "pad_steps" (t.pads.own = Vector.replicate 8 none)
        (.list (t.pads.own.toList.map stepsTree)) ++
      member leave "default_pad_steps" (t.pads.fallback = standardPadSteps)
        (.number t.pads.fallback.toNat) ++
      member leave "pattern" (t.pattern = {}) (.record (patternEntries leave t.pattern)) ++
      member leave "mute" (!t.mute) (.bool t.mute))

/-- The tree of a song without some of the members that hold their default. Of each track
`leave` says which. -/
def abridged (leave : Nat → String → Bool) (song : Song) : Tree :=
  .record [("bpm", .number song.bpm.toNat),
    ("tracks", .list (song.tracks.zipIdx.map fun e => .record (trackEntries (leave e.2) e.1)))]

theorem abridged_nothing (song : Song) : song.abridged (fun _ _ => false) = song.toTree := by
  have htracks : song.tracks.zipIdx.map (fun e => .record (trackEntries (fun _ => false) e.1)) =
      song.tracks.map trackTree := by
    rw [← List.zipIdx_map_fst 0 song.tracks, List.map_map, List.zipIdx_map_fst]
    rfl
  rw [abridged, htracks, toTree]

theorem mem_member {leave : String → Bool} {name : String} {isDefault : Bool} {tree : Tree}
    {e : String × Tree} (h : e ∈ member leave name isDefault tree) : e = (name, tree) := by
  unfold member at h
  split at h
  · cases h
  · exact List.mem_singleton.mp h

theorem depth_itemTree_le (item : Item) : (itemTree item).depth ≤ 1 := by
  unfold itemTree
  split <;> exact Nat.le_refl 1

theorem depth_itemsTree_le (items : List Item) : (itemsTree items).depth ≤ 2 := by
  rw [itemsTree, Tree.depth, Nat.succ_le_succ_iff, itemsDepth_le_iff, List.forall_mem_map]
  exact fun item _ => depth_itemTree_le item

theorem depth_tableTree_le (t : Table (List Item)) : (tableTree t).depth ≤ 3 := by
  rw [tableTree, Tree.depth, Nat.succ_le_succ_iff, entriesDepth_le_iff, List.forall_mem_map]
  exact fun e _ => depth_itemsTree_le e.2

theorem depth_patternEntries_le (leave : String → Bool) (p : Pattern) :
    (Tree.record (patternEntries leave p)).depth ≤ 4 := by
  rw [Tree.depth, Nat.succ_le_succ_iff, entriesDepth_le_iff]
  simp only [patternEntries, List.mem_append]
  rintro e ((h | h) | h) <;> rw [mem_member h]
  · exact Nat.le_succ_of_le (depth_itemsTree_le p.root)
  · exact depth_tableTree_le p.groups
  · exact depth_tableTree_le p.supers

theorem depth_trackEntries_le (leave : String → Bool) (t : Track) :
    (Tree.record (trackEntries leave t)).depth ≤ 5 := by
  have hsteps : ∀ steps, (stepsTree steps).depth = 0 := by rintro (_ | _) <;> rfl
  rw [Tree.depth, Nat.succ_le_succ_iff, entriesDepth_le_iff]
  simp only [trackEntries, List.mem_cons, List.mem_append]
  rintro e (rfl | ((h | h) | h) | h)
  · exact Nat.zero_le 4
  · rw [mem_member h, Tree.depth]
    have hown : itemsDepth (t.pads.own.toList.map stepsTree) ≤ 0 := by
      rw [itemsDepth_le_iff, List.forall_mem_map]
      exact fun steps _ => Nat.le_of_eq (hsteps steps)
    omega
  · exact mem_member h ▸ Nat.zero_le 4
  · exact mem_member h ▸ depth_patternEntries_le leave t.pattern
  · exact mem_member h ▸ Nat.zero_le 4

theorem depth_abridged_le (leave : Nat → String → Bool) (song : Song) :
    (song.abridged leave).depth ≤ 7 := by
  rw [abridged, Tree.depth, Nat.succ_le_succ_iff, entriesDepth_le_iff]
  simp only [List.forall_mem_cons, List.not_mem_nil, false_imp_iff, implies_true, and_true]
  refine ⟨Nat.zero_le 6, ?_⟩
  rw [Tree.depth, Nat.succ_le_succ_iff, itemsDepth_le_iff, List.forall_mem_map]
  exact fun e _ => depth_trackEntries_le (leave e.2) e.1

section Reading

variable {ν : Type} {m : Type → Type} [Monad m] {r : Reader ν m} {Shows : ν → Tree → Prop}
  {α σ : Type} {fields : List (Field ν m σ)}

theorem fills_append {start middle last : σ} {xs ys : List (String × Tree)}
    (hx : Fills Shows fields start xs middle) (hy : Fills Shows fields middle ys last) :
    Fills Shows fields start (xs ++ ys) last := by
  induction hx with
  | nil => exact hy
  | cons found unset read _ ih => exact .cons found unset read (ih hy)

/-- A member that may be left out fills its field, or the field stays as it is. -/
theorem fills_member (set : Option α → σ) {a : α} {leave : String → Bool} {name : String}
    {isDefault : Bool} {tree : Tree} {field : Field ν m σ}
    (found : fields.find? (·.name = name) = some field) (unset : field.isSet (set none) = false)
    (read : ∀ v, Shows v tree → field.read v (set none) = pure (set (some a))) :
    Fills Shows fields (set none) (member leave name isDefault tree)
      (set (kept leave name isDefault a)) := by
  unfold member kept
  split
  · exact .nil _
  · exact .cons found unset read (.nil _)

theorem readItems_eq (h : r.Follows Shows) {v : ν} {items : List Item}
    (hv : Shows v (itemsTree items)) : readItems r v = pure items := by
  refine h.list hv ?_
  rw [List.forall₂_map_left_iff, List.forall₂_same]
  exact fun item _ w hw => h.item hw

theorem readTable_eq (h : r.Follows Shows) {v : ν} {t : Table (List Item)}
    (hv : Shows v (tableTree t)) : r.table (readItems r) v = pure t.entries := by
  refine h.table hv ?_
  rw [List.forall₂_map_left_iff, List.forall₂_same]
  exact fun e _ => ⟨rfl, fun w hw => readItems_eq h hw⟩

variable [LawfulMonad m]

theorem readSteps_eq (h : r.Follows Shows) {v : ν} {steps : UInt32}
    (hv : Shows v (.number steps.toNat)) : readSteps r v = pure steps := by
  have hle : steps.toNat ≤ maxStep := Nat.le_of_lt_succ steps.toNat_lt
  simp only [readSteps, h.number hv hle, pure_bind, UInt32.ofNat_toNat]

theorem readOwnSteps_eq (h : r.Follows Shows) {v : ν} {own : Vector (Option UInt32) 8}
    (hv : Shows v (.list (own.toList.map stepsTree))) :
    r.vector 8 (r.optional (readSteps r)) v = pure own := by
  refine h.vector hv ?_
  rw [List.forall₂_map_left_iff, List.forall₂_same]
  intro steps _ w hw
  cases steps with
  | none => exact h.absent (readSteps r) hw
  | some steps => exact h.present hw (readSteps_eq h hw)

theorem fills_pattern (h : r.Follows Shows) (leave : String → Bool) (p : Pattern) :
    Fills Shows (patternFields r) {} (patternEntries leave p)
      { root := kept leave "root" p.root.isEmpty p.root
        groups := kept leave "groups" p.groups.entries.isEmpty p.groups.entries
        supers := kept leave "supers" p.supers.entries.isEmpty p.supers.entries } := by
  refine fills_append (fills_append
    (fills_member (PatternFields.mk · none none) rfl rfl ?root)
    (fills_member (PatternFields.mk _ · none) rfl rfl ?groups))
    (fills_member (PatternFields.mk _ _ ·) rfl rfl ?supers)
  case root =>
    intro w hw
    simp only [readItems_eq h hw, pure_bind]
  case groups =>
    intro w hw
    simp only [readTable_eq h hw, pure_bind]
  case supers =>
    intro w hw
    simp only [readTable_eq h hw, pure_bind]

theorem readPattern_eq (h : r.Follows Shows) {v : ν} {p : Pattern} {leave : String → Bool}
    (hv : Shows v (.record (patternEntries leave p))) : readPattern r v = pure p := by
  rw [readPattern, h.record hv (fills_pattern h leave p), pure_bind]
  simp only [getD_kept List.isEmpty_iff.mp, Table.ofList_entries]

theorem fills_track (h : r.Follows Shows) (leave : String → Bool) (t : Track) :
    Fills Shows (trackFields r) {} (trackEntries leave t)
      { name := some t.name
        own := kept leave "pad_steps" (t.pads.own = Vector.replicate 8 none) t.pads.own
        fallback := kept leave "default_pad_steps" (t.pads.fallback = standardPadSteps)
          t.pads.fallback
        pattern := kept leave "pattern" (t.pattern = {}) t.pattern
        mute := kept leave "mute" (!t.mute) t.mute } := by
  refine .cons rfl rfl ?name (fills_append (fills_append (fills_append
    (fills_member (TrackFields.mk (some t.name) · none none none) rfl rfl ?own)
    (fills_member (TrackFields.mk (some t.name) _ · none none) rfl rfl ?fallback))
    (fills_member (TrackFields.mk (some t.name) _ _ · none) rfl rfl ?pattern))
    (fills_member (TrackFields.mk (some t.name) _ _ _ ·) rfl rfl ?mute))
  case name =>
    intro w hw
    simp only [h.text hw, pure_bind]
  case own =>
    intro w hw
    simp only [readOwnSteps_eq h hw, pure_bind]
  case fallback =>
    intro w hw
    simp only [readSteps_eq h hw, pure_bind]
  case pattern =>
    intro w hw
    simp only [readPattern_eq h hw, pure_bind]
  case mute =>
    intro w hw
    simp only [h.flag hw, pure_bind]

theorem readTrack_eq (h : r.Follows Shows) {v : ν} {t : Track} {leave : String → Bool}
    (hv : Shows v (.record (trackEntries leave t))) : readTrack r v = pure t := by
  have hmute : (!t.mute) = true → t.mute = false := by simp
  rw [readTrack, h.record hv (fills_track h leave t), pure_bind]
  simp only [getD_kept of_decide_eq_true, getD_kept hmute]

theorem readTracks_eq (h : r.Follows Shows) {v : ν} {tracks : List Track}
    {leave : Nat → String → Bool}
    (hv : Shows v (.list (tracks.zipIdx.map fun e => .record (trackEntries (leave e.2) e.1)))) :
    r.list (readTrack r) v = pure tracks := by
  have hall : List.Forall₂ (fun tree a => ∀ w, Shows w tree → readTrack r w = pure a)
      (tracks.zipIdx.map fun e => .record (trackEntries (leave e.2) e.1))
      (tracks.zipIdx.map (·.1)) := by
    rw [List.forall₂_map_left_iff, List.forall₂_map_right_iff, List.forall₂_same]
    exact fun e _ w hw => readTrack_eq h hw
  rw [List.zipIdx_map_fst] at hall
  exact h.list hv hall

/-- What is shown of a song is read back to it, whatever defaults are left out. -/
theorem readSong_eq (h : r.Follows Shows) {v : ν} {song : Song} {leave : Nat → String → Bool}
    (hv : Shows v (song.abridged leave)) : readSong r v = pure song := by
  have hbpm : Fills Shows (songFields r) {} [("bpm", .number song.bpm.toNat)]
      { bpm := some song.bpm } := by
    refine .cons rfl rfl (fun w hw => ?_) (.nil _)
    simp only [readSteps_eq h hw, pure_bind]
  have htracks : Fills Shows (songFields r) { bpm := some song.bpm }
      [("tracks", .list (song.tracks.zipIdx.map fun e => .record (trackEntries (leave e.2) e.1)))]
      { bpm := some song.bpm, tracks := some song.tracks } := by
    refine .cons rfl rfl (fun w hw => ?_) (.nil _)
    simp only [readTracks_eq h hw, pure_bind]
  rw [readSong, h.record hv (fills_append hbpm htracks), pure_bind]

end Reading

end Song

end Groovebox

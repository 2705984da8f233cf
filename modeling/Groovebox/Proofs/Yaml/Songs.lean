import Groovebox.Proofs.SongShape
import Groovebox.Proofs.Yaml.Nodes
import Groovebox.Song.Format

/-! Songs in YAML. The reader of nodes follows the laws of readers on the nodes of trees, as
long as these nest no deeper than its limit. What is quoted in a text is what would not be
read as the same text, so a song whose texts are printable ASCII reads back from what is
written for it. -/

namespace Groovebox.Yaml

open Text

/-! Scalars. -/

variable {n limit : Nat} {c : Char} {text : List Char} {s : String}

theorem digits?_of_isDigit (h : ∀ c ∈ text, isDigit c) (n : Nat) :
    digits? 10 n text = some (valueFrom n text) := by
  induction text generalizing n with
  | nil => rfl
  | cons c text ih =>
    obtain ⟨hc, htext⟩ := List.forall_mem_cons.mp h
    have hdigit : digit? 10 c = some (digitValue c) := by
      have hbounds := toNat_of_isDigit hc
      have hvalue : digitValue c < 10 := by
        show c.toNat - 48 < 10
        omega
      rw [digit?, hexValue?, if_pos hc, Option.bind_some]
      exact if_pos hvalue
    rw [digits?, hdigit, Option.bind_some, ih htext]
    rfl

theorem unsigned_of_isDigit (h : ∀ c ∈ text, isDigit c) : unsigned text = text := by
  unfold unsigned
  split
  · exact absurd (h '+' List.mem_cons_self) (by decide)
  · exact absurd (h '-' List.mem_cons_self) (by decide)
  · rfl

theorem isZeroPadded_toDigits (n : Nat) : isZeroPadded (Nat.toDigits 10 n) = false := by
  have hdigits : ∀ c ∈ Nat.toDigits 10 n, isDigit c := fun _ => isDigit_of_mem_toDigits
  rw [isZeroPadded, unsigned_of_isDigit hdigits]
  split
  · next c rest heq =>
    have hlength : 1 < (Nat.toDigits 10 n).length := by
      rw [heq]
      simp
    exact absurd (by rw [heq]; rfl) (head?_toDigits_of_length hlength)
  · rfl

theorem magnitude?_of_isDigit (h : ∀ c ∈ text, isDigit c) (hne : text ≠ []) :
    magnitude? text = some (digitsValue text) := by
  have hnumber : number? 10 text = some (digitsValue text) := by
    rw [number?, List.isEmpty_eq_false_iff.mpr hne, if_neg Bool.false_ne_true, digits?_of_isDigit h]
    rfl
  unfold magnitude?
  split
  · exact absurd (h 'x' (by simp)) (by decide)
  · exact absurd (h 'o' (by simp)) (by decide)
  · exact absurd (h 'b' (by simp)) (by decide)
  · exact hnumber

theorem natural?_toDigits (n : Nat) : natural? (Nat.toDigits 10 n) = some n := by
  have hdigits : ∀ c ∈ Nat.toDigits 10 n, isDigit c := fun _ => isDigit_of_mem_toDigits
  have hmagnitude := magnitude?_of_isDigit hdigits Nat.toDigits_ne_nil
  rw [digitsValue_toDigits] at hmagnitude
  rw [natural?, isZeroPadded_toDigits, if_neg Bool.false_ne_true]
  · exact hmagnitude
  · intro rest heq
    exact absurd (hdigits '+' (by rw [heq]; simp)) (by decide)

theorem ne_toDigits (n : Nat) (h : s.toList.any fun c => !isDigit c) :
    Nat.toDigits 10 n ≠ s.toList := by
  intro heq
  obtain ⟨c, hc, hne⟩ := List.any_eq_true.mp h
  rw [isDigit_of_mem_toDigits (heq ▸ hc)] at hne
  cases hne

theorem isNull_toDigits (n : Nat) : isNull (Nat.toDigits 10 n) = false := by
  rw [isNull, decide_eq_false_iff_not]
  simp only [List.mem_cons, List.not_mem_nil, or_false, not_or]
  exact ⟨ne_toDigits n (by decide), ne_toDigits n (by decide), ne_toDigits n (by decide),
    ne_toDigits n (by decide)⟩

theorem bool?_toDigits (n : Nat) : bool? (Nat.toDigits 10 n) = none := by
  have htrue : Nat.toDigits 10 n ∉ ["true".toList, "True".toList, "TRUE".toList] := by
    simp only [List.mem_cons, List.not_mem_nil, or_false, not_or]
    exact ⟨ne_toDigits n (by decide), ne_toDigits n (by decide), ne_toDigits n (by decide)⟩
  have hfalse : Nat.toDigits 10 n ∉ ["false".toList, "False".toList, "FALSE".toList] := by
    simp only [List.mem_cons, List.not_mem_nil, or_false, not_or]
    exact ⟨ne_toDigits n (by decide), ne_toDigits n (by decide), ne_toDigits n (by decide)⟩
  rw [bool?, if_neg htrue, if_neg hfalse]

theorem meaning_toDigits (h : n < Nat.pow 2 64) : meaning (Nat.toDigits 10 n) = .natural n := by
  unfold meaning
  rw [List.isEmpty_eq_false_iff.mpr Nat.toDigits_ne_nil, isNull_toDigits, bool?_toDigits,
    natural?_toDigits]
  exact if_pos h

theorem toList_toString (n : Nat) : (toString n).toList = Nat.toDigits 10 n := by
  rw [Nat.toString_eq_ofList_toDigits, String.toList_ofList]

/-! Places. -/

/-- The node at a place is that of the tree, which does not go below the limit. -/
structure Shows (p : Place) (tree : Tree) : Prop where
  node : p.node = nodeOf tree
  depth : p.depth + tree.depth ≤ depthLimit

structure ShowsEntry (w : Place × Place) (e : String × Tree) : Prop where
  key : w.1.node = nodeOf (.text e.1)
  value : Shows w.2 e.2

theorem nodesOf_eq_map (items : List Tree) : nodesOf items = items.map nodeOf := by
  induction items with
  | nil => rfl
  | cons item rest ih => rw [nodesOf, ih, List.map_cons]

theorem pairsOf_eq_map (entries : List (String × Tree)) :
    pairsOf entries = entries.map fun e => (nodeOf (.text e.1), nodeOf e.2) := by
  induction entries with
  | nil => rfl
  | cons entry rest ih =>
    rw [pairsOf, ih, List.map_cons]
    rfl

section

variable {α σ : Type} {p : Place} {tree : Tree} {trees : List Tree} {pairs : List (String × Tree)}

theorem follow_eq (h : p.node = nodeOf tree) : follow p = pure p := by
  rw [follow, h]
  match tree with
  | .null | .bool true | .bool false | .number _ | .text _ | .list _ | .record _ => rfl

theorem Shows.items (h : Shows p (.list trees)) :
    items p = pure (trees.map fun tree => { p with depth := p.depth + 1, node := nodeOf tree }) ∧
      ∀ tree ∈ trees, Shows { p with depth := p.depth + 1, node := nodeOf tree } tree := by
  have hdepth := h.depth
  rw [Tree.depth] at hdepth
  refine ⟨?_, fun tree hm => ⟨rfl, ?_⟩⟩
  · have henter : enter p = pure (p.depth + 1) := if_pos (by omega)
    have hnode : p.node = .sequence none (trees.map nodeOf) := by
      rw [h.node, nodeOf, nodesOf_eq_map]
    rw [Yaml.items, follow_eq h.node, pure_bind, hnode]
    simp only [henter, pure_bind, List.map_map]
    rfl
  · have hle := itemsDepth_le_iff.mp (Nat.le_refl _) tree hm
    show p.depth + 1 + tree.depth ≤ depthLimit
    omega

def entryPlaces (p : Place) (e : String × Tree) : Place × Place :=
  ({ p with depth := p.depth + 1, node := nodeOf (.text e.1) },
    { p with depth := p.depth + 1, node := nodeOf e.2 })

theorem Shows.entries (h : Shows p (.record pairs)) :
    entries p = pure (pairs.map (entryPlaces p)) ∧
      ∀ e ∈ pairs, ShowsEntry (entryPlaces p e) e := by
  have hdepth := h.depth
  rw [Tree.depth] at hdepth
  refine ⟨?_, fun e hm => ⟨rfl, rfl, ?_⟩⟩
  · have henter : enter p = pure (p.depth + 1) := if_pos (by omega)
    have hnode : p.node =
        .mapping none (pairs.map fun e => (nodeOf (.text e.1), nodeOf e.2)) := by
      rw [h.node, nodeOf, pairsOf_eq_map]
    rw [Yaml.entries, follow_eq h.node, pure_bind, hnode]
    simp only [henter, pure_bind, List.map_map]
    rfl
  · have hle := entriesDepth_le_iff.mp (Nat.le_refl _) e hm
    show p.depth + 1 + e.2.depth ≤ depthLimit
    omega

theorem readText_eq (h : p.node = nodeOf (.text s)) : readText p = pure s := by
  rw [readText, follow_eq h, pure_bind, h]
  rfl

theorem readNatural_eq (h : p.node = nodeOf (.number n)) (hle : n ≤ limit) :
    readNatural limit p = pure n := by
  rw [readNatural, follow_eq h, pure_bind, h]
  simp only [nodeOf, toList_toString, natural?_toDigits, hle, if_true]
  rfl

theorem readFlag_eq {b : Bool} (h : p.node = nodeOf (.bool b)) : readFlag p = pure b := by
  rw [readFlag, follow_eq h, pure_bind, h]
  cases b <;> rfl

theorem readOptional_null (read : Place → Read α) (h : p.node = nodeOf .null) :
    readOptional read p = pure none := by
  rw [readOptional, follow_eq h, pure_bind, h]
  rfl

theorem readOptional_number {read : Place → Read α} {a : α} (h : p.node = nodeOf (.number n))
    (hread : read p = pure a) : readOptional read p = pure (some a) := by
  have hne : (toString n).isEmpty = false := by
    rw [Bool.eq_false_iff, ne_eq, String.isEmpty_iff]
    intro hempty
    have hnil := congrArg String.toList hempty
    rw [toList_toString] at hnil
    exact Nat.toDigits_ne_nil hnil
  rw [readOptional, follow_eq h, pure_bind, h]
  simp only [nodeOf, hne, toList_toString, isNull_toDigits, Bool.or_self, Bool.false_eq_true,
    if_false, hread, pure_bind]

theorem readList_eq {read : Place → Read α} {items : List α} (h : Shows p (.list trees))
    (hall : List.Forall₂ (fun tree a => ∀ w, Shows w tree → read w = pure a) trees items) :
    readList read p = pure items := by
  obtain ⟨hitems, hshows⟩ := h.items
  rw [readList, hitems, pure_bind, mapM_shown hshows hall]

theorem readVector_eq {n : Nat} {read : Place → Read α} {items : Vector α n}
    (h : Shows p (.list trees))
    (hall : List.Forall₂ (fun tree a => ∀ w, Shows w tree → read w = pure a) trees items.toList) :
    readVector n read p = pure items := by
  rw [readVector, readList_eq h hall, pure_bind, dif_pos (by simp)]
  rfl

theorem readTable_eq {read : Place → Read α} {entries : List (String × α)}
    (h : Shows p (.record pairs))
    (hall : List.Forall₂ (fun tree e => tree.1 = e.1 ∧ ∀ w, Shows w tree.2 → read w = pure e.2)
      pairs entries) :
    readTable read p = pure entries := by
  obtain ⟨hentries, hshows⟩ := h.entries
  rw [readTable, hentries, pure_bind]
  refine mapM_shown hshows (hall.imp fun tree e hread w hw => ?_)
  simp only [readText_eq hw.key, hread.2 _ hw.value, pure_bind, hread.1]

theorem readRecord_eq {fields : List (Field Place Read σ)} {start last : σ}
    (h : Shows p (.record pairs)) (hfills : Fills Shows fields start pairs last) :
    readRecord fields start p = pure last := by
  obtain ⟨hentries, hshows⟩ := h.entries
  rw [readRecord, hentries, pure_bind]
  refine foldlM_shown (fun e he field s next found unset read => ?_) hfills
  rw [readField, readText_eq (hshows e he).key, pure_bind]
  simp only [found, unset, Bool.false_eq_true, if_false, read _ (hshows e he).value]

end

/-! Items. All of an item is read before its tag says what it has to hold. -/

theorem plainWorth?_of_isPrintedPlain (h : isPrintedPlain s) : plainWorth? s = some (.text s) := by
  simp only [isPrintedPlain, Bool.and_eq_true, decide_eq_true_eq] at h
  rw [plainWorth?, h.1.1]

theorem worth_text {p : Place} (h : p.node = nodeOf (.text s)) : worth p = pure (.text s) := by
  have hscalar : scalarWorth? none (styleOf s) s = some (.text s) := by
    by_cases hplain : isPrintedPlain s
    · simp [scalarWorth?, isForeign, styleOf, hplain, plainWorth?_of_isPrintedPlain]
    · simp [scalarWorth?, isForeign, styleOf, hplain]
  rw [worth, readAny, follow_eq h, pure_bind, h]
  simp only [nodeOf, hscalar]

theorem worth_number {p : Place} (h : p.node = nodeOf (.number n)) (hle : n ≤ maxStep) :
    worth p = pure (.natural n) := by
  have hscalar : scalarWorth? none .plain (toString n) = some (.natural n) := by
    have hlt : n < Nat.pow 2 64 := Nat.lt_of_le_of_lt hle (by decide)
    simp [scalarWorth?, isForeign, plainWorth?, meaning_toDigits hlt]
  rw [worth, readAny, follow_eq h, pure_bind, h]
  simp only [nodeOf, hscalar]

/-- The tree of an item: the tag of its variant and the value of its field. -/
theorem readItem_eq {p : Place} {item : Item} (variant : Variant) {value : Tree} {w : Worth}
    (h : Shows p (.record [("type", .text variant.tag), (variant.field, value)]))
    (hfind : Song.itemVariants.find? (·.tag = variant.tag) = some variant)
    (hfield : variant.field ≠ "type")
    (hworth : ∀ q : Place, q.node = nodeOf value → worth q = pure w)
    (hpayload : payload? w variant.payload = some item) :
    readItem Song.itemVariants p = pure item := by
  obtain ⟨hentries, -⟩ := h.entries
  have htype : readTagged Song.itemVariants {} (entryPlaces p ("type", .text variant.tag)) =
      pure { variant := some variant } := by
    have hvariant : readVariant Song.itemVariants (entryPlaces p ("type", .text variant.tag)).2 =
        pure variant := by
      rw [readVariant, readText_eq rfl, pure_bind, hfind]
    rw [readTagged, worth_text rfl, pure_bind, if_pos rfl, hvariant]
    rfl
  have hvalue : readTagged Song.itemVariants { variant := some variant }
      (entryPlaces p (variant.field, value)) =
        pure { variant := some variant, fields := [(.text variant.field, w)] } := by
    have hkey : Worth.text variant.field ≠ .text "type" := fun heq => hfield (Worth.text.inj heq)
    rw [readTagged, worth_text rfl, pure_bind, if_neg hkey, hworth _ rfl]
    rfl
  rw [readItem, follow_eq h.node, pure_bind, h.node, nodeOf]
  simp only [isForeign, hentries, pure_bind, List.map_cons, List.map_nil, List.foldlM_cons,
    List.foldlM_nil, htype, hvalue]
  simp only [List.all_cons, List.all_nil, isFieldKey, Bool.and_self, Bool.not_true,
    Bool.false_eq_true, if_false, namesField, decide_true, Bool.true_or, List.filter_cons_of_pos,
    List.filter_nil, hpayload]
  rfl

theorem readItem_itemTree {p : Place} {item : Item} (h : Shows p (Song.itemTree item)) :
    readItem Song.itemVariants p = pure item := by
  have hpayload : ∀ {n limit : Nat} (make : Nat → Item), n ≤ limit →
      payload? (.natural n) (.number limit make) = some (make n) := fun _ hle => if_pos hle
  match item with
  | .pad index =>
    have hle : index.toNat ≤ 255 := Nat.le_of_lt_succ index.toNat_lt
    refine readItem_eq Song.itemVariants[0] h rfl (by decide)
      (fun _ hnode => worth_number hnode (Nat.le_trans hle (by decide))) ?_
    exact (hpayload _ hle).trans (by rw [UInt8.ofNat_toNat])
  | .pause steps =>
    have hle : steps.toNat ≤ maxStep := Nat.le_of_lt_succ steps.toNat_lt
    refine readItem_eq Song.itemVariants[1] h rfl (by decide)
      (fun _ hnode => worth_number hnode hle) ?_
    exact (hpayload _ hle).trans (by rw [UInt32.ofNat_toNat])
  | .call ⟨.group, id⟩ =>
    exact readItem_eq Song.itemVariants[2] h rfl (by decide) (fun _ => worth_text) rfl
  | .call ⟨.super, id⟩ =>
    exact readItem_eq Song.itemVariants[3] h rfl (by decide) (fun _ => worth_text) rfl

theorem reader_follows : reader.Follows Shows where
  text h := readText_eq h.node
  number h := readNatural_eq h.node
  flag h := readFlag_eq h.node
  absent read _ h := readOptional_null read h.node
  present h := readOptional_number h.node
  list := readList_eq
  vector := readVector_eq
  table := readTable_eq
  record := readRecord_eq
  item := readItem_itemTree

/-! Printable trees. -/

theorem arePrintableItems_iff {items : List Tree} :
    ArePrintableItems items ↔ ∀ tree ∈ items, IsPrintableTree tree := by
  induction items with
  | nil => simp [ArePrintableItems]
  | cons item rest ih => rw [ArePrintableItems, ih, List.forall_mem_cons]

theorem arePrintableEntries_iff {entries : List (String × Tree)} :
    ArePrintableEntries entries ↔
      ∀ e ∈ entries, IsPrintableAscii e.1.toList ∧ IsPrintableTree e.2 := by
  induction entries with
  | nil => simp [ArePrintableEntries]
  | cons entry rest ih => rw [ArePrintableEntries, ih, List.forall_mem_cons, and_assoc]

end Groovebox.Yaml

namespace Groovebox

/-- The ids that an item mentions. -/
def Item.ids : Item → List String
  | .pad _ | .pause _ => []
  | .call name => [name.id]

def tableIds (t : Table (List Item)) : List String :=
  t.entries.flatMap fun e => e.1 :: e.2.flatMap Item.ids

/-- The ids of all containers, those that are called and those that are there. -/
def Pattern.ids (p : Pattern) : List String :=
  p.root.flatMap Item.ids ++ tableIds p.groups ++ tableIds p.supers

/-- The names of the tracks and the ids of their containers. -/
def Song.texts (song : Song) : List String :=
  song.tracks.flatMap fun t => t.name :: t.pattern.ids

namespace Song

open Yaml

theorem isPrintable_itemTree {item : Item} (h : ∀ id ∈ item.ids, IsPrintableAscii id.toList) :
    IsPrintableTree (itemTree item) := by
  match item with
  | .pad _ =>
    have htag : IsPrintableAscii "pad".toList := by decide
    exact ⟨by decide, htag, by decide, trivial, trivial⟩
  | .pause _ =>
    have htag : IsPrintableAscii "pause".toList := by decide
    exact ⟨by decide, htag, by decide, trivial, trivial⟩
  | .call ⟨.group, id⟩ =>
    have htag : IsPrintableAscii "group".toList := by decide
    exact ⟨by decide, htag, by decide, h id List.mem_cons_self, trivial⟩
  | .call ⟨.super, id⟩ =>
    have htag : IsPrintableAscii "super".toList := by decide
    exact ⟨by decide, htag, by decide, h id List.mem_cons_self, trivial⟩

theorem isPrintable_itemsTree {items : List Item}
    (h : ∀ id ∈ items.flatMap Item.ids, IsPrintableAscii id.toList) :
    IsPrintableTree (itemsTree items) := by
  refine arePrintableItems_iff.mpr (List.forall_mem_map.mpr fun item hm => ?_)
  exact isPrintable_itemTree fun id hid => h id (List.mem_flatMap.mpr ⟨item, hm, hid⟩)

theorem isPrintable_tableTree {t : Table (List Item)}
    (h : ∀ id ∈ tableIds t, IsPrintableAscii id.toList) : IsPrintableTree (tableTree t) := by
  refine arePrintableEntries_iff.mpr (List.forall_mem_map.mpr fun e he => ?_)
  have hids : ∀ id ∈ e.1 :: e.2.flatMap Item.ids, IsPrintableAscii id.toList :=
    fun id hid => h id (List.mem_flatMap.mpr ⟨e, he, hid⟩)
  obtain ⟨hkey, hitems⟩ := List.forall_mem_cons.mp hids
  exact ⟨hkey, isPrintable_itemsTree hitems⟩

theorem isPrintable_patternTree {p : Pattern} (h : ∀ id ∈ p.ids, IsPrintableAscii id.toList) :
    IsPrintableTree (patternTree p) := by
  rw [Pattern.ids, List.forall_mem_append, List.forall_mem_append] at h
  obtain ⟨⟨hroot, hgroups⟩, hsupers⟩ := h
  exact ⟨by decide, isPrintable_itemsTree hroot, by decide, isPrintable_tableTree hgroups,
    by decide, isPrintable_tableTree hsupers, trivial⟩

theorem isPrintable_trackTree {t : Track}
    (h : ∀ s ∈ t.name :: t.pattern.ids, IsPrintableAscii s.toList) :
    IsPrintableTree (trackTree t) := by
  obtain ⟨hname, hids⟩ := List.forall_mem_cons.mp h
  have hown : IsPrintableTree (.list (t.pads.own.toList.map stepsTree)) := by
    refine arePrintableItems_iff.mpr (List.forall_mem_map.mpr ?_)
    rintro (_ | _) _ <;> trivial
  exact ⟨by decide, hname, by decide, hown, by decide, trivial, by decide,
    isPrintable_patternTree hids, by decide, trivial, trivial⟩

theorem isPrintable_toTree {song : Song} (h : ∀ s ∈ song.texts, IsPrintableAscii s.toList) :
    IsPrintableTree song.toTree := by
  have htracks : IsPrintableTree (.list (song.tracks.map trackTree)) := by
    refine arePrintableItems_iff.mpr (List.forall_mem_map.mpr fun t ht => ?_)
    exact isPrintable_trackTree fun s hs => h s (List.mem_flatMap.mpr ⟨t, ht, hs⟩)
  exact ⟨by decide, trivial, by decide, htracks, trivial⟩

/-- A song whose names and ids are printable ASCII is read from the YAML written for it, also
where they look like numbers, words or marks of the language. -/
theorem yaml_reads_back (song : Song) (h : ∀ s ∈ song.texts, IsPrintableAscii s.toList) :
    read (song.write .yaml) .yaml = .ok song := by
  have htokens : tokens? (Yaml.print song.toTree) = some (blockTokens false song.toTree) :=
    tokens?_print (isPrintable_toTree h)
  have hdocument : document? (blockTokens false song.toTree) = some ⟨nodeOf song.toTree, []⟩ :=
    document?_blockTokens _ _
  have hshows : Yaml.Shows ⟨[], 0, nodeOf song.toTree⟩ (song.abridged fun _ _ => false) := by
    have hdepth := depth_abridged_le (fun _ _ => false) song
    rw [abridged_nothing] at hdepth ⊢
    exact ⟨rfl, by simp only [Yaml.depthLimit]; omega⟩
  have hsong : readSong Yaml.reader ⟨[], 0, nodeOf song.toTree⟩ = pure song :=
    readSong_eq Yaml.reader_follows hshows
  have heq : Yaml.readSong (song.write .yaml) = some song := by
    rw [write, Yaml.readSong, htokens, Option.bind_eq_bind, Option.bind_some, hdocument]
    exact congrArg (fun r : Yaml.Read Song => r.run' (100 * (nodeOf song.toTree).size)) hsong
  rw [read, heq]

/-- Names and ids that would be read as numbers, as words or as marks if they stood as they
are. -/
theorem yaml_reads_back_lookalikes :
    let song : Song := { tracks := [{
      name := " it's: 'so' #1 "
      pattern := {
        root := [.call ⟨.group, "12"⟩, .pad 3, .call ⟨.super, ""⟩]
        groups := .ofList [("12", [.pause 4]), ("null", []), ("~", [])]
        supers := .ofList [("", [.call ⟨.group, "true"⟩]), ("- a", [])] } }] }
    read (song.write .yaml) .yaml = .ok song :=
  yaml_reads_back _ (by decide +kernel)

end Song

end Groovebox

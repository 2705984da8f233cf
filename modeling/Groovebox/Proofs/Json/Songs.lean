import Groovebox.Proofs.Json.Values
import Groovebox.Proofs.SongShape
import Groovebox.Song.Format

/-! Songs in JSON. The reader of JSON values follows the laws of readers as long as brackets
nest less deep than its limit, as they do in what is written for a song. So a song reads
back from its text, and from the text of a part of it that says the same. -/

namespace Groovebox.Json

/-- The value at a place is that of the tree, which does not go below the limit. -/
structure Shows (p : Place) (tree : Tree) : Prop where
  value : p.value = shown tree
  depth : p.depth + tree.depth < depthLimit

structure ShowsEntry (depth : Nat) (w : Content × Value) (e : String × Tree) : Prop where
  key : w.1 = .ok e.1
  value : Shows ⟨depth, w.2⟩ e.2

def shownEntry (e : String × Tree) : Content × Value := (.ok e.1, shown e.2)

theorem shownItems_eq_map (items : List Tree) : shownItems items = items.map shown := by
  induction items with
  | nil => rfl
  | cons item rest ih => rw [shownItems, ih, List.map_cons]

theorem shownEntries_eq_map (entries : List (String × Tree)) :
    shownEntries entries = entries.map shownEntry := by
  induction entries with
  | nil => rfl
  | cons entry rest ih =>
    rw [shownEntries, ih, List.map_cons]
    rfl

section

variable {α σ : Type} {p : Place} {trees : List Tree} {pairs : List (String × Tree)}

theorem Shows.items (h : Shows p (.list trees)) :
    p.value = .list (trees.map shown) none ∧ enter p.depth = pure (p.depth + 1) ∧
      ∀ tree ∈ trees, Shows ⟨p.depth + 1, shown tree⟩ tree := by
  have hdepth := h.depth
  rw [Tree.depth] at hdepth
  refine ⟨?_, ?_, fun tree hm => ⟨rfl, ?_⟩⟩
  · rw [h.value, shown, shownItems_eq_map]
  · rw [enter, if_neg (by omega)]
    rfl
  · have hle := itemsDepth_le_iff.mp (Nat.le_refl _) tree hm
    show p.depth + 1 + tree.depth < depthLimit
    omega

theorem Shows.entries (h : Shows p (.record pairs)) :
    p.value = .object (pairs.map shownEntry) none ∧ enter p.depth = pure (p.depth + 1) ∧
      ∀ e ∈ pairs, ShowsEntry (p.depth + 1) (shownEntry e) e := by
  have hdepth := h.depth
  rw [Tree.depth] at hdepth
  refine ⟨?_, ?_, fun e hm => ⟨rfl, rfl, ?_⟩⟩
  · rw [h.value, shown, shownEntries_eq_map]
  · rw [enter, if_neg (by omega)]
    rfl
  · have hle := entriesDepth_le_iff.mp (Nat.le_refl _) e hm
    show p.depth + 1 + e.2.depth < depthLimit
    omega

theorem mapM_shown_values {read : Place → Except Fault α} {depth : Nat} {items : List α}
    (hshows : ∀ tree ∈ trees, Shows ⟨depth, shown tree⟩ tree)
    (hall : List.Forall₂ (fun tree a => ∀ w, Shows w tree → read w = pure a) trees items) :
    (trees.map shown).mapM (fun v => read ⟨depth, v⟩) = pure items :=
  mapM_shown hshows (hall.imp fun _ _ hread v => hread ⟨depth, v⟩)

theorem readList_eq {read : Place → Except Fault α} {items : List α} (h : Shows p (.list trees))
    (hall : List.Forall₂ (fun tree a => ∀ w, Shows w tree → read w = pure a) trees items) :
    readList read p = pure items := by
  obtain ⟨hvalue, henter, hshows⟩ := h.items
  unfold readList
  rw [hvalue]
  simp only [henter, mapM_shown_values hshows hall, pure_bind]
  rfl

theorem readVector_eq {n : Nat} {read : Place → Except Fault α} {items : Vector α n}
    (h : Shows p (.list trees))
    (hall : List.Forall₂ (fun tree a => ∀ w, Shows w tree → read w = pure a) trees items.toList) :
    readVector n read p = pure items := by
  obtain ⟨hvalue, henter, hshows⟩ := h.items
  have hlength : (trees.map shown).length = n := by
    rw [List.length_map, hall.length_eq, Vector.length_toList]
  unfold readVector
  rw [hvalue]
  simp only [henter, List.take_of_length_le (Nat.le_of_eq hlength),
    List.drop_of_length_le (Nat.le_of_eq hlength), mapM_shown_values hshows hall, pure_bind]
  have hend : checkEnd [] none = (pure () : Except Fault Unit) := rfl
  simp only [hend, pure_bind]
  rw [dif_pos (by simp)]
  rfl

theorem readTable_eq {read : Place → Except Fault α} {entries : List (String × α)}
    (h : Shows p (.record pairs))
    (hall : List.Forall₂ (fun tree e => tree.1 = e.1 ∧ ∀ w, Shows w tree.2 → read w = pure e.2)
      pairs entries) :
    readTable read p = pure entries := by
  obtain ⟨hvalue, henter, hshows⟩ := h.entries
  have hentries : (pairs.map shownEntry).mapM (readEntry read (p.depth + 1)) = pure entries := by
    refine mapM_shown hshows (hall.imp fun tree e hread w hw => ?_)
    have hkey : w.1 = pure tree.1 := hw.key
    rw [readEntry, hkey, pure_bind, hread.2 _ hw.value, pure_bind, hread.1]
  unfold readTable
  rw [hvalue]
  simp only [henter, hentries, pure_bind]
  rfl

theorem readRecord_eq {fields : List (Field Place (Except Fault) σ)} {start last : σ}
    (h : Shows p (.record pairs)) (hfills : Fills Shows fields start pairs last) :
    readRecord fields start p = pure last := by
  obtain ⟨hvalue, henter, hshows⟩ := h.entries
  have hentries : (pairs.map shownEntry).foldlM (readField fields (p.depth + 1)) start =
      pure last := by
    refine foldlM_shown (fun e he field s next found unset read => ?_) hfills
    have hkey : (shownEntry e).1 = pure e.1 := (hshows e he).key
    rw [readField, hkey, pure_bind]
    simp only [found, unset, Bool.false_eq_true, if_false, read _ (hshows e he).value]
  unfold readRecord
  rw [hvalue]
  simp only [henter, hentries, pure_bind]
  rfl

end

theorem wholeNumber_of_le {n limit : Nat} (hlimit : limit < leadingBound) (h : n ≤ limit) :
    wholeNumber n = .natural n :=
  if_pos (Nat.lt_of_le_of_lt h hlimit)

theorem readNatural_eq {p : Place} {n limit : Nat} (hlimit : limit < leadingBound)
    (hvalue : p.value = shown (.number n)) (hle : n ≤ limit) : readNatural limit p = pure n := by
  unfold readNatural
  rw [hvalue, shown, wholeNumber_of_le hlimit hle]
  exact if_pos hle

theorem readText_eq {p : Place} {s : String} (hvalue : p.value = shown (.text s)) :
    readText p = pure s := by
  unfold readText
  rw [hvalue, shown]
  rfl

theorem readFlag_eq {p : Place} {b : Bool} (h : Shows p (.bool b)) : readFlag p = pure b := by
  unfold readFlag
  rw [h.value, shown]
  rfl

section

variable {α : Type} {p : Place}

theorem readOptional_null (read : Place → Except Fault α) (h : Shows p .null) :
    readOptional read p = pure none := by
  unfold readOptional
  rw [h.value, shown]
  rfl

theorem readOptional_number {read : Place → Except Fault α} {n : Nat} {a : α}
    (h : Shows p (.number n)) (hread : read p = pure a) :
    readOptional read p = pure (some a) := by
  unfold readOptional
  rw [h.value, shown, hread]
  rfl

end

/-! Items. All of an item is read before its tag says what it has to hold. -/

/-- The tree of an item: the tag of its variant and the value of its field. -/
theorem readItem_eq {p : Place} {item : Item} (variant : Variant) {value : Tree}
    (h : Shows p (.record [("type", .text variant.tag), (variant.field, value)]))
    (hfind : Song.itemVariants.find? (·.tag = variant.tag) = some variant)
    (hfield : variant.field ≠ "type") (hwhole : (shown value).readFault? (p.depth + 1) = none)
    (hread : readPayload (shown value) variant.payload = pure item) :
    readItem Song.itemVariants p = pure item := by
  obtain ⟨hentries, henter, -⟩ := h.entries
  have htag : readTag Song.itemVariants (shown (.text variant.tag)) = pure variant := by
    rw [readTag, readText_eq rfl, pure_bind, hfind]
  have htype : readTagged Song.itemVariants (p.depth + 1) {}
      (shownEntry ("type", .text variant.tag)) = pure { variant := some variant } := by
    have hkey : (shownEntry ("type", .text variant.tag)).1 = pure "type" := rfl
    have hvalue : (shownEntry ("type", .text variant.tag)).2 = shown (.text variant.tag) := rfl
    rw [readTagged, hkey, pure_bind, if_pos rfl, hvalue, htag]
    rfl
  have hpayload : readTagged Song.itemVariants (p.depth + 1) { variant := some variant }
      (shownEntry (variant.field, value)) =
        pure { variant := some variant, fields := [(variant.field, shown value)] } := by
    have hkey : (shownEntry (variant.field, value)).1 = pure variant.field := rfl
    have hvalue : (shownEntry (variant.field, value)).2 = shown value := rfl
    rw [readTagged, hkey, pure_bind, if_neg hfield, hvalue, hwhole]
    rfl
  unfold readItem
  rw [hentries]
  simp only [List.map_cons, List.map_nil, henter, pure_bind, List.foldlM_cons, List.foldlM_nil,
    htype, hpayload, decide_true, List.filter_cons_of_pos, List.filter_nil, hread]
  rfl

theorem readItem_itemTree {p : Place} {item : Item} (h : Shows p (Song.itemTree item)) :
    readItem Song.itemVariants p = pure item := by
  have hwhole : ∀ {n limit : Nat}, limit < leadingBound → n ≤ limit →
      (shown (.number n)).readFault? (p.depth + 1) = none := by
    intro n limit hlimit hle
    rw [shown, wholeNumber_of_le hlimit hle]
    rfl
  have hpayload : ∀ {n limit : Nat} (make : Nat → Item), limit < leadingBound → n ≤ limit →
      readPayload (shown (.number n)) (.number limit make) = pure (make n) := by
    intro n limit make hlimit hle
    have hnatural := readNatural_eq (p := ⟨0, shown (.number n)⟩) hlimit rfl hle
    rw [readPayload, hnatural]
    rfl
  match item with
  | .pad index =>
    have hle : index.toNat ≤ 255 := Nat.le_of_lt_succ index.toNat_lt
    refine readItem_eq Song.itemVariants[0] h rfl (by decide) (hwhole (by decide) hle) ?_
    exact (hpayload _ (by decide) hle).trans (by rw [UInt8.ofNat_toNat])
  | .pause steps =>
    have hle : steps.toNat ≤ maxStep := Nat.le_of_lt_succ steps.toNat_lt
    refine readItem_eq Song.itemVariants[1] h rfl (by decide) (hwhole (by decide) hle) ?_
    exact (hpayload _ (by decide) hle).trans (by rw [UInt32.ofNat_toNat])
  | .call ⟨.group, id⟩ => exact readItem_eq Song.itemVariants[2] h rfl (by decide) rfl rfl
  | .call ⟨.super, id⟩ => exact readItem_eq Song.itemVariants[3] h rfl (by decide) rfl rfl

theorem reader_follows : reader.Follows Shows where
  text h := readText_eq h.value
  number h := readNatural_eq (by decide) h.value
  flag := readFlag_eq
  absent read _ := readOptional_null read
  present := readOptional_number
  list := readList_eq
  vector := readVector_eq
  table := readTable_eq
  record := readRecord_eq
  item := readItem_itemTree

end Groovebox.Json

namespace Groovebox.Song

/-- A song is read from the text written for it, and from every JSON text that differs in
blanks and leaves out members that hold their default. -/
theorem json_reads_back (song : Song) :
    read (song.write .json) .json = .ok song ∧
      ∀ (leave : Nat → String → Bool) (text : String),
        Json.lex text.toList = Json.lex (Json.print (song.abridged leave)).toList →
          read text .json = .ok song := by
  have hread : ∀ (leave : Nat → String → Bool) (text : String),
      Json.lex text.toList = Json.lex (Json.print (song.abridged leave)).toList →
        read text .json = .ok song := by
    intro leave text hlex
    have hdocument := Json.readDocument_of_lex (hlex.trans (Json.lex_print _))
    have hdepth := depth_abridged_le leave song
    have hshows : Json.Shows ⟨0, Json.shown (song.abridged leave)⟩ (song.abridged leave) :=
      ⟨rfl, by simp only [Json.depthLimit]; omega⟩
    have hsong := readSong_eq Json.reader_follows hshows
    have heq : Json.readSong text = .ok song := by
      rw [Json.readSong, hdocument]
      simp only [hsong, pure_bind]
      rfl
    rw [read, heq]
  refine ⟨hread (fun _ _ => false) _ ?_, hread⟩
  rw [write, abridged_nothing]

/-- A text on one line, without the members of a track that the name does not decide. -/
theorem json_reads_back_from_one_line :
    read "\x7b\"bpm\":90,\"tracks\":[\x7b\"name\":\"a\"\x7d]\x7d" .json =
      .ok { bpm := 90, tracks := [{ name := "a" }] } :=
  (json_reads_back _).2 (fun _ _ => true) _ (by decide +kernel)

end Groovebox.Song

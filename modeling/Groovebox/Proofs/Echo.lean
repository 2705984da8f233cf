import Groovebox.Proofs.Limits
import Groovebox.Proofs.TypedSongs
import Groovebox.Proofs.Words

/-! Sequences shown and typed back. In a song that was typed every container has an address
that is read as that container, and the text that its sequence is shown as, typed behind the
address, changes nothing. -/

namespace Groovebox

open Text

/-- An address as it is typed. -/
def Address.written : Address → String
  | ⟨track, .root⟩ => toString (track + 1)
  | ⟨track, .named name⟩ => toString (track + 1) ++ "." ++ name.id

/-- The root, or a container as grouping names it. -/
inductive Container.IsNumbered : Container → Prop
  | root : IsNumbered .root
  | named (kind : GroupKind) (number : Nat) :
    IsNumbered (.named ⟨kind, Pattern.numberedId kind number⟩)

theorem isPlain_of_isIdChar {c : Char} (h : Notation.isIdChar c) : isPlain c := by
  obtain ⟨hlow, hhigh⟩ := Notation.toNat_of_isIdChar h
  have hblank : isBlank c = false := isBlank_eq_false_of_lt (by omega) (by omega)
  have hne : ∀ other, Notation.isIdChar other = false → c ≠ other := by
    rintro _ hno rfl
    rw [h] at hno
    cases hno
  simp [isPlain, hblank, hne _ (by decide : Notation.isIdChar '"' = false),
    hne _ (by decide : Notation.isIdChar '\'' = false),
    hne _ (by decide : Notation.isIdChar '\\' = false),
    hne _ (by decide : Notation.isIdChar ';' = false),
    hne _ (by decide : Notation.isIdChar '#' = false)]

theorem isPlain_of_isDigit {c : Char} (h : isDigit c) : isPlain c :=
  isPlain_of_isIdChar (Notation.isIdChar_of_isDigit h)

theorem isPlainWord_toDigits (n : Nat) : IsPlainWord (Nat.toDigits 10 n) where
  ne_nil := Nat.toDigits_ne_nil
  plain _ h := isPlain_of_isDigit (isDigit_of_mem_toDigits h)

theorem isPlainWord_cons {c : Char} {word : List Char} (hc : isPlain c)
    (h : ∀ c ∈ word, isPlain c) : IsPlainWord (c :: word) where
  ne_nil := List.cons_ne_nil c word
  plain := List.forall_mem_cons.mpr ⟨hc, h⟩

theorem Item.isPlainWord_written {item : Item} (h : item.IsWritable) :
    IsPlainWord item.written.toList := by
  rw [toList_written]
  cases item with
  | pad index => exact isPlainWord_cons (by decide) (isPlainWord_toDigits _).plain
  | pause steps => exact isPlainWord_cons (by decide) (isPlainWord_toDigits _).plain
  | call name =>
    obtain ⟨kind, id⟩ := name
    have hid : ∀ close, isPlain close → ∀ c ∈ id.toList ++ [close], isPlain c :=
      fun close hclose => List.forall_mem_append.mpr
        ⟨fun c hc => isPlain_of_isIdChar (h.2 c hc), List.forall_mem_singleton.mpr hclose⟩
    cases kind with
    | group => exact isPlainWord_cons (by decide) (hid ']' (by decide))
    | super => exact isPlainWord_cons (by decide) (hid '\x7d' (by decide))

namespace Address

variable {address : Address} {tracks : Nat}

theorem toList_written (address : Address) :
    address.written.toList = Nat.toDigits 10 (address.track + 1) ++
      match address.container with
      | .root => []
      | .named name => '.' :: name.id.toList := by
  obtain ⟨track, container⟩ := address
  cases container with
  | root => simp [written, Nat.toString_eq_repr, Nat.toList_repr]
  | named name => simp [written, Nat.toString_eq_repr, Nat.toList_repr]

theorem isPlainWord_written (h : address.container.IsNumbered) :
    IsPlainWord address.written.toList := by
  obtain ⟨hne, hdigits⟩ := isPlainWord_toDigits (address.track + 1)
  rw [toList_written]
  refine ⟨List.append_ne_nil_of_left_ne_nil hne _, fun c hc => ?_⟩
  rcases List.mem_append.mp hc with hc | hc
  · exact hdigits c hc
  · obtain ⟨track, container⟩ := address
    cases h with
    | root => cases hc
    | named kind number =>
      rcases List.mem_cons.mp hc with rfl | hc
      · decide
      · exact isPlain_of_isIdChar ((isWritable_numbered kind number).2 c hc)

theorem readTrack_toDigits {track : Nat} (h : track < tracks)
    (hword : track < Command.indexLimit) :
    Command.readTrack tracks (String.ofList (Nat.toDigits 10 (track + 1))) = .ok track := by
  have hrange : ¬(track + 1 = 0 ∨ tracks < track + 1) := by omega
  rw [Command.readTrack, String.toList_ofList, readNumber_toDigits hword]
  simp only [if_neg hrange]
  rfl

theorem readContainer_numbered (kind : GroupKind) (number : Nat) :
    Command.readContainer (Pattern.numberedId kind number).toList =
      .ok (.named ⟨kind, Pattern.numberedId kind number⟩) := by
  have hname : Pattern.numberedId kind number = String.ofList
      (kind.letter.toList ++ Nat.toDigits 10 number) := by
    rw [← toList_numberedId, String.ofList_toList]
  obtain ⟨c, digits, hdigits⟩ : ∃ c digits, Nat.toDigits 10 number = c :: digits :=
    List.exists_cons_of_ne_nil Nat.toDigits_ne_nil
  rw [hname, String.toList_ofList, hdigits]
  cases kind <;> rfl

theorem readAddress_written (htrack : address.track < tracks)
    (hword : address.track < Command.indexLimit) (hname : address.container.IsNumbered) :
    Command.readAddress tracks address.written = .ok address := by
  obtain ⟨track, container⟩ := address
  have hnumber : ∀ tail : List Char, (∀ c ∈ tail.head?, c = '.') →
      (Nat.toDigits 10 (track + 1) ++ tail).takeWhile (· ≠ '.') = Nat.toDigits 10 (track + 1) := by
    intro tail htail
    refine takeWhile_append_of_head (fun c hc => ?_) fun c hc => ?_
    · have hdigit := isDigit_of_mem_toDigits hc
      rw [decide_eq_true_eq]
      rintro rfl
      exact absurd hdigit (by decide)
    · rw [htail c hc]
      decide
  cases hname with
  | root =>
    have hchars : (⟨track, .root⟩ : Address).written.toList = Nat.toDigits 10 (track + 1) ++ [] :=
      toList_written _
    simp only [Command.readAddress, hchars, hnumber [] nofun, readTrack_toDigits htrack hword,
      List.drop_left, ok_bind]
    rfl
  | named kind number =>
    have hchars :
        (⟨track, .named ⟨kind, Pattern.numberedId kind number⟩⟩ : Address).written.toList =
          Nat.toDigits 10 (track + 1) ++ '.' :: (Pattern.numberedId kind number).toList :=
      toList_written _
    have hdot : ∀ c ∈ ('.' :: (Pattern.numberedId kind number).toList).head?, c = '.' :=
      fun c hc => (Option.some.inj hc).symm
    simp only [Command.readAddress, hchars, hnumber _ hdot, readTrack_toDigits htrack hword,
      List.drop_left, ok_bind, readContainer_numbered]
    rfl

end Address

theorem Editor.checkItems_eq_ok {items : List Item}
    (h : ∀ steps, .pause steps ∈ items → steps.toNat ∈ restLengths) :
    checkItems items = .ok () := by
  induction items with
  | nil => rfl
  | cons item rest ih =>
    have hrest := ih fun steps hm => h steps (List.mem_cons_of_mem _ hm)
    cases item with
    | pad pad => exact hrest
    | call name => exact hrest
    | pause steps =>
      have hlength := h steps List.mem_cons_self
      have hsteps : IsPadLength steps := by
        simp only [restLengths, List.mem_cons, List.not_mem_nil, or_false] at hlength
        simp only [IsPadLength, stepLimit]
        omega
      rw [checkItems, checkSteps_eq_ok_iff.mpr hsteps]
      exact hrest

theorem storedPauses_eq_self {items : List Item}
    (h : ∀ steps, .pause steps ∈ items → steps.toNat ∈ restLengths) :
    storedPauses items = items := by
  have hstored : ∀ item ∈ items, item.stored = [item] := by
    intro item hm
    cases item with
    | pad pad => rfl
    | call name => rfl
    | pause steps => rw [Item.stored, if_pos (h steps hm)]
  rw [storedPauses, List.flatMap_congr hstored]
  exact List.flatMap_singleton' items

namespace Session

variable {s : Session} {command : Command} {line : String} {words : List String}

theorem enter_of_spaced (hline : line.toList = spaced (words.map String.toList))
    (hwords : ∀ word ∈ words, IsPlainWord word.toList) (hne : words ≠ [])
    (hmeta : line.toList.head? ≠ some ':')
    (hread : Command.ofWords s.editor.song.tracks.length words = .ok command) :
    s.enter line = (run command).run s := by
  have hplain : ∀ word ∈ words.map String.toList, IsPlainWord word :=
    List.forall_mem_map.mpr hwords
  have hsplit : Command.splitLine line.toList = [line.toList] := by
    rw [hline]
    exact splitLine_spaced hplain (by simpa using hne)
  have htrim : trim line.toList = line.toList := by
    rw [hline]
    exact trim_spaced hplain
  have hfirst : (trim line.toList).head? ≠ some ':' := by rwa [htrim]
  have hfound : words? (trim line.toList) = some (words.map String.toList) := by
    rw [htrim, hline, words?_spaced hplain]
  have hback : (words.map String.toList).map String.ofList = words := by
    simp [Function.comp_def]
  rw [← hback] at hread
  exact enter_of_command hsplit hfirst hfound hread

variable {t : Track} {address : Address} {items : List Item}

theorem run_showItems (ht : s.editor.song.tracks[address.track]? = some t)
    (hc : t.pattern.sequence? address.container = some items) :
    (run (.showItems address)).run s = (.ok (.text ("  " ++ writeSequence items)), s) := by
  have hquery : (query (·.track address.track)).run s = (.ok t, s) := by
    rw [run_query, Editor.track_eq_ok_iff.mpr ht]
    rfl
  rw [run, showItems, Action.run_bind_of_ok hquery, hc]
  rfl

theorem run_setItems (ht : s.editor.song.tracks[address.track]? = some t)
    (hc : t.pattern.sequence? address.container = some items)
    (hpauses : ∀ steps, .pause steps ∈ items → steps.toNat ∈ restLengths) :
    (run (.setItems address items)).run s = (.ok (.text (Display.unchanged "no change")), s) := by
  have hsame : t.pattern.setSequence? address.container (storedPauses items) = none := by
    rw [storedPauses_eq_self hpauses, Pattern.setSequence?, hc]
    exact if_pos rfl
  have hset : s.editor.setSequence address.track address.container items =
      .ok ⟨false, s.editor, []⟩ := by
    have htrack : s.editor.trackWith address.track address.container = .ok t :=
      Editor.trackWith_eq_ok_iff.mpr ⟨ht, by rw [hc, Option.isSome_some]⟩
    rw [Editor.setSequence, Editor.checkItems_eq_ok hpauses, ok_bind, Editor.edit_eq_map, htrack]
    simp only [Except.map, hsame]
  have hperform : (perform (·.setSequence address.track address.container items)).run s =
      (.ok false, s) := by
    rw [run_perform, hset]
    simp
  exact Action.run_bind_of_ok hperform

end Session

namespace Command

variable {address : Address} {tracks : Nat} {items : List Item}

theorem addressArgument_written (h : readAddress tracks address.written = .ok address)
    (arguments : List String) (usage : String) :
    addressArgument tracks (address.written :: arguments) usage = .ok address := by
  have hfirst : argument (address.written :: arguments) 0 usage = .ok address.written := rfl
  rw [addressArgument, hfirst, ok_bind, h]

theorem ofWords_show (h : readAddress tracks address.written = .ok address) :
    ofWords tracks ["seq", address.written] = .ok (.showItems address) := by
  have hseq : ofWords tracks ["seq", address.written] = readSequence tracks [address.written] := by
    rfl
  rw [hseq, readSequence, addressArgument_written h]
  rfl

theorem ofWords_set (h : readAddress tracks address.written = .ok address) (hne : items ≠ [])
    (hitems : ∀ item ∈ items, item.IsWritable) :
    ofWords tracks ("seq" :: address.written :: items.map Item.written) =
      .ok (.setItems address items) := by
  have hseq : ofWords tracks ("seq" :: address.written :: items.map Item.written) =
      readSequence tracks (address.written :: items.map Item.written) := by
    rfl
  have hparse := parseSequence_writeSequence hitems
  obtain ⟨item, rest, rfl⟩ := List.exists_cons_of_ne_nil hne
  rw [hseq, readSequence, addressArgument_written h, ok_bind]
  simp only [List.tail_cons, List.map_cons]
  rw [writeSequence, List.map_cons] at hparse
  rw [hparse]
  rfl

end Command

namespace Session

variable {s left : Session} {t : Track} {address : Address} {items : List Item}

theorem toList_seq (address : Address) :
    ("seq " ++ address.written).toList = spaced (["seq", address.written].map String.toList) := by
  rw [List.map_cons, List.map_singleton, spaced_cons_cons, spaced_singleton, String.toList_append]
  rfl

theorem toList_seq_items (address : Address) (hne : items ≠ []) :
    ("seq " ++ address.written ++ " " ++ writeSequence items).toList =
      spaced (("seq" :: address.written :: items.map Item.written).map String.toList) := by
  obtain ⟨item, rest, rfl⟩ := List.exists_cons_of_ne_nil hne
  have htext : (writeSequence (item :: rest)).toList =
      spaced (((item :: rest).map Item.written).map String.toList) := by
    rw [writeSequence, String.toList_intercalate]
    rfl
  simp only [String.toList_append, htext, List.map_cons, spaced_cons_cons, List.append_assoc]
  rfl

/-- The address of a container that is not empty is read as it, and the text that its sequence
is shown as can be typed back: nothing changes. The number of a track is a machine word, so no
song has a track beyond `indexLimit`. -/
theorem shown_sequence_types_back (h : s.editor.IsTyped)
    (ht : s.editor.song.tracks[address.track]? = some t)
    (hword : address.track < Command.indexLimit)
    (hc : t.pattern.sequence? address.container = some items) (hne : items ≠ []) :
    Command.readAddress s.editor.song.tracks.length address.written = .ok address ∧
      ∃ text, s.enter ("seq " ++ address.written) = (.ok (.text ("  " ++ text)), s) ∧
        s.enter ("seq " ++ address.written ++ " " ++ text) =
          (.ok (.text (Display.unchanged "no change")), s) := by
  have hheld : ∀ item ∈ items, s.editor.song.Holds item := fun item hm =>
    ⟨t, List.mem_of_getElem? ht, address.container, items, hc, hm⟩
  have hwritable : ∀ item ∈ items, item.IsWritable := fun item hm => h.isWritable (hheld item hm)
  have hpauses : ∀ steps, .pause steps ∈ items → steps.toNat ∈ restLengths := fun steps hm =>
    h.mem_restLengths (hheld _ hm)
  have hnumbered : address.container.IsNumbered := by
    cases hcontainer : address.container with
    | root => exact .root
    | named name =>
      have hnames : s.editor.song.Names name :=
        ⟨t, List.mem_of_getElem? ht, by rw [← hcontainer, hc, Option.isSome_some]⟩
      obtain ⟨kind, number, rfl⟩ := h.exists_number hnames
      exact .named kind number
  have hread : Command.readAddress s.editor.song.tracks.length address.written = .ok address :=
    Address.readAddress_written (List.getElem?_eq_some_iff.mp ht).1 hword hnumbered
  have hseq : IsPlainWord "seq".toList := ⟨by decide, List.all_eq_true.mp rfl⟩
  have haddress := Address.isPlainWord_written hnumbered
  refine ⟨hread, writeSequence items, ?_, ?_⟩
  · rw [enter_of_spaced (toList_seq address) ?_ (List.cons_ne_nil _ _) ?_
      (Command.ofWords_show hread), run_showItems ht hc]
    · exact List.forall_mem_cons.mpr ⟨hseq, List.forall_mem_singleton.mpr haddress⟩
    · simp
  · rw [enter_of_spaced (toList_seq_items address hne) ?_ (List.cons_ne_nil _ _) ?_
      (Command.ofWords_set hread hne hwritable), run_setItems ht hc hpauses]
    · refine List.forall_mem_cons.mpr ⟨hseq, List.forall_mem_cons.mpr ⟨haddress, ?_⟩⟩
      exact List.forall_mem_map.mpr fun item hm => Item.isPlainWord_written (hwritable item hm)
    · simp

/-- A pause of twelve steps is stored as two and shown as two. -/
theorem shown_sequence_types_back_as_stored :
    let s : Session := { editor := ({} : Editor).run [.addTrack "A",
      .edit 0 .root (.insert 0 (.pause 12))] }
    let t : Track := { name := "A", pattern.root := [.pause 8, .pause 4] }
    s.editor.IsTyped ∧ s.editor.song.tracks[0]? = some t ∧
      Command.readAddress s.editor.song.tracks.length (Address.written ⟨0, .root⟩) =
        .ok ⟨0, .root⟩ ∧
      ∃ text, s.enter ("seq " ++ Address.written ⟨0, .root⟩) = (.ok (.text ("  " ++ text)), s) ∧
        s.enter ("seq " ++ Address.written ⟨0, .root⟩ ++ " " ++ text) =
          (.ok (.text (Display.unchanged "no change")), s) := by
  intro s t
  let start : Session := {}
  let added : Session := { editor := ({} : Editor).run [.addTrack "A"] }
  have haddLine : Command.splitLine "track A".toList = ["track A".toList] := by decide
  have haddWords : words? (trim "track A".toList) = some ["track".toList, "A".toList] := by decide
  have haddRead : Command.ofWords start.editor.song.tracks.length ["track", "A"] =
      .ok (.addTrack "A") := by rfl
  have hadded : added.editor.IsTyped := isTyped_of_command (.start standardPadSteps) haddLine
    (by decide) haddWords haddRead nofun
  have hputLine : Command.splitLine "insert 1 0 ~12".toList = ["insert 1 0 ~12".toList] := by
    decide
  have hputWords : words? (trim "insert 1 0 ~12".toList) =
      some ["insert".toList, "1".toList, "0".toList, "~12".toList] := by decide
  have hputRead : Command.ofWords added.editor.song.tracks.length ["insert", "1", "0", "~12"] =
      .ok (.insert ⟨0, .root⟩ 0 (.pause 12)) := by rfl
  have htyped : s.editor.IsTyped := isTyped_of_command hadded hputLine (by decide) hputWords
    hputRead nofun
  have ht : s.editor.song.tracks[0]? = some t := by rfl
  have hc : t.pattern.sequence? .root = some [.pause 8, .pause 4] := rfl
  exact ⟨htyped, ht, shown_sequence_types_back htyped ht (by decide) hc (List.cons_ne_nil _ _)⟩

end Session

end Groovebox

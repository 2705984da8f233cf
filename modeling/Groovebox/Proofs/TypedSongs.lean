import Groovebox.Proofs.Commands
import Groovebox.Proofs.Contents
import Groovebox.Proofs.Notation

/-! Songs that are typed. Whatever lines are entered, an item comes into the song only through
the notation or in the making of a group, so that the notation has a form for every item there
is, and every name is a numbered one. -/

namespace Groovebox

open Text Groovebox.Action

namespace Command

/-- The notation has a form for the items that the command holds. -/
def IsWritable : Command → Prop
  | .setItems _ items => ∀ item ∈ items, item.IsWritable
  | .insert _ _ item => item.IsWritable
  | .replace _ _ item => item.IsWritable
  | _ => True

variable {tracks : Nat} {arguments words : List String}

theorem yields_readItem (word : String) : Yields Item.IsWritable (readItem word) :=
  fun _ h => isWritable_of_parseItem (eq_ok_of_mapError_eq_ok h)

theorem yields_readSequence : Yields IsWritable (readSequence tracks arguments) := by
  refine yields_bind fun address => ?_
  split
  · exact yields_pure trivial
  · have hread : Yields (∀ item ∈ ·, item.IsWritable)
        ((parseSequence (" ".intercalate arguments.tail)).mapError CommandError.items) :=
      fun _ h => isWritable_of_parseSequence (eq_ok_of_mapError_eq_ok h)
    exact hread.bind fun _ hitems => yields_pure hitems

theorem yields_readPlacing {usage : String} {make : Address → Nat → Item → Command}
    (hmake : ∀ address index item, item.IsWritable → (make address index item).IsWritable) :
    Yields IsWritable (readPlacing tracks arguments usage make) :=
  yields_bind fun address => yields_bind fun index => yields_bind fun word =>
    (yields_readItem word).bind fun item hitem => yields_pure (hmake address index item hitem)

theorem yields_readBpm : Yields IsWritable (readBpm arguments) :=
  yields_bind fun _ => yields_bind fun _ => yields_unless fun _ => yields_pure trivial

theorem yields_readName : Yields IsWritable (readName arguments) :=
  yields_bind fun _ => yields_unless fun _ => yields_pure trivial

theorem yields_readPad : Yields IsWritable (readPad tracks arguments) := by
  refine yields_bind fun _ => yields_bind fun _ => yields_bind fun _ => yields_bind fun _ => ?_
  refine yields_unless fun _ => ?_
  split
  · exact yields_pure trivial
  · split <;> exact yields_bind fun _ => yields_pure trivial

theorem yields_readPads : Yields IsWritable (readPads tracks arguments) :=
  yields_bind fun _ => yields_bind fun _ => yields_bind fun _ => yields_bind fun _ =>
    yields_pure trivial

theorem yields_readDelete : Yields IsWritable (readDelete tracks arguments) :=
  yields_bind fun _ => yields_bind fun _ => yields_unless fun _ => yields_pure trivial

theorem yields_readSelect : Yields IsWritable (readSelect tracks arguments) :=
  yields_bind fun _ => yields_unless fun _ => yields_pure trivial

theorem yields_readDeselect : Yields IsWritable (readDeselect tracks arguments) := by
  refine yields_bind fun _ => ?_
  split
  · exact yields_pure trivial
  · exact yields_bind fun _ => yields_pure trivial

theorem yields_readDrag : Yields IsWritable (readDrag tracks arguments) := by
  refine yields_bind fun _ => ?_
  split
  · exact yields_bind fun _ => yields_bind fun _ => yields_pure trivial
  · exact yields_bind fun _ => yields_pure trivial

theorem yields_readMove : Yields IsWritable (readMove tracks arguments) :=
  yields_bind fun _ => yields_bind fun _ => yields_bind fun _ => yields_bind fun _ =>
    yields_bind fun _ => yields_pure trivial

theorem yields_ofWords : Yields IsWritable (ofWords tracks words) := by
  unfold ofWords
  split
  · rintro _ ⟨⟩
    trivial
  · split
    · exact yields_pure trivial
    · exact yields_readBpm
    · exact yields_readName
    · exact yields_bind fun _ => yields_pure trivial
    · exact yields_pure trivial
    · exact yields_readPad
    · exact yields_readPads
    · exact yields_readSequence
    · exact yields_bind fun _ => yields_pure trivial
    · exact yields_readPlacing fun _ _ _ h => h
    · exact yields_readPlacing fun _ _ _ h => h
    · exact yields_readDelete
    · exact yields_bind fun _ => yields_bind fun _ => yields_bind fun _ => yields_pure trivial
    · exact yields_readSelect
    · exact yields_readDeselect
    · exact yields_bind fun _ => yields_pure trivial
    · exact yields_bind fun _ => yields_pure trivial
    · exact yields_bind fun _ => yields_pure trivial
    · exact yields_bind fun _ => yields_pure trivial
    · exact yields_readDrag
    · exact yields_pure trivial
    · exact yields_pure trivial
    · exact yields_readMove
    · dsimp only
      split
      · exact yields_pure trivial
      · exact yields_bind fun _ => yields_pure trivial
    · exact yields_bind fun _ => yields_pure trivial
    · exact yields_bind fun _ => yields_pure trivial
    · exact yields_bind fun _ => yields_pure trivial
    · exact yields_throw _

end Command

/-- The operation makes no other song, and the notation has a form for the items it gets. -/
def Operation.IsTyped : Operation → Prop
  | .replaceSong _ => False
  | .edit _ _ change => ∀ item ∈ change.typed, item.IsWritable
  | _ => True

theorem Command.Performs.isTyped {command : Command} {op : Operation} (h : command.Performs op)
    (hitems : command.IsWritable) (hload : ∀ path, command ≠ .load path) : op.IsTyped := by
  cases h with
  | setItems track container items => exact hitems
  | insert track container index item => exact List.forall_mem_singleton.mpr hitems
  | replace track container index item => exact List.forall_mem_singleton.mpr hitems
  | load path song => exact absurd rfl (hload path)
  | delete => exact List.forall_mem_nil _
  | moveItem => exact List.forall_mem_nil _
  | group => exact List.forall_mem_nil _
  | ungroup => exact List.forall_mem_nil _
  | cut => exact List.forall_mem_nil _
  | moveBlock => exact List.forall_mem_nil _
  | _ => trivial

variable {s left : Session} {text : List Char}

namespace Session

/-- When the texts are run one that opens a song is reached. -/
def Opens : Session → List (List Char) → Prop
  | _, [] => False
  | s, text :: rest =>
    (∃ path, s.Reads text (.load path)) ∨
      ∃ output left, (runText text).run s = (.ok output, left) ∧ output ≠ .quit ∧
        left.Opens rest

variable {texts : List (List Char)}

/-- The editor has gone through operations as they are typed. -/
def TypedTo (s left : Session) : Prop :=
  ∃ ops, (∀ op ∈ ops, op.IsTyped) ∧ left.editor = s.editor.run ops

theorem TypedTo.refl (s : Session) : s.TypedTo s := ⟨[], List.forall_mem_nil _, rfl⟩

theorem TypedTo.trans {next : Session} (h : s.TypedTo next) (hrest : next.TypedTo left) :
    s.TypedTo left := Editor.exists_run_trans h hrest

theorem typedTo_of_runText {result : Except CommandError Output}
    (h : (runText text).run s = (result, left)) (hopen : ∀ path, ¬s.Reads text (.load path)) :
    s.TypedTo left := by
  rcases runText_cases h with rfl | ⟨command, hread, hrun⟩
  · exact .refl left
  · obtain ⟨ops, hperforms, hleft⟩ := movesBy_run command s result left hrun
    have hload : ∀ path, command ≠ .load path := by
      rintro path rfl
      exact hopen path hread
    obtain ⟨words, -, hwords⟩ := hread
    have hitems : command.IsWritable := Command.yields_ofWords command hwords
    exact ⟨ops, fun op hop => (hperforms op hop).isTyped hitems hload, hleft⟩

theorem typedTo_of_runTexts {result : Except CommandError (Option (List String))}
    (h : (runTexts texts).run s = (result, left)) (hopen : ¬s.Opens texts) : s.TypedTo left := by
  induction texts generalizing s result with
  | nil =>
    obtain rfl := keeps_pure _ s result left h
    exact .refl left
  | cons text rest ih =>
    have hread : ∀ path, ¬s.Reads text (.load path) := fun path hpath =>
      hopen (.inl ⟨path, hpath⟩)
    rcases run_bind_cases h with ⟨fault, hfail, -⟩ | ⟨output, next, hok, hrest⟩
    · exact typedTo_of_runText hfail hread
    refine (typedTo_of_runText hok hread).trans ?_
    cases output with
    | quit =>
      -- The texts behind are not run, and may open a song.
      obtain rfl := keeps_pure _ next result left hrest
      exact .refl left
    | silence => exact ih hrest fun hlater => hopen (.inr ⟨_, next, hok, nofun, hlater⟩)
    | text shown =>
      obtain ⟨_, hrest⟩ := exists_run_of_bind_keeps (fun _ => keeps_pure _) hrest
      exact ih hrest fun hlater => hopen (.inr ⟨_, next, hok, nofun, hlater⟩)

theorem typedTo_enter {line : String} (hopen : ¬s.Opens (Command.splitLine line.toList)) :
    s.TypedTo (s.enter line).2 := by
  have hline : (runLine line).run s = ((s.enter line).1, (s.enter line).2) := rfl
  have hruns : ∃ result, (runTexts (Command.splitLine line.toList)).run s =
      (result, (s.enter line).2) := by
    refine exists_run_of_bind_keeps (fun shown => ?_) hline
    split <;> exact keeps_pure _
  obtain ⟨_, hrun⟩ := hruns
  exact typedTo_of_runTexts hrun hopen

end Session

namespace Editor

/-- Lines have made the editor out of an empty one, and none of them has opened a song. -/
inductive IsTyped : Editor → Prop
  | start (padSteps : UInt32) : IsTyped { padSteps }
  | enter {s : Session} (h : s.editor.IsTyped) (line : String)
      (hopen : ¬s.Opens (Command.splitLine line.toList)) : IsTyped (s.enter line).2.editor

theorem IsTyped.exists_run {e : Editor} (h : e.IsTyped) :
    ∃ padSteps ops, (∀ op ∈ ops, op.IsTyped) ∧ e = ({ padSteps } : Editor).run ops := by
  induction h with
  | start padSteps => exact ⟨padSteps, [], List.forall_mem_nil _, rfl⟩
  | enter h line hopen ih =>
    obtain ⟨padSteps, hbefore⟩ := ih
    exact ⟨padSteps, exists_run_trans hbefore (Session.typedTo_enter hopen)⟩

end Editor

namespace Session

variable {line : String} {words : List (List Char)} {command : Command}

theorem not_opens_singleton (hwords : words? (trim text) = some words)
    (hread : Command.ofWords s.editor.song.tracks.length (words.map String.ofList) = .ok command)
    (hload : ∀ path, command ≠ .load path) : ¬s.Opens [text] := by
  rintro (⟨path, others, hothers, hpath⟩ | ⟨_, _, -, -, hrest⟩)
  · obtain rfl := Option.some.inj (hwords.symm.trans hothers)
    exact hload path (Except.ok.inj (hread.symm.trans hpath))
  · exact hrest

theorem isTyped_of_command (h : s.editor.IsTyped)
    (hline : Command.splitLine line.toList = [text]) (hmeta : (trim text).head? ≠ some ':')
    (hwords : words? (trim text) = some words)
    (hread : Command.ofWords s.editor.song.tracks.length (words.map String.ofList) = .ok command)
    (hload : ∀ path, command ≠ .load path) : ((run command).run s).2.editor.IsTyped := by
  have hopen := not_opens_singleton hwords hread hload
  rw [← hline] at hopen
  rw [← enter_of_command hline hmeta hwords hread]
  exact .enter h line hopen

end Session

/-! What typed songs hold. -/

theorem isWritable_pause {steps : UInt32} (h : steps.toNat ∈ restLengths) :
    (Item.pause steps).IsWritable := by
  simp only [restLengths, List.mem_cons, List.not_mem_nil, or_false] at h
  rw [Item.IsWritable]
  omega

theorem isWritable_of_mem_stored {typed item : Item} (h : typed.IsWritable)
    (hm : item ∈ typed.stored) : item.IsWritable := by
  cases typed with
  | pad pad => exact List.mem_singleton.mp hm ▸ h
  | call name => exact List.mem_singleton.mp hm ▸ h
  | pause steps =>
    rw [Item.stored_pause] at hm
    obtain ⟨length, rfl, hrest⟩ := mem_restItems hm
    exact isWritable_pause hrest

theorem toList_numberedId (kind : GroupKind) (number : Nat) :
    (Pattern.numberedId kind number).toList = kind.letter.toList ++ Nat.toDigits 10 number := by
  rw [Pattern.numberedId, String.toList_append, Nat.toString_eq_repr, Nat.toList_repr]

theorem isWritable_numbered (kind : GroupKind) (number : Nat) :
    (Item.call ⟨kind, Pattern.numberedId kind number⟩).IsWritable := by
  constructor
  · intro hempty
    have hlength := congrArg (·.toList.length) hempty
    cases kind <;> simp [toList_numberedId, GroupKind.letter] at hlength
  · intro c hc
    rw [toList_numberedId, List.mem_append] at hc
    rcases hc with hletter | hdigit
    · cases kind with
      | group =>
        obtain rfl := List.mem_singleton.mp hletter
        decide
      | super =>
        obtain rfl := List.mem_singleton.mp hletter
        decide
    · exact Notation.isIdChar_of_isDigit (isDigit_of_mem_toDigits hdigit)

theorem Operation.Brings.isWritable {op : Operation} {item : Item} (h : op.Brings item)
    (htyped : op.IsTyped) : item.IsWritable := by
  cases h with
  | song hheld => exact htyped.elim
  | rest hrest => exact isWritable_pause hrest
  | edit track container hbrings =>
    cases hbrings with
    | typed hm =>
      obtain ⟨typed, hmem, hstored⟩ := List.mem_flatMap.mp hm
      exact isWritable_of_mem_stored (htyped typed hmem) hstored
    | rest first last target hrest => exact isWritable_pause hrest
    | call kind number => exact isWritable_numbered kind number

namespace Editor

variable {e : Editor} {item : Item} {name : GroupName}

theorem IsTyped.exists_brings (h : e.IsTyped) (hheld : e.song.Holds item) :
    ∃ op : Operation, op.IsTyped ∧ op.Brings item := by
  obtain ⟨padSteps, ops, hops, rfl⟩ := h.exists_run
  rcases holds_run hheld with ⟨t, ht, -⟩ | ⟨op, hop, hbrings⟩
  · cases ht
  · exact ⟨op, hops op hop, hbrings⟩

theorem IsTyped.isWritable (h : e.IsTyped) (hheld : e.song.Holds item) : item.IsWritable := by
  obtain ⟨op, htyped, hbrings⟩ := h.exists_brings hheld
  exact hbrings.isWritable htyped

theorem IsTyped.mem_restLengths (h : e.IsTyped) {steps : UInt32}
    (hheld : e.song.Holds (.pause steps)) : steps.toNat ∈ restLengths := by
  obtain ⟨op, htyped, hbrings⟩ := h.exists_brings hheld
  refine hbrings.mem_restLengths fun song hsong => ?_
  rw [hsong] at htyped
  exact htyped.elim

theorem IsTyped.exists_number (h : e.IsTyped) (hname : e.song.Names name) :
    ∃ kind number, name = ⟨kind, Pattern.numberedId kind number⟩ := by
  obtain ⟨padSteps, ops, hops, rfl⟩ := h.exists_run
  rcases names_run hname with ⟨t, ht, -⟩ | ⟨op, hop, hnames⟩
  · cases ht
  · cases hnames with
    | song hsong => exact (hops _ hop).elim
    | group track container kind number => exact ⟨kind, number, rfl⟩

end Editor

end Groovebox

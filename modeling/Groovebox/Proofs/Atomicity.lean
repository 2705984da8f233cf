import Groovebox.Proofs.InPlace

/-! An operation that fails has changed nothing, and one that edits a pattern says truthfully
whether it did. The steps of the operations in place are the ones that could break this: the
drag is let go of first, and whether anything changed is read off the snapshots handed on. -/

namespace Groovebox

namespace Editor

variable {e changed : Editor} {op : Operation} {answer : Answer} {track : Nat}

/-- The answer tells a change exactly when the pattern is another one. Without one the song and
the selections stay. -/
structure Tells (e : Editor) (track : Nat) (answer : Answer) (changed : Editor) : Prop where
  iff_ne : answer.tellsChange = true ↔ changed.pattern? track ≠ e.pattern? track
  keeps : answer.tellsChange = false → changed.song = e.song ∧ changed.selections = e.selections

theorem tells_same (hanswer : answer.tellsChange = false) (hsong : changed.song = e.song)
    (hselections : changed.selections = e.selections) : e.Tells track answer changed where
  iff_ne := by simp [hanswer, pattern?, hsong]
  keeps _ := ⟨hsong, hselections⟩

theorem tells_edited {t : Track} {p : Pattern} {container : Container} {drag : Option ActiveDrag}
    (hanswer : answer.tellsChange = true) (ht : e.song.tracks[track]? = some t)
    (hp : p ≠ t.pattern) :
    e.Tells track answer (({ e with drag } : Editor).edited track container p) where
  iff_ne := by
    have hold : e.pattern? track = some t.pattern := by simp [pattern?, ht]
    have hnew := pattern?_edited (e := { e with drag }) ht container p track
    rw [if_pos rfl] at hnew
    simp [hanswer, hold, hnew, hp]
  keeps hfalse := by simp [hanswer] at hfalse

theorem Effect.tells {key : SelectionKey} (h : e.Effect op answer changed)
    (hkey : e.target? op = some key) : e.Tells key.track answer changed := by
  cases h with
  | kept =>
    exact tells_same (ContainerEdit.tellsChange_answer _ _ _) rfl rfl
  | edited _ ht hp =>
    obtain rfl := Option.some.inj hkey
    exact tells_edited (ContainerEdit.tellsChange_answer _ _ _) (trackWith_eq_ok_iff.mp ht).1
      (Pattern.result?_ne_self hp)
  | rejected => exact tells_same rfl rfl rfl
  | dropped hdrag ht hp =>
    obtain rfl : _ = key := by simpa [target?, hdrag] using hkey
    obtain ⟨items, hset⟩ := Drag.exists_setSequence?_of_drop? hp
    exact tells_edited rfl ht (Pattern.setSequence?_ne_self hset)
  | _ => exact absurd hkey nofun

/-- In place every operation comes to the end that it is to have. One that fails leaves the
editor with its drag and all selections untouched. One that edits a pattern answers that it
did exactly when the pattern is another one, and otherwise keeps song and selections. -/
theorem inPlace_atomic_and_truthful (h : e.Reachable) (op : Operation) :
    op.inPlace.run e = e.settle (e.execute op) ∧
      (∀ fault left, op.inPlace.run e = .error fault left → left = e) ∧
      ∀ answer left, op.inPlace.run e = .ok answer left →
        ∀ key, e.target? op = some key →
          (answer.tellsChange = true ↔ left.pattern? key.track ≠ e.pattern? key.track) ∧
            (answer.tellsChange = false →
              left.song = e.song ∧ left.selections = e.selections) := by
  have hrun := op.run_inPlace h.isAnchored
  refine ⟨hrun, fun fault left hleft => ?_, fun answer left hleft key hkey => ?_⟩
  · rw [hrun] at hleft
    cases hexecute : e.execute op with
    | error fault =>
      rw [hexecute] at hleft
      exact (EStateM.Result.error.inj hleft).2.symm
    | ok done =>
      rw [hexecute] at hleft
      cases hleft
  · rw [hrun] at hleft
    cases hexecute : e.execute op with
    | error fault =>
      rw [hexecute] at hleft
      cases hleft
    | ok done =>
      rw [hexecute] at hleft
      obtain ⟨rfl, rfl⟩ := EStateM.Result.ok.inj hleft
      have htells := (effect_of_execute hexecute).tells hkey
      exact ⟨htells.iff_ne, htells.keeps⟩

/-- A drop that moves a pad, and a pause without length that is refused during the drag. -/
theorem inPlace_atomic_and_truthful_in_drag :
    ∃ e : Editor, e.Reachable ∧ e.drag.isSome = true ∧
      (∃ left, Operation.dropDrag.inPlace.run e = .ok (.changed true) left ∧
        left.pattern? 0 ≠ e.pattern? 0) ∧
      ∃ left, (Operation.edit 0 .root (.insert 0 (.pause 0))).inPlace.run e =
        .error .zeroLength left ∧ left = e := by
  obtain ⟨e, hreach, hdrag, htarget, ⟨dropped, hdrop⟩, refused, hrefuse⟩ :
      ∃ e : Editor, e.Reachable ∧ e.drag.isSome = true ∧ e.target? .dropDrag = some ⟨0, .root⟩ ∧
        (∃ left, Operation.dropDrag.inPlace.run e = .ok (.changed true) left) ∧
        ∃ left, (Operation.edit 0 .root (.insert 0 (.pause 0))).inPlace.run e =
          .error .zeroLength left :=
    ⟨({} : Editor).run [.addTrack "kick", .edit 0 .root (.setSequence [.pad 0, .pad 1]),
        .select 0 .root 0 0, .beginDrag 0 .root, .hover 16],
      ⟨{}, _, _, rfl⟩, by decide, by decide, ⟨_, rfl⟩, _, rfl⟩
  obtain ⟨-, -, htells⟩ := inPlace_atomic_and_truthful hreach .dropDrag
  obtain ⟨-, hkeeps, -⟩ :=
    inPlace_atomic_and_truthful hreach (.edit 0 .root (.insert 0 (.pause 0)))
  refine ⟨e, hreach, hdrag, ⟨dropped, hdrop, ?_⟩, refused, hrefuse, hkeeps _ _ hrefuse⟩
  exact (htells _ _ hdrop _ htarget).1.mp rfl

end Editor

end Groovebox

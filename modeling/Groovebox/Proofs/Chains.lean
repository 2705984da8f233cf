import Mathlib.Data.List.TakeWhile
import Groovebox.Proofs.Joined
import Groovebox.Proofs.Unlogged
import Groovebox.Script

/-! Commands in one line, one after another, and as a script. All three go through the
commands in order and stop at the first that fails or quits. What lies behind that command is
not looked at. A script goes past comments, which as commands do nothing, and takes the log
after each line. -/

namespace Groovebox

open Text Groovebox.Action

inductive Ending where
  | done
  | quit
  | failed (fault : CommandError)

def Ending.of : Except CommandError Output → Ending
  | .error fault => .failed fault
  | .ok .quit => .quit
  | .ok _ => .done

theorem Ending.of_error_ne_done (fault : CommandError) : Ending.of (.error fault) ≠ .done :=
  fun h => Ending.noConfusion h

theorem Ending.of_quit_ne_done : Ending.of (.ok .quit) ≠ .done := fun h => Ending.noConfusion h

/-- Where entering commands stopped: `passed` of them neither failed nor quit. -/
structure Stop where
  passed : Nat
  ending : Ending
  session : Session

/-- What a script says of a stop on account of a fault. -/
def Stop.fault? (stop : Stop) (number : Nat) (commands : List String) : Option ScriptFault :=
  match stop.ending with
  | .failed fault =>
    commands[stop.passed]?.map fun command =>
      ⟨number + stop.passed, String.ofList (trim command.toList), fault⟩
  | _ => none

namespace Session

/-- Enter the commands in turn, up to the first that fails or quits. -/
def enterEach (s : Session) : List String → Stop
  | [] => ⟨0, .done, s⟩
  | command :: rest =>
    match Ending.of (s.enter command).1 with
    | .done =>
      let more := (s.enter command).2.enterEach rest
      { more with passed := more.passed + 1 }
    | ending => ⟨0, ending, (s.enter command).2⟩

/-- In one line, one after another and as a script the commands stop in the same way, and leave
the same editor and folder. -/
structure StopsAt (s : Session) (commands : List String) (stop : Stop) : Prop where
  each : s.enterEach commands = stop
  line_ending : Ending.of (s.enter (";".intercalate commands)).1 = stop.ending
  line_session : (s.enter (";".intercalate commands)).2 = stop.session
  script_fault : (Script.run s ("\n".intercalate commands)).fault = stop.fault? 1 commands
  script_session : (Script.run s ("\n".intercalate commands)).session.Agrees stop.session

variable {s next : Session} {command : String} {commands : List String}
  {result : Except CommandError Output}

theorem enterEach_cons_of_done (henter : s.enter command = (result, next))
    (h : Ending.of result = .done) (rest : List String) :
    s.enterEach (command :: rest) =
      { next.enterEach rest with passed := (next.enterEach rest).passed + 1 } := by
  rw [enterEach, henter, h]

theorem enterEach_cons_of_ne (henter : s.enter command = (result, next))
    (h : Ending.of result ≠ .done) (rest : List String) :
    s.enterEach (command :: rest) = ⟨0, Ending.of result, next⟩ := by
  rw [enterEach, henter]
  split
  · next heq => exact absurd heq h
  · rfl

theorem passed_enterEach_of_done (h : (s.enterEach commands).ending = .done) :
    (s.enterEach commands).passed = commands.length := by
  induction commands generalizing s with
  | nil => rfl
  | cons command rest ih =>
    rcases henter : s.enter command with ⟨result, next⟩
    by_cases hdone : Ending.of result = .done
    · rw [enterEach_cons_of_done henter hdone] at h ⊢
      exact congrArg (· + 1) (ih h)
    · rw [enterEach_cons_of_ne henter hdone] at h
      exact absurd h hdone

theorem passed_enterEach_lt (h : (s.enterEach commands).ending ≠ .done) :
    (s.enterEach commands).passed < commands.length := by
  induction commands generalizing s with
  | nil => exact absurd rfl h
  | cons command rest ih =>
    rcases henter : s.enter command with ⟨result, next⟩
    by_cases hdone : Ending.of result = .done
    · rw [enterEach_cons_of_done henter hdone] at h ⊢
      exact Nat.succ_lt_succ (ih h)
    · rw [enterEach_cons_of_ne henter hdone]
      exact Nat.succ_pos _

/-- What lies behind the command at which entering stops is not looked at. -/
theorem enterEach_take_append (h : (s.enterEach commands).ending ≠ .done)
    (unread : List String) :
    s.enterEach (commands.take ((s.enterEach commands).passed + 1) ++ unread) =
      s.enterEach commands := by
  induction commands generalizing s with
  | nil => exact absurd rfl h
  | cons command rest ih =>
    rcases henter : s.enter command with ⟨result, next⟩
    by_cases hdone : Ending.of result = .done
    · rw [enterEach_cons_of_done henter hdone] at h ⊢
      rw [List.take_succ_cons, List.cons_append, enterEach_cons_of_done henter hdone, ih h]
    · rw [enterEach_cons_of_ne henter hdone, List.take_succ_cons, List.cons_append,
        enterEach_cons_of_ne henter hdone]

/-- The commands in front of the one at which entering stops run to their end. -/
theorem enterEach_take {count : Nat} (h : count ≤ (s.enterEach commands).passed) :
    s.enterEach (commands.take count) =
      ⟨count, .done, (s.enterEach (commands.take count)).session⟩ := by
  induction commands generalizing s count with
  | nil =>
    obtain rfl : count = 0 := Nat.le_zero.mp h
    rfl
  | cons command rest ih =>
    cases count with
    | zero => rfl
    | succ count =>
      rcases henter : s.enter command with ⟨result, next⟩
      by_cases hdone : Ending.of result = .done
      · rw [enterEach_cons_of_done henter hdone] at h
        rw [List.take_succ_cons, enterEach_cons_of_done henter hdone,
          ih (Nat.le_of_succ_le_succ h)]
      · rw [enterEach_cons_of_ne henter hdone] at h
        exact absurd h (Nat.not_succ_le_zero count)

/-! One line. -/

def endingOfTexts : Except CommandError (Option (List String)) → Ending
  | .error fault => .failed fault
  | .ok none => .quit
  | .ok (some _) => .done

theorem enter_of_isCommand (h : IsCommand command.toList) (s : Session) :
    s.enter command = (runText command.toList).run s :=
  enter_of_splitLine h.splitLine_eq

/-- What the commands say is collected on the way, and left out when one of them quits. -/
theorem runTexts_eq_enterEach (h : ∀ command ∈ commands, IsCommand command.toList)
    (s : Session) :
    endingOfTexts ((runTexts (commands.map String.toList)).run s).1 =
        (s.enterEach commands).ending ∧
      ((runTexts (commands.map String.toList)).run s).2 = (s.enterEach commands).session := by
  induction commands generalizing s with
  | nil => exact ⟨rfl, rfl⟩
  | cons command rest ih =>
    obtain ⟨hcommand, hrest⟩ := List.forall_mem_cons.mp h
    rw [List.map_cons, runTexts, run_bind, ← enter_of_isCommand hcommand s]
    rcases henter : s.enter command with ⟨fault | output, next⟩
    · rw [enterEach_cons_of_ne henter (Ending.of_error_ne_done fault)]
      exact ⟨rfl, rfl⟩
    · cases output with
      | quit =>
        rw [enterEach_cons_of_ne henter Ending.of_quit_ne_done]
        exact ⟨rfl, rfl⟩
      | silence =>
        rw [enterEach_cons_of_done henter rfl]
        exact ih hrest next
      | text shown =>
        obtain ⟨hending, hsession⟩ := ih hrest next
        rw [enterEach_cons_of_done henter rfl]
        dsimp only
        rw [run_bind]
        rcases hmore : (runTexts (rest.map String.toList)).run next with ⟨fault | more, last⟩
        · rw [hmore] at hending hsession
          exact ⟨hending, hsession⟩
        · rw [hmore] at hending hsession
          refine ⟨?_, hsession⟩
          rw [← hending]
          cases more <;> rfl

theorem line_eq_enterEach (h : ∀ command ∈ commands, IsCommand command.toList) (s : Session) :
    Ending.of (s.enter (";".intercalate commands)).1 = (s.enterEach commands).ending ∧
      (s.enter (";".intercalate commands)).2 = (s.enterEach commands).session := by
  have hcut : Command.splitLine (";".intercalate commands).toList = commands.map String.toList := by
    rw [String.toList_intercalate]
    exact splitLine_intercalate (List.forall_mem_map.mpr h)
  obtain ⟨hending, hsession⟩ := runTexts_eq_enterEach h s
  rw [enter, runLine, hcut, run_bind, ← hending, ← hsession]
  rcases (runTexts (commands.map String.toList)).run s with ⟨fault | shown, last⟩
  · exact ⟨rfl, rfl⟩
  · rcases shown with - | - | ⟨first, more⟩ <;> exact ⟨rfl, rfl⟩

/-! A script. -/

theorem fault?_passed_succ (stop : Stop) (number : Nat) (command : String)
    (commands : List String) :
    Stop.fault? { stop with passed := stop.passed + 1 } number (command :: commands) =
      stop.fault? (number + 1) commands := by
  have hnumber : number + (stop.passed + 1) = number + 1 + stop.passed := by omega
  simp only [Stop.fault?, List.getElem?_cons_succ, hnumber]

theorem exists_trimStart_of_isIdle {text : List Char} (hblank : text.all isBlank = false)
    (hidle : Script.isIdle text) : ∃ more, trimStart text = '#' :: more := by
  cases hstart : trimStart text with
  | nil =>
    have hall : text.all isBlank = true :=
      List.all_eq_true.mpr (List.dropWhile_eq_nil_iff.mp hstart)
    exact absurd (hblank.symm.trans hall) Bool.false_ne_true
  | cons c more =>
    rw [Script.isIdle, hstart] at hidle
    exact ⟨more, by rw [of_decide_eq_true hidle]⟩

/-- A line that a script goes past does nothing as a command. -/
theorem enter_of_isIdle (h : IsCommand command.toList) (hidle : Script.isIdle command.toList)
    (s : Session) : s.enter command = (.ok .silence, s) := by
  obtain ⟨more, hstart⟩ := exists_trimStart_of_isIdle h.not_blank hidle
  have htrim : trim command.toList = '#' :: trimEnd more := by
    rw [trim, hstart, trimEnd_cons (by decide)]
  have hline : ∀ c ∈ trimEnd more, c ≠ '\n' := by
    intro c hc
    have hmem : c ∈ trimStart command.toList := by
      rw [hstart]
      exact List.mem_cons_of_mem _ (trimEnd_subset more hc)
    exact (h.one_line c ((List.dropWhile_sublist isBlank).subset hmem)).1
  have hwords : words? (trim command.toList) = some [] := by
    rw [htrim]
    exact wordsFrom_comment hline []
  have hmeta : (trim command.toList).head? ≠ some ':' := by
    rw [htrim]
    exact fun heq => absurd (Option.some.inj heq) (by decide)
  rw [enter_of_isCommand h, runText_of_words hmeta hwords]
  rfl

theorem runFrom_eq_enterEach (h : ∀ command ∈ commands, IsCommand command.toList)
    {s t : Session} (hagrees : t.Agrees s) (number : Nat) :
    (Script.runFrom number t (commands.map String.toList)).fault =
        (s.enterEach commands).fault? number commands ∧
      (Script.runFrom number t (commands.map String.toList)).session.Agrees
        (s.enterEach commands).session := by
  induction commands generalizing s t number with
  | nil => exact ⟨rfl, hagrees⟩
  | cons command rest ih =>
    obtain ⟨hcommand, hrest⟩ := List.forall_mem_cons.mp h
    rw [List.map_cons, Script.runFrom]
    by_cases hidle : Script.isIdle command.toList
    · have henter := enter_of_isIdle hcommand hidle s
      rw [if_pos hidle, enterEach_cons_of_done henter rfl, fault?_passed_succ]
      exact ih hrest hagrees (number + 1)
    · -- The script has taken the log, which the commands one after another have piled up.
      obtain ⟨hresult, hnext⟩ := ignoresLog_runLine command t s hagrees
      rw [if_neg hidle, String.ofList_toList]
      rcases ht : t.enter command with ⟨outcome, after⟩
      rcases hs : s.enter command with ⟨result, next⟩
      rw [show (runLine command).run t = _ from ht, show (runLine command).run s = _ from hs]
        at hresult hnext
      obtain rfl : outcome = result := hresult
      have hafter : after.takeLog.2.Agrees next := (agrees_takeLog after).trans hnext
      rcases outcome with fault | output
      · rw [enterEach_cons_of_ne hs (Ending.of_error_ne_done fault)]
        exact ⟨rfl, hafter⟩
      cases output with
      | quit =>
        rw [enterEach_cons_of_ne hs Ending.of_quit_ne_done]
        exact ⟨rfl, hafter⟩
      | silence =>
        rw [enterEach_cons_of_done hs rfl, fault?_passed_succ]
        exact ih hrest hafter (number + 1)
      | text shown =>
        rw [enterEach_cons_of_done hs rfl, fault?_passed_succ]
        exact ih hrest hafter (number + 1)

theorem script_eq_enterEach (h : ∀ command ∈ commands, IsCommand command.toList) (s : Session) :
    (Script.run s ("\n".intercalate commands)).fault = (s.enterEach commands).fault? 1 commands ∧
      (Script.run s ("\n".intercalate commands)).session.Agrees
        (s.enterEach commands).session := by
  have hlines : lines ("\n".intercalate commands).toList = commands.map String.toList := by
    rw [String.toList_intercalate]
    exact lines_intercalate (List.forall_mem_map.mpr h)
  rw [Script.run, hlines]
  exact runFrom_eq_enterEach h (.refl s) 1

theorem stopsAt_enterEach (h : ∀ command ∈ commands, IsCommand command.toList) (s : Session) :
    s.StopsAt commands (s.enterEach commands) where
  each := rfl
  line_ending := (line_eq_enterEach h s).1
  line_session := (line_eq_enterEach h s).2
  script_fault := (script_eq_enterEach h s).1
  script_session := (script_eq_enterEach h s).2

/-- In one line, one after another and as a script commands stop at the same one in the same
way, and leave the same editor and folder: all fronts of those that pass run to their end, and
what lies behind the one at which they stop is not looked at. -/
theorem line_each_and_script_agree (s : Session) {commands : List String}
    (h : ∀ command ∈ commands, IsCommand command.toList) :
    let stop := s.enterEach commands
    s.StopsAt commands stop ∧
      (∀ count ≤ stop.passed, ∃ last, s.StopsAt (commands.take count) ⟨count, .done, last⟩) ∧
      (stop.ending = .done → stop.passed = commands.length) ∧
      (stop.ending ≠ .done → stop.passed < commands.length ∧
        ∀ unread : List String, (∀ command ∈ unread, IsCommand command.toList) →
          s.StopsAt (commands.take (stop.passed + 1) ++ unread) stop) := by
  intro stop
  refine ⟨stopsAt_enterEach h s, fun count hcount => ?_, passed_enterEach_of_done,
    fun hstop => ⟨passed_enterEach_lt hstop, fun unread hunread => ?_⟩⟩
  · have hfront : ∀ command ∈ commands.take count, IsCommand command.toList :=
      fun command hm => h command (List.mem_of_mem_take hm)
    exact ⟨_, enterEach_take hcount ▸ stopsAt_enterEach hfront s⟩
  · have hfront : ∀ command ∈ commands.take (stop.passed + 1) ++ unread,
        IsCommand command.toList := by
      intro command hm
      rcases List.mem_append.mp hm with hm | hm
      · exact h command (List.mem_of_mem_take hm)
      · exact hunread command hm
    have hstops := stopsAt_enterEach hfront s
    rwa [enterEach_take_append hstop] at hstops

/-- The semicolon within quotes cuts no line, and what lies behind the end is not read. -/
theorem line_each_and_script_agree_at_quit :
    let s : Session := {}
    let commands := ["track \"a;b\"", ":q", "bpm 0"]
    (∀ command ∈ commands, IsCommand command.toList) ∧
      ∃ stop, stop.passed = 1 ∧ stop.ending = .quit ∧ s.StopsAt commands stop ∧
        s.StopsAt ["track \"a;b\"", ":q", "list"] stop := by
  intro s commands
  have hname : IsCommand "track \"a;b\"".toList := by decide
  have hquit : IsCommand ":q".toList := by decide
  have htempo : IsCommand "bpm 0".toList := by decide
  have hlist : IsCommand "list".toList := by decide
  have hcommands : ∀ command ∈ commands, IsCommand command.toList :=
    List.forall_mem_cons.mpr ⟨hname, List.forall_mem_cons.mpr ⟨hquit,
      List.forall_mem_singleton.mpr htempo⟩⟩
  have hmeta : (trim "track \"a;b\"".toList).head? ≠ some ':' := by decide
  have hwords : words? (trim "track \"a;b\"".toList) = some ["track".toList, "a;b".toList] := by
    decide
  have hread : Command.ofWords s.editor.song.tracks.length ["track", "a;b"] =
      .ok (.addTrack "a;b") := by rfl
  have hquits : ∀ next : Session, next.enter ":q" = (.ok .quit, next) := by
    intro next
    rw [enter_of_isCommand hquit]
    rfl
  obtain ⟨shown, next, hadds⟩ : ∃ shown next,
      s.enter "track \"a;b\"" = (.ok (.text shown), next) := by
    rw [enter_of_command hname.splitLine_eq hmeta hwords hread]
    exact ⟨_, _, rfl⟩
  have hstop : s.enterEach commands = ⟨1, .quit, next⟩ := by
    rw [enterEach_cons_of_done hadds rfl,
      enterEach_cons_of_ne (hquits next) Ending.of_quit_ne_done]
    rfl
  obtain ⟨hstops, -, -, hbehind⟩ := line_each_and_script_agree s hcommands
  rw [hstop] at hstops hbehind
  exact ⟨hcommands, _, rfl, rfl, hstops,
    (hbehind fun h => Ending.noConfusion h).2 ["list"] (List.forall_mem_singleton.mpr hlist)⟩

end Session

end Groovebox

import Lox.Proofs.Run.Output
import Lox.Proofs.Scope.Joining
import Lox.Proofs.Session.Soundness
import Lox.Proofs.Token.Joining
import Lox.Proofs.Token.Lines

/-!
Running a text line by line or as a whole. Two texts that a session takes one after the other come to what the
session makes of them with a line feed between: the stages before execution give the one program after the
other, with the same places and distances, and execution goes from the one to the other with nothing but the
output in between.
-/
namespace Lox

namespace Table

variable {α : Type}

/-- Of two values set for a name the second one stays, in the place of the first. -/
theorem set_set (table : Table α) (name : String) (first second : α) :
    (table.set name first).set name second = table.set name second := by
  obtain ⟨entries⟩ := table
  simp only [set, mk.injEq]
  induction entries with
  | nil => simp [setIn]
  | cons entry rest ih =>
    obtain ⟨key, old⟩ := entry
    by_cases same : key = name
    · simp [setIn, same]
    · simp [setIn, same, ih]

end Table

/-- A line feed between two texts separates their lines. -/
theorem Text.feedsFrom_joined (piece first second : List Char) :
    Text.feedsFrom piece (first ++ '\n' :: second) = Text.feedsFrom piece first ++ Text.feedsFrom [] second := by
  induction first generalizing piece with
  | nil => rfl
  | cons char rest ih =>
    by_cases feed : char = '\n'
    · subst feed
      rw [List.cons_append, Text.feedsFrom, Text.feedsFrom, ih, List.cons_append]
    · rw [List.cons_append, feedsFrom_of_ne feed, feedsFrom_of_ne feed, ih]

theorem Text.toList_joined (first second : String) :
    (first ++ "\n" ++ second).toList = first.toList ++ '\n' :: second.toList := by simp

namespace Report.Sources

theorem add_joined (sources : Sources) (path first second : String) :
    sources.add path (first ++ "\n" ++ second) = (sources.add path first).add path second := by
  simp only [add, Table.set_set, Table.get?_set_self, Option.getD_some, Text.splitAtFeeds, Text.toList_joined,
    Text.feedsFrom_joined, List.append_assoc]

end Report.Sources

namespace Session

open Report

variable {session : Session} {first second : String}

/-- A text that is executed was accepted. -/
theorem exists_accepted? {text : String} {outcome : Outcome} (executes : session.dump = none)
    (ended : (session.run text).1.result = .ok outcome) (ran : outcome ≠ .staticError) :
    ∃ program, session.accepted? text = some program := by
  cases accepted : session.accepted? text with
  | some program => exact ⟨program, rfl⟩
  | none =>
    rcases (run_of_rejected executes accepted).2 with refused | refused
    · rw [refused, Except.ok.injEq] at ended
      exact absurd ended.symm ran
    · rw [refused] at ended
      cases ended

/-- What an execution without an error comes to. -/
theorem execute_of_ok {program : BoundProgram} (ended : (session.execute program).1.result = .ok .ok) :
    ∃ after, Run.program .byDistance runLimits program session.machine = .ok () after ∧
      session.execute program = ({ result := .ok .ok, output := after.output },
        { session with machine := { after with output := "" } }) := by
  unfold execute at ended ⊢
  cases outcome : Run.program .byDistance runLimits program session.machine with
  | ok value after => exact ⟨after, rfl, rfl⟩
  | error halt after =>
    rw [outcome] at ended
    cases halt <;> cases ended

/-- A program in two parts, of which the first one comes to its end. -/
theorem execute_append {first : BoundProgram} (ended : (session.execute first).1.result = .ok .ok)
    (second : BoundProgram) :
    session.execute (first ++ second) =
      ({ ((session.execute first).2.execute second).1 with
          output := (session.execute first).1.output ++ ((session.execute first).2.execute second).1.output },
        ((session.execute first).2.execute second).2) := by
  obtain ⟨machine, ran, same⟩ := execute_of_ok ended
  have between : machine = ({ machine with output := "" } : Machine).printed machine.output := by
    simp [Machine.printed]
  have whole : Run.program .byDistance runLimits (first ++ second) session.machine =
      Run.shift machine.output (Run.program .byDistance runLimits second { machine with output := "" }) := by
    rw [Run.program_append, ← Run.oblivious_program, ← between]
    simp only [Bind.bind, EStateM.bind, ran]
  rw [same]
  simp only [execute, whole]
  cases Run.program .byDistance runLimits second { machine with output := "" } with
  | ok value last => rfl
  | error halt last => cases halt <;> rfl

/-- After a program without an error the globals are those from before and those that it declares. -/
theorem mem_globalNames_execute {program : BoundProgram} (sound : session.Sound)
    (safe : Stmt.SafeAll false [] program) (ended : (session.execute program).1.result = .ok .ok) (name : String) :
    name ∈ (session.execute program).2.globalNames ↔
      name ∈ session.globalNames ∨ name ∈ program.flatMap Stmt.declared := by
  obtain ⟨after, ran, same⟩ := execute_of_ok ended
  have moved := ((sound.goes_program safe runLimits).of_ok ran).1
  simp only [globalNames, Table.mem_names_iff, same]
  exact moved.globals name

/-- Two texts of which the second one is accepted after the first one has been run are accepted as one. -/
theorem accepted?_joined {program program' : BoundProgram} (sound : session.Sound) (executes : session.dump = none)
    (accepted : session.accepted? first = some program) (ended : (session.run first).1.result = .ok .ok)
    (accepted' : (session.run first).2.accepted? second = some program') :
    session.accepted? (first ++ "\n" ++ second) = some (program ++ program') := by
  have safe := safe_of_accepted? accepted
  rw [run_of_accepted? executes accepted] at ended accepted'
  have globals := mem_globalNames_execute (sound.take _ _) safe ended
  have line : ((session.take first (Scan.ofText first.toList session.line)).execute program).2.line =
      (Scan.ofText first.toList session.line).finish.line + 1 := by
    obtain ⟨after, _, same⟩ := execute_of_ok ended
    rw [same]
    rfl
  obtain ⟨parsed, read, scanned, clean, bound, rfl⟩ := accepted?_eq_some_iff.mp accepted
  obtain ⟨parsed', read', scanned', clean', bound', rfl⟩ := accepted?_eq_some_iff.mp accepted'
  rw [line] at read' scanned'
  simp only [Program.declared_bind] at globals
  have joined := Program.bind_append bound globals parsed'.program
  refine accepted?_eq_some_iff.mpr ⟨⟨parsed.program ++ parsed'.program, []⟩, ?_, ?_, rfl, ?_, ?_⟩
  · rw [Text.toList_joined, Scan.ofText_joined scanned]
    exact Parsed.within?_append read clean read' clean'
  · rw [Text.toList_joined, Scan.ofText_joined scanned]
    exact scanned'
  · rw [joined]
    exact bound'
  · rw [joined]

/-- A session that takes two texts one after the other takes them as it does as one. -/
theorem take_joined (clean : (Scan.ofText first.toList session.line).faults = []) (second : String) (after : Machine) :
    let earlier := session.take first (Scan.ofText first.toList session.line)
    { session.take (first ++ "\n" ++ second)
        (Scan.ofText (first ++ "\n" ++ second).toList session.line) with machine := after } =
      ({ earlier with machine := after } : Session).take second (Scan.ofText second.toList earlier.line) := by
  simp only [take, Text.toList_joined, Scan.ofText_joined clean]
  split
  · rw [Sources.add_joined]
  · rfl

/-- Line by line or as a whole. If a session runs a text without an error, and after that another one, then
with a line feed between them it runs both as one text: with the outcome of the second run, the output of
both, and the problems of the second one, which are the same down to their places. The session is then the
same in all respects: its line number, its globals with their order and values, and the texts that it quotes. -/
theorem run_joined (session : Session) (first second : String) (reachable : session.Reachable)
    (executes : session.dump = none) (ended : (session.run first).1.result = .ok .ok)
    (ended' : ((session.run first).2.run second).1.result = .ok .ok ∨
      ((session.run first).2.run second).1.result = .ok .runtimeError) :
    let earlier := session.run first
    let later := earlier.2.run second
    let whole := session.run (first ++ "\n" ++ second)
    whole.1.result = later.1.result ∧ whole.1.output = earlier.1.output ++ later.1.output ∧
      whole.1.problems = later.1.problems ∧ whole.2 = later.2 := by
  obtain ⟨program, accepted⟩ := exists_accepted? executes ended (by decide)
  have ran := run_of_accepted? executes accepted
  rw [ran] at ended
  obtain ⟨after, ending, same⟩ := execute_of_ok ended
  rw [same] at ran
  -- The second text, in the session that the first one leaves.
  have executes' : (session.run first).2.dump = none := by
    rw [ran]
    exact executes
  obtain ⟨program', accepted'⟩ : ∃ program', (session.run first).2.accepted? second = some program' := by
    rcases ended' with ended' | ended'
    · exact exists_accepted? executes' ended' (by decide)
    · exact exists_accepted? executes' ended' (by decide)
  have ran' := run_of_accepted? executes' accepted'
  -- Both texts at once: up to the joint the machine goes the same way.
  have joined := accepted?_joined reachable.sound executes accepted (by rw [ran]) accepted'
  obtain ⟨_, _, scanned, _⟩ := accepted?_eq_some_iff.mp accepted
  have half : (session.take (first ++ "\n" ++ second)
        (Scan.ofText (first ++ "\n" ++ second).toList session.line)).execute program =
      ({ result := .ok .ok, output := after.output }, (session.run first).2.take second
        (Scan.ofText second.toList (session.run first).2.line)) := by
    rw [ran]
    refine Eq.trans ?_ (congrArg _ (take_joined scanned second { after with output := "" }))
    have start : Run.program .byDistance runLimits program (session.take (first ++ "\n" ++ second)
        (Scan.ofText (first ++ "\n" ++ second).toList session.line)).machine = .ok () after := ending
    simp only [execute, start]
  have parts := execute_append (by rw [half]) program'
  rw [half, ← ran'] at parts
  intro earlier later whole
  have total : whole = ({ later.1 with output := after.output ++ later.1.output }, later.2) :=
    (run_of_accepted? executes joined).trans parts
  have output : earlier.1.output = after.output := by simp only [earlier, ran]
  rw [total, output]
  exact ⟨rfl, rfl, rfl, rfl⟩

/-- A global of the first text is printed and then changed by the second one, which ends at a fault. -/
theorem run_joined_up_to_fault :
    let session : Session := { reporter := {}, path := "a.lox", interactive := false }
    let earlier := session.run "var a = true; print a;"
    let later := earlier.2.run "print a; a = nil; a();"
    let whole := session.run ("var a = true; print a;" ++ "\n" ++ "print a; a = nil; a();")
    earlier.1.result = .ok .ok ∧ later.1.result = .ok .runtimeError ∧
      whole.1.result = later.1.result ∧ whole.1.output = earlier.1.output ++ later.1.output ∧
      whole.1.problems = later.1.problems ∧ whole.2 = later.2 := by
  intro session earlier later whole
  have opened : start {} "a.lox" false none = .ok session := by rfl
  have first : earlier.1.result.toOption = some .ok := by decide +kernel
  have second : later.1.result.toOption = some .runtimeError := by decide +kernel
  have answered {result : Except Failure Outcome} {outcome : Outcome} (found : result.toOption = some outcome) :
      result = .ok outcome := by
    cases result with
    | ok value =>
      cases found
      rfl
    | error failure => cases found
  have ended := answered first
  have ended' := answered second
  exact ⟨ended, ended', run_joined session _ _ (.start opened) rfl ended (.inr ended')⟩

end Session

end Lox

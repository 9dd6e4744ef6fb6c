import Lox.Proofs.Grammar.Moved
import Lox.Proofs.Pairing.Sessions
import Lox.Proofs.Scope.Moved
import Mathlib.Data.List.Perm.Basic

/-!
Sessions do not look at places. Two sessions that have come to the same machine, but for the places of the tokens in
the functions there, make the same of scans that differ only in places: the same outcome, the same output, the same
globals, and the same problems, each at the token that has moved.
-/
namespace Lox

open Report

section Lists

variable {α β : Type} {Rel : α → β → Prop} {xs : List α} {ys : List β}

theorem isEmpty_of_forall₂ (related : List.Forall₂ Rel xs ys) : ys.isEmpty = xs.isEmpty := by
  cases related <;> rfl

/-- Sorting does not look at what does not matter for the order. -/
theorem forall₂_mergeSort {le : α → α → Bool} {le' : β → β → Bool}
    (keeps : ∀ {first second first' second'}, Rel first first' → Rel second second' → le first second = le' first' second')
    (related : List.Forall₂ Rel xs ys) :
    List.Forall₂ Rel (xs.mergeSort le) (ys.mergeSort le') := by
  obtain ⟨pairs, rfl, rfl⟩ : ∃ pairs : List { pair : α × β // Rel pair.1 pair.2 },
      xs = pairs.map (·.1.1) ∧ ys = pairs.map (·.1.2) := by
    induction related with
    | nil => exact ⟨[], rfl, rfl⟩
    | @cons first first' _ _ head _ ih =>
      obtain ⟨pairs, rfl, rfl⟩ := ih
      exact ⟨⟨(first, first'), head⟩ :: pairs, rfl, rfl⟩
  have left := List.map_mergeSort (r := fun first second => le first.1.1 second.1.1) (s := le)
    (f := fun pair : { pair : α × β // Rel pair.1 pair.2 } => pair.1.1) (l := pairs) fun _ _ _ _ => rfl
  have right := List.map_mergeSort (r := fun first second => le first.1.1 second.1.1) (s := le')
    (f := fun pair : { pair : α × β // Rel pair.1 pair.2 } => pair.1.2) (l := pairs) fun first _ second _ =>
      keeps first.2 second.2
  rw [← left, ← right, List.forall₂_map_left_iff, List.forall₂_map_right_iff, List.forall₂_same]
  exact fun pair _ => pair.2

end Lists

namespace Report.Problem

/-- The same problem with another token. -/
def put (problem : Problem) (token : Token) : Problem :=
  { problem with site := problem.site.map fun site => { site with token := some token, line := some token.line } }

/-- The problem is at a token, and its report is to show the line of that. -/
structure Marks (problem : Problem) (token : Token) : Prop where
  place : problem.token? = some token
  line : problem.line? = some token.line
  shown : problem.diagnosis = true

/-- The same problem at a token that has moved. -/
def Moved (Moves : Token → Token → Prop) (problem problem' : Problem) : Prop :=
  ∃ token token', Moves token token' ∧ problem.Marks token ∧ problem' = problem.put token'

variable {Moves Moves' : Token → Token → Prop} {problem problem' : Problem} {token token' : Token}

theorem Moved.mono (moved : problem.Moved Moves problem')
    (weaker : ∀ token token', Moves token token' → Moves' token token') : problem.Moved Moves' problem' := by
  obtain ⟨token, token', moves, rest⟩ := moved
  exact ⟨token, token', weaker _ _ moves, rest⟩

theorem Moved.line?_eq (moved : problem.Moved Moves problem') :
    ∃ token token', Moves token token' ∧ problem.line? = some token.line ∧ problem'.line? = some token'.line := by
  obtain ⟨token, token', moves, marks, rfl⟩ := moved
  refine ⟨token, token', moves, marks.line, ?_⟩
  obtain ⟨site, isSite, _⟩ := Option.bind_eq_some_iff.mp marks.place
  simp [line?, put, isSite]

theorem moved_atToken (places : Relocates Moves) (moves : Moves token token') (category : Category) (message : Text.Styled) :
    (atToken category token message).Moved Moves (atToken category token' message) := by
  refine ⟨token, token', moves, ⟨rfl, rfl, rfl⟩, ?_⟩
  simp [atToken, put, Site.make, Site.placeOf, (places moves).lexeme]

end Report.Problem

section Faults

variable {Moves : Token → Token → Prop}

theorem ScanFault.moved_problem {fault fault' : Located ScanFault} (moved : fault.Moved Moves fault') :
    (ScanFault.problem fault).Moved Moves (ScanFault.problem fault') := by
  obtain ⟨same, moves⟩ := moved
  refine ⟨fault.token, fault'.token, moves, ⟨rfl, rfl, rfl⟩, ?_⟩
  simp [ScanFault.problem, Problem.put, Site.make, same]

theorem SyntaxFault.moved_problem (places : Relocates Moves) {fault fault' : Located SyntaxFault}
    (moved : fault.Moved Moves fault') : (SyntaxFault.problem fault).Moved Moves (SyntaxFault.problem fault') := by
  unfold SyntaxFault.problem
  rw [moved.1]
  exact Problem.moved_atToken places moved.2 _ _

theorem ScopeFault.moved_problem (places : Relocates Moves) {fault fault' : Located ScopeFault}
    (moved : fault.Moved Moves fault') : (ScopeFault.problem fault).Moved Moves (ScopeFault.problem fault') := by
  unfold ScopeFault.problem
  rw [moved.1]
  exact Problem.moved_atToken places moved.2 _ _

theorem Report.Problem.moved_all {Cause : Type} {problem : Located Cause → Problem}
    (moved_problem : ∀ {fault fault' : Located Cause}, fault.Moved Moves fault' → (problem fault).Moved Moves (problem fault'))
    {faults faults' : List (Located Cause)} (moved : List.Forall₂ (Located.Moved Moves) faults faults') :
    List.Forall₂ (Problem.Moved Moves) (faults.map problem) (faults'.map problem) := by
  rw [List.forall₂_map_left_iff, List.forall₂_map_right_iff]
  exact moved.imp fun _ _ => moved_problem

end Faults

/-- A scan whose tokens have moved. -/
structure Scan.Moved (Moves : Token → Token → Prop) (scan scan' : Scan) : Prop where
  tokens : List.Forall₂ Moves scan.tokens scan'.tokens
  finish : Moves scan.finish scan'.finish
  faults : List.Forall₂ (Located.Moved Moves) scan.faults scan'.faults

theorem Scan.Moved.mono {Moves Moves' : Token → Token → Prop} {scan scan' : Scan} (moved : scan.Moved Moves scan')
    (weaker : ∀ token token', Moves token token' → Moves' token token') : scan.Moved Moves' scan' :=
  ⟨moved.tokens.imp weaker, weaker _ _ moved.finish, moved.faults.imp fun _ _ same => ⟨same.1, weaker _ _ same.2⟩⟩

/-- Two runs with the same result and the same output. -/
structure Ran.Alike (Reports : List Problem → List Problem → Prop) (ran ran' : Ran) : Prop where
  result : ran'.result = ran.result
  output : ran'.output = ran.output
  problems : Reports ran.problems ran'.problems

theorem Ran.Alike.mono {Reports Reports' : List Problem → List Problem → Prop} {ran ran' : Ran}
    (alike : ran.Alike Reports ran')
    (weaker : ∀ problems problems', Reports problems problems' → Reports' problems problems') : ran.Alike Reports' ran' :=
  ⟨alike.result, alike.output, weaker _ _ alike.problems⟩

/-- A summary tells the class of a value, and the name and the parameters of a function. -/
theorem Store.summary_congr {store store' : Store} (classes : store.classes = store'.classes)
    (instances : store.instances = store'.instances)
    (signatures : ∀ id, store.functionName id = store'.functionName id ∧ store.functionArity id = store'.functionArity id)
    (value : Value) : store.summary value = store'.summary value := by
  have named : store.className = store'.className := by
    funext id
    simp only [className, classes]
  have parents : store.superclass? = store'.superclass? := by
    funext id
    simp only [superclass?, classes]
  cases value with
  | function id =>
    unfold summary
    dsimp only
    rw [(signatures id).1, (signatures id).2]
  | «class» id =>
    unfold summary
    dsimp only
    rw [named, parents, classes]
  | «instance» id =>
    unfold summary
    dsimp only
    rw [named, instances]
  | _ => rfl

namespace Pairing

variable {pairing : Pairing} {scene : pairing.Scene}

/-- Functions of one number have the same name and take as many arguments. -/
theorem signature_eq (lawful : pairing.Lawful) (agrees : scene.Agrees) (id : FunctionId) :
    scene.left.functionName id = scene.right.functionName id ∧
      scene.left.functionArity id = scene.right.functionArity id := by
  by_cases isLeft : id < scene.left.functions.size
  · have isRight : id < scene.right.functions.size := by
      rw [← agrees.size]
      exact isLeft
    have found := Array.getElem?_eq_getElem isLeft
    have found' := Array.getElem?_eq_getElem isRight
    obtain ⟨_, _, around, matching⟩ := agrees.functions id _ _ found found'
    refine ⟨?_, functionArity_eq lawful found found' matching⟩
    simp only [Store.functionName, found, found', matching.spelled]
  · have missing : scene.left.functions[id]? = none := Array.getElem?_eq_none (Nat.le_of_not_lt isLeft)
    have missing' : scene.right.functions[id]? = none := by
      apply Array.getElem?_eq_none
      rw [← agrees.size]
      exact Nat.le_of_not_lt isLeft
    simp only [Store.functionName, Store.functionArity, missing, missing', and_self]

/-- Every value has the same summary in both machines. -/
theorem summary_eq (lawful : pairing.Lawful) (agrees : scene.Agrees) (value : Value) :
    scene.left.summary value = scene.right.summary value :=
  Store.summary_congr agrees.classes agrees.instances (signature_eq lawful agrees) value

end Pairing

namespace Session

variable {Fresh Moves : Token → Token → Prop} {session session' : Session}

/-- What two runs report: problems of executing a program as they come, or those found before that, in order. The
tokens of the latter are all of the text that is run. -/
def Reports (Fresh Moves : Token → Token → Prop) (problems problems' : List Problem) : Prop :=
  List.Forall₂ (Problem.Moved Moves) problems problems' ∨
    ∃ found found', List.Forall₂ (Problem.Moved Fresh) found found' ∧ problems = inOrder found ∧
      problems' = inOrder found'

section Reports

variable {problems problems' : List Problem}

/-- Up to their order, the problems are the same ones. -/
theorem Reports.perm (reports : Reports Fresh Moves problems problems')
    (narrow : ∀ token token', Fresh token token' → Moves token token') :
    ∃ listed, listed.Perm problems' ∧ List.Forall₂ (Problem.Moved Moves) problems listed := by
  obtain moved | ⟨found, found', moved, rfl, rfl⟩ := reports
  · exact ⟨problems', .refl _, moved⟩
  · have wide := moved.imp fun _ _ same => same.mono narrow
    obtain ⟨listed, same, perm⟩ := List.perm_comp_forall₂ (List.mergeSort_perm found _) wide
    exact ⟨listed, perm.trans (List.mergeSort_perm found' _).symm, same⟩

/-- Where tokens of the text stay in the order of their lines, so do the problems. -/
theorem Reports.ordered (reports : Reports Fresh Moves problems problems')
    (narrow : ∀ token token', Fresh token token' → Moves token token')
    (keeps : ∀ {first first' second second'}, Fresh first first' → Fresh second second' →
      (first.line ≤ second.line ↔ first'.line ≤ second'.line)) :
    List.Forall₂ (Problem.Moved Moves) problems problems' := by
  obtain moved | ⟨found, found', moved, rfl, rfl⟩ := reports
  · exact moved
  · refine (forall₂_mergeSort ?_ moved).imp fun _ _ same => same.mono narrow
    intro first second first' second' before after
    obtain ⟨token, token', moves, line, line'⟩ := before.line?_eq
    obtain ⟨next, next', moves', line₂, line₂'⟩ := after.line?_eq
    simp only [line, line', line₂, line₂', Option.getD_some, keeps moves moves']

end Reports

/-- Two sessions that have come to the same machine, but for places. -/
structure Twins (Moves : Token → Token → Prop) (session session' : Session) : Prop where
  executes : session.dump = none
  executes' : session'.dump = none
  current : session.machine.current = globalFrame
  agrees : ∃ count, Pairing.Scene.Agrees (⟨count, session.machine, session'.machine⟩ : (Places.pairing Moves).Scene) ∧
    globalFrame < count

/-- Runs that are refused for problems found before execution. -/
theorem failed_alike {found found' : List Problem} (moved : List.Forall₂ (Problem.Moved Fresh) found found')
    (outcome : Outcome) : (failed outcome found "").Alike (Reports Fresh Moves) (failed outcome found' "") := by
  refine ⟨?_, rfl, .inr ⟨found, found', moved, rfl, rfl⟩⟩
  simp only [failed, isEmpty_of_forall₂ moved]

/-- Runs that halt at corresponding tokens. -/
theorem halted_fault (places : Relocates Moves) (cause : RuntimeFault) {token token' : Token} (moves : Moves token token')
    (output : String) : (halted output (.fault ⟨cause, token⟩)).Alike (List.Forall₂ (Problem.Moved Moves))
      (halted output (.fault ⟨cause, token'⟩)) := by
  have single (problem : Problem) : inOrder [problem] = [problem] := List.mergeSort_singleton problem
  refine ⟨rfl, rfl, ?_⟩
  simp only [halted, failed, single]
  exact .cons (Problem.moved_atToken places moves _ _) .nil

namespace Twins

theorem frames (twins : session.Twins Moves session') : session'.machine.frames = session.machine.frames := by
  obtain ⟨count, agrees, _⟩ := twins.agrees
  exact agrees.state.1

theorem globals (twins : session.Twins Moves session') (places : Relocates Moves) : session'.globals = session.globals := by
  obtain ⟨count, agrees, _⟩ := twins.agrees
  have same := Pairing.summary_eq (Places.lawful places) agrees
  simp only [Session.globals, twins.frames, ← same]

/-- Only the machine matters, and whether programs are executed. -/
theorem of_machines (twins : session.Twins Moves session') {later later' : Session} (dump : later.dump = session.dump)
    (dump' : later'.dump = session'.dump) (machine : later.machine = session.machine)
    (machine' : later'.machine = session'.machine) : later.Twins Moves later' := by
  obtain ⟨executes, executes', current, agrees⟩ := twins
  exact ⟨dump.trans executes, dump'.trans executes', machine ▸ current, machine ▸ machine' ▸ agrees⟩

theorem atTime (twins : session.Twins Moves session') (now : Float) :
    (session.atTime now).Twins Moves (session'.atTime now) := by
  obtain ⟨executes, executes', current, count, agrees, root⟩ := twins
  exact ⟨executes, executes', current, count, agrees.of_stores rfl rfl agrees.current agrees.output rfl, root⟩

/-- Corresponding programs end alike, and with machines that are alike. -/
theorem goes (twins : session.Twins Moves session') (places : Relocates Moves) {program program' : BoundProgram}
    (matching : (Places.scheme Moves).MatchBody () () program program') :
    ∃ count after after', Pairing.Scene.Agrees (⟨count, after, after'⟩ : (Places.pairing Moves).Scene) ∧
      globalFrame < count ∧ after.current = globalFrame ∧
      (Run.program .byDistance runLimits program session.machine = .ok () after ∧
          Run.program .byDistance runLimits program' session'.machine = .ok () after' ∨
        ∃ halt halt', Run.program .byDistance runLimits program session.machine = .error halt after ∧
          Run.program .byDistance runLimits program' session'.machine = .error halt' after' ∧
          (Places.pairing Moves).Alike halt halt') := by
  obtain ⟨_, _, current, count, agrees, root⟩ := twins
  have at_ : Pairing.Scene.At (⟨count, session.machine, session'.machine⟩ : (Places.pairing Moves).Scene) () := by
    change session.machine.current < count
    rw [current]
    exact root
  obtain ⟨⟨count', after, after'⟩, step, agrees', ended⟩ :=
    Pairing.goes_program (Places.lawful places) agrees at_ matching runLimits
  refine ⟨count', after, after', agrees', Nat.lt_of_lt_of_le root step.world, step.current.trans current, ?_⟩
  obtain ⟨_, ended, ended', _⟩ | halts := ended
  · exact .inl ⟨ended, ended'⟩
  · exact .inr halts

theorem execute (twins : session.Twins Moves session') (places : Relocates Moves) {program program' : BoundProgram}
    (matching : (Places.scheme Moves).MatchBody () () program program') :
    (session.execute program).1.Alike (List.Forall₂ (Problem.Moved Moves)) (session'.execute program').1 ∧
      (session.execute program).2.Twins Moves (session'.execute program').2 := by
  obtain ⟨count, after, after', agrees, root, current, ended⟩ := twins.goes places matching
  have printed : after'.output = after.output := agrees.output.symm
  let left : Machine := { after with output := "" }
  let right : Machine := { after' with output := "" }
  have settled : Pairing.Scene.Agrees (⟨count, left, right⟩ : (Places.pairing Moves).Scene) :=
    agrees.of_stores rfl rfl agrees.current rfl agrees.now
  have left_caught := Machine.caught_eq_self (show left.current = globalFrame from current)
  have right_caught := Machine.caught_eq_self (show right.current = globalFrame from agrees.current.symm.trans current)
  rcases ended with ⟨ended, ended'⟩ | ⟨halt, halt', ended, ended', alike⟩
  · simp only [Session.execute, ended, ended']
    exact ⟨⟨rfl, printed, .nil⟩, twins.executes, twins.executes', current, count, settled, root⟩
  · simp only [Session.execute, ended, ended', printed]
    rw [left_caught, right_caught]
    refine ⟨?_, twins.executes, twins.executes', current, count, settled, root⟩
    obtain rfl | ⟨cause, token, token', rfl, rfl, moves⟩ := alike.cases
    · cases halt' with
      | fault fault => exact halted_fault places fault.cause alike.2 _
      | _ => exact ⟨rfl, rfl, .nil⟩
    · exact halted_fault places cause moves _

/-- The names that binding knows of are the same. -/
theorem globalNames (twins : session.Twins Moves session') : session'.globalNames = session.globalNames := by
  simp only [Session.globalNames, twins.frames]

/-- Taking a text further does not look at places. Faults before execution are all at tokens of the text. -/
theorem runScan (twins : session.Twins Moves session') (places : Relocates Moves)
    (narrow : ∀ token token', Fresh token token' → Moves token token') {scan scan' : Scan} (moved : scan.Moved Fresh scan') :
    (session.runScan scan).1.Alike (Reports Fresh Moves) (session'.runScan scan').1 ∧
      (session.runScan scan).2.Twins Moves (session'.runScan scan').2 := by
  have fresh : Relocates Fresh := fun token token' moves => places (narrow _ _ moves)
  have wide := moved.mono narrow
  -- The text is read for two ends: its faults are at its own tokens, and its program is to be executed beside
  -- functions with earlier tokens.
  have reads := Parsed.moved_within? fresh nestingLimit moved.tokens moved.finish
  have executed := Parsed.moved_within? places nestingLimit wide.tokens wide.finish
  change Option.Rel _ scan.parse? scan'.parse? at reads executed
  simp only [Session.runScan, twins.executes, twins.executes', reduceCtorEq, if_false]
  generalize scan.parse? = outcome at reads executed
  generalize scan'.parse? = outcome' at reads executed
  cases reads with
  | none => exact ⟨⟨rfl, rfl, .inl .nil⟩, twins⟩
  | @some parsed parsed' read =>
    obtain @⟨_, _, read'⟩ := executed
    have found : List.Forall₂ (Problem.Moved Fresh)
        (scan.faults.map ScanFault.problem ++ parsed.faults.map SyntaxFault.problem)
        (scan'.faults.map ScanFault.problem ++ parsed'.faults.map SyntaxFault.problem) :=
      List.rel_append (Problem.moved_all ScanFault.moved_problem moved.faults)
        (Problem.moved_all (SyntaxFault.moved_problem fresh) read.faults)
    dsimp only
    rw [isEmpty_of_forall₂ found]
    split
    · simp only [runProgram, twins.executes, twins.executes', twins.globalNames]
      have bound := (Program.moved_bind fresh session.globalNames read.program).2
      rw [isEmpty_of_forall₂ bound]
      split
      · have matching := (Program.moved_bind places session.globalNames read'.program).1
        obtain ⟨alike, later⟩ := twins.execute places matching
        exact ⟨alike.mono fun _ _ => .inl, later⟩
      · exact ⟨failed_alike (Problem.moved_all (ScopeFault.moved_problem fresh) bound) _, twins⟩
    · exact ⟨failed_alike found _, twins⟩

/-- Running texts does not look at places. -/
theorem run (twins : session.Twins Moves session') (places : Relocates Moves)
    (narrow : ∀ token token', Fresh token token' → Moves token token') {text text' : String}
    (moved : (Scan.ofText text.toList session.line).Moved Fresh (Scan.ofText text'.toList session'.line)) :
    (session.run text).1.Alike (Reports Fresh Moves) (session'.run text').1 ∧
      (session.run text).2.Twins Moves (session'.run text').2 := by
  have taken : (session.take text (Scan.ofText text.toList session.line)).Twins Moves
      (session'.take text' (Scan.ofText text'.toList session'.line)) := twins.of_machines rfl rfl rfl rfl
  exact taken.runScan places narrow moved

end Twins

end Session

end Lox

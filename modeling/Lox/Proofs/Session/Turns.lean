import Lox.Proofs.Session.Moved
import Lox.Proofs.Token.Lines

/-!
Sessions turn by turn. A turn is the run of one text; what it can report on are tokens that it has scanned itself and
tokens of earlier turns, which functions have kept.
-/
namespace Lox

open Report

/-- A scan stands beside itself if all that it has found stays where it is. -/
theorem Scan.moved_self {Moves : Token → Token → Prop} {scan : Scan} (stay : ∀ token ∈ scan.found, Moves token token) :
    scan.Moved Moves scan := by
  simp only [Scan.found, Scan.all, List.mem_append, List.mem_singleton, List.mem_map] at stay
  refine ⟨List.forall₂_same.mpr fun token member => ?_, ?_, List.forall₂_same.mpr fun fault member => ⟨rfl, ?_⟩⟩
  · exact stay token (.inl (.inl member))
  · exact stay _ (.inl (.inr rfl))
  · exact stay _ (.inr ⟨fault, member, rfl⟩)

/-- A text to run, and the time of day at that. -/
structure Entry where
  now : Float
  text : String

/-- The run of a text: the line that it started on, what the run gave and the session that it left. -/
structure Turn where
  text : String
  line : Int
  ran : Ran
  session : Session

namespace Turn

def scan (turn : Turn) : Scan := Scan.ofText turn.text.toList turn.line

/-- One of the turns has scanned the token. -/
def Scanned (turns : List Turn) (token : Token) : Prop := ∃ turn ∈ turns, token ∈ turn.scan.found

end Turn

namespace Session

/-- Runs a text at a time of day. -/
def enter (session : Session) (entry : Entry) : Ran × Session := (session.atTime entry.now).run entry.text

/-- The session after running texts one after the other. -/
def after (session : Session) (entries : List Entry) : Session :=
  entries.foldl (fun session entry => (session.enter entry).2) session

/-- The turn of one text. -/
def turn (session : Session) (entry : Entry) : Turn :=
  ⟨entry.text, session.line, (session.enter entry).1, (session.enter entry).2⟩

/-- The turns of texts that are run one after the other. -/
def turns : Session → List Entry → List Turn
  | _, [] => []
  | session, entry :: rest => session.turn entry :: (session.enter entry).2.turns rest

variable {session first : Session} {Moves : Token → Token → Prop}

theorem after_append (session : Session) (before after : List Entry) :
    session.after (before ++ after) = (session.after before).after after := List.foldl_append ..

theorem turns_append (session : Session) (before after : List Entry) :
    session.turns (before ++ after) = session.turns before ++ (session.after before).turns after := by
  induction before generalizing session with
  | nil => rfl
  | cons entry rest ih =>
    rw [List.cons_append, turns, turns, ih]
    rfl

/-- Of a session, a scan changes only the machine. -/
theorem runScan_snd (session : Session) (scan : Scan) :
    ∃ machine, (session.runScan scan).2 = { session with machine } := by
  have executed (program : BoundProgram) : ∃ machine, (session.execute program).2 = { session with machine } := by
    unfold execute
    split <;> exact ⟨_, rfl⟩
  have ran (program : Program Unit) : ∃ machine, (session.runProgram program).2 = { session with machine } := by
    unfold runProgram
    split
    · exact ⟨_, rfl⟩
    · dsimp only
      split
      · exact executed _
      · exact ⟨_, rfl⟩
  unfold runScan
  dsimp only
  split
  · exact ⟨_, rfl⟩
  · split
    · exact ⟨_, rfl⟩
    · split
      · exact ran _
      · exact ⟨_, rfl⟩

/-- A run takes the text in and changes the machine. -/
theorem run_snd (session : Session) (text : String) :
    ∃ machine, (session.run text).2 = { session.take text (Scan.ofText text.toList session.line) with machine } :=
  runScan_snd _ _

theorem dump_run (session : Session) (text : String) : (session.run text).2.dump = session.dump := by
  obtain ⟨machine, same⟩ := session.run_snd text
  rw [same]
  rfl

theorem dump_after (session : Session) (entries : List Entry) : (session.after entries).dump = session.dump := by
  induction entries generalizing session with
  | nil => rfl
  | cons entry rest ih => exact (ih _).trans (dump_run _ _)

theorem dump_of_start {reporter : Reporter} {path : String} {interactive : Bool} {dump : Option Dump}
    (opened : start reporter path interactive dump = .ok first) : first.dump = dump := by
  unfold start at opened
  split at opened
  · cases opened
    rfl
  · split at opened
    · cases opened
    · cases opened
      rfl

/-- A run moves on by the lines of its text. -/
theorem line_run (session : Session) (text : String) :
    (session.run text).2.line = session.line + (text.toList.count '\n' + 1 : Nat) := by
  obtain ⟨machine, same⟩ := session.run_snd text
  have line : (session.run text).2.line = ((⟨session.line, 0⟩ : Position).after text.toList).line + 1 := by
    rw [same]
    rfl
  rw [line, Position.line_after]
  push_cast
  omega

theorem reachable_after {reporter : Reporter} {path : String} {interactive : Bool} {dump : Option Dump}
    (opened : start reporter path interactive dump = .ok first) (entries : List Entry) : (first.after entries).Reachable := by
  have enters : ∀ session : Session, session.Reachable → (session.after entries).Reachable := by
    induction entries with
    | nil => exact fun _ => id
    | cons entry rest ih => exact fun session reached => ih _ (.run (.atTime reached entry.now) entry.text)
  exact enters first (.start opened)

section Twins

/-- A new session stands beside itself. -/
theorem twins_of_start {reporter : Reporter} {path : String} {interactive : Bool}
    (opened : start reporter path interactive none = .ok first) : first.Twins Moves first := by
  have executes := dump_of_start opened
  have state : (Places.pairing Moves).State (1 : Nat) .initial .initial := ⟨rfl, rfl⟩
  refine ⟨executes, executes, ?_, (1 : Nat), ?_, Nat.one_pos⟩
  · rw [machine_of_start opened]
    rfl
  · rw [machine_of_start opened]
    exact Pairing.agrees_initial state

/-- A turn of a session beside itself. -/
theorem Twins.turn_self (twins : session.Twins Moves session) (places : Relocates Moves) (entry : Entry)
    (stay : ∀ token ∈ (session.turn entry).scan.found, Moves token token) :
    (session.turn entry).ran.Alike (Reports Moves Moves) (session.turn entry).ran ∧
      (session.enter entry).2.Twins Moves (session.enter entry).2 := by
  have still : (session.turn entry).scan.Moved Moves (session.turn entry).scan := Scan.moved_self stay
  exact (twins.atTime entry.now).run places (fun _ _ => id) still

/-- A session stands beside itself for as long as the tokens that it scans stay where they are. -/
theorem Twins.after (twins : session.Twins Moves session) (places : Relocates Moves) (entries : List Entry)
    (stay : ∀ token, Turn.Scanned (session.turns entries) token → Moves token token) :
    (session.after entries).Twins Moves (session.after entries) := by
  induction entries generalizing session with
  | nil => exact twins
  | cons entry rest ih =>
    have now := (twins.turn_self places entry fun token found => stay token ⟨_, List.mem_cons_self, found⟩).2
    refine ih now ?_
    rintro token ⟨turn, member, found⟩
    exact stay token ⟨turn, List.mem_cons_of_mem _ member, found⟩

/-- Problems that have moved are at tokens that have moved. -/
theorem marks_of_moved {problems problems' : List Problem} (moved : List.Forall₂ (Problem.Moved Moves) problems problems')
    {problem : Problem} (reported : problem ∈ problems) : ∃ token token', Moves token token' ∧ problem.Marks token := by
  have marks (problem problem' : Problem) (same : problem.Moved Moves problem') :
      ∃ token token', Moves token token' ∧ problem.Marks token := by
    obtain ⟨token, token', moves, marks, _⟩ := same
    exact ⟨token, token', moves, marks⟩
  have each := moved.imp fun problem problem' same => And.intro (marks problem problem' same) trivial
  exact ((List.forall₂_and_left _ _).mp each).1 problem reported

/-- A session that only shows what it takes in reports on nothing but the text. -/
theorem found_of_dump {choice : Dump} (shows : session.dump = some choice) {text : String} {problem : Problem}
    (reported : problem ∈ (session.run text).1.problems) :
    ∃ token ∈ (Scan.ofText text.toList session.line).found, problem.Marks token := by
  let scan := Scan.ofText text.toList session.line
  let Known : Token → Token → Prop := fun token token' => token' = token ∧ token ∈ scan.found
  have places : Relocates Known := relocates_same _
  have still : scan.Moved Known scan := Scan.moved_self fun token found => ⟨rfl, found⟩
  have scanned := Problem.moved_all ScanFault.moved_problem still.faults
  have known {problems : List Problem} (moved : List.Forall₂ (Problem.Moved Known) problems problems)
      (member : problem ∈ inOrder problems) : ∃ token ∈ scan.found, problem.Marks token := by
    obtain ⟨token, _, ⟨_, found⟩, marks⟩ := marks_of_moved moved (List.mem_mergeSort.mp member)
    exact ⟨token, found, marks⟩
  have dump : (session.take text (Scan.ofText text.toList session.line)).dump = some choice := shows
  unfold run runScan at reported
  dsimp only at reported
  split at reported
  · exact known scanned reported
  split at reported
  · cases reported
  rename_i notTokens _ parsed read
  have reads : Option.Rel (Parsed.Moved Known) scan.parse? scan.parse? :=
    Parsed.moved_within? places nestingLimit still.tokens still.finish
  rw [read] at reads
  obtain @⟨_, _, reads⟩ := reads
  split at reported
  · cases choice with
    | tokens => exact absurd dump notTokens
    | tree =>
      simp only [runProgram, dump] at reported
      cases reported
  · exact known (List.rel_append scanned (Problem.moved_all (SyntaxFault.moved_problem places) reads.faults)) reported

/-- What a run reports on are tokens that it has scanned, or that were scanned in an earlier turn. -/
theorem scanned_of_mem_problems {reporter : Reporter} {path : String} {interactive : Bool} {dump : Option Dump}
    (opened : start reporter path interactive dump = .ok first) (before : List Entry) (entry : Entry) {problem : Problem}
    (reported : problem ∈ ((first.after before).enter entry).1.problems) :
    ∃ token, problem.Marks token ∧ Turn.Scanned (first.turns (before ++ [entry])) token := by
  have whole : first.turns (before ++ [entry]) = first.turns before ++ [(first.after before).turn entry] := turns_append ..
  have current (token : Token) (found : token ∈ ((first.after before).turn entry).scan.found) :
      Turn.Scanned (first.turns (before ++ [entry])) token :=
    ⟨_, whole ▸ List.mem_append_right _ (List.mem_singleton_self _), found⟩
  have kept : (first.after before).dump = dump := (dump_after _ _).trans (dump_of_start opened)
  cases dump with
  | some choice =>
    -- Nothing is executed, so no function keeps a token.
    have shows : ((first.after before).atTime entry.now).dump = some choice := kept
    obtain ⟨token, found, marks⟩ := found_of_dump shows reported
    exact ⟨token, marks, current token found⟩
  | none =>
    -- The session stands beside itself with all tokens that it has scanned so far, and so does what it reports.
    let Known : Token → Token → Prop := fun token token' =>
      token' = token ∧ Turn.Scanned (first.turns (before ++ [entry])) token
    have places : Relocates Known := relocates_same _
    have twins : (first.after before).Twins Known (first.after before) := by
      apply (twins_of_start opened).after places before
      rintro token ⟨turn, member, found⟩
      exact ⟨rfl, turn, whole ▸ List.mem_append_left _ member, found⟩
    obtain ⟨alike, _⟩ := twins.turn_self places entry fun token found => ⟨rfl, current token found⟩
    obtain ⟨listed, _, moved⟩ := alike.problems.perm fun _ _ => id
    obtain ⟨token, _, ⟨_, scanned⟩, marks⟩ := marks_of_moved moved reported
    exact ⟨token, marks, scanned⟩

end Twins

end Session

end Lox

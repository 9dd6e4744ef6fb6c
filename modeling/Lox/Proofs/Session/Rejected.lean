import Lox.Proofs.Session.Turns

/-!
A text that is rejected leaves no trace but its lines. Had it not been there, all other runs would have gone the same
way; what is scanned after it stands as many lines further down as it has.
-/
namespace Lox

open Report

/-- The place in the same column some lines further down. -/
def Position.down (position : Position) (rows : Nat) : Position := ⟨position.line + rows, position.col⟩

/-- The token some lines further down. -/
def Token.down (token : Token) (rows : Nat) : Token := { token with position := token.position.down rows }

theorem Position.after_down (position : Position) (rows : Nat) (text : List Char) :
    (position.down rows).after text = (position.after text).down rows := by
  induction text generalizing position with
  | nil => rfl
  | cons char rest ih =>
    have step : (position.down rows).advance char = (position.advance char).down rows := by
      unfold advance
      split
      · simp only [down, Position.mk.injEq, and_true]
        omega
      · rfl
    change ((position.down rows).advance char).after rest = ((position.advance char).after rest).down rows
    rw [step, ih]

namespace Scan

variable (rows : Nat)

theorem locate_down (position : Position) (list : List Piece) :
    locate (position.down rows) list = (locate position list).map fun entry => (entry.1.down rows, entry.2) := by
  induction list generalizing position with
  | nil => rfl
  | cons piece rest ih => rw [locate, locate, List.map_cons, Position.after_down, ih]

theorem token?_down (entry : Position × Piece) :
    token? (entry.1.down rows, entry.2) = (token? entry).map (·.down rows) := by
  obtain ⟨position, text, role⟩ := entry
  cases role <;> rfl

theorem fault?_down (entry : Position × Piece) :
    fault? (entry.1.down rows, entry.2) = (fault? entry).map fun fault => ⟨fault.cause, fault.token.down rows⟩ := by
  obtain ⟨position, text, role⟩ := entry
  cases role <;> rfl

/-- A text that starts further down has all its tokens further down. -/
theorem moved_down (text : List Char) (line : Int) :
    (ofText text line).Moved (fun token token' => token' = token.down rows) (ofText text (line + rows)) := by
  have placed := locate_down rows ⟨line, 0⟩ (pieces text)
  have start : (⟨line + rows, 0⟩ : Position) = Position.down ⟨line, 0⟩ rows := rfl
  refine ⟨?_, ?_, ?_⟩
  · simp only [ofText, start, placed, List.filterMap_map, Function.comp_def, token?_down, ← List.map_filterMap]
    rw [List.forall₂_map_right_iff, List.forall₂_same]
    exact fun _ _ => rfl
  · simp only [ofText, start, Position.after_down]
    rfl
  · simp only [ofText, start, placed, List.filterMap_map, Function.comp_def, fault?_down, ← List.map_filterMap]
    rw [List.forall₂_map_right_iff, List.forall₂_same]
    exact fun _ _ => ⟨rfl, rfl⟩

theorem Moved.found {Moves : Token → Token → Prop} {scan scan' : Scan} (moved : scan.Moved Moves scan') :
    scan.Moved (fun token token' => token ∈ scan.found ∧ Moves token token') scan' := by
  have tokens := (List.forall₂_and_left scan.tokens _).mpr ⟨fun token => id, moved.tokens⟩
  have faults := (List.forall₂_and_left scan.faults _).mpr ⟨fun fault => id, moved.faults⟩
  simp only [Scan.found, Scan.all, List.mem_append, List.mem_singleton, List.mem_map]
  refine ⟨tokens.imp ?_, ⟨.inl (.inr rfl), moved.finish⟩, faults.imp ?_⟩
  · rintro token _ ⟨member, moves⟩
    exact ⟨.inl (.inl member), moves⟩
  · rintro fault _ ⟨member, same, moves⟩
    exact ⟨same, .inr ⟨fault, member, rfl⟩, moves⟩

end Scan

/-- Two turns that can be told apart by nothing but the places in their reports. -/
structure Turn.Alike (Moves : Token → Token → Prop) (turn turn' : Turn) : Prop where
  result : turn'.ran.result = turn.ran.result
  output : turn'.ran.output = turn.ran.output
  globals : turn'.session.globals = turn.session.globals
  frames : turn'.session.machine.frames = turn.session.machine.frames
  problems : List.Forall₂ (Problem.Moved Moves) turn.ran.problems turn'.ran.problems

namespace Session

variable {Moves : Token → Token → Prop} {session session' first : Session} {rows : Nat}

/-- One turn in two sessions, of which one has come further down. -/
theorem Twins.turn_down (twins : ∀ now, (session.atTime now).Twins Moves (session'.atTime now)) (places : Relocates Moves)
    (line : session'.line = session.line + rows) (entry : Entry)
    (lowered : ∀ token ∈ (session.turn entry).scan.found, Moves token (token.down rows)) :
    (session.turn entry).Alike Moves (session'.turn entry) ∧
      (∀ now, ((session.enter entry).2.atTime now).Twins Moves ((session'.enter entry).2.atTime now)) ∧
      (session'.enter entry).2.line = (session.enter entry).2.line + rows := by
  let Fresh : Token → Token → Prop := fun token token' =>
    token ∈ (session.turn entry).scan.found ∧ token' = token.down rows
  have narrow (token token' : Token) (moves : Fresh token token') : Moves token token' := by
    obtain ⟨found, rfl⟩ := moves
    exact lowered token found
  have scans : (Scan.ofText entry.text.toList session.line).Moved Fresh (Scan.ofText entry.text.toList session'.line) := by
    rw [line]
    exact (Scan.moved_down rows entry.text.toList session.line).found
  obtain ⟨ran, later⟩ := (twins entry.now).run places narrow scans
  have keeps {token token' next next' : Token} (moves : Fresh token token') (moves' : Fresh next next') :
      token.line ≤ next.line ↔ token'.line ≤ next'.line := by
    obtain ⟨_, rfl⟩ := moves
    obtain ⟨_, rfl⟩ := moves'
    simp only [Token.line, Token.down, Position.down]
    omega
  have problems := ran.problems.ordered narrow keeps
  refine ⟨⟨ran.result, ran.output, later.globals places, later.frames, problems⟩, later.atTime, ?_⟩
  simp only [enter, line_run]
  change session'.line + _ = session.line + _ + rows
  omega

/-- All that two sessions do, of which one has come further down. -/
theorem Twins.turns_down (twins : ∀ now, (session.atTime now).Twins Moves (session'.atTime now)) (places : Relocates Moves)
    (line : session'.line = session.line + rows) (entries : List Entry)
    (lowered : ∀ token, Turn.Scanned (session.turns entries) token → Moves token (token.down rows)) :
    List.Forall₂ (Turn.Alike Moves) (session.turns entries) (session'.turns entries) := by
  -- Each turn hands on that the sessions are twins, and by how much the second one is further down.
  induction entries generalizing session session' with
  | nil => exact .nil
  | cons entry rest ih =>
    obtain ⟨alike, twins', line'⟩ := Twins.turn_down twins places line entry fun token found =>
      lowered token ⟨_, List.mem_cons_self, found⟩
    refine .cons alike (ih twins' line' ?_)
    rintro token ⟨turn, member, found⟩
    exact lowered token ⟨turn, List.mem_cons_of_mem _ member, found⟩

/-- A rejected text changes nothing of the machine but the time of day. -/
theorem machine_of_rejected {text : String} (sound : session.Sound) (executes : session.dump = none)
    (rejected : (session.run text).1.result = .ok .staticError) : (session.run text).2.machine = session.machine := by
  cases accepted : session.accepted? text with
  | none => exact (run_of_rejected executes accepted).1
  | some program =>
    obtain ended | ended | ended | ended := result_run sound accepted
    all_goals
      rw [ended] at rejected
      cases rejected

/-- A rejected text leaves no trace but its lines. In a session that runs texts one after the other, let one of them
be rejected. Without it the earlier turns are the same, and all later ones give the same results, the same output, the
same values of all names and the same problems in the same order. A problem is at the same token where that was scanned earlier,
and where it was scanned later, at that token in a place further down by the lines of the rejected text. -/
theorem rejected_leaves_only_lines {reporter : Reporter} {path : String} {interactive : Bool}
    (opened : start reporter path interactive none = .ok first) (before after : List Entry) (entry : Entry)
    (rejected : ((first.after before).enter entry).1.result = .ok .staticError) :
    let earlier := first.turns before
    let later := (first.after before).turns after
    let rows := entry.text.toList.count '\n' + 1
    ∃ later', first.turns (before ++ after) = earlier ++ later ∧
      first.turns (before ++ entry :: after) = earlier ++ (first.after before).turn entry :: later' ∧
      List.Forall₂ (Turn.Alike fun token token' =>
        token' = token ∧ Turn.Scanned earlier token ∨ token' = token.down rows ∧ Turn.Scanned later token) later later' := by
  intro earlier later rows
  refine ⟨((first.after before).enter entry).2.turns after, turns_append .., turns_append .., ?_⟩
  generalize isMoves : (fun token token' : Token => token' = token ∧ Turn.Scanned earlier token ∨
    token' = token.down rows ∧ Turn.Scanned later token) = Moves
  have places : Relocates Moves := by
    subst isMoves
    rintro token token' (⟨rfl, _⟩ | ⟨rfl, _⟩)
    · exact ⟨_, rfl⟩
    · exact ⟨_, rfl⟩
  have still : (first.after before).Twins Moves (first.after before) := by
    apply (twins_of_start opened).after places before
    intro token scanned
    subst isMoves
    exact .inl ⟨rfl, scanned⟩
  have reachable : ((first.after before).atTime entry.now).Reachable := .atTime (reachable_after opened before) entry.now
  have machine : ((first.after before).enter entry).2.machine = ((first.after before).atTime entry.now).machine :=
    machine_of_rejected reachable.sound still.executes rejected
  -- The machines differ in nothing but the time of day, which the next entry sets in both.
  have twins (now : Float) : ((first.after before).atTime now).Twins Moves
      (((first.after before).enter entry).2.atTime now) := by
    refine (still.atTime now).of_machines rfl (dump_run _ _) rfl ?_
    change { ((first.after before).enter entry).2.machine with now } = _
    rw [machine]
    rfl
  refine Twins.turns_down twins places (line_run _ _) after fun token scanned => ?_
  subst isMoves
  exact .inr ⟨rfl, scanned⟩

/-- A function that fails is called before and after a text in two lines that is no program. -/
theorem rejected_leaves_only_lines_of_open_call :
    let first : Session := { reporter := {}, path := "a.lox", interactive := false }
    let before : List Entry := [⟨0, "fun f()\n { nil(); }"⟩, ⟨1, "f();"⟩]
    let entry : Entry := ⟨2, "f(\n;"⟩
    let after : List Entry := [⟨3, "f();"⟩, ⟨4, "print g;"⟩]
    let later := (first.after before).turns after
    ((first.after before).enter entry).1.result = .ok .staticError ∧
      ∃ later', first.turns (before ++ entry :: after) =
          first.turns before ++ (first.after before).turn entry :: later' ∧
        List.Forall₂ (Turn.Alike fun token token' => token' = token ∧ Turn.Scanned (first.turns before) token ∨
          token' = token.down 2 ∧ Turn.Scanned later token) later later' := by
  intro first before entry after later
  have opened : start {} "a.lox" false none = .ok first := by rfl
  have found : ((first.after before).enter entry).1.result.toOption = some .staticError := by decide +kernel
  have rejected : ((first.after before).enter entry).1.result = .ok .staticError := by
    cases ended : ((first.after before).enter entry).1.result with
    | ok outcome =>
      rw [ended] at found
      exact congrArg Except.ok (Option.some.inj found)
    | error failure =>
      rw [ended] at found
      cases found
  have rows : entry.text.toList.count '\n' + 1 = 2 := by decide +kernel
  obtain ⟨later', _, whole, alike⟩ := rejected_leaves_only_lines opened before after entry rejected
  rw [rows] at alike
  exact ⟨rejected, later', whole, alike⟩

end Session

end Lox

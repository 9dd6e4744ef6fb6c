import Lox.Proofs.Hollow.Outside
import Lox.Proofs.Scope.Loops

/-!
`for` loops run as they stand, and the trees that reading makes of them run as any statement. They cannot be told apart:
in the frame that the tree makes for each round nothing is ever bound.
-/
namespace Lox

/-- An action that takes a level of the room for nesting. -/
def Run.nested {α : Type} (action : Nat → Run α) : Nat → Run α
  | 0 => throw .tooDeep
  | room + 1 => action room

namespace ForLoop

section Running

variable (access : Access) (rounds : Nat) (loop : ForLoop Distance)

/-- Whether there is to be another round. -/
def goesOn (room : Nat) : Run Bool :=
  match loop.condition with
  | none => return true
  | some test => return (← Run.eval access rounds room test).isTruthy

/-- The body, and then the increment, unless the body returns. -/
def turn : Nat → Run Flow :=
  match loop.increment with
  | none => fun room => Run.exec access rounds room loop.body
  | some step => Run.nested fun room => do
    match ← Run.exec access rounds room loop.body with
    | .returned value => return .returned value
    | .next =>
      let _ ← Run.nested (Run.eval access rounds · step) room
      return .next

/-- One round, with the way the loop ends if it does. -/
def round (room : Nat) : Run (Option Flow) := do
  if ← loop.goesOn access rounds room then
    match ← loop.turn access rounds room with
    | .next => return none
    | .returned value => return some (.returned value)
  else return some .next

/-- One round after the other. -/
def cycle : Nat → Run Flow := Run.nested fun room => Run.iterate (loop.round access rounds room) rounds

/-- Runs a loop. The initial clause, if there is one, runs once, in a frame for the whole loop. Clauses are nested as
deep as they are in the tree, so that the two come to the bounds of a run at the same moment. -/
def exec : Nat → Run Flow :=
  match loop.initial with
  | none => loop.cycle access rounds
  | some first => Run.nested fun room => do
    let enclosing ← Run.reading Machine.current
    let frame ← Run.onFrames (·.create (some enclosing))
    Run.within frame do
      let _ ← Run.exec access rounds room first
      loop.cycle access rounds room

end Running

/-- The body and the increment as the one statement that reading makes of them. -/
def turnTree (loop : ForLoop Distance) : Stmt Distance :=
  match loop.increment with
  | none => loop.body
  | some value => .block [loop.body, .expression value]

/-- All rounds, as the statement that reading makes of them. -/
def cycleTree (loop : ForLoop Distance) : Stmt Distance :=
  .whileLoop (loop.condition.getD (.literal (.bool true))) loop.turnTree

theorem tree_eq (loop : ForLoop Distance) : loop.tree = match loop.initial with
    | none => loop.cycleTree
    | some first => .block [first, loop.cycleTree] := by
  obtain ⟨initial, condition, increment, body⟩ := loop
  cases initial <;> cases increment <;> rfl

open Hollow

variable {scene : Scene} {made loop : ForLoop Distance} {rounds room : Nat}

/-- Statements in a frame of their own, which is hollow, and what runs without that frame. -/
theorem goes_inHollow {exec : Stmt Distance → Run Flow} {body : List (Stmt Distance)} {action : Run Flow}
    (agrees : scene.Agrees) (at_ : scene.At none)
    (inside : ∀ scene : Scene, scene.Agrees → scene.At (some 0) → Goes (Run.sequence exec body) action scene Ends) :
    Goes (do Run.block exec (← Run.reading Machine.current) [] body) action scene Ends := by
  change Goes (Run.block exec scene.left.current [] body) action scene Ends
  -- The second run does nothing where the first one makes its frame.
  change Goes _ (pure () >>= fun _ => action) scene Ends
  refine Goes.bind (goes_hollow agrees at_) fun frame _ after moved agrees' stands => ?_
  have stands' : (after.enter frame after.right.current).At (some 0) := by
    rw [moved.current']
    exact stands
  obtain ⟨last, moved', agrees'', ending⟩ := inside _ (agrees'.enter frame after.right.current) stands'
  refine ⟨last.enter after.left.current last.right.current,
    ⟨moved'.twin, moved'.left, moved'.right, rfl, moved'.current'⟩, agrees''.enter _ _, ?_⟩
  simp only [Scene.enter] at ending
  obtain ⟨flow, flow', ended, ended', ends⟩ | ⟨halt, ended, ended'⟩ := ending
  · refine .inl ⟨flow, flow', ?_, ended', ends⟩
    simp only [Run.within, ended, Scene.enter]
  · refine .inr ⟨halt, ?_, ended'⟩
    simp only [Run.within, ended, Scene.enter]

theorem goes_single {exec : Stmt Distance → Run Flow} {stmt : Stmt Distance} {action : Run Flow}
    (goes : Goes (exec stmt) action scene Ends) : Goes (Run.sequence exec [stmt]) action scene Ends := by
  rw [← bind_pure action]
  refine Goes.bind_same goes fun flow after _ agrees valid => ?_
  cases flow <;> exact Goes.pure agrees ⟨rfl, valid⟩

/-- The increment as a statement of its own and as it stands. -/
theorem goes_increment {hollow : scheme.Around} {step step' : Expr Distance} (agrees : scene.Agrees)
    (at_ : scene.At hollow) (matching : scheme.MatchExpr hollow step step') :
    Goes (Run.exec .byDistance rounds room (.expression step))
      (do
        let _ ← Run.nested (Run.eval .byDistance rounds · step') room
        return .next) scene Ends := by
  cases room with
  | zero =>
    simp only [Run.exec]
    exact Goes.halt agrees _
  | succ room =>
    simp only [Run.exec]
    exact Goes.bind ((goes_alike rounds room).1 agrees at_ matching) fun _ _ _ _ agrees' _ => Goes.pure agrees' .next

theorem goes_turn (unfolds : made.Unfolds loop) (agrees : scene.Agrees) (at_ : scene.At none) :
    Goes (Run.exec .byDistance rounds room made.turnTree)
      (loop.turn .byDistance rounds room) scene Ends := by
  obtain ⟨_, _, stepped, inside⟩ := unfolds
  unfold turn turnTree
  generalize made.increment = increment at stepped
  generalize loop.increment = increment' at stepped inside
  cases stepped with
  | none => exact (goes_alike rounds room).2 agrees at_ inside
  | @some step step' stepped =>
    cases room with
    | zero =>
      simp only [Run.exec]
      exact Goes.halt agrees _
    | succ room =>
      simp only [Run.exec]
      refine goes_inHollow agrees at_ fun scene agrees at_ => ?_
      refine Goes.bind_same ((goes_alike rounds room).2 agrees at_ inside) fun flow after moved agrees' valid => ?_
      cases flow with
      | returned value => exact Goes.pure agrees' ⟨rfl, valid⟩
      | next => exact goes_single (goes_increment agrees' (at_.step moved) stepped)

theorem turn_zero (access : Access) : loop.turn access rounds 0 = throw .tooDeep := by
  unfold turn
  cases loop.increment with
  | none => simp only [Run.exec]
  | some step => rfl

/-- One round of the two loops. Where there is no condition, that of the tree needs no more room than the body. -/
theorem goes_round (rounds room : Nat) (unfolds : made.Unfolds loop) (agrees : scene.Agrees) (at_ : scene.At none) :
    Goes (Run.round (Run.eval .byDistance rounds room) (Run.exec .byDistance rounds room)
        (made.condition.getD (.literal (.bool true))) made.turnTree)
      (loop.round .byDistance rounds room) scene RoundEnds := by
  have turns {scene : Scene} (agrees : scene.Agrees) (at_ : scene.At none) :
      Goes (do
        match ← Run.exec .byDistance rounds room made.turnTree with
        | .next => return none
        | .returned value => return some (.returned value))
        (do
          match ← loop.turn .byDistance rounds room with
          | .next => return none
          | .returned value => return some (.returned value)) scene RoundEnds := by
    refine Goes.bind_same (goes_turn unfolds agrees at_) fun flow _ _ agrees' valid => ?_
    cases flow with
    | next => exact Goes.pure agrees' (.inl ⟨rfl, rfl⟩)
    | returned value => exact Goes.pure agrees' (.inr ⟨_, _, rfl, rfl, rfl, valid⟩)
  unfold ForLoop.round goesOn
  rw [unfolds.condition]
  cases loop.condition with
  | some test =>
    rw [Option.getD_some, bind_assoc]
    refine Goes.bind_same ((goes_alike rounds room).1 agrees at_ (matchExpr_self test))
      fun value _ moved agrees' _ => ?_
    rw [pure_bind]
    split
    · exact turns agrees' (at_.step moved)
    · exact Goes.pure agrees' (.inr ⟨_, _, rfl, rfl, .next⟩)
  | none =>
    cases room with
    | zero =>
      simp only [Run.round, Run.eval, pure_bind, if_true, turn_zero]
      exact Goes.halt agrees _
    | succ room =>
      simp only [Option.getD_none, Run.round, Run.eval, pure_bind, if_true]
      exact turns agrees at_

theorem goes_cycle (unfolds : made.Unfolds loop) (agrees : scene.Agrees) (at_ : scene.At none) :
    Goes (Run.exec .byDistance rounds room made.cycleTree) (loop.cycle .byDistance rounds room) scene Ends := by
  cases room with
  | zero =>
    simp only [Run.exec]
    exact Goes.halt agrees _
  | succ room =>
    simp only [cycleTree, Run.exec]
    exact goes_rounds (fun scene agrees at_ => goes_round rounds room unfolds agrees at_) rounds agrees at_

/-- An initial clause never returns. -/
theorem flow_of_isClause {access : Access} {first : Stmt Distance} {machine after : Machine} {flow : Flow}
    (isClause : first.IsClause) (ended : Run.exec access rounds room first machine = .ok flow after) :
    flow = .next := by
  have ends {α : Type} {action : Run α}
      (ended : (do let _ ← action; return Flow.next : Run Flow) machine = .ok flow after) : flow = .next := by
    simp only [Bind.bind, EStateM.bind] at ended
    split at ended
    · cases ended
      rfl
    · cases ended
  cases room with
  | zero =>
    simp only [Run.exec] at ended
    cases ended
  | succ room =>
    cases first with
    | varDecl name value =>
      cases value with
      | none =>
        simp only [Run.exec] at ended
        exact ends ended
      | some value =>
        simp only [Run.exec, ← bind_assoc] at ended
        exact ends ended
    | expression value =>
      simp only [Run.exec] at ended
      exact ends ended
    | _ => exact isClause.elim

/-- A loop as it stands and the tree that reading makes of it go alike. -/
theorem goes_exec (unfolds : made.Unfolds loop) (isClause : ∀ first, loop.initial = some first → first.IsClause)
    (agrees : scene.Agrees) (at_ : scene.At none) :
    Goes (Run.exec .byDistance rounds room made.tree) (loop.exec .byDistance rounds room) scene Ends := by
  unfold ForLoop.exec
  rw [tree_eq, unfolds.initial]
  cases clause : loop.initial with
  | none => exact goes_cycle unfolds agrees at_
  | some first =>
    cases room with
    | zero =>
      simp only [Run.exec]
      exact Goes.halt agrees _
    | succ room =>
      simp only [Run.exec]
      refine Goes.known rfl rfl ?_
      refine Goes.bind (goes_openFrame [] agrees at_ (by simp)) fun frame frame' after moved agrees' stands => ?_
      refine goes_within ?_ fun _ _ _ ends => ends
      have entered : (after.enter frame frame').At none := stands
      have starts := (goes_alike rounds room).2 (agrees'.enter frame frame') entered (matchStmt_self first)
      refine Goes.bind (starts.and_left fun flow _ => flow_of_isClause (isClause first clause)) ?_
      rintro flow flow' middle moved' agrees'' ⟨_, rfl⟩
      exact goes_single (goes_cycle unfolds agrees'' (entered.step moved'))

end ForLoop

end Lox

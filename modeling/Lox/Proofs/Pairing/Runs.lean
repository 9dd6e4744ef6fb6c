import Lox.Proofs.Pairing.Calls

/-!
Two runs of corresponding trees, side by side, go alike for as long as they last. The induction is on the
room for nesting, as every call takes some of it.
-/
namespace Lox

namespace Pairing

variable {pairing : Pairing} {scene : pairing.Scene} {around next : pairing.Around}

/-- Single expressions go alike. -/
def Evaluates (pairing : Pairing) (eval eval' : Expr Distance → Run Value) : Prop :=
  ∀ ⦃scene : pairing.Scene⦄ ⦃around : pairing.Around⦄ ⦃expr expr' : Expr Distance⦄, scene.Agrees → scene.At around →
    pairing.MatchExpr around expr expr' → Goes (eval expr) (eval' expr') scene fun value after => after.Valid value

section Expressions

theorem goes_values (lawful : pairing.Lawful) {eval eval' : Expr Distance → Run Value}
    (evaluates : pairing.Evaluates eval eval') {exprs exprs' : List (Expr Distance)} (agrees : scene.Agrees)
    (at_ : scene.At around) (matching : pairing.MatchExprs around exprs exprs') :
    Goes (Run.values eval exprs) (Run.values eval' exprs') scene fun results after =>
      ∀ value ∈ results, after.Valid value := by
  induction exprs generalizing scene exprs' with
  | nil =>
    cases matching
    exact Goes.pure lawful agrees (by simp)
  | cons first rest ih =>
    cases matching with
    | cons head tail =>
      apply Goes.bind lawful (evaluates agrees at_ head)
      intro value middle moved agrees' valid
      apply Goes.bind lawful (ih agrees' (at_.step lawful moved) tail)
      intro results after moved' agrees'' valid'
      apply Goes.pure lawful agrees''
      simpa using ⟨valid.step lawful moved', valid'⟩

theorem goes_unary (lawful : pairing.Lawful) {op : UnaryOp} {sign sign' : Token} (operand : Value)
    (agrees : scene.Agrees) (same : pairing.Same sign sign') :
    Goes (op.apply sign operand) (op.apply sign' operand) scene fun value after => after.Valid value := by
  unfold UnaryOp.apply
  split
  · exact Goes.pure lawful agrees trivial
  · exact Goes.pure lawful agrees trivial
  · exact Goes.fail lawful agrees _ same

theorem goes_binary (lawful : pairing.Lawful) {op : BinaryOp} {sign sign' : Token} (left right : Value)
    (agrees : scene.Agrees) (same : pairing.Same sign sign') :
    Goes (op.apply sign left right) (op.apply sign' left right) scene fun value after => after.Valid value := by
  unfold BinaryOp.apply
  split
  · unfold BinaryOp.addValues
    split
    · exact Goes.pure lawful agrees trivial
    · exact Goes.pure lawful agrees trivial
    · exact Goes.fail lawful agrees _ same
  · exact Goes.pure lawful agrees trivial
  · exact Goes.pure lawful agrees trivial
  · unfold BinaryOp.compute
    split
    · split
      · rename_i result computed
        apply Goes.pure lawful agrees
        unfold BinaryOp.onNumbers? at computed
        split at computed <;> cases computed <;> trivial
      · exact Goes.fail lawful agrees _ same
    · exact Goes.fail lawful agrees _ same

variable {rounds room : Nat}

theorem evaluates_succ (lawful : pairing.Lawful)
    (evaluates : pairing.Evaluates (Run.eval .byDistance rounds room) (Run.eval pairing.right rounds room))
    (executes : pairing.Executes (Run.exec .byDistance rounds room) (Run.exec pairing.right rounds room)) :
    pairing.Evaluates (Run.eval .byDistance rounds (room + 1)) (Run.eval pairing.right rounds (room + 1)) := by
  intro scene around expr expr' agrees at_ matching
  cases matching with
  | literal value =>
    unfold Run.eval
    apply Goes.pure lawful agrees
    cases value <;> trivial
  | grouping part =>
    unfold Run.eval
    exact evaluates agrees at_ part
  | unary same part =>
    unfold Run.eval
    exact Goes.bind lawful (evaluates agrees at_ part) fun value after _ agrees' _ =>
      goes_unary lawful value agrees' same
  | binary same first second =>
    unfold Run.eval
    apply Goes.bind lawful (evaluates agrees at_ first)
    intro left _ moved agrees' _
    apply Goes.bind lawful (evaluates agrees' (at_.step lawful moved) second)
    intro right _ _ agrees'' _
    exact goes_binary lawful left right agrees'' same
  | logical _ first second =>
    unfold Run.eval
    apply Goes.bind lawful (evaluates agrees at_ first)
    intro left _ moved agrees' valid
    split
    · exact Goes.pure lawful agrees' valid
    · exact evaluates agrees' (at_.step lawful moved) second
  | read reads =>
    unfold Run.eval
    exact goes_read lawful agrees at_ reads
  | assign assigns part =>
    unfold Run.eval
    apply Goes.bind lawful (evaluates agrees at_ part)
    intro value _ moved agrees' valid
    apply Goes.bind lawful (goes_assign lawful agrees' (at_.step lawful moved) assigns valid)
    intro _ _ moved' agrees'' _
    exact Goes.pure lawful agrees'' (valid.step lawful moved')
  | call same part parts =>
    unfold Run.eval
    apply Goes.bind lawful (evaluates agrees at_ part)
    intro value _ moved agrees' valid
    refine Goes.bind lawful (goes_values lawful evaluates agrees' (at_.step lawful moved) parts)
      fun results _ moved' agrees'' valid' => ?_
    exact goes_call lawful executes same agrees'' (valid.step lawful moved') valid'
  | get same spelled part =>
    unfold Run.eval
    refine Goes.bind lawful (evaluates agrees at_ part) fun value _ _ agrees' valid => ?_
    cases value with
    | «instance» id => exact goes_property lawful agrees' valid same spelled
    | _ => exact Goes.fail lawful agrees' _ same
  | set same spelled first second =>
    unfold Run.eval
    apply Goes.bind lawful (evaluates agrees at_ first)
    intro target _ moved agrees' valid
    cases target with
    | «instance» id =>
      apply Goes.bind lawful (evaluates agrees' (at_.step lawful moved) second)
      intro value _ moved' agrees'' valid'
      rw [← spelled]
      apply Goes.bind lawful (goes_setField lawful agrees'' id _ valid')
      intro _ _ moved'' agrees₃ _
      exact Goes.pure lawful agrees₃ (valid'.step lawful moved'')
    | _ => exact Goes.fail lawful agrees' _ same
  | this reads =>
    unfold Run.eval
    exact goes_read lawful agrees at_ reads
  | super supers same spelled =>
    unfold Run.eval
    apply Goes.bind lawful (goes_superAndThis lawful agrees at_ supers)
    rintro pair after _ agrees' ⟨valid, serves⟩
    exact goes_superMethod lawful agrees' same spelled valid serves

end Expressions

section Statements

theorem shown_eq (agrees : scene.Agrees) {value : Value} (valid : scene.Valid value) :
    scene.left.shown value = scene.right.shown value := by
  refine Store.shown_congr agrees.classes agrees.instances ?_
  rintro id rfl
  obtain ⟨function, function', found, found', _, _, _, _, matching⟩ := valid
  simp only [Store.functionName, found, found', matching.spelled]

theorem goes_print (lawful : pairing.Lawful) (text : String) (agrees : scene.Agrees) :
    Goes (Run.print text) (Run.print text) scene fun _ _ => True := by
  let after : pairing.Scene := { scene with left := { scene.left with output := scene.left.output ++ text }
                                            right := { scene.right with output := scene.right.output ++ text } }
  have agrees' : after.Agrees :=
    ⟨agrees.state, agrees.current, by simp only [after, agrees.output], agrees.now, agrees.frames, agrees.size,
      agrees.functions, agrees.classes, agrees.instances, agrees.names, agrees.fields, agrees.methods⟩
  exact ⟨after, ⟨lawful.refl _, .refl _, .refl _, fun _ _ => id, rfl⟩, agrees', .inl ⟨(), rfl, rfl, trivial⟩⟩

variable {rounds room : Nat}

/-- One round of two loops. -/
theorem goes_round (lawful : pairing.Lawful) {eval eval' : Expr Distance → Run Value} {exec exec' : Stmt Distance → Run Flow}
    (evaluates : pairing.Evaluates eval eval') (executes : pairing.Executes exec exec')
    {condition condition' : Expr Distance} {body body' : Stmt Distance} (agrees : scene.Agrees)
    (at_ : scene.At around) (test : pairing.MatchExpr around condition condition')
    (part : pairing.MatchStmt around around body body') :
    Goes (Run.round eval exec condition body) (Run.round eval' exec' condition' body') scene
      fun ending after => after.At around ∧ ∀ flow, ending = some flow → Fine flow after := by
  apply Goes.bind lawful (evaluates agrees at_ test)
  intro value _ moved agrees' _
  have at' := at_.step lawful moved
  split
  · refine Goes.bind lawful (executes agrees' at' part) fun flow _ moved' agrees'' ⟨at'', fine⟩ => ?_
    cases flow with
    | next => exact Goes.pure lawful agrees'' ⟨at'', nofun⟩
    | returned value =>
      refine Goes.pure lawful agrees'' ⟨at'', ?_⟩
      rintro _ ⟨⟩
      exact fine
  · refine Goes.pure lawful agrees' ⟨at', ?_⟩
    rintro _ ⟨⟩
    trivial

theorem executes_succ (lawful : pairing.Lawful)
    (evaluates : pairing.Evaluates (Run.eval .byDistance rounds room) (Run.eval pairing.right rounds room))
    (executes : pairing.Executes (Run.exec .byDistance rounds room) (Run.exec pairing.right rounds room)) :
    pairing.Executes (Run.exec .byDistance rounds (room + 1)) (Run.exec pairing.right rounds (room + 1)) := by
  intro scene around next stmt stmt' agrees at_ matching
  cases matching with
  | expression part =>
    unfold Run.exec
    apply Goes.bind lawful (evaluates agrees at_ part)
    intro _ _ moved agrees' _
    exact Goes.pure lawful agrees' ⟨at_.step lawful moved, trivial⟩
  | print part =>
    unfold Run.exec
    refine Goes.bind lawful (evaluates agrees at_ part) fun value _ moved agrees' valid =>
      Goes.reading (shown_eq agrees' valid) ?_
    apply Goes.bind lawful (goes_print lawful _ agrees')
    intro _ _ moved' agrees'' _
    exact Goes.pure lawful agrees'' ⟨at_.step lawful (moved.trans lawful moved'), trivial⟩
  | varDecl declares =>
    unfold Run.exec
    have nil : ∀ after : pairing.Scene, scene.Step after → after.At next → after.Valid .nil := fun _ _ _ => trivial
    apply Goes.bind lawful (goes_define lawful agrees at_ declares nil)
    intro _ _ _ agrees' defined
    exact Goes.pure lawful agrees' ⟨defined.1, trivial⟩
  | varInit part declares =>
    unfold Run.exec
    apply Goes.bind lawful (evaluates agrees at_ part)
    intro value _ moved agrees' valid
    apply Goes.bind lawful (goes_define lawful agrees' (at_.step lawful moved) declares
      fun _ moved' _ => valid.step lawful moved')
    intro _ _ _ agrees'' defined
    exact Goes.pure lawful agrees'' ⟨defined.1, trivial⟩
  | block opens parts =>
    unfold Run.exec
    apply Goes.reading agrees.current
    have enough : ([] : List Token).length = ([] : List Value).length := rfl
    have runs := goes_block lawful executes agrees at_ opens enough (by simp) parts
    exact runs.weaken fun _ _ moved _ fine => ⟨at_.step lawful moved, fine⟩
  | ifThen test part =>
    unfold Run.exec
    apply Goes.bind lawful (evaluates agrees at_ test)
    intro _ _ moved agrees' _
    split
    · exact executes agrees' (at_.step lawful moved) part
    · exact Goes.pure lawful agrees' ⟨at_.step lawful moved, trivial⟩
  | ifElse test first second =>
    unfold Run.exec
    apply Goes.bind lawful (evaluates agrees at_ test)
    intro _ _ moved agrees' _
    split
    · exact executes agrees' (at_.step lawful moved) first
    · exact executes agrees' (at_.step lawful moved) second
  | whileLoop test part =>
    unfold Run.exec
    refine goes_iterate lawful (I := fun scene => scene.At around) (fun scene agrees at_ => ?_) rounds agrees at_
    refine (goes_round lawful evaluates executes agrees at_ test part).weaken fun ending after _ _ fine => ?_
    cases ending with
    | none => exact fine.1
    | some flow => exact ⟨fine.1, fine.2 flow rfl⟩
  | @funDecl _ _ declaration declaration' declares part =>
    unfold Run.exec
    let function : Function := ⟨declaration, scene.left.current, false⟩
    let function' : Function := ⟨declaration', scene.left.current, false⟩
    have encloses : pairing.Encloses scene.world function.closure := .inl ⟨around, _, _, next, declares, at_⟩
    apply Goes.reading agrees.current
    have adds : Goes (Run.onStore (·.addFunction function)) (Run.onStore (·.addFunction function')) scene _ :=
      goes_addFunction lawful agrees encloses ⟨rfl, rfl, next, part⟩
    apply Goes.bind lawful adds
    rintro id after moved agrees' ⟨found, found'⟩
    have valid : ∀ last : pairing.Scene, after.Step last → last.At next → last.Valid (.function id) := by
      intro last moved' at'
      refine ⟨function, function', moved'.left.functions _ _ found, moved'.right.functions _ _ found', rfl, rfl, next,
        ?_, part⟩
      have same : last.left.current = scene.left.current := moved'.current.trans moved.current
      rw [Scene.At, same] at at'
      exact at'
    apply Goes.bind lawful (goes_define lawful agrees' (at_.step lawful moved) declares valid)
    intro _ _ _ agrees'' defined
    exact Goes.pure lawful agrees'' ⟨defined.1, trivial⟩
  | returnNone _ =>
    unfold Run.exec
    exact Goes.pure lawful agrees ⟨at_, trivial⟩
  | returnSome _ part =>
    unfold Run.exec
    apply Goes.bind lawful (evaluates agrees at_ part)
    intro value _ moved agrees' valid
    exact Goes.pure lawful agrees' ⟨at_.step lawful moved, valid⟩
  | classDecl spelled parent declares inherits parts =>
    unfold Run.exec
    apply Goes.bind lawful (goes_declareClass lawful agrees at_ spelled parent declares inherits parts)
    intro _ _ _ agrees' at'
    exact Goes.pure lawful agrees' ⟨at', trivial⟩

end Statements

/-- Whatever room there is, corresponding trees go alike. -/
theorem goes_alike (lawful : pairing.Lawful) (rounds room : Nat) :
    pairing.Evaluates (Run.eval .byDistance rounds room) (Run.eval pairing.right rounds room) ∧
      pairing.Executes (Run.exec .byDistance rounds room) (Run.exec pairing.right rounds room) := by
  induction room with
  | zero =>
    constructor
    · intro scene around expr expr' agrees _ _
      unfold Run.eval
      exact Goes.tooDeep lawful agrees
    · intro scene around next stmt stmt' agrees _ _
      unfold Run.exec
      exact Goes.tooDeep lawful agrees
  | succ room ih => exact ⟨evaluates_succ lawful ih.1 ih.2, executes_succ lawful ih.1 ih.2⟩

theorem goes_program (lawful : pairing.Lawful) {program program' : BoundProgram} (agrees : scene.Agrees)
    (at_ : scene.At around) (matching : pairing.MatchBody around next program program') (limits : Limits) :
    Goes (Run.program .byDistance limits program) (Run.program pairing.right limits program') scene
      fun _ _ => True := by
  have executes := (goes_alike lawful limits.rounds limits.room).2
  apply Goes.bind lawful (goes_sequence lawful executes agrees at_ matching)
  intro flow after _ agrees' _
  cases flow with
  | next => exact Goes.pure lawful agrees' trivial
  | returned value => exact Goes.broken lawful agrees' _

end Pairing

end Lox

import Lox.Proofs.Run.Classes

/-!
Running does not depend on what has been printed before. An action that starts with some output does what it
does without it, and ends with that output in front of its own. So a program may as well be run in parts, each
with an output of its own.
-/
namespace Lox

/-- The machine with output from before in front of its own. -/
def Machine.printed (machine : Machine) (earlier : String) : Machine :=
  { machine with output := earlier ++ machine.output }

namespace Run

variable {α β : Type}

/-- A result with output from before in front of its own. -/
def shift (earlier : String) : EStateM.Result Halt Machine α → EStateM.Result Halt Machine α
  | .ok value machine => .ok value (machine.printed earlier)
  | .error halt machine => .error halt (machine.printed earlier)

/-- An action that does the same whatever has been printed before. -/
def Oblivious (action : Run α) : Prop :=
  ∀ earlier machine, action (machine.printed earlier) = shift earlier (action machine)

namespace Oblivious

theorem pure (value : α) : Oblivious (Pure.pure value) := fun _ _ => rfl

theorem halt (cause : Halt) : Oblivious (throw cause : Run α) := fun _ _ => rfl

theorem fail (token : Token) (cause : RuntimeFault) : Oblivious (Run.fail token cause : Run α) := halt _

theorem broken (cause : Defect) : Oblivious (Run.broken cause : Run α) := halt _

theorem bind {action : Run α} {next : α → Run β} (first : Oblivious action)
    (then_ : ∀ value, Oblivious (next value)) : Oblivious (action >>= next) := by
  intro earlier machine
  simp only [Bind.bind, EStateM.bind, first earlier machine]
  cases action machine with
  | ok value after => exact then_ value earlier after
  | error halt after => rfl

theorem reading {view : Machine → α} (blind : ∀ earlier machine, view (machine.printed earlier) = view machine) :
    Oblivious (Run.reading view) := by
  intro earlier machine
  simp only [Run.reading, blind]
  rfl

theorem onStore (action : Store → α × Store) : Oblivious (Run.onStore action) := fun _ _ => rfl

theorem onFrames (action : Frames → α × Frames) : Oblivious (Run.onFrames action) := onStore _

theorem print (text : String) : Oblivious (Run.print text) := by
  intro earlier machine
  simp only [Run.print, shift, Machine.printed, String.append_assoc]

theorem within (frame : FrameId) {action : Run α} (oblivious : Oblivious action) :
    Oblivious (Run.within frame action) := by
  intro earlier machine
  have inside := oblivious earlier { machine with current := frame }
  simp only [Run.within, Machine.printed] at inside ⊢
  rw [inside]
  cases action { machine with current := frame } <;> rfl

theorem asCall (paren : Token) {action : Run α} (oblivious : Oblivious action) :
    Oblivious (Run.asCall paren action) := by
  intro earlier machine
  simp only [Run.asCall, oblivious earlier machine]
  rcases action machine with ⟨value, after⟩ | ⟨_ | _ | _ | _, after⟩ <;> rfl

theorem iterate {step : Run (Option α)} (oblivious : Oblivious step) (rounds : Nat) :
    Oblivious (Run.iterate step rounds) := by
  induction rounds with
  | zero => exact fun _ _ => rfl
  | succ rounds ih =>
    intro earlier machine
    simp only [Run.iterate, oblivious earlier machine]
    rcases step machine with ⟨_ | result, after⟩ | ⟨halt, after⟩
    · exact ih earlier after
    · rfl
    · rfl

theorem function (id : FunctionId) : Oblivious (Run.function id) := by
  refine bind (reading fun _ _ => rfl) fun found => ?_
  cases found with
  | some function => exact pure _
  | none => exact broken _

theorem instanceOf (id : InstanceId) : Oblivious (Run.instanceOf id) := by
  refine bind (reading fun _ _ => rfl) fun found => ?_
  cases found with
  | some object => exact pure _
  | none => exact broken _

theorem bindMethod (method : FunctionId) (receiver : InstanceId) : Oblivious (Run.bindMethod method receiver) :=
  bind (function method) fun _ => onStore _

theorem define (name : String) (value : Value) : Oblivious (Run.define name value) :=
  bind (reading fun _ _ => rfl) fun _ => onFrames _

end Oblivious

section Access

open Access

theorem oblivious_readAt (distance : Nat) (name : String) : Oblivious (readAt distance name) := by
  refine Oblivious.bind (Oblivious.reading fun _ _ => rfl) fun found => ?_
  cases found with
  | ok value => exact Oblivious.pure _
  | error cause => exact Oblivious.broken _

theorem oblivious_readFrom {frame : Machine → FrameId}
    (blind : ∀ earlier machine, frame (machine.printed earlier) = frame machine) (name : Token) :
    Oblivious (readFrom frame name) := by
  refine Oblivious.bind (Oblivious.reading fun earlier machine => by rw [blind]; rfl) fun found => ?_
  cases found with
  | some value => exact Oblivious.pure _
  | none => exact Oblivious.fail _ _

theorem oblivious_assignFrom {frame : Machine → FrameId}
    (blind : ∀ earlier machine, frame (machine.printed earlier) = frame machine) (name : Token) (value : Value) :
    Oblivious (assignFrom frame name value) := by
  refine Oblivious.bind (Oblivious.reading fun earlier machine => by rw [blind]; rfl) fun found => ?_
  cases found with
  | some holder => exact Oblivious.onFrames _
  | none => exact Oblivious.fail _ _

theorem oblivious_read (name : Token) (note : Distance) : Oblivious (byDistance.read name note) := by
  cases note with
  | some distance => exact oblivious_readAt _ _
  | none => exact oblivious_readFrom (fun _ _ => rfl) name

theorem oblivious_assign (name : Token) (note : Distance) (value : Value) :
    Oblivious (byDistance.assign name note value) := by
  cases note with
  | some distance =>
    refine Oblivious.bind (Oblivious.reading fun _ _ => rfl) fun found => ?_
    cases found with
    | some frame => exact Oblivious.onFrames _
    | none => exact Oblivious.broken _
  | none => exact oblivious_assignFrom (fun _ _ => rfl) name value

theorem oblivious_superAndThis (keyword : Token) (note : Distance) :
    Oblivious (byDistance.superAndThis keyword note) := by
  cases note with
  | some distance =>
    exact Oblivious.bind (oblivious_readAt _ _) fun _ => Oblivious.bind (oblivious_readAt _ _) fun _ =>
      Oblivious.pure _
  | none => exact Oblivious.broken _

end Access

section Operators

theorem oblivious_unary (op : UnaryOp) (sign : Token) (operand : Value) : Oblivious (op.apply sign operand) := by
  unfold UnaryOp.apply
  split
  · exact Oblivious.pure _
  · exact Oblivious.pure _
  · exact Oblivious.fail _ _

theorem oblivious_compute (op : BinaryOp) (sign : Token) (left right : Value) :
    Oblivious (op.compute sign left right) := by
  unfold BinaryOp.compute
  split
  · split
    · exact Oblivious.pure _
    · exact Oblivious.fail _ _
  · exact Oblivious.fail _ _

theorem oblivious_binary (op : BinaryOp) (sign : Token) (left right : Value) :
    Oblivious (op.apply sign left right) := by
  unfold BinaryOp.apply
  split
  · unfold BinaryOp.addValues
    split
    · exact Oblivious.pure _
    · exact Oblivious.pure _
    · exact Oblivious.fail _ _
  · exact Oblivious.pure _
  · exact Oblivious.pure _
  · exact oblivious_compute _ _ _ _

end Operators

section Parts

theorem oblivious_values {eval : Expr Distance → Run Value} (oblivious : ∀ expr, Oblivious (eval expr))
    (exprs : List (Expr Distance)) : Oblivious (values eval exprs) := by
  induction exprs with
  | nil => exact Oblivious.pure _
  | cons first rest ih =>
    exact Oblivious.bind (oblivious first) fun _ => Oblivious.bind ih fun _ => Oblivious.pure _

variable {exec : Stmt Distance → Run Flow} (oblivious : ∀ stmt, Oblivious (exec stmt))

include oblivious

theorem oblivious_sequence (body : List (Stmt Distance)) : Oblivious (sequence exec body) := by
  induction body with
  | nil => exact Oblivious.pure _
  | cons first rest ih =>
    apply Oblivious.bind (oblivious first)
    intro flow
    cases flow with
    | next => exact ih
    | returned value => exact Oblivious.pure _

theorem oblivious_block (enclosing : FrameId) (bindings : List (String × Value)) (body : List (Stmt Distance)) :
    Oblivious (block exec enclosing bindings body) :=
  Oblivious.bind (Oblivious.onFrames _) fun frame => Oblivious.within frame (oblivious_sequence oblivious body)

theorem oblivious_activate (function : Function) (arguments : List Value) :
    Oblivious (activate exec function arguments) := by
  apply Oblivious.bind (oblivious_block oblivious _ _ _)
  intro flow
  split
  · refine Oblivious.bind (Oblivious.reading fun _ _ => rfl) fun found => ?_
    cases found with
    | ok value => exact Oblivious.pure _
    | error cause => exact Oblivious.broken _
  · cases flow <;> exact Oblivious.pure _

theorem oblivious_instantiate (id : ClassId) (arguments : List Value) :
    Oblivious (instantiate exec id arguments) := by
  refine Oblivious.bind (Oblivious.onStore _) fun made =>
    Oblivious.bind (Oblivious.reading fun _ _ => rfl) fun found => ?_
  cases found with
  | none => exact Oblivious.pure _
  | some method =>
    exact Oblivious.bind (Oblivious.bindMethod _ _) fun bound => Oblivious.bind (Oblivious.function bound)
      fun function => Oblivious.bind (oblivious_activate oblivious function arguments) fun _ => Oblivious.pure _

theorem oblivious_invoke (paren : Token) (arguments : List Value) (callee : Value) :
    Oblivious (invoke exec paren arguments callee) := by
  unfold invoke
  split
  · exact Oblivious.bind (Oblivious.reading fun _ _ => rfl) fun _ => Oblivious.pure _
  · exact Oblivious.bind (Oblivious.function _) fun function => oblivious_activate oblivious function arguments
  · exact oblivious_instantiate oblivious _ arguments
  · exact Oblivious.fail _ _

omit oblivious in
theorem oblivious_arity? (callee : Value) : Oblivious (arity? callee) := by
  unfold arity?
  split
  · exact Oblivious.pure _
  · exact Oblivious.bind (Oblivious.reading fun _ _ => rfl) fun _ => Oblivious.pure _
  · exact Oblivious.bind (Oblivious.reading fun _ _ => rfl) fun _ => Oblivious.pure _
  · exact Oblivious.pure _

theorem oblivious_call (paren : Token) (callee : Value) (arguments : List Value) :
    Oblivious (call exec paren callee arguments) := by
  apply Oblivious.bind (oblivious_arity? callee)
  intro arity
  cases arity with
  | none => exact Oblivious.fail _ _
  | some arity =>
    dsimp only
    split
    · exact Oblivious.fail _ _
    · exact Oblivious.asCall paren (oblivious_invoke oblivious paren arguments callee)

end Parts

theorem oblivious_property (id : InstanceId) (name : Token) : Oblivious (property id name) := by
  apply Oblivious.bind (Oblivious.instanceOf id)
  intro found
  split
  · exact Oblivious.pure _
  · refine Oblivious.bind (Oblivious.reading fun _ _ => rfl) fun method => ?_
    cases method with
    | some method => exact Oblivious.bind (Oblivious.bindMethod _ _) fun _ => Oblivious.pure _
    | none => exact Oblivious.fail _ _

theorem oblivious_superMethod (method : Token) (pair : Value × Value) : Oblivious (superMethod method pair) := by
  unfold superMethod
  split
  · refine Oblivious.bind (Oblivious.reading fun _ _ => rfl) fun found => ?_
    cases found with
    | some found => exact Oblivious.bind (Oblivious.bindMethod _ _) fun _ => Oblivious.pure _
    | none => exact Oblivious.fail _ _
  · exact Oblivious.broken _
  · exact Oblivious.broken _

theorem oblivious_methodTable (closure : FrameId) (methods : List (FunctionDecl Distance)) (table : Table FunctionId) :
    Oblivious (methodTable closure methods table) := by
  induction methods generalizing table with
  | nil => exact Oblivious.pure _
  | cons first rest ih => exact Oblivious.bind (Oblivious.onStore _) fun id => ih _

theorem oblivious_superclass (superclass : Option (Token × Distance)) :
    Oblivious (Run.superclass .byDistance superclass) := by
  rcases superclass with _ | ⟨name, note⟩
  · exact Oblivious.pure _
  · apply Oblivious.bind (oblivious_read name note)
    intro value
    cases value with
    | «class» id => exact Oblivious.pure _
    | _ => exact Oblivious.fail _ _

theorem oblivious_methodFrame (parent : Option ClassId) : Oblivious (methodFrame parent) := by
  cases parent with
  | none => exact Oblivious.reading fun _ _ => rfl
  | some parent => exact Oblivious.bind (Oblivious.reading fun _ _ => rfl) fun _ => Oblivious.onFrames _

theorem oblivious_declareClass (name : Token) (superclass : Option (Token × Distance))
    (methods : List (FunctionDecl Distance)) : Oblivious (declareClass .byDistance name superclass methods) := by
  rw [declareClass_eq]
  exact Oblivious.bind (oblivious_superclass superclass) fun parent =>
    Oblivious.bind (Oblivious.define _ _) fun _ =>
      Oblivious.bind (oblivious_methodFrame parent) fun closure =>
        Oblivious.bind (oblivious_methodTable closure methods _) fun _ =>
          Oblivious.bind (Oblivious.onStore _) fun _ => oblivious_assignFrom (fun _ _ => rfl) name _

variable {rounds room : Nat}

theorem oblivious_eval_succ (evals : ∀ expr, Oblivious (eval .byDistance rounds room expr))
    (execs : ∀ stmt, Oblivious (exec .byDistance rounds room stmt)) (expr : Expr Distance) :
    Oblivious (eval .byDistance rounds (room + 1) expr) := by
  cases expr with
  | literal value => unfold eval; exact Oblivious.pure _
  | grouping inner => unfold eval; exact evals inner
  | unary op sign operand => unfold eval; exact Oblivious.bind (evals operand) fun _ => oblivious_unary _ _ _
  | binary op left sign right =>
    unfold eval
    exact Oblivious.bind (evals left) fun _ => Oblivious.bind (evals right) fun _ => oblivious_binary _ _ _ _
  | logical op left sign right =>
    unfold eval
    apply Oblivious.bind (evals left)
    intro value
    split
    · exact Oblivious.pure _
    · exact evals right
  | read name note => unfold eval; exact oblivious_read name note
  | assign name note value =>
    unfold eval
    exact Oblivious.bind (evals value) fun _ => Oblivious.bind (oblivious_assign _ _ _) fun _ => Oblivious.pure _
  | call callee paren arguments =>
    unfold eval
    exact Oblivious.bind (evals callee) fun _ => Oblivious.bind (oblivious_values evals arguments) fun _ =>
      oblivious_call execs _ _ _
  | get object name =>
    unfold eval
    apply Oblivious.bind (evals object)
    intro value
    cases value with
    | «instance» id => exact oblivious_property id name
    | _ => exact Oblivious.fail _ _
  | set object name value =>
    unfold eval
    apply Oblivious.bind (evals object)
    intro target
    cases target with
    | «instance» id =>
      exact Oblivious.bind (evals value) fun _ => Oblivious.bind (Oblivious.onStore _) fun _ => Oblivious.pure _
    | _ => exact Oblivious.fail _ _
  | this keyword note => unfold eval; exact oblivious_read keyword note
  | super keyword note method =>
    unfold eval
    exact Oblivious.bind (oblivious_superAndThis _ _) fun pair => oblivious_superMethod method pair

theorem oblivious_exec_succ (evals : ∀ expr, Oblivious (eval .byDistance rounds room expr))
    (execs : ∀ stmt, Oblivious (exec .byDistance rounds room stmt)) (stmt : Stmt Distance) :
    Oblivious (exec .byDistance rounds (room + 1) stmt) := by
  cases stmt with
  | expression value => unfold exec; exact Oblivious.bind (evals value) fun _ => Oblivious.pure _
  | print value =>
    unfold exec
    exact Oblivious.bind (evals value) fun _ => Oblivious.bind (Oblivious.reading fun _ _ => rfl) fun _ =>
      Oblivious.bind (Oblivious.print _) fun _ => Oblivious.pure _
  | varDecl name initial =>
    cases initial with
    | none => unfold exec; exact Oblivious.bind (Oblivious.define _ _) fun _ => Oblivious.pure _
    | some value =>
      unfold exec
      exact Oblivious.bind (evals value) fun _ => Oblivious.bind (Oblivious.define _ _) fun _ => Oblivious.pure _
  | block body =>
    unfold exec
    exact Oblivious.bind (Oblivious.reading fun _ _ => rfl) fun _ => oblivious_block execs _ _ body
  | ifThen condition accepted =>
    unfold exec
    apply Oblivious.bind (evals condition)
    intro test
    split
    · exact execs accepted
    · exact Oblivious.pure _
  | ifElse condition accepted rejected =>
    unfold exec
    apply Oblivious.bind (evals condition)
    intro test
    split
    · exact execs accepted
    · exact execs rejected
  | whileLoop condition body =>
    unfold exec
    refine Oblivious.iterate (Oblivious.bind (evals condition) fun test => ?_) rounds
    split
    · apply Oblivious.bind (execs body)
      intro flow
      cases flow <;> exact Oblivious.pure _
    · exact Oblivious.pure _
  | funDecl declaration =>
    unfold exec
    exact Oblivious.bind (Oblivious.reading fun _ _ => rfl) fun _ => Oblivious.bind (Oblivious.onStore _) fun _ =>
      Oblivious.bind (Oblivious.define _ _) fun _ => Oblivious.pure _
  | returnStmt keyword value =>
    cases value with
    | none => unfold exec; exact Oblivious.pure _
    | some value => unfold exec; exact Oblivious.bind (evals value) fun _ => Oblivious.pure _
  | classDecl name superclass methods =>
    unfold exec
    exact Oblivious.bind (oblivious_declareClass name superclass methods) fun _ => Oblivious.pure _

/-- No program can tell what has been printed before it. -/
theorem oblivious_run (rounds room : Nat) : (∀ expr, Oblivious (eval .byDistance rounds room expr)) ∧
    ∀ stmt, Oblivious (exec .byDistance rounds room stmt) := by
  induction room with
  | zero =>
    constructor
    · intro expr
      unfold eval
      exact Oblivious.halt _
    · intro stmt
      unfold exec
      exact Oblivious.halt _
  | succ room ih => exact ⟨oblivious_eval_succ ih.1 ih.2, oblivious_exec_succ ih.1 ih.2⟩

theorem oblivious_program (limits : Limits) (program : BoundProgram) :
    Oblivious (Run.program .byDistance limits program) := by
  apply Oblivious.bind (oblivious_sequence (oblivious_run limits.rounds limits.room).2 program)
  intro flow
  cases flow with
  | next => exact Oblivious.pure _
  | returned value => exact Oblivious.broken _

theorem program_cons (access : Access) (limits : Limits) (first : Stmt Distance) (rest : BoundProgram) :
    Run.program access limits (first :: rest) = (do
      match ← exec access limits.rounds limits.room first with
      | .next => Run.program access limits rest
      | .returned _ => Run.broken .returnOutsideFunction) := by
  unfold Run.program
  rw [sequence, bind_assoc]
  apply bind_congr
  intro flow
  cases flow with
  | next => rfl
  | returned value => rfl

/-- A program in two parts: the second one is executed if the first one comes to its end. -/
theorem program_append (access : Access) (limits : Limits) (first second : BoundProgram) :
    Run.program access limits (first ++ second) = (do
      Run.program access limits first
      Run.program access limits second) := by
  induction first with
  | nil => rfl
  | cons stmt rest ih =>
    have appended : stmt :: rest ++ second = stmt :: (rest ++ second) := rfl
    rw [appended, program_cons, program_cons, bind_assoc]
    apply bind_congr
    intro flow
    cases flow with
    | next => exact ih
    | returned value => rfl

end Run

end Lox

import Lox.Proofs.Run.Moments

/-!
The machines that actions and tasks end on, whether they end well or halt.
-/
namespace Lox

namespace Run

variable {α β : Type} {machine after : Machine}

/-- The machine that an action leaves, however it ends. -/
def last (action : Run α) (machine : Machine) : Machine :=
  match action machine with
  | .ok _ after | .error _ after => after

theorem last_of_ok {action : Run α} {value : α} (ended : action machine = .ok value after) :
    action.last machine = after := by
  simp only [last, ended]

theorem last_of_error {action : Run α} {halt : Halt} (ended : action machine = .error halt after) :
    action.last machine = after := by
  simp only [last, ended]

theorem last_bind_of_ok {action : Run α} {next : α → Run β} {value : α} (ended : action machine = .ok value after) :
    (action >>= next).last machine = (next value).last after := by
  simp only [last, Bind.bind, EStateM.bind, ended]

theorem last_bind_of_error {action : Run α} {next : α → Run β} {halt : Halt}
    (ended : action machine = .error halt after) : (action >>= next).last machine = after := by
  simp only [last, Bind.bind, EStateM.bind, ended]

/-- What comes after an action leaves the machine alone. -/
theorem last_bind_of_still {action : Run α} {next : α → Run β}
    (still : ∀ value after, (next value).last after = after) : (action >>= next).last machine = action.last machine := by
  cases ended : action machine with
  | ok value after => rw [last_bind_of_ok ended, still, last_of_ok ended]
  | error halt after => rw [last_bind_of_error ended, last_of_error ended]

theorem last_asCall (paren : Token) (action : Run α) : (asCall paren action).last machine = action.last machine := by
  unfold last asCall
  cases action machine with
  | ok value after => rfl
  | error halt after => cases halt <;> rfl

variable {exec : Stmt Distance → Run Flow}

theorem toStore_last_within (frame : FrameId) (action : Run α) :
    ((within frame action).last machine).toStore = (action.last { machine with current := frame }).toStore := by
  unfold last within
  simp only
  cases action { machine with current := frame } <;> rfl

/-- Statements in a frame of their own end where they would end with that frame at hand. -/
theorem toStore_last_block (enclosing : FrameId) (bindings : List (String × Value)) (body : List (Stmt Distance)) :
    ((block exec enclosing bindings body).last machine).toStore =
      ((sequence exec body).last (machine.inside enclosing bindings)).toStore := by
  have opened : (onFrames fun frames => frames.openFrame enclosing bindings) machine =
      .ok (machine.frames.openFrame enclosing bindings).1
        { machine with frames := (machine.frames.openFrame enclosing bindings).2 } := rfl
  exact (congrArg Machine.toStore (last_bind_of_ok opened)).trans (toStore_last_within _ _)

theorem last_activate (function : Function) (arguments : List Value) :
    (activate exec function arguments).last machine =
      (block exec function.closure ((function.declaration.params.map Token.lexeme).zip arguments)
        function.declaration.body).last machine := by
  refine last_bind_of_still fun flow after => ?_
  split
  · cases found : after.frames.getAt function.closure 0 "this" <;> simp [last, Bind.bind, EStateM.bind, reading, found] <;> rfl
  · cases flow <;> rfl

/-- A call with the right number of arguments. -/
theorem call_eq_invoke {callee : Value} {arguments : List Value} {arity : Nat} (paren : Token)
    (known : arity? callee machine = .ok (some arity) machine) (enough : arguments.length = arity) :
    call exec paren callee arguments machine = asCall paren (invoke exec paren arguments callee) machine := by
  simp only [call, Bind.bind, EStateM.bind, known, enough, ne_eq, not_true_eq_false, if_false]

theorem last_call_of_arity {callee : Value} {arguments : List Value} {arity : Nat} (paren : Token)
    (known : arity? callee machine = .ok (some arity) machine) (enough : arguments.length = arity) :
    (call exec paren callee arguments).last machine = (invoke exec paren arguments callee).last machine := by
  rw [last, call_eq_invoke paren known enough, ← last, last_asCall]

/-- Brackets only show in reports. -/
theorem last_call (paren paren' : Token) (callee : Value) (arguments : List Value) :
    (call exec paren callee arguments).last machine = (call exec paren' callee arguments).last machine := by
  have given {arity : Nat} (known : arity? callee machine = .ok (some arity) machine)
      (same : invoke exec paren arguments callee = invoke exec paren' arguments callee) :
      (call exec paren callee arguments).last machine = (call exec paren' callee arguments).last machine := by
    refine (last_bind_of_ok known).trans (Eq.trans ?_ (last_bind_of_ok known).symm)
    simp only
    split
    · rfl
    · rw [last_asCall, last_asCall, same]
  cases callee with
  | native native => exact given rfl rfl
  | function id => exact given rfl rfl
  | «class» id => exact given rfl rfl
  | _ => rfl

end Run

open Run

namespace Moment

/-- The machine that a task ends on. Reading changes nothing. -/
def last (rounds : Nat) : Moment → Machine
  | ⟨.evaluate room expr, machine⟩ => (eval .byDistance rounds room expr).last machine
  | ⟨.evaluateAll room exprs, machine⟩ => (values (eval .byDistance rounds room) exprs).last machine
  | ⟨.execute room stmt, machine⟩ => (exec .byDistance rounds room stmt).last machine
  | ⟨.executeAll room body, machine⟩ => (sequence (exec .byDistance rounds room) body).last machine
  | ⟨.loop room left condition body, machine⟩ =>
    (iterate (round (eval .byDistance rounds room) (exec .byDistance rounds room) condition body) left).last machine
  | ⟨.read _ _, machine⟩ | ⟨.superAndThis _, machine⟩ => machine
  | ⟨.assign name note value, machine⟩ => (Access.byDistance.assign name note value).last machine
  | ⟨.call room callee arguments, machine⟩ =>
    (call (exec .byDistance rounds room) default callee arguments).last machine
  | ⟨.activate room function arguments, machine⟩ =>
    (activate (exec .byDistance rounds room) function arguments).last machine

variable {rounds room : Nat} {machine : Machine} {arguments : List Value} {part : Moment}

/-- A call ends with what it leads to. -/
theorem last_of_leads_call {callee : Value} (leads : Leads rounds ⟨.call room callee arguments, machine⟩ part) :
    part.last rounds = (call (exec .byDistance rounds room) default callee arguments).last machine := by
  obtain ⟨task, after⟩ := part
  cases callee with
  | function id =>
    obtain ⟨enough, function, ended, isLeft⟩ := leads
    cases isLeft
    rw [last_call_of_arity default rfl enough, invoke, last_bind_of_ok ended]
    rfl
  | «class» id =>
    obtain ⟨enough, ⟨made, initializer⟩, ended, isLeft⟩ := leads
    obtain ⟨initializer, rfl, rfl⟩ := Option.map_eq_some_iff.mp isLeft
    rw [last_call_of_arity default rfl enough, invoke, instantiate_eq]
    exact ((last_bind_of_ok ended).trans (last_bind_of_still fun _ _ => rfl)).symm
  | _ => exact leads.elim

/-- The activation of a function ends with its body. -/
theorem toStore_last_of_leads_activate {function : Function}
    (leads : Leads rounds ⟨.activate room function arguments, machine⟩ part) :
    (part.last rounds).toStore =
      ((activate (exec .byDistance rounds room) function arguments).last machine).toStore := by
  obtain rfl := leads
  rw [last_activate, toStore_last_block]
  rfl

end Moment

end Lox

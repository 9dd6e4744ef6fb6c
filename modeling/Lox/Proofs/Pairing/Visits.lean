import Lox.Proofs.Pairing.Moments
import Lox.Proofs.Pairing.Runs

/-!
What a run comes by while another one goes along with it. Every task that another one leads to is prepared for on
both sides, and the store that it leaves becomes that of the other one in the end; so both hold for all tasks of a
whole run.
-/
namespace Lox

open Run

namespace Pairing

variable {pairing : Pairing} {scene : pairing.Scene} {around next : pairing.Around} {rounds room : Nat}

section Expressions

variable {expr expr' : Expr Distance}

theorem passes_evaluate (lawful : pairing.Lawful) (agrees : scene.Agrees) (at_ : scene.At around)
    (matching : pairing.MatchExpr around expr expr') :
    Passes rounds (eval .byDistance rounds room expr) (eval pairing.right rounds room expr') scene
      (· = ⟨.evaluate room expr, scene.left⟩) fun value after => after.Valid value :=
  ((goes_alike lawful rounds room).1 agrees at_ matching).visit agrees ⟨around, expr', at_, matching⟩ rfl

theorem passes_evaluateAll (lawful : pairing.Lawful) {exprs exprs' : List (Expr Distance)} (agrees : scene.Agrees)
    (at_ : scene.At around) (matching : pairing.MatchExprs around exprs exprs') :
    Passes rounds (values (eval .byDistance rounds room) exprs) (values (eval pairing.right rounds room) exprs') scene
      (· = ⟨.evaluateAll room exprs, scene.left⟩) fun results after => ∀ value ∈ results, after.Valid value :=
  (goes_values lawful (goes_alike lawful rounds room).1 agrees at_ matching).visit agrees ⟨around, exprs', at_, matching⟩ rfl

theorem passes_values (lawful : pairing.Lawful) {first first' : Expr Distance} {rest rest' : List (Expr Distance)}
    (agrees : scene.Agrees) (at_ : scene.At around) (head : pairing.MatchExpr around first first')
    (tail : pairing.MatchExprs around rest rest') :
    Passes rounds (values (eval .byDistance rounds room) (first :: rest))
      (values (eval pairing.right rounds room) (first' :: rest')) scene
      (fun part => part = ⟨.evaluate room first, scene.left⟩ ∨ (eval .byDistance rounds room first).Leaves scene.left
        (fun _ => some (.evaluateAll room rest)) part) fun _ _ => True := by
  refine (passes_evaluate lawful agrees at_ head).bind lawful fun value after moved agrees' _ => ?_
  exact ((passes_evaluateAll lawful agrees' (at_.step lawful moved) tail).andThen lawful
    fun _ _ _ agrees'' _ => Goes.pure lawful agrees'' trivial).next

/-- The callee and the arguments of a call, before it is made. -/
theorem passes_callee (lawful : pairing.Lawful) {callee callee' : Expr Distance} {arguments arguments' : List (Expr Distance)}
    (agrees : scene.Agrees) (at_ : scene.At around) (part : pairing.MatchExpr around callee callee')
    (parts : pairing.MatchExprs around arguments arguments') :
    Passes rounds
      (do
        let callee ← eval .byDistance rounds room callee
        return (callee, ← values (eval .byDistance rounds room) arguments))
      (do
        let callee ← eval pairing.right rounds room callee'
        return (callee, ← values (eval pairing.right rounds room) arguments'))
      scene
      (fun part => part = ⟨.evaluate room callee, scene.left⟩ ∨ (eval .byDistance rounds room callee).Leaves scene.left
        (fun _ => some (.evaluateAll room arguments)) part)
      fun pair after => after.Valid pair.1 ∧ ∀ value ∈ pair.2, after.Valid value := by
  refine (passes_evaluate lawful agrees at_ part).bind lawful fun value after moved agrees' valid => ?_
  refine ((passes_evaluateAll lawful agrees' (at_.step lawful moved) parts).andThen lawful
    fun results last moved' agrees'' valid' => ?_).next
  exact Goes.pure lawful agrees'' ⟨valid.step lawful moved', valid'⟩

theorem passes_call (lawful : pairing.Lawful) {paren paren' : Token} {callee : Value} {arguments : List Value}
    (same : pairing.Same paren paren') (agrees : scene.Agrees) (callable : scene.Valid callee)
    (valid : ∀ value ∈ arguments, scene.Valid value) :
    Passes rounds (call (exec .byDistance rounds room) paren callee arguments)
      (call (exec pairing.right rounds room) paren' callee arguments) scene
      (· = ⟨.call room callee arguments, scene.left⟩) fun value after => after.Valid value :=
  (goes_call lawful (goes_alike lawful rounds room).2 same agrees callable valid).visit agrees ⟨callable, valid⟩
    (last_call default paren callee arguments)

/-- A call with the evaluation of its callee and its arguments as one step. -/
theorem eval_call (access : Access) (rounds room : Nat) (callee : Expr Distance) (paren : Token)
    (arguments : List (Expr Distance)) : eval access rounds (room + 1) (.call callee paren arguments) = (do
      let pair ← (do
        let callee ← eval access rounds room callee
        return (callee, ← values (eval access rounds room) arguments))
      call (exec access rounds room) paren pair.1 pair.2) := by
  simp only [eval, bind_assoc, pure_bind]

theorem passes_callExpr (lawful : pairing.Lawful) {paren paren' : Token} {callee callee' : Expr Distance}
    {arguments arguments' : List (Expr Distance)} (same : pairing.Same paren paren') (agrees : scene.Agrees)
    (at_ : scene.At around) (part : pairing.MatchExpr around callee callee')
    (parts : pairing.MatchExprs around arguments arguments') :
    Passes rounds (eval .byDistance rounds (room + 1) (.call callee paren arguments))
      (eval pairing.right rounds (room + 1) (.call callee' paren' arguments')) scene
      (fun part => (part = ⟨.evaluate room callee, scene.left⟩ ∨ (eval .byDistance rounds room callee).Leaves scene.left
        (fun _ => some (.evaluateAll room arguments)) part) ∨
        (do
          let callee ← eval .byDistance rounds room callee
          return (callee, ← values (eval .byDistance rounds room) arguments)).Leaves scene.left
          (fun (callee, arguments) => some (.call room callee arguments)) part)
      fun value after => after.Valid value := by
  rw [eval_call, eval_call]
  refine (passes_callee lawful agrees at_ part parts).bind lawful fun pair after moved agrees' ⟨callable, valid⟩ => ?_
  exact (passes_call lawful same agrees' callable valid).next

theorem passes_expr (lawful : pairing.Lawful) (agrees : scene.Agrees) (at_ : scene.At around)
    (matching : pairing.MatchExpr around expr expr') :
    Passes rounds (eval .byDistance rounds (room + 1) expr) (eval pairing.right rounds (room + 1) expr') scene
      (fun part => Moment.OfExpr rounds room scene.left part expr) fun value after => after.Valid value := by
  have goes := (goes_alike lawful rounds (room + 1)).1 agrees at_ matching
  cases matching with
  | literal value => exact goes.unvisited fun _ => id
  | grouping part =>
    unfold eval
    exact passes_evaluate lawful agrees at_ part
  | unary same part =>
    unfold eval
    exact (passes_evaluate lawful agrees at_ part).andThen lawful fun value after _ agrees' _ =>
      goes_unary lawful value agrees' same
  | binary same first second =>
    unfold eval
    refine (passes_evaluate lawful agrees at_ first).bind lawful fun left after moved agrees' _ => ?_
    exact ((passes_evaluate lawful agrees' (at_.step lawful moved) second).andThen lawful
      fun right _ _ agrees'' _ => goes_binary lawful left right agrees'' same).next
  | logical _ first second =>
    unfold eval
    refine (passes_evaluate lawful agrees at_ first).bind lawful fun left after moved agrees' valid => ?_
    split
    · exact (Goes.pure lawful agrees' valid).done
    · exact (passes_evaluate lawful agrees' (at_.step lawful moved) second).next
  | read reads => exact goes.look agrees ⟨around, _, at_, reads⟩ rfl
  | @assign name name' note _ _ _ assigns part =>
    unfold eval
    refine (passes_evaluate lawful agrees at_ part).bind lawful fun value after moved agrees' valid => ?_
    have at' := at_.step lawful moved
    have prepared : after.Prepared (.assign name note value) := ⟨around, _, at', assigns, valid⟩
    refine (((goes_assign lawful agrees' at' assigns valid).visit agrees' prepared rfl).andThen
      lawful fun _ _ moved' agrees'' _ => ?_).next
    exact Goes.pure lawful agrees'' (valid.step lawful moved')
  | call same part parts =>
    exact (passes_callExpr lawful same agrees at_ part parts).weaken fun part => or_assoc.mpr
  | get same spelled part =>
    unfold eval
    refine (passes_evaluate lawful agrees at_ part).andThen lawful fun value _ _ agrees' valid => ?_
    cases value with
    | «instance» id => exact goes_property lawful agrees' valid same spelled
    | _ => exact Goes.fail lawful agrees' _ same
  | set same spelled first second =>
    unfold eval
    refine (passes_evaluate lawful agrees at_ first).bind lawful fun target after moved agrees' valid => ?_
    cases target with
    | «instance» id =>
      refine ((passes_evaluate lawful agrees' (at_.step lawful moved) second).andThen lawful
        fun value _ moved' agrees'' valid' => ?_).next
      rw [← spelled]
      refine Goes.bind lawful (goes_setField lawful agrees'' id _ valid') fun _ _ moved'' agrees₃ _ => ?_
      exact Goes.pure lawful agrees₃ (valid'.step lawful moved'')
    | _ => exact (Goes.fail lawful agrees' _ same).done
  | this reads => exact goes.look agrees ⟨around, _, at_, reads⟩ rfl
  | super supers same spelled => exact goes.look agrees ⟨around, _, _, _, at_, supers⟩ rfl

end Expressions

section Statements

variable {stmt stmt' : Stmt Distance} {body body' : List (Stmt Distance)}

theorem passes_execute (lawful : pairing.Lawful) (agrees : scene.Agrees) (at_ : scene.At around)
    (matching : pairing.MatchStmt around next stmt stmt') :
    Passes rounds (exec .byDistance rounds room stmt) (exec pairing.right rounds room stmt') scene
      (· = ⟨.execute room stmt, scene.left⟩) fun flow after => after.At next ∧ Fine flow after :=
  ((goes_alike lawful rounds room).2 agrees at_ matching).visit agrees ⟨around, next, stmt', at_, matching⟩ rfl

/-- A statement that another one goes on with. -/
theorem passes_branch (lawful : pairing.Lawful) (agrees : scene.Agrees) (at_ : scene.At around)
    (matching : pairing.MatchStmt around next stmt stmt') :
    Passes rounds (exec .byDistance rounds room stmt) (exec pairing.right rounds room stmt') scene
      (fun part => part.machine = scene.left ∧ some (.execute room stmt) = some part.task) fun _ _ => True := by
  have runs : Passes rounds (exec .byDistance rounds room stmt) (exec pairing.right rounds room stmt') scene _ _ :=
    passes_execute lawful agrees at_ matching
  exact Passes.next ⟨runs.goes.weaken fun _ _ _ _ _ => trivial, runs.visits⟩

/-- Statements in a frame of their own are prepared for there. -/
theorem ready_inside (lawful : pairing.Lawful) {enclosing : FrameId} {params params' : List Token} {values : List Value}
    {inside last : pairing.Around} (agrees : scene.Agrees) (stands : pairing.Stands scene.world around enclosing)
    (opens : pairing.Opens around params params' inside) (enough : params.length = values.length)
    (valid : ∀ value ∈ values, scene.Valid value) (matching : pairing.MatchBody inside last body body') :
    pairing.Ready ⟨.executeAll room body, scene.left.inside enclosing ((params.map Token.lexeme).zip values)⟩ := by
  obtain ⟨after, same, _, _, inner, at_⟩ := (goes_opened lawful agrees stands opens enough valid).of_ok rfl
  refine ⟨_, ?_, inner, inside, last, body', at_, matching⟩
  simp only [same]
  rfl

theorem passes_stmt (lawful : pairing.Lawful) (agrees : scene.Agrees) (at_ : scene.At around)
    (matching : pairing.MatchStmt around next stmt stmt') :
    Passes rounds (exec .byDistance rounds (room + 1) stmt) (exec pairing.right rounds (room + 1) stmt') scene
      (fun part => Moment.OfStmt rounds room scene.left part stmt) fun _ _ => True := by
  have goes := ((goes_alike lawful rounds (room + 1)).2 agrees at_ matching).weaken fun _ _ _ _ _ => trivial
  cases matching with
  | expression part =>
    unfold exec
    exact (passes_evaluate lawful agrees at_ part).andThen lawful fun _ _ _ agrees' _ => Goes.pure lawful agrees' trivial
  | print part =>
    unfold exec
    refine (passes_evaluate lawful agrees at_ part).andThen lawful fun value _ _ agrees' valid =>
      Goes.reading (shown_eq agrees' valid) ?_
    exact Goes.bind lawful (goes_print lawful _ agrees') fun _ _ _ agrees'' _ => Goes.pure lawful agrees'' trivial
  | varDecl _ => exact goes.unvisited fun _ => id
  | varInit part declares =>
    unfold exec
    refine (passes_evaluate lawful agrees at_ part).andThen lawful fun value _ moved agrees' valid => ?_
    refine Goes.bind lawful (goes_define lawful agrees' (at_.step lawful moved) declares
      fun _ moved' _ => valid.step lawful moved') fun _ _ _ agrees'' _ => ?_
    exact Goes.pure lawful agrees'' trivial
  | block opens parts =>
    apply goes.ending
    · rintro _ rfl
      have enough : ([] : List Token).length = ([] : List Value).length := rfl
      exact ready_inside lawful agrees at_ opens enough (fun _ => List.not_mem_nil.elim) parts
    · rintro _ rfl
      exact (toStore_last_block scene.left.current [] _).symm
  | ifThen test part =>
    unfold exec
    refine (passes_evaluate lawful agrees at_ test).bind lawful fun value after moved agrees' _ => ?_
    split
    · exact passes_branch lawful agrees' (at_.step lawful moved) part
    · exact (Goes.pure lawful agrees' trivial).done
  | ifElse test first second =>
    unfold exec
    refine (passes_evaluate lawful agrees at_ test).bind lawful fun value after moved agrees' _ => ?_
    split
    · exact passes_branch lawful agrees' (at_.step lawful moved) first
    · exact passes_branch lawful agrees' (at_.step lawful moved) second
  | whileLoop test part => exact goes.visit agrees ⟨around, _, _, at_, test, part⟩ rfl
  | funDecl declares part => exact goes.unvisited fun _ => id
  | returnNone _ => exact goes.unvisited fun _ => id
  | returnSome _ part =>
    unfold exec
    exact (passes_evaluate lawful agrees at_ part).andThen lawful fun _ _ _ agrees' _ => Goes.pure lawful agrees' trivial
  | classDecl spelled parent declares inherits parts =>
    cases parent with
    | none => exact goes.unvisited fun _ => id
    | some same reads => exact goes.look agrees ⟨around, _, at_, reads⟩ rfl

theorem passes_sequence (lawful : pairing.Lawful) {first first' : Stmt Distance} {rest rest' : List (Stmt Distance)}
    {last : pairing.Around} (agrees : scene.Agrees) (at_ : scene.At around)
    (head : pairing.MatchStmt around next first first') (tail : pairing.MatchBody next last rest rest') :
    Passes rounds (sequence (exec .byDistance rounds room) (first :: rest))
      (sequence (exec pairing.right rounds room) (first' :: rest')) scene
      (fun part => part = ⟨.execute room first, scene.left⟩ ∨ (exec .byDistance rounds room first).Leaves scene.left
        (fun | .next => some (.executeAll room rest) | .returned _ => none) part) fun _ _ => True := by
  refine (passes_execute lawful agrees at_ head).bind lawful fun flow after _ agrees' ⟨at', _⟩ => ?_
  cases flow with
  | next =>
    have prepared : after.Prepared (.executeAll room rest) := ⟨next, last, rest', at', tail⟩
    have runs := goes_sequence lawful (goes_alike lawful rounds room).2 agrees' at' tail
    exact ((runs.weaken fun _ _ _ _ _ => trivial).visit agrees' prepared rfl).next
  | returned value => exact (Goes.pure lawful agrees' trivial).done

theorem passes_round (lawful : pairing.Lawful) {condition condition' : Expr Distance} (agrees : scene.Agrees)
    (at_ : scene.At around) (test : pairing.MatchExpr around condition condition')
    (part : pairing.MatchStmt around around stmt stmt') :
    Passes rounds (round (eval .byDistance rounds room) (exec .byDistance rounds room) condition stmt)
      (round (eval pairing.right rounds room) (exec pairing.right rounds room) condition' stmt') scene
      (fun part => part = ⟨.evaluate room condition, scene.left⟩ ∨
        (eval .byDistance rounds room condition).Leaves scene.left
          (fun test => if test.isTruthy then some (.execute room stmt) else none) part)
      fun _ after => after.At around := by
  refine (passes_evaluate lawful agrees at_ test).bind lawful fun value after moved agrees' _ => ?_
  have at' := at_.step lawful moved
  split
  · refine ((passes_execute lawful agrees' at' part).andThen lawful fun flow _ moved' agrees'' ⟨at'', _⟩ => ?_).next
    cases flow with
    | next => exact Goes.pure lawful agrees'' at''
    | returned value => exact Goes.pure lawful agrees'' at''
  · exact (Goes.pure lawful agrees' at').done

theorem goes_loop (lawful : pairing.Lawful) {condition condition' : Expr Distance} (agrees : scene.Agrees)
    (at_ : scene.At around) (test : pairing.MatchExpr around condition condition')
    (part : pairing.MatchStmt around around stmt stmt') (left : Nat) :
    Goes (iterate (round (eval .byDistance rounds room) (exec .byDistance rounds room) condition stmt) left)
      (iterate (round (eval pairing.right rounds room) (exec pairing.right rounds room) condition' stmt') left) scene
      fun _ _ => True := by
  obtain ⟨evaluates, executes⟩ := goes_alike lawful rounds room
  refine goes_iterate lawful (I := fun scene => scene.At around) (fun scene agrees at_ => ?_) left agrees at_
  refine (goes_round lawful evaluates executes agrees at_ test part).weaken fun ending last _ _ ⟨at', _⟩ => ?_
  cases ending with
  | none => exact at'
  | some flow => trivial

theorem passes_loop (lawful : pairing.Lawful) {condition condition' : Expr Distance} {left : Nat} (agrees : scene.Agrees)
    (at_ : scene.At around) (test : pairing.MatchExpr around condition condition')
    (part : pairing.MatchStmt around around stmt stmt') :
    let step := round (eval .byDistance rounds room) (exec .byDistance rounds room) condition stmt
    Passes rounds (iterate step (left + 1))
      (iterate (round (eval pairing.right rounds room) (exec pairing.right rounds room) condition' stmt') (left + 1)) scene
      (fun part => (part = ⟨.evaluate room condition, scene.left⟩ ∨
        (eval .byDistance rounds room condition).Leaves scene.left
          (fun test => if test.isTruthy then some (.execute room stmt) else none) part) ∨
        step.Leaves scene.left (fun | none => some (.loop room left condition stmt) | some _ => none) part)
      fun _ _ => True := by
  simp only [iterate_succ]
  refine (passes_round lawful agrees at_ test part).bind lawful fun ending after _ agrees' at' => ?_
  cases ending with
  | none =>
    have prepared : after.Prepared (.loop room left condition stmt) := ⟨around, condition', stmt', at', test, part⟩
    exact ((goes_loop lawful agrees' at' test part left).visit agrees' prepared rfl).next
  | some flow => exact (Goes.pure lawful agrees' trivial).done

end Statements

section Calls

variable {function function' : Function} {arguments : List Value}

theorem ready_body (lawful : pairing.Lawful) (agrees : scene.Agrees) (callable : pairing.Callable scene.world function function')
    (valid : ∀ value ∈ arguments, scene.Valid value) (enough : arguments.length = function.declaration.params.length) :
    pairing.Ready ⟨.executeAll room function.declaration.body,
      scene.left.inside function.closure ((function.declaration.params.map Token.lexeme).zip arguments)⟩ := by
  obtain ⟨_, _, around, stands, matching⟩ := callable
  obtain ⟨declaration, closure, isInitializer⟩ := function
  generalize function'.declaration = declaration' at matching
  cases matching with
  | mk _ _ opens parts => exact ready_inside lawful agrees stands opens enough.symm valid parts

/-- What a call leads to is prepared for. -/
theorem ready_of_call (lawful : pairing.Lawful) {callee : Value} {part : Moment} (agrees : scene.Agrees)
    (callable : scene.Valid callee) (valid : ∀ value ∈ arguments, scene.Valid value)
    (leads : Moment.Leads rounds ⟨.call room callee arguments, scene.left⟩ part) : pairing.Ready part := by
  obtain ⟨task, machine⟩ := part
  cases callee with
  | function id =>
    obtain ⟨enough, function, ended, isLeft⟩ := leads
    cases isLeft
    obtain ⟨function', function'', found, found', callable⟩ := callable
    rw [function_eq_ok found] at ended
    cases ended
    refine ⟨scene, rfl, agrees, ⟨id, function'', found, found', callable⟩, valid, ?_⟩
    rw [enough, Store.functionArity, found]
  | «class» id =>
    obtain ⟨enough, ⟨made, initializer⟩, ended, isLeft⟩ := leads
    obtain ⟨initializer, rfl, rfl⟩ := Option.map_eq_some_iff.mp isLeft
    rw [prepare_eq] at ended
    obtain ⟨after, moved, agrees', ⟨⟨made', bound⟩, ended', _, _, ready⟩ | ⟨halt, _, ended', _⟩⟩ :=
      goes_enroll lawful agrees callable
    · simp only [Bind.bind, EStateM.bind, ended'] at ended
      cases bound with
      | none => cases ended
      | some bound =>
        obtain ⟨function, function', held, held', callable, arity⟩ := ready bound rfl
        have found : Run.function bound after.left = .ok function after.left := function_eq_ok held
        simp only [EStateM.bind, found] at ended
        cases ended
        exact ⟨after, rfl, agrees', ⟨bound, function', held, held', callable⟩,
          fun value member => (valid value member).step lawful moved, enough.trans arity.symm⟩
    · simp only [Bind.bind, EStateM.bind, ended'] at ended
      cases ended
  | _ => exact leads.elim

end Calls

/-- What one task preserves: what it leads to is prepared for, and leaves a store that becomes its own. -/
theorem Ready.leads (lawful : pairing.Lawful) {moment part : Moment} (ready : pairing.Ready moment)
    (leads : moment.Leads rounds part) :
    pairing.Ready part ∧ pairing.Becomes (part.last rounds).toStore (moment.last rounds).toStore := by
  obtain ⟨task, machine⟩ := moment
  obtain ⟨scene, rfl, agrees, prepared⟩ := ready
  cases task with
  | evaluate room expr =>
    obtain ⟨around, expr', at_, matching⟩ := prepared
    cases room with
    | zero => cases leads
    | succ room => exact (passes_expr lawful agrees at_ matching).visits part leads
  | execute room stmt =>
    obtain ⟨around, next, stmt', at_, matching⟩ := prepared
    cases room with
    | zero => cases leads
    | succ room => exact (passes_stmt lawful agrees at_ matching).visits part leads
  | evaluateAll room exprs =>
    obtain ⟨around, exprs', at_, matching⟩ := prepared
    cases matching with
    | nil => cases leads
    | cons head tail => exact (passes_values lawful agrees at_ head tail).visits part leads
  | executeAll room body =>
    obtain ⟨around, next, body', at_, matching⟩ := prepared
    cases matching with
    | nil => cases leads
    | cons head tail => exact (passes_sequence lawful agrees at_ head tail).visits part leads
  | loop room left condition body =>
    obtain ⟨around, condition', body', at_, test, inside⟩ := prepared
    cases left with
    | zero => cases leads
    | succ left => exact (passes_loop lawful agrees at_ test inside).visits part (or_assoc.mpr leads)
  | read name note => cases leads
  | assign name note value => cases leads
  | superAndThis note => cases leads
  | call room callee arguments =>
    refine ⟨ready_of_call lawful agrees prepared.1 prepared.2 leads, ?_⟩
    rw [Moment.last_of_leads_call leads]
    exact .refl
  | activate room function arguments =>
    obtain ⟨⟨_, _, _, _, callable⟩, valid, enough⟩ := prepared
    have ends := Moment.toStore_last_of_leads_activate leads
    obtain rfl := leads
    refine ⟨ready_body lawful agrees callable valid enough, ?_⟩
    rw [ends]
    exact .refl

/-- The store only ever becomes a later one while a task is carried out. -/
theorem Ready.becomes (lawful : pairing.Lawful) (same : pairing.Same default default) {moment : Moment}
    (ready : pairing.Ready moment) : pairing.Becomes moment.machine.toStore (moment.last rounds).toStore := by
  obtain ⟨task, machine⟩ := moment
  obtain ⟨scene, rfl, agrees, prepared⟩ := ready
  have alike (room : Nat) := goes_alike lawful rounds room
  cases task with
  | evaluate room expr =>
    obtain ⟨around, expr', at_, matching⟩ := prepared
    exact ((alike room).1 agrees at_ matching).becomes agrees
  | execute room stmt =>
    obtain ⟨around, next, stmt', at_, matching⟩ := prepared
    exact ((alike room).2 agrees at_ matching).becomes agrees
  | evaluateAll room exprs =>
    obtain ⟨around, exprs', at_, matching⟩ := prepared
    exact (goes_values lawful (alike room).1 agrees at_ matching).becomes agrees
  | executeAll room body =>
    obtain ⟨around, next, body', at_, matching⟩ := prepared
    exact (goes_sequence lawful (alike room).2 agrees at_ matching).becomes agrees
  | loop room left condition body =>
    obtain ⟨around, condition', body', at_, test, inside⟩ := prepared
    exact (goes_loop lawful agrees at_ test inside left).becomes agrees
  | read name note => exact .refl
  | assign name note value =>
    obtain ⟨around, reference', at_, assigns, valid⟩ := prepared
    exact (goes_assign lawful agrees at_ assigns valid).becomes agrees
  | superAndThis note => exact .refl
  | call room callee arguments => exact (goes_call lawful (alike room).2 same agrees prepared.1 prepared.2).becomes agrees
  | activate room function arguments =>
    obtain ⟨⟨_, _, _, _, callable⟩, valid, enough⟩ := prepared
    exact (goes_activate lawful (alike room).2 agrees callable valid enough).becomes agrees

/-- What a whole run preserves. -/
theorem Ready.run (lawful : pairing.Lawful) {moment later : Moment} (ready : pairing.Ready moment)
    (leads : Relation.ReflTransGen (Moment.Leads rounds) moment later) :
    pairing.Ready later ∧ pairing.Becomes (later.last rounds).toStore (moment.last rounds).toStore := by
  induction leads with
  | refl => exact ⟨ready, .refl⟩
  | tail _ step ih =>
    obtain ⟨ready', becomes⟩ := ih.1.leads lawful step
    exact ⟨ready', becomes.trans ih.2⟩

end Pairing

end Lox

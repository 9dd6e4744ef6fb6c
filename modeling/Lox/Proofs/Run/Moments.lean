import Lox.Proofs.Run.Soundness
import Mathlib.Logic.Relation

/-!
A run taken apart. Whatever a program sets about in its course is a task, met on a certain machine; the
tasks that one gives rise to follow the evaluation of the tree, each on the machine that the earlier ones
have left. What a safe program relies on holds at every such moment, however the run ends.
-/
namespace Lox

/-- What a run can set about, with the room that is left for it. -/
inductive Task where
  | evaluate (room : Nat) (expr : Expr Distance)
  | evaluateAll (room : Nat) (exprs : List (Expr Distance))
  | execute (room : Nat) (stmt : Stmt Distance)
  | executeAll (room : Nat) (body : List (Stmt Distance))
  | loop (room rounds : Nat) (condition : Expr Distance) (body : Stmt Distance)
  | read (name : Token) (note : Distance)
  | assign (name : Token) (note : Distance) (value : Value)
  | superAndThis (note : Distance)
  | call (room : Nat) (callee : Value) (arguments : List Value)
  | activate (room : Nat) (function : Function) (arguments : List Value)

/-- A task on the machine that it is met on. -/
structure Moment where
  task : Task
  machine : Machine

/-- The machine with a new frame at hand. -/
def Machine.inside (machine : Machine) (enclosing : FrameId) (bindings : List (String × Value)) : Machine :=
  { machine with
    frames := (machine.frames.openFrame enclosing bindings).2
    current := (machine.frames.openFrame enclosing bindings).1 }

open Run

/-- The moment at which a task is met after an action that has ended well. The result of the action may
leave no task. -/
def Run.Leaves {α : Type} (action : Run α) (machine : Machine) (task? : α → Option Task) (moment : Moment) :
    Prop :=
  ∃ value, action machine = .ok value moment.machine ∧ task? value = some moment.task

namespace Moment

variable (rounds : Nat)

/-- The moments that the evaluation of an expression leads to at once. -/
def OfExpr (room : Nat) (machine : Machine) (part : Moment) : Expr Distance → Prop
  | .literal _ => False
  | .grouping inner | .unary _ _ inner | .get inner _ => part = ⟨.evaluate room inner, machine⟩
  | .binary _ left _ right => part = ⟨.evaluate room left, machine⟩ ∨
      (eval .byDistance rounds room left).Leaves machine (fun _ => some (.evaluate room right)) part
  | .logical op left _ right => part = ⟨.evaluate room left, machine⟩ ∨
      (eval .byDistance rounds room left).Leaves machine
        (fun value => if op.decidedBy value then none else some (.evaluate room right)) part
  | .read name note | .this name note => part = ⟨.read name note, machine⟩
  | .assign name note value => part = ⟨.evaluate room value, machine⟩ ∨
      (eval .byDistance rounds room value).Leaves machine (fun value => some (.assign name note value)) part
  | .call callee _ arguments => part = ⟨.evaluate room callee, machine⟩ ∨
      (eval .byDistance rounds room callee).Leaves machine (fun _ => some (.evaluateAll room arguments)) part ∨
      (do
        let callee ← eval .byDistance rounds room callee
        return (callee, ← values (eval .byDistance rounds room) arguments)).Leaves machine
        (fun (callee, arguments) => some (.call room callee arguments)) part
  | .set object _ value => part = ⟨.evaluate room object, machine⟩ ∨
      (eval .byDistance rounds room object).Leaves machine
        (fun | .instance _ => some (.evaluate room value) | _ => none) part
  | .super _ note _ => part = ⟨.superAndThis note, machine⟩

/-- The moments that the execution of a statement leads to at once. -/
def OfStmt (room : Nat) (machine : Machine) (part : Moment) : Stmt Distance → Prop
  | .expression value | .print value | .varDecl _ (some value) | .returnStmt _ (some value) =>
    part = ⟨.evaluate room value, machine⟩
  | .varDecl _ none | .returnStmt _ none | .funDecl _ | .classDecl _ none _ => False
  | .block body => part = ⟨.executeAll room body, machine.inside machine.current []⟩
  | .ifThen condition accepted => part = ⟨.evaluate room condition, machine⟩ ∨
      (eval .byDistance rounds room condition).Leaves machine
        (fun test => if test.isTruthy then some (.execute room accepted) else none) part
  | .ifElse condition accepted rejected => part = ⟨.evaluate room condition, machine⟩ ∨
      (eval .byDistance rounds room condition).Leaves machine
        (fun test => some (.execute room (if test.isTruthy then accepted else rejected))) part
  | .whileLoop condition body => part = ⟨.loop room rounds condition body, machine⟩
  | .classDecl _ (some (name, note)) _ => part = ⟨.read name note, machine⟩

/-- The moments that a task leads to at once. -/
def Leads (moment part : Moment) : Prop :=
  match moment with
  | ⟨.evaluate 0 _, _⟩ | ⟨.execute 0 _, _⟩ => False
  | ⟨.evaluate (room + 1) expr, machine⟩ => OfExpr rounds room machine part expr
  | ⟨.execute (room + 1) stmt, machine⟩ => OfStmt rounds room machine part stmt
  | ⟨.evaluateAll _ [], _⟩ | ⟨.executeAll _ [], _⟩ | ⟨.loop _ 0 _ _, _⟩ => False
  | ⟨.evaluateAll room (first :: rest), machine⟩ => part = ⟨.evaluate room first, machine⟩ ∨
      (eval .byDistance rounds room first).Leaves machine (fun _ => some (.evaluateAll room rest)) part
  | ⟨.executeAll room (first :: rest), machine⟩ => part = ⟨.execute room first, machine⟩ ∨
      (exec .byDistance rounds room first).Leaves machine
        (fun | .next => some (.executeAll room rest) | .returned _ => none) part
  | ⟨.loop room (left + 1) condition body, machine⟩ => part = ⟨.evaluate room condition, machine⟩ ∨
      (eval .byDistance rounds room condition).Leaves machine
        (fun test => if test.isTruthy then some (.execute room body) else none) part ∨
      (round (eval .byDistance rounds room) (exec .byDistance rounds room) condition body).Leaves machine
        (fun | none => some (.loop room left condition body) | some _ => none) part
  | ⟨.read .., _⟩ | ⟨.assign .., _⟩ | ⟨.superAndThis _, _⟩ => False
  | ⟨.call room (.function id) arguments, machine⟩ => arguments.length = machine.functionArity id ∧
      (function id).Leaves machine (fun function => some (.activate room function arguments)) part
  | ⟨.call room (.class id) arguments, machine⟩ => arguments.length = machine.classArity id ∧
      (prepare id).Leaves machine
        (fun (_, initializer?) => initializer?.map (.activate room · arguments)) part
  | ⟨.call .., _⟩ => False
  | ⟨.activate room function arguments, machine⟩ =>
    part = ⟨.executeAll room function.declaration.body,
      machine.inside function.closure ((function.declaration.params.map Token.lexeme).zip arguments)⟩

/-- What a task relies on. A reference with a distance leads to a frame that has the name, an assignment
with a distance leads to a frame; `super` has a distance, at which there is a class, and the instance is in
the frame right inside of that one; an initialiser is bound to an instance. -/
def Secure : Moment → Prop
  | ⟨.read name (some distance), machine⟩ =>
    ∃ frame, machine.frames.link? machine.current distance = some frame ∧
      (machine.frames.names frame).contains name.lexeme = true
  | ⟨.assign _ (some distance) _, machine⟩ =>
    ∃ frame, machine.frames.link? machine.current distance = some frame
  | ⟨.superAndThis note, machine⟩ => ∃ distance parent receiver, note = some distance ∧ 1 ≤ distance ∧
      machine.frames.getAt machine.current distance "super" = .ok (.class parent) ∧
      machine.frames.getAt machine.current (distance - 1) "this" = .ok (.instance receiver)
  | ⟨.activate _ function _, machine⟩ => function.isInitializer = true →
      ∃ value, machine.frames.getAt function.closure 0 "this" = .ok value
  | _ => True

variable {rounds}

/-- What is known about a task before it is set about: the tree it is about is safe in the frame at hand, and
the values are valid. -/
def Prepared (machine : Machine) : Task → Prop
  | .evaluate _ expr => ∃ scopes, machine.frames.Models scopes machine.current ∧ expr.Safe scopes
  | .evaluateAll _ exprs => ∃ scopes, machine.frames.Models scopes machine.current ∧ Expr.SafeAll scopes exprs
  | .execute _ stmt => ∃ scopes returns, machine.frames.Models scopes machine.current ∧ stmt.Safe returns scopes
  | .executeAll _ body =>
    ∃ scopes returns, machine.frames.Models scopes machine.current ∧ Stmt.SafeAll returns scopes body
  | .loop _ _ condition body => ∃ scopes returns, machine.frames.Models scopes machine.current ∧
      condition.Safe scopes ∧ body.Safe returns scopes ∧ body.declared = []
  | .read name note => ∃ scopes, machine.frames.Models scopes machine.current ∧ Reaches scopes name.lexeme note
  | .assign _ note _ => ∃ scopes, machine.frames.Models scopes machine.current ∧
      ∀ distance, note = some distance → distance < scopes.length
  | .superAndThis note => ∃ scopes distance, machine.frames.Models scopes machine.current ∧
      note = some (distance + 1) ∧ Declares scopes (distance + 1) "super" ∧ Declares scopes distance "this"
  | .call _ callee arguments => machine.Valid callee ∧ ∀ value ∈ arguments, machine.Valid value
  | .activate _ function arguments => function.Callable machine.frames ∧
      (∀ value ∈ arguments, machine.Valid value) ∧
      arguments.length = function.declaration.params.length

/-- The invariant of a run. -/
def Ready (moment : Moment) : Prop := moment.machine.toStore.Sound ∧ Prepared moment.machine moment.task

/-- What is prepared for a task that an action leaves, if the action goes well. -/
theorem ready_of_leaves {α : Type} {action : Run α} {added : List String} {machine : Machine}
    {P : α → Machine → Prop} {task? : α → Option Task} {part : Moment} (goes : Goes action added machine P)
    (leaves : action.Leaves machine task? part)
    (prepared : ∀ value after, machine.Step added after → P value after → ∀ task, task? value = some task →
      Prepared after task) : part.Ready := by
  obtain ⟨value, ended, isLeft⟩ := leaves
  obtain ⟨moved, holds⟩ := goes.of_ok ended
  exact ⟨moved.sound, prepared value part.machine moved holds part.task isLeft⟩

theorem ready_of_expr {room : Nat} {machine : Machine} {part : Moment} {expr : Expr Distance}
    {scopes : List (List String)} (sound : machine.toStore.Sound)
    (models : machine.frames.Models scopes machine.current) (safe : expr.Safe scopes)
    (leads : OfExpr rounds room machine part expr) : part.Ready := by
  have evaluates := (goes_well rounds room).1
  cases expr with
  | literal value => cases leads
  | grouping inner =>
    obtain rfl := leads
    exact ⟨sound, scopes, models, safe⟩
  | unary op sign operand =>
    obtain rfl := leads
    exact ⟨sound, scopes, models, safe⟩
  | binary op left sign right =>
    rcases leads with rfl | leaves
    · exact ⟨sound, scopes, models, safe.1⟩
    · apply ready_of_leaves (evaluates sound models safe.1) leaves
      intro value after moved _ task isLeft
      cases isLeft
      exact ⟨scopes, moved.models models, safe.2⟩
  | logical op left sign right =>
    rcases leads with rfl | leaves
    · exact ⟨sound, scopes, models, safe.1⟩
    · apply ready_of_leaves (evaluates sound models safe.1) leaves
      intro value after moved _ task isLeft
      split at isLeft
      · cases isLeft
      · cases isLeft
        exact ⟨scopes, moved.models models, safe.2⟩
  | read name note =>
    obtain rfl := leads
    exact ⟨sound, scopes, models, safe⟩
  | assign name note value =>
    obtain ⟨_, near, safe⟩ := safe
    rcases leads with rfl | leaves
    · exact ⟨sound, scopes, models, safe⟩
    · apply ready_of_leaves (evaluates sound models safe) leaves
      intro value after moved _ task isLeft
      cases isLeft
      exact ⟨scopes, moved.models models, near⟩
  | call callee paren arguments =>
    rcases leads with rfl | leaves | leaves
    · exact ⟨sound, scopes, models, safe.1⟩
    · apply ready_of_leaves (evaluates sound models safe.1) leaves
      intro value after moved _ task isLeft
      cases isLeft
      exact ⟨scopes, moved.models models, safe.2⟩
    · have both : Goes (do
          let callee ← eval .byDistance rounds room callee
          return (callee, ← values (eval .byDistance rounds room) arguments)) [] machine fun results after =>
            after.Valid results.1 ∧ ∀ value ∈ results.2, after.Valid value := by
        apply Goes.bind (evaluates sound models safe.1)
        intro value _ moved valid
        refine Goes.bind (goes_values evaluates moved.sound (moved.models models) safe.2)
          fun results _ moved' valid' => ?_
        exact Goes.pure moved'.sound ⟨valid.mono moved'.extends_, valid'⟩
      apply ready_of_leaves both leaves
      intro results after _ valid task isLeft
      cases isLeft
      exact valid
  | get object name =>
    obtain rfl := leads
    exact ⟨sound, scopes, models, safe⟩
  | set object name value =>
    rcases leads with rfl | leaves
    · exact ⟨sound, scopes, models, safe.1⟩
    · apply ready_of_leaves (evaluates sound models safe.1) leaves
      intro target after moved _ task isLeft
      split at isLeft
      · cases isLeft
        exact ⟨scopes, moved.models models, safe.2⟩
      · cases isLeft
  | this keyword note =>
    obtain rfl := leads
    obtain ⟨spelled, distance, rfl, declares⟩ := safe
    refine ⟨sound, scopes, models, ?_⟩
    rintro _ ⟨⟩
    rwa [spelled]
  | super keyword note method =>
    obtain rfl := leads
    obtain ⟨distance, found, super, this⟩ := safe
    exact ⟨sound, scopes, distance, models, found, super, this⟩

theorem ready_of_stmt {room : Nat} {machine : Machine} {part : Moment} {stmt : Stmt Distance}
    {scopes : List (List String)} {returns : Bool} (sound : machine.toStore.Sound)
    (models : machine.frames.Models scopes machine.current) (safe : stmt.Safe returns scopes)
    (leads : OfStmt rounds room machine part stmt) : part.Ready := by
  have evaluates := (goes_well rounds room).1
  cases stmt with
  | expression value =>
    obtain rfl := leads
    exact ⟨sound, scopes, models, safe⟩
  | print value =>
    obtain rfl := leads
    exact ⟨sound, scopes, models, safe⟩
  | varDecl name initial =>
    cases initial with
    | none => cases leads
    | some value =>
      obtain rfl := leads
      exact ⟨sound, scopes, models, safe.2⟩
  | block body =>
    obtain rfl := leads
    exact ⟨sound.openFrame _ (by simp), [] :: scopes, returns, models.openFrame sound.sized [], safe⟩
  | ifThen condition accepted =>
    rcases leads with rfl | leaves
    · exact ⟨sound, scopes, models, safe.1⟩
    · apply ready_of_leaves (evaluates sound models safe.1) leaves
      intro test after moved _ task isLeft
      split at isLeft
      · cases isLeft
        exact ⟨scopes, returns, moved.models models, safe.2.1⟩
      · cases isLeft
  | ifElse condition accepted rejected =>
    obtain ⟨tested, ⟨first, _⟩, second, _⟩ := safe
    rcases leads with rfl | leaves
    · exact ⟨sound, scopes, models, tested⟩
    · apply ready_of_leaves (evaluates sound models tested) leaves
      intro test after moved _ task isLeft
      cases isLeft
      refine ⟨scopes, returns, moved.models models, ?_⟩
      split
      · exact first
      · exact second
  | whileLoop condition body =>
    obtain rfl := leads
    exact ⟨sound, scopes, returns, models, safe⟩
  | funDecl declaration => cases leads
  | returnStmt keyword value =>
    cases value with
    | none => cases leads
    | some value =>
      obtain rfl := leads
      exact ⟨sound, scopes, models, safe.2⟩
  | classDecl name superclass methods =>
    obtain ⟨_, reaches, _⟩ := safe
    rcases superclass with _ | ⟨parent, note⟩
    · cases leads
    · obtain rfl := leads
      exact ⟨sound, scopes, models, reaches parent note rfl⟩

/-- A function is called in a frame that has its parameters. -/
theorem ready_of_activate {room : Nat} {machine : Machine} {function : Function} {arguments : List Value}
    (sound : machine.toStore.Sound) (callable : function.Callable machine.frames)
    (valid : ∀ value ∈ arguments, machine.Valid value)
    (enough : arguments.length = function.declaration.params.length) :
    Ready ⟨.executeAll room function.declaration.body,
      machine.inside function.closure ((function.declaration.params.map Token.lexeme).zip arguments)⟩ := by
  obtain ⟨scopes, models, admits, safe⟩ := callable_body callable valid enough
  exact ⟨sound.openFrame _ admits, _, true, models.openFrame sound.sized _, safe⟩

/-- What one task preserves. -/
theorem Ready.leads {moment part : Moment} (ready : moment.Ready) (leads : moment.Leads rounds part) :
    part.Ready := by
  obtain ⟨task, machine⟩ := moment
  obtain ⟨sound, prepared⟩ := ready
  cases task with
  | evaluate room expr =>
    obtain ⟨scopes, models, safe⟩ := prepared
    cases room with
    | zero => cases leads
    | succ room => exact ready_of_expr sound models safe leads
  | execute room stmt =>
    obtain ⟨scopes, returns, models, safe⟩ := prepared
    cases room with
    | zero => cases leads
    | succ room => exact ready_of_stmt sound models safe leads
  | evaluateAll room exprs =>
    obtain ⟨scopes, models, safe⟩ := prepared
    cases exprs with
    | nil => cases leads
    | cons first rest =>
      rcases leads with rfl | leaves
      · exact ⟨sound, scopes, models, safe.1⟩
      · refine ready_of_leaves ((goes_well rounds room).1 sound models safe.1) leaves
          fun _ after moved _ task isLeft => ?_
        cases isLeft
        exact ⟨scopes, moved.models models, safe.2⟩
  | executeAll room body =>
    obtain ⟨scopes, returns, models, safe⟩ := prepared
    cases body with
    | nil => cases leads
    | cons first rest =>
      rcases leads with rfl | leaves
      · exact ⟨sound, scopes, returns, models, safe.1⟩
      · apply ready_of_leaves ((goes_well rounds room).2 sound models safe.1) leaves
        rintro flow after _ ⟨models', _⟩ task isLeft
        cases flow with
        | next =>
          cases isLeft
          exact ⟨_, returns, models', safe.2⟩
        | returned value => cases isLeft
  | loop room left condition body =>
    obtain ⟨scopes, returns, models, tested, inside, silent⟩ := prepared
    obtain ⟨evaluates, executes⟩ := goes_well rounds room
    cases left with
    | zero => cases leads
    | succ left =>
      rcases leads with rfl | leaves | leaves
      · exact ⟨sound, scopes, models, tested⟩
      · apply ready_of_leaves (evaluates sound models tested) leaves
        intro test after moved _ task isLeft
        split at isLeft
        · cases isLeft
          exact ⟨scopes, returns, moved.models models, inside⟩
        · cases isLeft
      · apply ready_of_leaves (goes_round evaluates executes sound models tested inside silent) leaves
        rintro ending after _ ⟨models', _⟩ task isLeft
        cases ending with
        | none =>
          cases isLeft
          exact ⟨scopes, returns, models', tested, inside, silent⟩
        | some flow => cases isLeft
  | read name note => cases leads
  | assign name note value => cases leads
  | superAndThis note => cases leads
  | call room callee arguments =>
    obtain ⟨callable, valid⟩ := prepared
    cases callee with
    | function id =>
      obtain ⟨enough, value, ended, isLeft⟩ := leads
      obtain ⟨function, found, callable⟩ := callable
      rw [function_eq_ok found] at ended
      cases ended
      obtain ⟨task, _⟩ := part
      cases isLeft
      exact ⟨sound, callable, valid, by simp [enough, Store.functionArity, found]⟩
    | «class» id =>
      obtain ⟨enough, leaves⟩ := leads
      apply ready_of_leaves (goes_prepare id sound) leaves
      rintro prepared after moved ⟨_, ready⟩ task isLeft
      obtain ⟨initializer, found, rfl⟩ := Option.map_eq_some_iff.mp isLeft
      obtain ⟨callable, arity⟩ := ready initializer found
      exact ⟨callable, fun value member => (valid value member).mono moved.extends_, enough.trans arity.symm⟩
    | _ => cases leads
  | activate room function arguments =>
    obtain rfl := leads
    exact ready_of_activate sound prepared.1 prepared.2.1 prepared.2.2

/-- What a whole run preserves. -/
theorem Ready.run {moment later : Moment} (ready : moment.Ready)
    (leads : Relation.ReflTransGen (Leads rounds) moment later) : later.Ready := by
  induction leads with
  | refl => exact ready
  | tail _ step ih => exact ih.leads step

/-- What is prepared for a task is what the task relies on. -/
theorem Ready.secure {moment : Moment} (ready : moment.Ready) : moment.Secure := by
  obtain ⟨task, machine⟩ := moment
  obtain ⟨sound, prepared⟩ := ready
  cases task with
  | read name note =>
    obtain ⟨scopes, models, reaches⟩ := prepared
    cases note with
    | none => trivial
    | some distance =>
      have declares := reaches distance rfl
      obtain ⟨frame, found, _, _, bound⟩ := models.link declares.lt_length
      exact ⟨frame, found, bound _ declares⟩
  | assign name note value =>
    obtain ⟨scopes, models, near⟩ := prepared
    cases note with
    | none => trivial
    | some distance =>
      obtain ⟨frame, found, _⟩ := models.link (near distance rfl)
      exact ⟨frame, found⟩
  | superAndThis note =>
    obtain ⟨scopes, distance, models, rfl, super, this⟩ := prepared
    obtain ⟨parent, found⟩ := models.getAt super
    obtain ⟨receiver, found'⟩ := models.getAt this
    obtain ⟨parent, rfl⟩ := (sound.admits_of_getAt found).2.2 rfl
    obtain ⟨receiver, rfl⟩ := (sound.admits_of_getAt found').2.1 rfl
    exact ⟨distance + 1, parent, receiver, rfl, by omega, found, found'⟩
  | activate room function arguments =>
    obtain ⟨⟨_, _, _, answers⟩, _⟩ := prepared
    exact answers
  | _ => trivial

end Moment

end Lox

import Lox.Proofs.Hollow.Calls

/-!
Two runs of which the first one has hollow frames go alike for as long as they last. The induction is on the room for
nesting, as every call takes some of it.
-/
namespace Lox

namespace Hollow

variable {scene : Scene} {hollow hollow' : scheme.Around}

/-- Single expressions go alike. -/
def Evaluates (eval : Expr Distance → Run Value) : Prop :=
  ∀ ⦃scene : Scene⦄ ⦃hollow : scheme.Around⦄ ⦃expr expr' : Expr Distance⦄, scene.Agrees → scene.At hollow →
    scheme.MatchExpr hollow expr expr' → Goes (eval expr) (eval expr') scene Gives

section Expressions

theorem goes_values {eval : Expr Distance → Run Value} (evaluates : Evaluates eval)
    {exprs exprs' : List (Expr Distance)} (agrees : scene.Agrees) (at_ : scene.At hollow) (matching : scheme.MatchExprs hollow exprs exprs') :
    Goes (Run.values eval exprs) (Run.values eval exprs') scene fun results results' after =>
      results = results' ∧ ∀ value ∈ results, after.Valid value := by
  induction exprs generalizing scene exprs' with
  | nil =>
    cases matching
    exact Goes.pure agrees ⟨rfl, by simp⟩
  | cons first rest ih =>
    cases matching with
    | cons head tail =>
      refine Goes.bind_same (evaluates agrees at_ head) fun value middle moved agrees' valid => ?_
      refine Goes.bind_same (ih agrees' (at_.step moved) tail) fun results after moved' agrees'' valid' => ?_
      exact Goes.pure agrees'' ⟨rfl, by simpa using ⟨valid.step moved', valid'⟩⟩

/-- An operator does not look at the machine. -/
theorem goes_unary (agrees : scene.Agrees) (op : UnaryOp) (sign : Token) (operand : Value) :
    Goes (op.apply sign operand) (op.apply sign operand) scene Gives := by
  unfold UnaryOp.apply
  split
  · exact Goes.pure agrees ⟨rfl, trivial⟩
  · exact Goes.pure agrees ⟨rfl, trivial⟩
  · exact Goes.halt agrees _

theorem goes_binary (agrees : scene.Agrees) (op : BinaryOp) (sign : Token) (left right : Value) :
    Goes (op.apply sign left right) (op.apply sign left right) scene Gives := by
  unfold BinaryOp.apply
  split
  · unfold BinaryOp.addValues
    split
    · exact Goes.pure agrees ⟨rfl, trivial⟩
    · exact Goes.pure agrees ⟨rfl, trivial⟩
    · exact Goes.halt agrees _
  · exact Goes.pure agrees ⟨rfl, trivial⟩
  · exact Goes.pure agrees ⟨rfl, trivial⟩
  · unfold BinaryOp.compute
    split
    · split
      · rename_i result computed
        refine Goes.pure agrees ⟨rfl, ?_⟩
        unfold BinaryOp.onNumbers? at computed
        split at computed <;> cases computed <;> trivial
      · exact Goes.halt agrees _
    · exact Goes.halt agrees _

variable {rounds room : Nat}

theorem evaluates_succ (evaluates : Evaluates (Run.eval .byDistance rounds room))
    (executes : Executes (Run.exec .byDistance rounds room)) :
    Evaluates (Run.eval .byDistance rounds (room + 1)) := by
  intro scene hollow expr expr' agrees at_ matching
  cases matching with
  | literal value =>
    unfold Run.eval
    refine Goes.pure agrees ⟨rfl, ?_⟩
    cases value <;> trivial
  | grouping part =>
    unfold Run.eval
    exact evaluates agrees at_ part
  | unary same part =>
    subst same
    unfold Run.eval
    refine Goes.bind_same (evaluates agrees at_ part) fun value _ _ agrees' _ => ?_
    exact goes_unary agrees' _ _ value
  | binary same first second =>
    subst same
    unfold Run.eval
    refine Goes.bind_same (evaluates agrees at_ first) fun left _ moved agrees' _ => ?_
    refine Goes.bind_same (evaluates agrees' (at_.step moved) second) fun right _ _ agrees'' _ => ?_
    exact goes_binary agrees'' _ _ left right
  | logical _ first second =>
    unfold Run.eval
    refine Goes.bind_same (evaluates agrees at_ first) fun left _ moved agrees' valid => ?_
    split
    · exact Goes.pure agrees' ⟨rfl, valid⟩
    · exact evaluates agrees' (at_.step moved) second
  | read reads =>
    unfold Run.eval
    exact goes_read agrees at_ reads
  | assign assigns part =>
    unfold Run.eval
    refine Goes.bind_same (evaluates agrees at_ part) fun value _ moved agrees' valid => ?_
    refine Goes.bind (goes_assign agrees' (at_.step moved) assigns valid) fun _ _ _ moved' agrees'' _ => ?_
    exact Goes.pure agrees'' ⟨rfl, valid.step moved'⟩
  | call same part parts =>
    subst same
    unfold Run.eval
    refine Goes.bind_same (evaluates agrees at_ part) fun callee _ moved agrees' callable => ?_
    refine Goes.bind_same (goes_values evaluates agrees' (at_.step moved) parts)
      fun arguments _ moved' agrees'' valid => ?_
    exact goes_call executes _ agrees'' (callable.step moved') valid
  | get same _ part =>
    subst same
    unfold Run.eval
    refine Goes.bind_same (evaluates agrees at_ part) fun value _ _ agrees' _ => ?_
    cases value with
    | «instance» id => exact goes_property agrees' id _
    | _ => exact Goes.halt agrees' _
  | set same _ first second =>
    subst same
    unfold Run.eval
    refine Goes.bind_same (evaluates agrees at_ first) fun target _ moved agrees' _ => ?_
    cases target with
    | «instance» id =>
      refine Goes.bind_same (evaluates agrees' (at_.step moved) second) fun value _ _ agrees'' valid => ?_
      refine Goes.bind (goes_setField agrees'' id _ valid) fun _ _ _ moved' agrees₃ _ => ?_
      exact Goes.pure agrees₃ ⟨rfl, valid.step moved'⟩
    | _ => exact Goes.halt agrees' _
  | this reads =>
    unfold Run.eval
    exact goes_read agrees at_ reads
  | super supers same _ =>
    subst same
    unfold Run.eval
    apply Goes.bind (goes_superAndThis agrees at_ supers)
    rintro pair _ _ _ agrees' rfl
    exact goes_superMethod agrees' _ pair

end Expressions

section Statements

theorem shown_eq (agrees : scene.Agrees) {value : Value} (valid : scene.Valid value) :
    scene.left.shown value = scene.right.shown value := by
  refine Store.shown_congr agrees.classes agrees.instances ?_
  rintro id rfl
  obtain ⟨function, function', found, found', _, _, _, _, matching⟩ := valid
  simp only [Store.functionName, found, found', matching.spelled]

theorem goes_print (agrees : scene.Agrees) (text : String) :
    Goes (Run.print text) (Run.print text) scene fun _ _ _ => True := by
  let after : Scene := { scene with left := { scene.left with output := scene.left.output ++ text }
                                    right := { scene.right with output := scene.right.output ++ text } }
  have agrees' : after.Agrees :=
    ⟨agrees.twins, by simp only [after, agrees.output], agrees.now, agrees.size, agrees.classes, agrees.instances,
      agrees.names, agrees.fields, agrees.methods⟩
  exact ⟨after, ⟨id, .refl _, .refl _, rfl, rfl⟩, agrees', .inl ⟨(), (), rfl, rfl, trivial⟩⟩

/-- How one round of two loops ends: both loops go on, or both end. -/
def RoundEnds (ending ending' : Option Flow) (scene : Scene) : Prop :=
  (ending = none ∧ ending' = none) ∨
    ∃ flow flow', ending = some flow ∧ ending' = some flow' ∧ Ends flow flow' scene

variable {rounds room : Nat}

theorem goes_rounds {step step' : Run (Option Flow)}
    (steps : ∀ scene : Scene, scene.Agrees → scene.At hollow → Goes step step' scene RoundEnds) (rounds : Nat)
    (agrees : scene.Agrees) (at_ : scene.At hollow) :
    Goes (Run.iterate step rounds) (Run.iterate step' rounds) scene Ends := by
  refine goes_iterate (I := fun scene => scene.At hollow) (fun scene agrees at_ => ?_) rounds agrees at_
  refine (steps scene agrees at_).weaken fun ending ending' after moved _ ends => ?_
  obtain ⟨rfl, rfl⟩ | ends := ends
  · exact .inl ⟨rfl, rfl, at_.step moved⟩
  · exact .inr ends

theorem executes_succ (evaluates : Evaluates (Run.eval .byDistance rounds room))
    (executes : Executes (Run.exec .byDistance rounds room)) :
    Executes (Run.exec .byDistance rounds (room + 1)) := by
  intro scene hollow hollow' stmt stmt' agrees at_ matching
  cases matching with
  | expression part =>
    unfold Run.exec
    exact Goes.bind (evaluates agrees at_ part) fun _ _ _ _ agrees' _ => Goes.pure agrees' .next
  | print part =>
    unfold Run.exec
    refine Goes.bind_same (evaluates agrees at_ part) fun value _ _ agrees' valid => ?_
    apply Goes.reading (shown_eq agrees' valid)
    exact Goes.bind (goes_print agrees' _) fun _ _ _ _ agrees'' _ => Goes.pure agrees'' .next
  | varDecl declares =>
    obtain ⟨rfl, apart, rfl⟩ := declares
    unfold Run.exec
    exact Goes.bind (goes_define agrees at_ apart _ trivial) fun _ _ _ _ agrees' _ => Goes.pure agrees' .next
  | varInit part declares =>
    obtain ⟨rfl, apart, rfl⟩ := declares
    unfold Run.exec
    refine Goes.bind_same (evaluates agrees at_ part) fun value _ moved agrees' valid => ?_
    exact Goes.bind (goes_define agrees' (at_.step moved) apart _ valid) fun _ _ _ _ agrees'' _ =>
      Goes.pure agrees'' .next
  | block opens parts =>
    obtain ⟨_, rfl⟩ := opens
    unfold Run.exec
    exact Goes.known rfl rfl (goes_block executes agrees at_ (by simp) parts)
  | ifThen test part =>
    unfold Run.exec
    refine Goes.bind_same (evaluates agrees at_ test) fun value _ moved agrees' _ => ?_
    split
    · exact executes agrees' (at_.step moved) part
    · exact Goes.pure agrees' .next
  | ifElse test first second =>
    unfold Run.exec
    refine Goes.bind_same (evaluates agrees at_ test) fun value _ moved agrees' _ => ?_
    split
    · exact executes agrees' (at_.step moved) first
    · exact executes agrees' (at_.step moved) second
  | whileLoop test part =>
    unfold Run.exec
    refine goes_rounds (fun scene agrees at_ => ?_) rounds agrees at_
    refine Goes.bind_same (evaluates agrees at_ test) fun value _ moved agrees' _ => ?_
    split
    · refine Goes.bind_same (executes agrees' (at_.step moved) part) fun flow _ _ agrees'' valid => ?_
      cases flow with
      | next => exact Goes.pure agrees'' (.inl ⟨rfl, rfl⟩)
      | returned value => exact Goes.pure agrees'' (.inr ⟨_, _, rfl, rfl, rfl, valid⟩)
    · exact Goes.pure agrees' (.inr ⟨_, _, rfl, rfl, .next⟩)
  | funDecl declares part =>
    obtain ⟨same, apart, rfl⟩ := declares
    unfold Run.exec
    have here : Run.reading Machine.current scene.left = .ok scene.left.current scene.left := rfl
    have here' : Run.reading Machine.current scene.right = .ok scene.right.current scene.right := rfl
    refine Goes.known here here' ?_
    rw [same]
    refine Goes.bind_same (goes_addFunction agrees _ _) fun id after moved agrees' held => ?_
    obtain ⟨found, found'⟩ := held
    have at' := at_.step moved
    have valid : after.Valid (.function id) := by
      refine ⟨_, _, found, found', rfl, _, apart, ?_, part⟩
      simpa only [Scene.At, moved.current, moved.current'] using at'
    exact Goes.bind (goes_define agrees' at' apart _ valid) fun _ _ _ _ agrees'' _ => Goes.pure agrees'' .next
  | returnNone _ =>
    unfold Run.exec
    exact Goes.pure agrees (.returned ⟨rfl, trivial⟩)
  | returnSome _ part =>
    unfold Run.exec
    exact Goes.bind (evaluates agrees at_ part) fun _ _ _ _ agrees' gives => Goes.pure agrees' (.returned gives)
  | classDecl spelled parent declares inherits parts =>
    obtain ⟨rfl, apart, rfl⟩ := declares
    unfold Run.exec
    exact Goes.bind (goes_declareClass _ agrees at_ apart parent inherits parts) fun _ _ _ _ agrees' _ =>
      Goes.pure agrees' .next

end Statements

/-- Whatever room there is, trees that match go alike. -/
theorem goes_alike (rounds room : Nat) :
    Evaluates (Run.eval .byDistance rounds room) ∧ Executes (Run.exec .byDistance rounds room) := by
  induction room with
  | zero =>
    constructor
    · intro scene hollow expr expr' agrees _ _
      unfold Run.eval
      exact Goes.halt agrees _
    · intro scene hollow hollow' stmt stmt' agrees _ _
      unfold Run.exec
      exact Goes.halt agrees _
  | succ room ih => exact ⟨evaluates_succ ih.1 ih.2, executes_succ ih.1 ih.2⟩

end Hollow

end Lox

import Lox.Run.Eval

/-!
The frame at hand while a class is declared. The methods of a subclass are made with a frame of their own at hand, and
the frame from before is put back without any guard. That is enough, as nothing can halt in between. So the methods
may as well be given their frame, while the one at hand stays.
-/
namespace Lox.Run

/-- The frame that the methods of a class are closed over: the one at hand, or one inside it that binds
`super`. -/
def methodFrame : Option ClassId → Run FrameId
  | none => reading Machine.current
  | some parent => do
    let enclosing ← reading Machine.current
    onFrames fun frames =>
      let (frame, frames) := frames.create (some enclosing)
      (frame, frames.define frame "super" (.class parent))

/-- The methods of a class, closed over a frame. Of two with one name the later one counts. -/
def methodTable (closure : FrameId) : List (FunctionDecl Distance) → Table FunctionId → Run (Table FunctionId)
  | [], table => return table
  | first :: rest, table => do
    let name := first.name.lexeme
    let id ← onStore (·.addFunction ⟨first, closure, name = initializerName⟩)
    methodTable closure rest (table.set name id)

/-- Putting the frame at hand that methods are closed over never halts. -/
theorem enterSuper_eq_ok (parent : Option ClassId) (store : Store) (current : FrameId) (output : String) (now : Float) :
    ∃ closure inner, enterSuper parent ⟨store, current, output, now⟩ = .ok () ⟨inner, closure, output, now⟩ ∧
      methodFrame parent ⟨store, current, output, now⟩ = .ok closure ⟨inner, current, output, now⟩ := by
  cases parent with
  | none => exact ⟨current, store, rfl, rfl⟩
  | some parent =>
    let opened := store.frames.create (some current)
    exact ⟨opened.1, { store with frames := opened.2.define opened.1 "super" (.class parent) }, rfl, rfl⟩

/-- Making methods never halts, and makes the same ones whether their frame is at hand or given. -/
theorem makeMethods_eq_ok (closure : FrameId) (methods : List (FunctionDecl Distance)) (table : Table FunctionId)
    (store : Store) : ∃ table' functions,
      (∀ output now, makeMethods methods table ⟨store, closure, output, now⟩ =
        .ok table' ⟨{ store with functions }, closure, output, now⟩) ∧
      ∀ current output now, methodTable closure methods table ⟨store, current, output, now⟩ =
        .ok table' ⟨{ store with functions }, current, output, now⟩ := by
  induction methods generalizing table store with
  | nil => exact ⟨table, store.functions, fun _ _ => rfl, fun _ _ _ => rfl⟩
  | cons first rest ih =>
    let function : Function := ⟨first, closure, first.name.lexeme = initializerName⟩
    obtain ⟨table', functions, made, given⟩ :=
      ih (table.set first.name.lexeme (store.addFunction function).1) (store.addFunction function).2
    exact ⟨table', functions, made, given⟩

/-- Declaring a class comes to the same if the frame at hand stays, and the methods are given theirs. -/
theorem declareClass_eq (access : Access) (name : Token) (parent : Option (Token × Distance))
    (methods : List (FunctionDecl Distance)) : declareClass access name parent methods = (do
      let parent ← superclass access parent
      define name.lexeme .nil
      let table ← methodTable (← methodFrame parent) methods .empty
      let id ← onStore fun store => store.addClass ⟨name.lexeme, (parent.map store.lineage).getD [], table⟩
      Access.assignFrom Machine.current name (.class id)) := by
  unfold declareClass
  -- Both read the superclass and bind the name first. Only from here on do they differ in the frame at hand.
  refine bind_congr fun parent => bind_congr fun _ => ?_
  funext machine
  obtain ⟨store, current, output, now⟩ := machine
  obtain ⟨closure, inner, enters, opens⟩ := enterSuper_eq_ok parent store current output now
  obtain ⟨table, functions, made, given⟩ := makeMethods_eq_ok closure methods .empty inner
  simp only [Bind.bind, EStateM.bind, reading, enters, opens, made, given]
  rfl

end Lox.Run

import Lox.Proofs.Run.Classes
import Lox.Proofs.Run.Store

/-!
What the actions of a running program do to the machine. However an action ends, the store stays sound and the
frame at hand is the one from before; if it ends well, the store keeps what it had, and it is known which
global names have come in. No action comes upon a defect.
-/
namespace Lox

/-- From one machine to a later one. `added` are the names that the global frame has got in between. -/
structure Machine.Step (added : List String) (before after : Machine) : Prop where
  sound : after.toStore.Sound
  extends_ : before.toStore.Extends after.toStore
  current : after.current = before.current
  globals : ∀ name, (after.frames.names globalFrame).contains name = true ↔
    (before.frames.names globalFrame).contains name = true ∨ name ∈ added

namespace Machine.Step

variable {before middle after : Machine}

theorem refl (sound : before.toStore.Sound) : Step [] before before :=
  ⟨sound, .refl _, rfl, by simp⟩

theorem trans {first second : List String} (earlier : Step first before middle) (later : Step second middle after) :
    Step (first ++ second) before after where
  sound := later.sound
  extends_ := earlier.extends_.trans later.extends_
  current := later.current.trans earlier.current
  globals name := by rw [later.globals, earlier.globals, List.mem_append, or_assoc]

end Machine.Step

/-- Halts that programs may give rise to: faults, and runs beyond the bounds. -/
def Halt.Allowed : Halt → Prop
  | .defect _ => False
  | _ => True

namespace Run

variable {α β : Type} {machine : Machine} {added : List String} {P : α → Machine → Prop}

/-- An action goes well on a machine, up to halts that are allowed. -/
def Goes (action : Run α) (added : List String) (machine : Machine) (P : α → Machine → Prop) : Prop :=
  match action machine with
  | .ok value after => machine.Step added after ∧ P value after
  | .error halt after => after.toStore.Sound ∧ after.current = machine.current ∧ halt.Allowed

namespace Goes

theorem pure {value : α} (sound : machine.toStore.Sound) (holds : P value machine) :
    Goes (Pure.pure value) [] machine P := ⟨.refl sound, holds⟩

theorem append {action : Run α} {next : α → Run β} {first second : List String} {Q : β → Machine → Prop}
    (goes : Goes action first machine P)
    (then_ : ∀ value after, machine.Step first after → P value after → Goes (next value) second after Q) :
    Goes (action >>= next) (first ++ second) machine Q := by
  unfold Goes at goes ⊢
  simp only [Bind.bind, EStateM.bind]
  cases outcome : action machine with
  | ok value middle =>
    rw [outcome] at goes
    have later := then_ value middle goes.1 goes.2
    unfold Goes at later
    simp only
    cases ending : next value middle with
    | ok result after =>
      rw [ending] at later
      exact ⟨goes.1.trans later.1, later.2⟩
    | error halt after =>
      rw [ending] at later
      exact ⟨later.1, later.2.1.trans goes.1.current, later.2.2⟩
  | error halt after =>
    rw [outcome] at goes
    exact goes

theorem bind {action : Run α} {next : α → Run β} {Q : β → Machine → Prop} (goes : Goes action [] machine P)
    (then_ : ∀ value after, machine.Step [] after → P value after → Goes (next value) added after Q) :
    Goes (action >>= next) added machine Q :=
  append goes then_

/-- As `bind`, where the second action adds no names. -/
theorem andThen {action : Run α} {next : α → Run β} {Q : β → Machine → Prop} (goes : Goes action added machine P)
    (then_ : ∀ value after, machine.Step added after → P value after → Goes (next value) [] after Q) :
    Goes (action >>= next) added machine Q := by
  simpa using append goes then_

theorem weaken {action : Run α} {Q : α → Machine → Prop} (goes : Goes action added machine P)
    (implies : ∀ value after, machine.Step added after → P value after → Q value after) :
    Goes action added machine Q := by
  unfold Goes at goes ⊢
  cases outcome : action machine with
  | ok value after =>
    rw [outcome] at goes
    exact ⟨goes.1, implies value after goes.1 goes.2⟩
  | error halt after =>
    rw [outcome] at goes
    exact goes

/-- What comes after a look at the machine. -/
theorem reading {view : Machine → α} {next : α → Run β} {Q : β → Machine → Prop}
    (goes : Goes (next (view machine)) added machine Q) : Goes (Run.reading view >>= next) added machine Q := goes

/-- What comes after an action that is known to change nothing. -/
theorem known {action : Run α} {value : α} {next : α → Run β} {Q : β → Machine → Prop}
    (known : action machine = .ok value machine) (goes : Goes (next value) added machine Q) :
    Goes (action >>= next) added machine Q := by
  unfold Goes at goes ⊢
  simpa only [Bind.bind, EStateM.bind, known] using goes

theorem fail (sound : machine.toStore.Sound) (token : Token) (cause : RuntimeFault) :
    Goes (Run.fail token cause : Run α) added machine P := ⟨sound, rfl, trivial⟩

theorem tooDeep (sound : machine.toStore.Sound) : Goes (throw .tooDeep : Run α) added machine P :=
  ⟨sound, rfl, trivial⟩

theorem of_ok {action : Run α} {value : α} {after : Machine} (goes : Goes action added machine P)
    (ended : action machine = .ok value after) : machine.Step added after ∧ P value after := by
  unfold Goes at goes
  rwa [ended] at goes

end Goes

theorem function_eq_ok {id : FunctionId} {function : Function} (found : machine.functions[id]? = some function) :
    Run.function id machine = .ok function machine := by
  simp only [Run.function, Run.reading, Bind.bind, EStateM.bind, found]
  rfl

theorem instanceOf_eq_ok {id : InstanceId} {object : Instance} (found : machine.instances[id]? = some object) :
    instanceOf id machine = .ok object machine := by
  simp only [instanceOf, Run.reading, Bind.bind, EStateM.bind, found]
  rfl

/-- An action that only changes the store. -/
theorem goes_onStore {action : Store → α × Store} (extends_ : machine.toStore.Extends (action machine.toStore).2)
    (sound : (action machine.toStore).2.Sound)
    (globals : ∀ name, ((action machine.toStore).2.frames.names globalFrame).contains name = true ↔
      (machine.frames.names globalFrame).contains name = true ∨ name ∈ added)
    (holds : P (action machine.toStore).1 { machine with toStore := (action machine.toStore).2 }) :
    Goes (onStore action) added machine P :=
  ⟨⟨sound, extends_, rfl, globals⟩, holds⟩

theorem goes_addFunction (sound : machine.toStore.Sound) (function : Function) :
    Goes (onStore (·.addFunction function)) [] machine fun id after => after.functions[id]? = some function :=
  goes_onStore (Store.extends_addFunction _ _) (sound.addFunction _) (by simp [Store.addFunction])
    (Store.addFunction_found _ _)

/-- An action that only changes the frames. -/
theorem goes_onFrames {action : Frames → α × Frames} (grow : machine.frames.Grow (action machine.frames).2)
    (sound : Store.Sound { machine.toStore with frames := (action machine.frames).2 })
    (globals : ∀ name, ((action machine.frames).2.names globalFrame).contains name = true ↔
      (machine.frames.names globalFrame).contains name = true ∨ name ∈ added)
    (holds : P (action machine.frames).1 { machine with frames := (action machine.frames).2 }) :
    Goes (onFrames action) added machine P :=
  goes_onStore (Store.Extends.withFrames grow) sound globals holds

/-- An action with another frame at hand. -/
theorem goes_within {frame : FrameId} {action : Run α}
    (goes : Goes action added { machine with current := frame }
      fun value after => P value { after with current := machine.current }) :
    Goes (within frame action) added machine P := by
  unfold Goes within at *
  simp only
  cases outcome : action { machine with current := frame } with
  | ok value after =>
    rw [outcome] at goes
    exact ⟨⟨goes.1.sound, goes.1.extends_, rfl, goes.1.globals⟩, goes.2⟩
  | error halt after =>
    rw [outcome] at goes
    exact ⟨goes.1, rfl, goes.2.2⟩

theorem goes_asCall {paren : Token} {action : Run α} (goes : Goes action added machine P) :
    Goes (asCall paren action) added machine P := by
  unfold Goes asCall at *
  cases outcome : action machine with
  | ok value after =>
    rw [outcome] at goes
    exact goes
  | error halt after =>
    rw [outcome] at goes
    cases halt with
    | tooDeep => exact ⟨goes.1, goes.2.1, trivial⟩
    | _ => exact goes

theorem iterate_succ (step : Run (Option α)) (rounds : Nat) : iterate step (rounds + 1) = (do
    match ← step with
    | none => iterate step rounds
    | some result => return result) := by
  funext machine
  simp only [iterate, Bind.bind, EStateM.bind]
  rcases step machine with ⟨_ | _, after⟩ | ⟨halt, after⟩ <;> rfl

/-- What a step of a loop preserves, the loop preserves. -/
theorem goes_iterate {step : Run (Option α)} {I : Machine → Prop}
    (steps : ∀ machine, machine.toStore.Sound → I machine → Goes step [] machine fun result after =>
      match result with
      | none => I after
      | some value => P value after)
    (rounds : Nat) (sound : machine.toStore.Sound) (start : I machine) :
    Goes (iterate step rounds) [] machine P := by
  induction rounds generalizing machine with
  | zero => exact ⟨sound, rfl, trivial⟩
  | succ rounds ih =>
    rw [iterate_succ]
    apply Goes.bind (steps machine sound start)
    intro result after moved holds
    cases result with
    | none => exact ih moved.sound holds
    | some value => exact Goes.pure moved.sound holds

section Names

variable {scopes : List (List String)} {name : String} {value : Value}

/-- Where names go that are declared with these scopes around: to the global frame if there are none. -/
def globalsOf (scopes : List (List String)) (names : List String) : List String :=
  if scopes = [] then names else []

@[simp]
theorem globalsOf_nil (scopes : List (List String)) : globalsOf scopes [] = [] := by simp [globalsOf]

/-- A name is bound in the frame at hand to a value that is admitted once it is bound. -/
theorem goes_define (sound : machine.toStore.Sound) (models : machine.frames.Models scopes machine.current)
    (admits : Store.Admits
      { machine.toStore with frames := machine.frames.define machine.current name value } name value) :
    Goes (define name value) (globalsOf scopes [name]) machine fun _ after =>
      after.frames.Models (Place.declare [name] scopes) after.current := by
  unfold define
  refine Goes.reading (goes_onFrames (Frames.grow_define _ _ _ _) (sound.define _ admits) (fun query => ?_) ?_)
  · rw [Frames.contains_define, globalsOf, models.eq_global_iff]
    by_cases top : scopes = []
    · simp [top, models.lt_size]
    · simp [top]
  · exact models.define name value

theorem goes_defineValid {token : Token} (sound : machine.toStore.Sound)
    (models : machine.frames.Models scopes machine.current) (plain : token.Plain) (valid : machine.Valid value) :
    Goes (define token.lexeme value) (globalsOf scopes [token.lexeme]) machine fun _ after =>
      after.frames.Models (Place.declare [token.lexeme] scopes) after.current :=
  goes_define sound models ((valid.admits plain).mono (.withFrames (Frames.grow_define _ _ _ _)))

/-- A name is bound in a frame that has it already, or in one that is not the global one. -/
theorem goes_redefine {frame : FrameId} (sound : machine.toStore.Sound)
    (models : machine.frames.Models scopes machine.current) (admits : machine.Admits name value)
    (inside : frame = globalFrame → (machine.frames.names frame).contains name = true) :
    Goes (onFrames fun frames => ((), frames.define frame name value)) [] machine fun _ after =>
      after.frames.Models scopes after.current := by
  have extends_ := Store.Extends.withFrames (Frames.grow_define machine.frames frame name value)
  refine goes_onFrames (Frames.grow_define _ _ _ _) (sound.define _ (admits.mono extends_)) (fun query => ?_) ?_
  · rw [Frames.contains_define]
    constructor
    · rintro (held | ⟨same, _, rfl⟩)
      · exact .inl held
      · exact .inl (same ▸ inside same)
    · simp only [List.not_mem_nil, or_false]
      exact .inl
  · exact models.mono (Frames.grow_define _ _ _ _)

end Names

end Run

end Lox

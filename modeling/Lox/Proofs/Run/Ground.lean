import Lox.Proofs.Pairing.Planned
import Lox.Proofs.Run.Objects
import Lox.Proofs.Run.Steps

/-!
Actions that keep to their ground. However such an action ends, the frame at hand is the one from before, and what has
changed in the store belongs to the objects that could be got at when it all started, or to new ones. The actions of a
program on its frames and on single objects do so.
-/
namespace Lox

namespace Machine

/-- A machine in the course of what has started on another one. -/
structure Underway (origin machine : Machine) : Prop where
  settled : Store.Settled origin machine.toStore
  inside : Store.OnGround origin machine.toStore (.frame machine.current)

/-- From one machine to a later one, in the course of what has started on another one. -/
structure Passes (origin before after : Machine) : Prop where
  underway : Underway origin after
  confined : Store.Confined origin before.toStore after.toStore
  current : after.current = before.current

variable {origin before middle after machine : Machine} {object : Object} {value : Value} {frame : FrameId}

theorem Passes.refl (underway : Underway origin machine) : Passes origin machine machine := ⟨underway, .refl _ _, rfl⟩

theorem Passes.trans (first : Passes origin before middle) (second : Passes origin middle after) :
    Passes origin before after :=
  ⟨second.underway, first.confined.trans second.confined, second.current.trans first.current⟩

/-- A change to the store that keeps to the ground. -/
theorem Underway.passes {store : Store} (underway : Underway origin machine)
    (confined : Store.Confined origin machine.toStore store) :
    Passes origin machine { machine with toStore := store } :=
  ⟨⟨confined.settled underway.settled, confined.onGround underway.inside⟩, confined, rfl⟩

/-- What has not been there before is made in the course of this. -/
theorem Underway.created (underway : Underway origin machine) (new : ¬ machine.Has object) (there : after.Has object) :
    Created origin after object := ⟨fun old => new (underway.settled.grown object old), there⟩

theorem Passes.created (passes : Passes origin before after) (created : Created origin before object) :
    Created origin after object := ⟨created.1, passes.confined.has created.2⟩

section Reached

theorem Reached.of_leadsTo {holder : Object} (reached : Reached origin machine holder)
    (path : machine.LeadsTo holder object) : Reached origin machine object := by
  obtain ⟨root, isRoot, before⟩ := reached
  exact ⟨root, isRoot, before.trans path⟩

theorem Reached.of_refers {holder : Object} (reached : Reached origin machine holder)
    (refers : machine.Refers holder object) : Reached origin machine object := reached.of_leadsTo (.single refers)

theorem Created.reached (created : Created origin machine object) : Reached origin machine object :=
  ⟨object, .inr created, .refl⟩

/-- What can be got at is on the ground. -/
theorem Underway.onGround (underway : Underway origin machine) (reached : Reached origin machine object) :
    machine.OnGround origin object := by
  obtain ⟨root, isRoot, path⟩ := reached
  refine underway.settled.onGround_of_leadsTo ?_ path
  rcases isRoot with (rfl | rfl) | created
  · exact underway.inside
  · exact ⟨.inl ⟨_, .inr rfl, .refl⟩, underway.settled.nested.sized⟩
  · exact ⟨.inr created.1, created.2⟩

theorem Underway.allows (underway : Underway origin machine) (offers : Offers origin machine value) :
    machine.Allows origin value := fun object is => underway.onGround (offers object is)

/-- A value that stands for no object. -/
theorem offers_of_none (none : value.object? = none) : Offers origin machine value := by
  intro object is
  rw [none] at is
  cases is

/-- A frame that the frame at hand or the global frame is inside of. -/
def Sees (machine : Machine) (frame : FrameId) : Prop :=
  frame ∈ machine.frames.chain machine.current ∨ frame ∈ machine.frames.chain globalFrame

theorem Underway.reached_of_sees (underway : Underway origin machine) (sees : machine.Sees frame) :
    Reached origin machine (.frame frame) := by
  rcases sees with member | member
  · exact ⟨_, .inl (.inl rfl), Store.leadsTo_of_mem_chain underway.settled.nested member⟩
  · exact ⟨_, .inl (.inr rfl), Store.leadsTo_of_mem_chain underway.settled.nested member⟩

theorem Underway.sees_current (underway : Underway origin machine) : machine.Sees machine.current := by
  obtain ⟨outer, chain⟩ := Frames.chain_eq_cons underway.inside.2
  exact .inl (chain ▸ List.mem_cons_self)

theorem Reached.offers_of_held {name : String} (reached : Reached origin machine (.frame frame))
    (held : (machine.frames.names frame).get? name = some value) : Offers origin machine value :=
  fun _ is => reached.of_refers (.bound held is)

/-- Back in another frame, what could be got at from a new frame still can. -/
theorem Reached.leave (reached : Reached origin machine object)
    (created : Created origin machine (.frame machine.current)) (frame : FrameId) :
    Reached origin { machine with current := frame } object := by
  obtain ⟨root, isRoot, path⟩ := reached
  refine ⟨root, ?_, path⟩
  rcases isRoot with (rfl | isGlobal) | isNew
  · exact .inr created
  · exact .inl (.inr isGlobal)
  · exact .inr isNew

end Reached

end Machine

open Machine

namespace Run

variable {α β : Type} {origin machine : Machine} {P : α → Machine → Prop}

/-- An action keeps to the ground, however it ends. -/
def Stays (origin : Machine) (action : Run α) (machine : Machine) (P : α → Machine → Prop) : Prop :=
  match action machine with
  | .ok value after => Passes origin machine after ∧ P value after
  | .error _ after => Passes origin machine after

namespace Stays

theorem pure {value : α} (underway : Underway origin machine) (holds : P value machine) :
    Stays origin (Pure.pure value) machine P := ⟨.refl underway, holds⟩

theorem bind {action : Run α} {next : α → Run β} {Q : β → Machine → Prop} (stays : Stays origin action machine P)
    (then_ : ∀ value after, Passes origin machine after → P value after → Stays origin (next value) after Q) :
    Stays origin (action >>= next) machine Q := by
  unfold Stays at stays ⊢
  simp only [Bind.bind, EStateM.bind]
  cases outcome : action machine with
  | ok value middle =>
    rw [outcome] at stays
    have later := then_ value middle stays.1 stays.2
    unfold Stays at later
    simp only
    cases ending : next value middle with
    | ok result after =>
      rw [ending] at later
      exact ⟨stays.1.trans later.1, later.2⟩
    | error halt after =>
      rw [ending] at later
      exact stays.1.trans later
  | error halt after =>
    rw [outcome] at stays
    exact stays

theorem weaken {action : Run α} {Q : α → Machine → Prop} (stays : Stays origin action machine P)
    (implies : ∀ value after, Passes origin machine after → P value after → Q value after) :
    Stays origin action machine Q := by
  unfold Stays at stays ⊢
  cases outcome : action machine with
  | ok value after =>
    rw [outcome] at stays
    exact ⟨stays.1, implies value after stays.1 stays.2⟩
  | error halt after =>
    rw [outcome] at stays
    exact stays

/-- What comes after a look at the machine. -/
theorem reading {view : Machine → α} {next : α → Run β} {Q : β → Machine → Prop}
    (stays : Stays origin (next (view machine)) machine Q) : Stays origin (Run.reading view >>= next) machine Q := stays

/-- What comes after an action that is known to change nothing. -/
theorem known {action : Run α} {value : α} {next : α → Run β} {Q : β → Machine → Prop}
    (known : action machine = .ok value machine) (stays : Stays origin (next value) machine Q) :
    Stays origin (action >>= next) machine Q := by
  unfold Stays at stays ⊢
  simpa only [Bind.bind, EStateM.bind, known] using stays

theorem halts {action : Run α} {halt : Halt} (underway : Underway origin machine)
    (ended : action machine = .error halt machine) : Stays origin action machine P := by
  unfold Stays
  rw [ended]
  exact .refl underway

theorem fail (underway : Underway origin machine) (token : Token) (cause : RuntimeFault) :
    Stays origin (Run.fail token cause : Run α) machine P := halts underway rfl

theorem broken (underway : Underway origin machine) (cause : Defect) :
    Stays origin (Run.broken cause : Run α) machine P := halts underway rfl

theorem of_ok {action : Run α} {value : α} {after : Machine} (stays : Stays origin action machine P)
    (ended : action machine = .ok value after) : Passes origin machine after ∧ P value after := by
  unfold Stays at stays
  rwa [ended] at stays

/-- An action that only changes the store. -/
theorem onStore {action : Store → α × Store} (underway : Underway origin machine)
    (confined : Store.Confined origin machine.toStore (action machine.toStore).2)
    (holds : P (action machine.toStore).1 { machine with toStore := (action machine.toStore).2 }) :
    Stays origin (Run.onStore action) machine P := ⟨underway.passes confined, holds⟩

/-- An action that only changes the frames. -/
theorem onFrames {action : Frames → α × Frames} (underway : Underway origin machine)
    (confined : Store.Confined origin machine.toStore { machine.toStore with frames := (action machine.frames).2 })
    (holds : P (action machine.frames).1 { machine with frames := (action machine.frames).2 }) :
    Stays origin (Run.onFrames action) machine P := ⟨underway.passes confined, holds⟩

/-- An action with another frame at hand. -/
theorem within {frame : FrameId} {action : Run α} (underway : Underway origin machine)
    (stays : Stays origin action { machine with current := frame }
      fun value after => P value { after with current := machine.current }) :
    Stays origin (within frame action) machine P := by
  have back {after : Machine} (passes : Passes origin { machine with current := frame } after) :
      Passes origin machine { after with current := machine.current } :=
    ⟨⟨passes.underway.settled, passes.confined.onGround underway.inside⟩, passes.confined, rfl⟩
  unfold Stays Run.within at *
  simp only
  cases outcome : action { machine with current := frame } with
  | ok value after =>
    rw [outcome] at stays
    exact ⟨back stays.1, stays.2⟩
  | error halt after =>
    rw [outcome] at stays
    exact back stays

theorem asCall {paren : Token} {action : Run α} (stays : Stays origin action machine P) :
    Stays origin (asCall paren action) machine P := by
  unfold Stays Run.asCall at *
  cases outcome : action machine with
  | ok value after =>
    rw [outcome] at stays
    exact stays
  | error halt after =>
    rw [outcome] at stays
    cases halt <;> exact stays

/-- What a step of a loop keeps to, the loop keeps to. -/
theorem iterate {step : Run (Option α)}
    (steps : ∀ machine, Underway origin machine → Stays origin step machine fun result after =>
      ∀ value, result = some value → P value after)
    (rounds : Nat) (underway : Underway origin machine) : Stays origin (iterate step rounds) machine P := by
  induction rounds generalizing machine with
  | zero => exact Passes.refl underway
  | succ rounds ih =>
    rw [iterate_succ]
    apply Stays.bind (steps machine underway)
    intro result after passes holds
    cases result with
    | none => exact ih passes.underway
    | some value => exact Stays.pure passes.underway (holds value rfl)

end Stays

section Access

/-- A name is bound in a frame that can be seen. -/
theorem stays_define {frame : FrameId} {value : Value} (underway : Underway origin machine) (sees : machine.Sees frame)
    (allowed : machine.Allows origin value) (name : String) :
    Stays origin (onFrames fun frames => ((), frames.define frame name value)) machine
      fun _ after => Offers origin after value := by
  have inside := underway.onGround (underway.reached_of_sees sees)
  have confined : Store.Confined origin machine.toStore
      { machine.toStore with frames := machine.frames.define frame name value } :=
    Store.confined_define inside.1 allowed
  refine .onFrames underway confined ?_
  have sees' : Sees { machine with frames := machine.frames.define frame name value } frame := by
    simpa only [Sees, Frames.chain_define] using sees
  have reached := (underway.passes confined).underway.reached_of_sees sees'
  have held : ((machine.frames.define frame name value).names frame).get? name = some value := by
    rw [Frames.names_define_self _ inside.2, Table.get?_set_self]
  exact reached.offers_of_held held

theorem stays_readAt {distance : Nat} {name : String} (underway : Underway origin machine) :
    Stays origin (Access.readAt distance name) machine fun value after => Offers origin after value := by
  apply Stays.reading
  cases found : machine.frames.getAt machine.current distance name with
  | ok value =>
    obtain ⟨link, member, held⟩ := Frames.held_of_getAt found
    exact Stays.pure underway ((underway.reached_of_sees (.inl member)).offers_of_held held)
  | error cause => exact Stays.broken underway _

/-- What is read is bound in a frame that can be seen. -/
theorem stays_read (underway : Underway origin machine) (name : Token) (note : Distance) :
    Stays origin (Access.byDistance.read name note) machine fun value after => Offers origin after value := by
  cases note with
  | some distance => exact stays_readAt underway
  | none =>
    apply Stays.reading
    cases found : machine.frames.lookup? globalFrame name.lexeme with
    | none => exact Stays.fail underway _ _
    | some value =>
      obtain ⟨holder, isHolder, held⟩ := Option.bind_eq_some_iff.mp found
      have sees : machine.Sees holder := .inr (List.mem_of_find?_eq_some isHolder)
      exact Stays.pure underway ((underway.reached_of_sees sees).offers_of_held held)

/-- What is assigned can be got at afterwards. -/
theorem stays_assign {value : Value} (underway : Underway origin machine) (allowed : machine.Allows origin value)
    (name : Token) (note : Distance) :
    Stays origin (Access.byDistance.assign name note value) machine fun _ after => Offers origin after value := by
  cases note with
  | some distance =>
    apply Stays.reading
    cases found : machine.frames.link? machine.current distance with
    | none => exact Stays.broken underway _
    | some link => exact stays_define underway (.inl (List.mem_of_getElem? found)) allowed _
  | none =>
    apply Stays.reading
    cases found : machine.frames.holder? globalFrame name.lexeme with
    | none => exact Stays.fail underway _ _
    | some holder => exact stays_define underway (.inr (List.mem_of_find?_eq_some found)) allowed _

theorem stays_superAndThis (underway : Underway origin machine) (keyword : Token) (note : Distance) :
    Stays origin (Access.byDistance.superAndThis keyword note) machine
      fun pair after => after.Allows origin pair.1 ∧ after.Allows origin pair.2 := by
  cases note with
  | none => exact Stays.broken underway _
  | some distance =>
    apply Stays.bind (stays_readAt underway)
    intro parent _ passes offers
    apply Stays.bind (stays_readAt passes.underway)
    intro receiver _ passes' offers'
    have allowed := passes'.confined.allows (passes.underway.allows offers)
    exact Stays.pure passes'.underway ⟨allowed, passes'.underway.allows offers'⟩

end Access

section Objects

/-- A new function can be got at. -/
theorem stays_addFunction {function : Function} (underway : Underway origin machine)
    (inside : machine.OnGround origin (.frame function.closure)) :
    Stays origin (onStore (·.addFunction function)) machine fun id after => Created origin after (.function id) := by
  have confined := Store.confined_addFunction underway.settled inside
  exact .onStore underway confined (underway.created (Nat.lt_irrefl _) (by simp [Store.Has, Store.addFunction]))

theorem stays_function {id : FunctionId} (underway : Underway origin machine)
    (inside : machine.OnGround origin (.function id)) :
    Stays origin (function id) machine fun function after => after.OnGround origin (.frame function.closure) := by
  have present : id < machine.functions.size := inside.2
  have stored : machine.functions[id]? = some machine.functions[id] := Array.getElem?_eq_getElem present
  unfold Stays
  rw [function_eq_ok stored]
  exact ⟨.refl underway, underway.settled.onGround_of_refers inside (.closure stored)⟩

theorem stays_openFrame {enclosing : FrameId} {bindings : List (String × Value)} (underway : Underway origin machine)
    (inside : machine.OnGround origin (.frame enclosing))
    (allowed : ∀ entry ∈ bindings, machine.Allows origin entry.2) :
    Stays origin (onFrames fun frames => frames.openFrame enclosing bindings) machine fun frame after =>
      Created origin after (.frame frame) ∧ after.frames.link? frame 1 = some enclosing := by
  have confined := Store.confined_openFrame underway.settled inside allowed
  have chain := Frames.chain_openFrame machine.frames enclosing bindings
  refine .onFrames underway confined ⟨underway.created (Nat.lt_irrefl _) (Frames.lt_size_of_chain chain).1, ?_⟩
  rw [← confined.frames.chain enclosing inside.2] at chain
  exact Frames.link?_one_of_chain (confined.onGround inside).2 chain

/-- A method that gets bound becomes a new function. -/
theorem stays_bindMethod {method : FunctionId} {receiver : InstanceId} (underway : Underway origin machine)
    (inside : machine.OnGround origin (.function method)) (target : machine.OnGround origin (.instance receiver)) :
    Stays origin (bindMethod method receiver) machine fun bound after => Created origin after (.function bound) := by
  have present : method < machine.functions.size := inside.2
  have stored : machine.functions[method]? = some machine.functions[method] := Array.getElem?_eq_getElem present
  have closure := underway.settled.onGround_of_refers inside (.closure stored)
  refine Stays.known (function_eq_ok stored) ?_
  refine .onStore underway (Store.confined_bindMethod underway.settled closure target) ?_
  exact underway.created (Nat.lt_irrefl _) (by simp [Store.Has, Store.bindMethod, Store.addFunction])

/-- A method that is found for a class, bound to an instance. -/
theorem stays_boundMethod {id : ClassId} {name : String} {method : FunctionId} {receiver : InstanceId}
    (underway : Underway origin machine) (inside : machine.OnGround origin (.class id))
    (found : machine.findMethod? id name = some method) (target : machine.OnGround origin (.instance receiver)) :
    Stays origin (do return .function (← bindMethod method receiver)) machine
      fun value after => Offers origin after value := by
  have path := Store.leadsTo_of_findMethod? underway.settled.lineages found
  apply Stays.bind (stays_bindMethod underway (underway.settled.onGround_of_leadsTo inside path) target)
  intro bound after passes created
  refine Stays.pure passes.underway ?_
  rintro _ ⟨⟩
  exact created.reached

theorem stays_property {id : InstanceId} (underway : Underway origin machine)
    (offers : Offers origin machine (.instance id)) (name : Token) :
    Stays origin (property id name) machine fun value after => Offers origin after value := by
  have reached := offers (.instance id) rfl
  have inside := underway.onGround reached
  have present : id < machine.instances.size := inside.2
  have stored : machine.instances[id]? = some machine.instances[id] := Array.getElem?_eq_getElem present
  apply Stays.known (instanceOf_eq_ok stored)
  cases held : machine.instances[id].fields.get? name.lexeme with
  | some value => exact Stays.pure underway fun _ is => reached.of_refers (.field stored held is)
  | none =>
    apply Stays.reading
    cases found : machine.findMethod? machine.instances[id].owner name.lexeme with
    | none => exact Stays.fail underway _ _
    | some method =>
      have owner := underway.settled.onGround_of_refers inside (.owner stored)
      exact stays_boundMethod underway owner found inside

theorem stays_superMethod {parent receiver : Value} (underway : Underway origin machine)
    (above : machine.Allows origin parent) (target : machine.Allows origin receiver) (method : Token) :
    Stays origin (superMethod method (parent, receiver)) machine fun value after => Offers origin after value := by
  unfold superMethod
  split
  · rename_i parent receiver same
    cases same
    apply Stays.reading
    cases found : machine.findMethod? parent method.lexeme with
    | none => exact Stays.fail underway _ _
    | some bound => exact stays_boundMethod underway (above _ rfl) found (target _ rfl)
  · exact Stays.broken underway _
  · exact Stays.broken underway _

/-- What is stored in a field can be got at afterwards, though it may be that nothing but the old field led to it. -/
theorem stays_setField {id : InstanceId} {value : Value} (underway : Underway origin machine)
    (inside : machine.OnGround origin (.instance id)) (offers : Offers origin machine value) (name : String) :
    Stays origin (onStore fun store => ((), store.setField id name value)) machine
      fun _ after => Offers origin after value := by
  have confined : Store.Confined origin machine.toStore (machine.setField id name value) :=
    Store.confined_setField inside.1 (underway.allows offers)
  refine .onStore underway confined fun object is => ?_
  obtain ⟨root, isRoot, path⟩ := offers object is
  have still : (machine.setField id name value).LeadsTo root object :=
    path.through (fun _ _ => Store.refers_setField_of_ne) (.single (Store.refers_setField_self inside.2 is))
  exact ⟨root, isRoot.imp_right (underway.passes confined).created, still⟩

end Objects

end Run

end Lox

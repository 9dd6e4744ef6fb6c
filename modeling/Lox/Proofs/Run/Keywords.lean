import Lox.Proofs.Pairing.Visits
import Lox.Proofs.Run.Receivers

/-!
What `this` and `super` stand for while a program runs. A method gets bound in three ways: as a property, through
`super`, and as the initialiser of a class that is called. In each of them the class of the instance descends from the
class that has the method, and the frame that is made for the method has the instance for good.
-/
namespace Lox

open Run

/-- At no distance there is the frame itself. -/
theorem Frames.getAt_zero_eq_ok_iff {frames : Frames} {frame : FrameId} {name : String} {value : Value} :
    frames.getAt frame 0 name = .ok value ↔
      frame < frames.all.size ∧ (frames.names frame).get? name = some value := by
  by_cases older : frame < frames.all.size
  · have found : frames.link? frame 0 = some frame := by
      simp [Frames.link?, Frames.chain, Array.getElem?_eq_getElem older]
    simp only [Frames.getAt, found, older, true_and]
    cases (frames.names frame).get? name <;> simp
  · have missing : frames.link? frame 0 = none := by
      simp [Frames.link?, Frames.chain, Array.getElem?_eq_none (Nat.le_of_not_lt older)]
    simp [Frames.getAt, missing, older]

namespace Store

variable {store : Store} {id owner : ClassId} {name : String} {method : Function}

/-- The method of a name that a class has itself. -/
def ownMethod? (store : Store) (id : ClassId) (name : String) : Option FunctionId := do
  (← store.classes[id]?).methods.get? name

/-- The nearest class of a lineage that has a method of a name itself, and the method. -/
def FoundIn (store : Store) (id : ClassId) (name : String) (owner : ClassId) (method : Function) : Prop :=
  ∃ nearer further entry, store.lineage id = nearer ++ owner :: further ∧
    (∀ link ∈ nearer, store.ownMethod? link name = none) ∧ store.ownMethod? owner name = some entry ∧
    store.functions[entry]? = some method

/-- It is the method that is found when one is looked for. -/
theorem FoundIn.findMethod? (found : store.FoundIn id name owner method) :
    ∃ entry, store.findMethod? id name = some entry ∧ store.functions[entry]? = some method := by
  obtain ⟨nearer, further, entry, lineage, none, own, stored⟩ := found
  exact ⟨entry, List.findSome?_eq_some_iff.mpr ⟨nearer, owner, further, lineage, own, none⟩, stored⟩

theorem FoundIn.mem_lineage (found : store.FoundIn id name owner method) : owner ∈ store.lineage id := by
  obtain ⟨nearer, further, _, lineage, _⟩ := found
  simp [lineage]

/-- The frame that is made for a bound method has the instance. -/
theorem this_bindMethod (store : Store) (method : Function) (receiver : InstanceId) :
    store.frames.all.size < (store.bindMethod method receiver).2.frames.all.size ∧
      ((store.bindMethod method receiver).2.frames.names store.frames.all.size).get? "this" = some (.instance receiver) := by
  have made : (store.bindMethod method receiver).2.frames =
      (store.frames.openFrame method.closure [("this", .instance receiver)]).2 := rfl
  rw [made, Frames.names_openFrame_singleton, Table.get?_set_self]
  simp [Frames.openFrame, Pairing.size_defineAll, Frames.create]

end Store

namespace Moment

/-- A task gets a method bound to an instance. The class is the one that has the method itself, and the store the one
in which the method gets bound. -/
def Attaches (rounds : Nat) (store : Store) (owner : ClassId) (method : Function) (receiver : InstanceId) :
    Moment → Prop
  | ⟨.evaluate (room + 1) (.get object name), machine⟩ => ∃ after found,
      eval .byDistance rounds room object machine = .ok (.instance receiver) after ∧ after.toStore = store ∧
      store.instances[receiver]? = some found ∧ found.fields.get? name.lexeme = none ∧
      store.FoundIn found.owner name.lexeme owner method
  | ⟨.evaluate (_ + 1) (.super keyword note name), machine⟩ => ∃ parent,
      Access.byDistance.superAndThis keyword note machine = .ok (.class parent, .instance receiver) machine ∧
      machine.toStore = store ∧ store.FoundIn parent name.lexeme owner method
  | ⟨.call _ (.class id) arguments, machine⟩ => arguments.length = machine.classArity id ∧
      machine.addInstance id = (receiver, store) ∧ store.FoundIn id initializerName owner method
  | _ => False

/-- What `super` and the calls of initialisers mean. A `super` that is written in a method of a class, also in a
function nested in it, leads to the superclass of that class, and `this` to the instance that the method is bound to.
The call of an initialiser gives the instance that it is bound to, once its body has ended in whatever way. -/
def Faithful (rounds : Nat) : Moment → Prop
  | ⟨.evaluate (_ + 1) (.super keyword note method), machine⟩ =>
    ∃ (id : FunctionId) (function : Function) (receiver : InstanceId) (owner parent : ClassId) (depth : Nat),
      machine.functions[id]? = some function ∧ machine.Bond function receiver owner ∧
      ⟨depth, keyword, note, method⟩ ∈ function.declaration.supers ∧ note = some (depth + 1) ∧
      machine.frames.link? machine.current depth = some function.closure ∧
      machine.frames.getAt machine.current depth "this" = .ok (.instance receiver) ∧
      machine.frames.getAt machine.current (depth + 1) "super" = .ok (.class parent) ∧
      machine.superclass? owner = some parent ∧ owner ∉ machine.lineage parent
  | ⟨.call room callee arguments, machine⟩ => ∀ function after,
      Leads rounds ⟨.call room callee arguments, machine⟩ ⟨.activate room function arguments, after⟩ →
      function.isInitializer = true → ∃ receiver owner, after.Bond function receiver owner ∧ ∀ flow last,
        block (exec .byDistance rounds room) function.closure
          ((function.declaration.params.map Token.lexeme).zip arguments) function.declaration.body after =
            .ok flow last →
        ∀ paren, call (exec .byDistance rounds room) paren callee arguments machine = .ok (.instance receiver) last
  | _ => True

end Moment

namespace Run

variable {machine : Machine} {method : Function} {receiver : InstanceId}

/-- The machine with a method bound to an instance. -/
def bound (machine : Machine) (method : Function) (receiver : InstanceId) : Machine :=
  { machine with toStore := (machine.bindMethod method receiver).2 }

theorem bindMethod_eq_ok {entry : FunctionId} (stored : machine.functions[entry]? = some method) :
    bindMethod entry receiver machine = .ok machine.functions.size (bound machine method receiver) := by
  simp only [bindMethod, Bind.bind, EStateM.bind, function_eq_ok stored]
  rfl

/-- The bound method itself. -/
theorem functions_bound : (bound machine method receiver).functions[machine.functions.size]? =
    some { method with closure := machine.frames.all.size } :=
  Store.addFunction_found _ _

variable {owner : ClassId}

/-- A property that is no field is a bound method. -/
theorem property_eq_ok {found : Instance} {name : Token} (held : machine.instances[receiver]? = some found)
    (noField : found.fields.get? name.lexeme = none)
    (isFound : machine.FoundIn found.owner name.lexeme owner method) :
    property receiver name machine = .ok (.function machine.functions.size) (bound machine method receiver) := by
  obtain ⟨entry, looked, stored⟩ := isFound.findMethod?
  simp only [property, Bind.bind, EStateM.bind, instanceOf_eq_ok held, noField, reading, looked,
    bindMethod_eq_ok stored]
  rfl

theorem superMethod_eq_ok {parent : ClassId} {name : Token}
    (isFound : machine.FoundIn parent name.lexeme owner method) :
    superMethod name (.class parent, .instance receiver) machine =
      .ok (.function machine.functions.size) (bound machine method receiver) := by
  obtain ⟨entry, looked, stored⟩ := isFound.findMethod?
  simp only [superMethod, Bind.bind, EStateM.bind, reading, looked, bindMethod_eq_ok stored]
  rfl

/-- A new instance, whose class has an initialiser. -/
theorem prepare_eq_ok {id : ClassId} {store : Store} (made : machine.addInstance id = (receiver, store))
    (isFound : store.FoundIn id initializerName owner method) :
    prepare id machine = .ok (receiver, some { method with closure := store.frames.all.size })
      (bound { machine with toStore := store } method receiver) := by
  obtain ⟨entry, looked, stored⟩ := isFound.findMethod?
  let after : Machine := { machine with toStore := store }
  have makes : onStore (·.addInstance id) machine = .ok receiver after := by
    simp only [onStore, made]
    rfl
  have looked : after.findMethod? id initializerName = some entry := looked
  have stored : after.functions[entry]? = some method := stored
  simp only [prepare, Bind.bind, EStateM.bind, makes, reading, looked, bindMethod_eq_ok stored,
    function_eq_ok functions_bound]
  rfl

/-- Making an instance either finds an initialiser in some class of the lineage, or there is none. -/
theorem prepare_cases (id : ClassId) {made : InstanceId} {initializer : Function} {after : Machine}
    (ended : prepare id machine = .ok (made, some initializer) after) :
    ∃ store owner method, machine.addInstance id = (made, store) ∧ store.FoundIn id initializerName owner method ∧
      initializer = { method with closure := store.frames.all.size } ∧
      after = bound { machine with toStore := store } method made := by
  obtain ⟨receiver, store, madeStore⟩ : ∃ receiver store, machine.addInstance id = (receiver, store) := ⟨_, _, rfl⟩
  let middle : Machine := { machine with toStore := store }
  have makes : onStore (·.addInstance id) machine = .ok receiver middle := by
    simp only [onStore, madeStore]
    rfl
  cases looked : middle.findMethod? id initializerName with
  | none =>
    simp only [prepare, Bind.bind, EStateM.bind, makes, reading, looked] at ended
    cases ended
  | some entry =>
    obtain ⟨nearer, owner, further, lineage, own, none⟩ := List.findSome?_eq_some_iff.mp looked
    cases stored : middle.functions[entry]? with
    | none =>
      have fails : function entry middle = .error (.defect .danglingObject) middle := by
        simp only [function, Bind.bind, EStateM.bind, reading, stored]
        rfl
      simp only [prepare, Bind.bind, EStateM.bind, makes, reading, looked, bindMethod, fails] at ended
      cases ended
    | some method =>
      have isFound : store.FoundIn id initializerName owner method :=
        ⟨nearer, further, entry, lineage, none, own, stored⟩
      rw [prepare_eq_ok madeStore isFound] at ended
      cases ended
      exact ⟨store, owner, method, madeStore, isFound, rfl, rfl⟩

end Run

namespace Receivers

variable {rounds room : Nat} {machine : Machine} {store after : Store} {owner : ClassId} {method : Function}
  {receiver : InstanceId} {moment : Moment}

/-- Stores only ever become such that keep what there is. -/
theorem keeps_of_becomes (becomes : pairing.Becomes store after) : store.Keeps after := by
  induction becomes with
  | refl => exact .refl _
  | tail _ step ih =>
    obtain ⟨_, _, _, _, ⟨rfl, _⟩, ⟨rfl, _⟩, keeps⟩ := step
    exact ih.trans keeps

theorem bonded_of_agrees {scene : pairing.Scene} (agrees : scene.Agrees) : scene.left.toStore.Bonded := by
  obtain ⟨same, _, bonded⟩ := agrees.state
  exact same ▸ bonded

/-- Every task keeps what there is when it is set about. -/
theorem keeps_of_ready (ready : pairing.Ready moment) : moment.machine.toStore.Keeps (moment.last rounds).toStore :=
  keeps_of_becomes (ready.becomes lawful rfl)

section Attaches

/-- The class of the instance descends from the class that has the method. -/
theorem serves_of_attaches (ready : pairing.Ready moment)
    (attaches : moment.Attaches rounds store owner method receiver) : store.Serves owner receiver := by
  obtain ⟨task, machine⟩ := moment
  obtain ⟨scene, rfl, agrees, prepared⟩ := ready
  have bonded := bonded_of_agrees agrees
  cases task with
  | evaluate room expr =>
    cases room with
    | zero => cases attaches
    | succ room =>
      obtain ⟨around, expr', at_, matching⟩ := prepared
      cases matching with
      | get _ _ part =>
        obtain ⟨last, found, ended, rfl, held, _, isFound⟩ := attaches
        have goes := (Pairing.goes_alike lawful rounds room).1 agrees at_ part
        obtain ⟨after, rfl, _, agrees', _⟩ := goes.of_ok ended
        exact ⟨found, held, ((bonded_of_agrees agrees').lineages.descends_of_mem_lineage isFound.mem_lineage).1⟩
      | super supers _ _ =>
        obtain ⟨parent, ended, rfl, isFound⟩ := attaches
        have same : scene.world = scene.left.toStore := agrees.state.1
        obtain ⟨pair, _, ⟨ended', _⟩, serves⟩ | ⟨halt, _, ended', _⟩ := lawful.superAndThis agrees at_ supers
        · rw [ended] at ended'
          cases ended'
          obtain ⟨found, held, descends⟩ : scene.world.Serves parent receiver := serves parent receiver rfl
          rw [same] at held descends
          exact ⟨found, held, descends.trans (bonded.lineages.descends_of_mem_lineage isFound.mem_lineage).1⟩
        · rw [ended] at ended'
          cases ended'
      | _ => cases attaches
  | call room callee arguments =>
    cases callee with
    | «class» id =>
      obtain ⟨_, made, isFound⟩ := attaches
      obtain ⟨rfl, rfl⟩ := Prod.mk.inj made
      have bonded' := bonded.withInstances (Store.keeps_addInstance scene.left.toStore id)
      obtain ⟨found, held, descends⟩ := Store.serves_addInstance scene.left.toStore id
      exact ⟨found, held, descends.trans (bonded'.lineages.descends_of_mem_lineage isFound.mem_lineage).1⟩
    | _ => cases attaches
  | _ => cases attaches

/-- The method stays bound to the end of the task. -/
theorem keeps_of_attaches (ready : pairing.Ready moment)
    (attaches : moment.Attaches rounds store owner method receiver) :
    (store.bindMethod method receiver).2.Keeps (moment.last rounds).toStore := by
  obtain ⟨task, machine⟩ := moment
  cases task with
  | evaluate room expr =>
    cases room with
    | zero => cases attaches
    | succ room =>
      cases expr with
      | get object name =>
        obtain ⟨last, found, ended, rfl, held, noField, isFound⟩ := attaches
        rw [Moment.last, eval, last_bind_of_ok ended, last_of_ok (property_eq_ok held noField isFound)]
        exact .refl _
      | super keyword note name =>
        obtain ⟨parent, ended, rfl, isFound⟩ := attaches
        rw [Moment.last, eval, last_bind_of_ok ended, last_of_ok (superMethod_eq_ok isFound)]
        exact .refl _
      | _ => cases attaches
  | call room callee arguments =>
    cases callee with
    | «class» id =>
      obtain ⟨enough, made, isFound⟩ := attaches
      let initializer : Function := { method with closure := store.frames.all.size }
      let part : Moment := ⟨.activate room initializer arguments, bound { machine with toStore := store } method receiver⟩
      have leads : Moment.Leads rounds ⟨.call room (.class id) arguments, machine⟩ part :=
        ⟨enough, _, prepare_eq_ok made isFound, rfl⟩
      rw [Moment.last, ← Moment.last_of_leads_call leads]
      exact keeps_of_ready (ready.leads lawful leads).1
    | _ => cases attaches
  | _ => cases attaches

end Attaches

section Faithful

/-- A function whose frame has `this` is bound to an instance. -/
theorem bond_of_getAt {id : FunctionId} {function : Function} {value : Value} (bonded : store.Bonded)
    (stored : store.functions[id]? = some function) (found : store.frames.getAt function.closure 0 "this" = .ok value) :
    ∃ receiver owner, value = .instance receiver ∧ store.Bond function receiver owner :=
  bonded.bound id function value stored (Frames.getAt_zero_eq_ok_iff.mp found).2

/-- An initialiser gives the instance that it is bound to. -/
theorem activate_initializer {function : Function} {arguments : List Value} {flow : Flow} {last : Machine}
    (ready : pairing.Ready ⟨.activate room function arguments, machine⟩) (bond : machine.Bond function receiver owner)
    (initializer : function.isInitializer = true)
    (ended : block (exec .byDistance rounds room) function.closure
      ((function.declaration.params.map Token.lexeme).zip arguments) function.declaration.body machine = .ok flow last) :
    activate (exec .byDistance rounds room) function arguments machine = .ok (.instance receiver) last := by
  have keeps : machine.toStore.Keeps last.toStore := by
    have body : machine.toStore.Keeps ((activate (exec .byDistance rounds room) function arguments).last machine).toStore :=
      keeps_of_ready ready
    rwa [last_activate, last_of_ok ended] at body
  have present := bond.present
  have this : last.frames.getAt function.closure 0 "this" = .ok (.instance receiver) := by
    rw [Frames.getAt_zero_eq_ok_iff, keeps.frames.keyword _ present _ (.inl rfl)]
    exact ⟨Nat.lt_of_lt_of_le present keeps.frames.size, bond.this⟩
  simp only [activate, Bind.bind, EStateM.bind, ended, initializer, if_true, reading, this]
  rfl

/-- The call of an initialiser through a bound method or through its class. -/
theorem faithful_call {callee : Value} {arguments : List Value}
    (ready : pairing.Ready ⟨.call room callee arguments, machine⟩)
    (secure : ∀ part, Moment.Leads rounds ⟨.call room callee arguments, machine⟩ part → part.Secure) :
    Moment.Faithful rounds ⟨.call room callee arguments, machine⟩ := by
  intro function after leads initializer
  have ready' := (ready.leads lawful leads).1
  obtain ⟨value, found⟩ := secure _ leads initializer
  obtain ⟨receiver, owner, rfl, bond⟩ : ∃ receiver owner, value = .instance receiver ∧ after.Bond function receiver owner := by
    obtain ⟨scene, rfl, agrees, ⟨id, _, stored, _⟩, _⟩ := ready'
    exact bond_of_getAt (bonded_of_agrees agrees) stored found
  refine ⟨receiver, owner, bond, fun flow last ended paren => ?_⟩
  have answers := activate_initializer ready' bond initializer ended
  cases callee with
  | function id =>
    obtain ⟨enough, value, ended', isLeft⟩ := leads
    cases isLeft
    rw [call_eq_invoke paren rfl enough]
    simp only [invoke, asCall, Bind.bind, EStateM.bind, ended', answers]
  | «class» id =>
    obtain ⟨enough, ⟨made, initializer?⟩, ended', isLeft⟩ := leads
    obtain ⟨_, rfl, same⟩ := Option.map_eq_some_iff.mp isLeft
    cases same
    obtain ⟨store, _, method, _, _, rfl, rfl⟩ := prepare_cases id ended'
    -- The frame of the initialiser has the instance that was made for it.
    have isMade := bond.this.symm.trans (store.this_bindMethod method made).2
    cases isMade
    rw [call_eq_invoke paren rfl enough]
    simp only [invoke, instantiate_eq, asCall, Bind.bind, EStateM.bind, ended', answers]
    rfl
  | _ => exact leads.elim

/-- A `super` in a method. -/
theorem faithful_super {keyword name : Token} {note : Distance}
    (ready : pairing.Ready ⟨.evaluate (room + 1) (.super keyword note name), machine⟩)
    (secure : Moment.Secure ⟨.superAndThis note, machine⟩) :
    Moment.Faithful rounds ⟨.evaluate (room + 1) (.super keyword note name), machine⟩ := by
  obtain ⟨scene, rfl, agrees, around, expr', at_, matching⟩ := ready
  have bonded := bonded_of_agrees agrees
  have same : scene.world = scene.left.toStore := agrees.state.1
  cases matching with
  | super supers _ _ =>
    obtain ⟨_, home, depth, rfl, rfl, listed⟩ := supers
    have within : Within scene.left.toStore home depth scene.left.current := same ▸ at_.within home depth rfl
    obtain ⟨id, function, receiver, owner, stored, rfl, bond, link, this, super⟩ := within.getAt
    obtain ⟨distance, parent, _, isDistance, _, above, _⟩ := secure
    cases isDistance
    rw [above] at super
    cases inherits : scene.left.superclass? owner with
    | none => simp [inherits] at super
    | some parent' =>
      simp only [inherits] at super
      cases super
      exact ⟨id, function, receiver, owner, parent, depth, stored, bond, listed, rfl, link, this, above, inherits,
        bonded.not_mem_lineage inherits⟩

/-- What is prepared for a task, and secure, is what `this` and `super` mean. -/
theorem faithful_of_ready (ready : pairing.Ready moment)
    (secure : ∀ part, Moment.Leads rounds moment part → part.Secure) : moment.Faithful rounds := by
  obtain ⟨task, machine⟩ := moment
  cases task with
  | evaluate room expr =>
    cases room with
    | zero => trivial
    | succ room =>
      cases expr with
      | super keyword note name => exact faithful_super ready (secure _ rfl)
      | _ => trivial
  | call room callee arguments => exact faithful_call ready secure
  | _ => trivial

end Faithful

end Receivers

end Lox

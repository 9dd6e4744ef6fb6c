import Lox.Proofs.Pairing

/-!
The actions of two runs side by side: reading, binding and making things in both stores at once.
-/
namespace Lox

namespace Pairing

variable {pairing : Pairing} {α β : Type}

namespace Scene

variable {before middle after scene : pairing.Scene}

theorem Step.refl (lawful : pairing.Lawful) (scene : pairing.Scene) : scene.Step scene :=
  ⟨lawful.refl _, .refl _, .refl _, fun _ _ => id, rfl⟩

theorem Step.trans (lawful : pairing.Lawful) (first : before.Step middle) (second : middle.Step after) :
    before.Step after where
  world := lawful.trans first.world second.world
  left := first.left.trans second.left
  right := first.right.trans second.right
  classes id found held := second.classes id found (first.classes id found held)
  current := second.current.trans first.current

theorem At.step (lawful : pairing.Lawful) {around : pairing.Around} (at_ : before.At around) (moved : before.Step after) :
    after.At around := by
  unfold At
  rw [moved.current]
  exact lawful.stands moved.world at_

theorem Step.classes_le (moved : before.Step after) : before.left.classes.size ≤ after.left.classes.size := by
  by_contra less
  have last : before.left.classes[after.left.classes.size]? = some before.left.classes[after.left.classes.size] :=
    Array.getElem?_eq_getElem (by omega)
  have found := moved.classes _ _ last
  simp at found

theorem Valid.step (lawful : pairing.Lawful) {value : Value} (valid : before.Valid value) (moved : before.Step after) :
    after.Valid value := by
  cases value with
  | function id =>
    obtain ⟨function, function', found, found', closed, initializer, around, stands, matching⟩ := valid
    exact ⟨function, function', moved.left.functions _ _ found, moved.right.functions _ _ found', closed, initializer,
      around, lawful.stands moved.world stands, matching⟩
  | «class» id => exact Nat.lt_of_lt_of_le valid moved.classes_le
  | «instance» id => exact Nat.lt_of_lt_of_le valid moved.left.instances
  | _ => trivial

theorem Bindable.step (lawful : pairing.Lawful) {id : FunctionId} (bindable : before.Bindable id)
    (moved : before.Step after) : after.Bindable id := by
  obtain ⟨function, function', found, found', closed, initializer, around, inside, stands, rest⟩ := bindable
  exact ⟨function, function', moved.left.functions _ _ found, moved.right.functions _ _ found', closed, initializer,
    around, inside, lawful.stands moved.world stands, rest⟩

end Scene

namespace Goes

variable {scene : pairing.Scene} {P : α → pairing.Scene → Prop} {Q : β → pairing.Scene → Prop}

theorem pure (lawful : pairing.Lawful) {value : α} (agrees : scene.Agrees) (holds : P value scene) :
    Goes (Pure.pure value) (Pure.pure value) scene P :=
  ⟨scene, .refl lawful scene, agrees, .inl ⟨value, rfl, rfl, holds⟩⟩

theorem bind (lawful : pairing.Lawful) {action action' : Run α} {next next' : α → Run β}
    (goes : Goes action action' scene P)
    (then_ : ∀ value after, scene.Step after → after.Agrees → P value after →
      Goes (next value) (next' value) after Q) :
    Goes (action >>= next) (action' >>= next') scene Q := by
  obtain ⟨middle, moved, agrees, ⟨value, ended, ended', holds⟩ | ⟨halt, halt', ended, ended', alike⟩⟩ := goes
  · obtain ⟨after, moved', agrees', ending⟩ := then_ value middle moved agrees holds
    refine ⟨after, moved.trans lawful moved', agrees', ?_⟩
    simpa only [Bind.bind, EStateM.bind, ended, ended'] using ending
  · refine ⟨middle, moved, agrees, .inr ⟨halt, halt', ?_, ?_, alike⟩⟩
    · simp only [Bind.bind, EStateM.bind, ended]
    · simp only [Bind.bind, EStateM.bind, ended']

theorem weaken {action action' : Run α} {R : α → pairing.Scene → Prop} (goes : Goes action action' scene P)
    (implies : ∀ value after, scene.Step after → after.Agrees → P value after → R value after) :
    Goes action action' scene R := by
  obtain ⟨after, moved, agrees, ⟨value, ended, ended', holds⟩ | halted⟩ := goes
  · exact ⟨after, moved, agrees, .inl ⟨value, ended, ended', implies value after moved agrees holds⟩⟩
  · exact ⟨after, moved, agrees, .inr halted⟩

/-- What comes after a look at the machines that shows the same. -/
theorem reading {view view' : Machine → α} {next next' : α → Run β} (same : view scene.left = view' scene.right)
    (goes : Goes (next (view scene.left)) (next' (view scene.left)) scene Q) :
    Goes (Run.reading view >>= next) (Run.reading view' >>= next') scene Q := by
  obtain ⟨after, moved, agrees, ending⟩ := goes
  refine ⟨after, moved, agrees, ?_⟩
  simpa only [Bind.bind, EStateM.bind, Run.reading, ← same] using ending

/-- What comes after actions that are known to change nothing. -/
theorem known {γ : Type} {action : Run α} {action' : Run γ} {value : α} {value' : γ} {next : α → Run β}
    {next' : γ → Run β} (left : action scene.left = .ok value scene.left)
    (right : action' scene.right = .ok value' scene.right) (goes : Goes (next value) (next' value') scene Q) :
    Goes (action >>= next) (action' >>= next') scene Q := by
  obtain ⟨after, moved, agrees, ending⟩ := goes
  refine ⟨after, moved, agrees, ?_⟩
  simpa only [Bind.bind, EStateM.bind, left, right] using ending

theorem fail (lawful : pairing.Lawful) (agrees : scene.Agrees) {token token' : Token} (cause : RuntimeFault)
    (same : pairing.Same token token') : Goes (Run.fail token cause : Run α) (Run.fail token' cause) scene P :=
  ⟨scene, .refl lawful scene, agrees, .inr ⟨_, _, rfl, rfl, rfl, same⟩⟩

theorem broken (lawful : pairing.Lawful) (agrees : scene.Agrees) (cause : Defect) :
    Goes (Run.broken cause : Run α) (Run.broken cause) scene P :=
  ⟨scene, .refl lawful scene, agrees, .inr ⟨_, _, rfl, rfl, rfl⟩⟩

theorem tooDeep (lawful : pairing.Lawful) (agrees : scene.Agrees) :
    Goes (throw .tooDeep : Run α) (throw .tooDeep) scene P :=
  ⟨scene, .refl lawful scene, agrees, .inr ⟨_, _, rfl, rfl, trivial⟩⟩

/-- Where the action on the left ends well, so does the one on the right. -/
theorem of_ok {action action' : Run α} {value : α} {machine : Machine} (goes : Goes action action' scene P)
    (ended : action scene.left = .ok value machine) : ∃ after : pairing.Scene, after.left = machine ∧
      scene.Step after ∧ after.Agrees ∧ P value after := by
  obtain ⟨after, moved, agrees, ⟨value', ended', _, holds⟩ | ⟨halt, _, ended', _⟩⟩ := goes
  · rw [ended] at ended'
    cases ended'
    exact ⟨after, rfl, moved, agrees, holds⟩
  · rw [ended] at ended'
    cases ended'

end Goes

section Actions

variable {scene : pairing.Scene} {P : α → pairing.Scene → Prop}

theorem goes_within {frame : FrameId} {action action' : Run α}
    (goes : Goes action action'
      { scene with left := { scene.left with current := frame }, right := { scene.right with current := frame } } P)
    (agrees : scene.Agrees)
    (kept : ∀ value after, P value after →
      P value { after with left := { after.left with current := scene.left.current }
                           right := { after.right with current := scene.right.current } }) :
    Goes (Run.within frame action) (Run.within frame action') scene P := by
  obtain ⟨after, moved, agrees', ending⟩ := goes
  let back : pairing.Scene :=
    { after with left := { after.left with current := scene.left.current }
                 right := { after.right with current := scene.right.current } }
  have steps : scene.Step back := ⟨moved.world, moved.left, moved.right, moved.classes, rfl⟩
  have same : back.Agrees :=
    ⟨agrees'.state, agrees.current, agrees'.output, agrees'.now, agrees'.frames, agrees'.size, agrees'.functions, agrees'.classes,
      agrees'.instances, agrees'.names, agrees'.fields, agrees'.methods⟩
  refine ⟨back, steps, same, ?_⟩
  obtain ⟨value, ended, ended', holds⟩ | ⟨halt, halt', ended, ended', alike⟩ := ending
  · refine .inl ⟨value, ?_, ?_, kept value after holds⟩
    · simp only [Run.within, ended, back]
    · simp only [Run.within, ended', back]
  · refine .inr ⟨halt, halt', ?_, ?_, alike⟩
    · simp only [Run.within, ended, back]
    · simp only [Run.within, ended', back]

theorem goes_asCall {paren paren' : Token} {action action' : Run α} (same : pairing.Same paren paren')
    (goes : Goes action action' scene P) : Goes (Run.asCall paren action) (Run.asCall paren' action') scene P := by
  obtain ⟨after, moved, agrees, ⟨value, ended, ended', holds⟩ | ⟨halt, halt', ended, ended', alike⟩⟩ := goes
  · refine ⟨after, moved, agrees, .inl ⟨value, ?_, ?_, holds⟩⟩
    · simp only [Run.asCall, ended]
    · simp only [Run.asCall, ended']
  · have deep : halt = .tooDeep ∧ halt' = .tooDeep ∨ halt ≠ .tooDeep ∧ halt' ≠ .tooDeep := by
      cases halt <;> cases halt' <;> simp_all [Alike]
    obtain ⟨rfl, rfl⟩ | ⟨other, other'⟩ := deep
    · refine ⟨after, moved, agrees, .inr ⟨.fault ⟨.stackOverflow, paren⟩, .fault ⟨.stackOverflow, paren'⟩, ?_, ?_,
        rfl, same⟩⟩
      · simp only [Run.asCall, ended]
      · simp only [Run.asCall, ended']
    · refine ⟨after, moved, agrees, .inr ⟨halt, halt', ?_, ?_, alike⟩⟩
      · cases halt <;> simp_all [Run.asCall]
      · cases halt' <;> simp_all [Run.asCall]

theorem Halts.goes (lawful : pairing.Lawful) {action action' : Run α} (halts : Halts action action' scene)
    (agrees : scene.Agrees) : Goes action action' scene P :=
  ⟨scene, .refl lawful scene, agrees, .inr halts⟩

theorem Gives.goes (lawful : pairing.Lawful) {action action' : Run α} {value : α} (gives : Gives action action' scene value)
    (agrees : scene.Agrees) (holds : P value scene) : Goes action action' scene P :=
  ⟨scene, .refl lawful scene, agrees, .inl ⟨value, gives.1, gives.2, holds⟩⟩

/-- What a round of two loops preserves, the loops preserve. -/
theorem goes_iterate (lawful : pairing.Lawful) {step step' : Run (Option α)} {I : pairing.Scene → Prop}
    (steps : ∀ scene : pairing.Scene, scene.Agrees → I scene → Goes step step' scene fun result after =>
      match result with
      | none => I after
      | some value => P value after)
    (rounds : Nat) (agrees : scene.Agrees) (start : I scene) :
    Goes (Run.iterate step rounds) (Run.iterate step' rounds) scene P := by
  induction rounds generalizing scene with
  | zero => exact ⟨scene, .refl lawful scene, agrees, .inr ⟨_, _, rfl, rfl, trivial⟩⟩
  | succ rounds ih =>
    rw [Run.iterate_succ, Run.iterate_succ]
    apply Goes.bind lawful (steps scene agrees start)
    intro result after moved agrees' holds
    cases result with
    | none => exact ih agrees' holds
    | some value => exact Goes.pure lawful agrees' holds

end Actions

section Stores

variable {scene : pairing.Scene} {P : α → pairing.Scene → Prop}

/-- Actions that only change the stores. -/
theorem goes_onStore {change change' : Store → α × Store} {world : pairing.World}
    (same : (change scene.left.toStore).1 = (change' scene.right.toStore).1)
    (moved : scene.Step (scene.withStores world (change scene.left.toStore).2 (change' scene.right.toStore).2))
    (agrees : (scene.withStores world (change scene.left.toStore).2 (change' scene.right.toStore).2).Agrees)
    (holds : P (change scene.left.toStore).1
      (scene.withStores world (change scene.left.toStore).2 (change' scene.right.toStore).2)) :
    Goes (Run.onStore change) (Run.onStore change') scene P := by
  refine ⟨_, moved, agrees, .inl ⟨_, rfl, ?_, holds⟩⟩
  rw [same]
  rfl

/-- New frames and new bindings, all of them of values that are valid afterwards. -/
theorem Scene.Agrees.withFrames (lawful : pairing.Lawful) (agrees : scene.Agrees) {world : pairing.World}
    {change change' : Frames → Frames}
    (moved : scene.Step (scene.withStores world (Pairing.withFrames scene.left.toStore change)
      (Pairing.withFrames scene.right.toStore change')))
    (state : pairing.State world (Pairing.withFrames scene.left.toStore change)
      (Pairing.withFrames scene.right.toStore change'))
    (size : (change scene.left.frames).all.size = (change' scene.right.frames).all.size)
    (names : ∀ frame name value, ((change scene.left.frames).names frame).get? name = some value →
      (scene.withStores world (Pairing.withFrames scene.left.toStore change)
        (Pairing.withFrames scene.right.toStore change')).Valid value) :
    (scene.withStores world (Pairing.withFrames scene.left.toStore change)
      (Pairing.withFrames scene.right.toStore change')).Agrees where
  state := state
  current := agrees.current
  output := agrees.output
  now := agrees.now
  frames := size
  size := agrees.size
  functions := agrees.functions
  classes := agrees.classes
  instances := agrees.instances
  names := names
  fields id found name value held field := (agrees.fields id found name value held field).step lawful moved
  methods id found name method held listed := (agrees.methods id found name method held listed).step lawful moved

/-- Binding a name in one frame, perhaps under two spellings, to a value that is valid afterwards. -/
theorem Scene.Agrees.bindName (lawful : pairing.Lawful) {world : pairing.World} {frame : FrameId}
    {name name' : String} {value : Value} (agrees : scene.Agrees) (later : pairing.Later scene.world world)
    (state : pairing.State world (Pairing.withFrames scene.left.toStore (·.define frame name value))
      (Pairing.withFrames scene.right.toStore (·.define frame name' value)))
    (valid : ∀ after : pairing.Scene, scene.Step after → after.world = world → after.Valid value) :
    let after := scene.withStores world (Pairing.withFrames scene.left.toStore (·.define frame name value))
      (Pairing.withFrames scene.right.toStore (·.define frame name' value))
    scene.Step after ∧ after.Agrees := by
  have moved : scene.Step (scene.withStores world (Pairing.withFrames scene.left.toStore (·.define frame name value))
      (Pairing.withFrames scene.right.toStore (·.define frame name' value))) :=
    ⟨later, .withFrames (Frames.grow_define _ _ _ _), .withFrames (Frames.grow_define _ _ _ _), fun _ _ => id, rfl⟩
  refine ⟨moved, agrees.withFrames lawful moved state ?_ fun other query found bound => ?_⟩
  · simp [Frames.define, agrees.frames]
  · rcases Frames.bound_of_define bound with ⟨_, rfl, rfl⟩ | bound
    · exact valid _ moved rfl
    · exact (agrees.names other query found bound).step lawful moved

theorem goes_bindName (lawful : pairing.Lawful) {world : pairing.World} {frame : FrameId} {name name' : String}
    {value : Value} (agrees : scene.Agrees) (later : pairing.Later scene.world world)
    (state : pairing.State world (Pairing.withFrames scene.left.toStore (·.define frame name value))
      (Pairing.withFrames scene.right.toStore (·.define frame name' value)))
    (valid : ∀ after : pairing.Scene, scene.Step after → after.world = world → after.Valid value) :
    Goes (Run.onFrames fun frames => ((), frames.define frame name value))
      (Run.onFrames fun frames => ((), frames.define frame name' value)) scene fun _ after =>
        after = scene.withStores world (Pairing.withFrames scene.left.toStore (·.define frame name value))
          (Pairing.withFrames scene.right.toStore (·.define frame name' value)) := by
  obtain ⟨moved, agrees'⟩ := agrees.bindName lawful later state valid
  exact goes_onStore rfl moved agrees' rfl

theorem mem_of_names_defineAll {frames : Frames} {frame other : FrameId} {bindings : List (String × Value)}
    {name : String} {value : Value}
    (bound : ((frames.defineAll frame bindings).names other).get? name = some value) :
    (frames.names other).get? name = some value ∨ ∃ entry ∈ bindings, entry.2 = value := by
  induction bindings generalizing frames with
  | nil => exact .inl bound
  | cons first rest ih =>
    rcases ih bound with earlier | ⟨entry, member, same⟩
    · rcases Frames.bound_of_define earlier with ⟨_, _, rfl⟩ | earlier
      · exact .inr ⟨first, List.mem_cons_self, rfl⟩
      · exact .inl earlier
    · exact .inr ⟨entry, List.mem_cons_of_mem _ member, same⟩

theorem size_defineAll (frames : Frames) (frame : FrameId) (bindings : List (String × Value)) :
    (frames.defineAll frame bindings).all.size = frames.all.size := by
  induction bindings generalizing frames with
  | nil => rfl
  | cons first rest ih => exact (ih _).trans (by simp [Frames.define])

@[simp]
theorem size_openFrame (frames : Frames) (enclosing : FrameId) (bindings : List (String × Value)) :
    (frames.openFrame enclosing bindings).2.all.size = frames.all.size + 1 := by
  simp [Frames.openFrame, size_defineAll, Frames.create]

/-- A new frame in both stores, with values bound in it that are valid. -/
theorem goes_openFrame (lawful : pairing.Lawful) {world : pairing.World} {enclosing : FrameId}
    {bindings bindings' : List (String × Value)} (agrees : scene.Agrees)
    (later : pairing.Later scene.world world)
    (state : pairing.State world
      (Pairing.withFrames scene.left.toStore fun frames => (frames.openFrame enclosing bindings).2)
      (Pairing.withFrames scene.right.toStore fun frames => (frames.openFrame enclosing bindings').2))
    (valid : ∀ entry ∈ bindings, scene.Valid entry.2) :
    Goes (Run.onFrames fun frames => frames.openFrame enclosing bindings)
      (Run.onFrames fun frames => frames.openFrame enclosing bindings') scene fun frame after =>
        frame = scene.left.frames.all.size ∧
          after = scene.withStores world
            (Pairing.withFrames scene.left.toStore fun frames => (frames.openFrame enclosing bindings).2)
            (Pairing.withFrames scene.right.toStore fun frames => (frames.openFrame enclosing bindings').2) := by
  have moved : scene.Step (scene.withStores world
      (Pairing.withFrames scene.left.toStore fun frames => (frames.openFrame enclosing bindings).2)
      (Pairing.withFrames scene.right.toStore fun frames => (frames.openFrame enclosing bindings').2)) :=
    ⟨later, .withFrames (Frames.grow_openFrame _ _ _), .withFrames (Frames.grow_openFrame _ _ _), fun _ _ => id, rfl⟩
  refine goes_onStore agrees.frames moved (agrees.withFrames lawful moved state ?_ ?_) ⟨rfl, rfl⟩
  · simp [agrees.frames]
  · intro other query found bound
    rcases mem_of_names_defineAll bound with earlier | ⟨entry, member, rfl⟩
    · rw [Frames.names_create] at earlier
      exact (agrees.names other query found earlier).step lawful moved
    · exact (valid entry member).step lawful moved

theorem Scene.Agrees.functions_push (agrees : scene.Agrees) {function function' : Function}
    (alike : pairing.Functions function function') (id : FunctionId) (found found' : Function)
    (held : (scene.left.functions.push function)[id]? = some found)
    (held' : (scene.right.functions.push function')[id]? = some found') : pairing.Functions found found' := by
  rw [Array.getElem?_push] at held held'
  rw [← agrees.size] at held'
  split at held
  · rename_i new
    rw [if_pos new] at held'
    cases held
    cases held'
    exact alike
  · rename_i older
    rw [if_neg older] at held'
    exact agrees.functions id found found' held held'

theorem goes_addFunction (lawful : pairing.Lawful) (agrees : scene.Agrees) {function function' : Function}
    (encloses : pairing.Encloses scene.world function.closure) (alike : pairing.Functions function function') :
    Goes (Run.onStore (·.addFunction function)) (Run.onStore (·.addFunction function')) scene fun id after =>
      after.left.functions[id]? = some function ∧ after.right.functions[id]? = some function' := by
  obtain ⟨world, later, state⟩ := lawful.addFunction agrees.state encloses alike
  have moved : scene.Step (scene.withStores world (scene.left.addFunction function).2
      (scene.right.addFunction function').2) :=
    ⟨later, Store.extends_addFunction _ _, Store.extends_addFunction _ _, fun _ _ => id, rfl⟩
  refine goes_onStore agrees.size moved ?_ ⟨Store.addFunction_found _ _, ?_⟩
  · refine ⟨state, agrees.current, agrees.output, agrees.now, agrees.frames, ?_, ?_, agrees.classes, agrees.instances,
      ?_, ?_, ?_⟩
    · simp [Scene.withStores, Store.addFunction, agrees.size]
    · exact agrees.functions_push alike
    · exact fun frame name value bound => (agrees.names frame name value bound).step lawful moved
    · exact fun id found name value held field => (agrees.fields id found name value held field).step lawful moved
    · exact fun id found name method held listed => (agrees.methods id found name method held listed).step lawful moved
  · have found := Store.addFunction_found scene.right.toStore function'
    have same : (scene.right.toStore.addFunction function').1 = (scene.left.toStore.addFunction function).1 :=
      agrees.size.symm
    rwa [same] at found

theorem goes_setField (lawful : pairing.Lawful) (agrees : scene.Agrees) (id : InstanceId) (name : String) {value : Value}
    (valid : scene.Valid value) :
    Goes (Run.onStore fun store => ((), store.setField id name value))
      (Run.onStore fun store => ((), store.setField id name value)) scene fun _ _ => True := by
  obtain ⟨world, later, state⟩ := lawful.setField id name value agrees.state
  have moved : scene.Step (scene.withStores world (scene.left.setField id name value)
      (scene.right.setField id name value)) :=
    ⟨later, Store.extends_setField _ _ _ _, Store.extends_setField _ _ _ _, fun _ _ held => held, rfl⟩
  refine goes_onStore rfl moved ?_ trivial
  refine ⟨state, agrees.current, agrees.output, agrees.now, agrees.frames, agrees.size, agrees.functions, agrees.classes, ?_,
    ?_, ?_, ?_⟩
  · simp [Scene.withStores, Store.setField, agrees.instances]
  · exact fun frame name value bound => (agrees.names frame name value bound).step lawful moved
  · intro other found query held object field
    rcases Store.held_of_setField object field with ⟨_, _, rfl⟩ | ⟨earlier, older, field'⟩
    · exact valid.step lawful moved
    · exact (agrees.fields other earlier query held older field').step lawful moved
  · exact fun id found name method held listed => (agrees.methods id found name method held listed).step lawful moved

/-- A new instance, which its class serves. -/
theorem goes_addInstance (lawful : pairing.Lawful) (agrees : scene.Agrees) {owner : ClassId}
    (known : owner < scene.left.classes.size) :
    Goes (Run.onStore (·.addInstance owner)) (Run.onStore (·.addInstance owner)) scene fun made after =>
      made < after.left.instances.size ∧ pairing.Serves after.world owner made ∧
        after.left.classes = scene.left.classes ∧ after.left.functions = scene.left.functions := by
  obtain ⟨world, later, serves, state⟩ := lawful.addInstance agrees.state known agrees.instances
  have moved : scene.Step (scene.withStores world (scene.left.addInstance owner).2 (scene.right.addInstance owner).2) :=
    ⟨later, Store.extends_addInstance _ _, Store.extends_addInstance _ _, fun _ _ => id, rfl⟩
  have same : (scene.left.addInstance owner).1 = (scene.right.addInstance owner).1 :=
    congrArg Array.size agrees.instances
  refine goes_onStore same moved ?_ ⟨?_, serves, rfl, rfl⟩
  · refine ⟨state, agrees.current, agrees.output, agrees.now, agrees.frames, agrees.size, agrees.functions, agrees.classes, ?_,
      ?_, ?_, ?_⟩
    · simp [Scene.withStores, Store.addInstance, agrees.instances]
    · exact fun frame name value bound => (agrees.names frame name value bound).step lawful moved
    · intro other found query held object field
      simp only [Scene.withStores, Store.addInstance, Array.getElem?_push] at object
      split at object
      · cases object
        cases field
      · exact (agrees.fields other found query held object field).step lawful moved
    · exact fun id found name method held listed => (agrees.methods id found name method held listed).step lawful moved
  · simp [Scene.withStores, Store.addInstance]

theorem Scene.Agrees.lineage (agrees : scene.Agrees) (id : ClassId) :
    scene.left.lineage id = scene.right.lineage id := by
  simp only [Store.lineage, agrees.classes]

theorem Scene.Agrees.findMethod? (agrees : scene.Agrees) (id : ClassId) (name : String) :
    scene.left.findMethod? id name = scene.right.findMethod? id name := by
  simp only [Store.findMethod?, agrees.lineage, agrees.classes]

/-- A class whose methods can be bound. -/
theorem goes_addClass (lawful : pairing.Lawful) (agrees : scene.Agrees) (name : String) {parent : Option ClassId}
    {closure : FrameId} {table : Table FunctionId} (closes : pairing.Closes scene.world parent closure)
    (known : ∀ id, parent = some id → id < scene.left.classes.size)
    (methods : ∀ name method, table.get? name = some method → scene.Bindable method ∧
      ∃ function, scene.left.functions[method]? = some function ∧ function.closure = closure ∧
        function.isInitializer = decide (name = initializerName) ∧ function.declaration.name.lexeme = name) :
    Goes (Run.onStore fun store => store.addClass ⟨name, (parent.map store.lineage).getD [], table⟩)
      (Run.onStore fun store => store.addClass ⟨name, (parent.map store.lineage).getD [], table⟩) scene
      fun id after => id < after.left.classes.size := by
  let made : Class := ⟨name, (parent.map scene.left.lineage).getD [], table⟩
  have same : (parent.map scene.right.lineage).getD [] = (parent.map scene.left.lineage).getD [] := by
    cases parent with
    | none => rfl
    | some id => exact (agrees.lineage id).symm
  obtain ⟨world, later, state⟩ := lawful.addClass name agrees.state agrees.classes closes known
    fun name method listed => (methods name method listed).2
  have moved : scene.Step (scene.withStores world (scene.left.addClass made).2 (scene.right.addClass made).2) := by
    refine ⟨later, Store.extends_addClass _ _, Store.extends_addClass _ _, fun id found held => ?_, rfl⟩
    have older := (Array.getElem?_eq_some_iff.mp held).1
    simp [Scene.withStores, Store.addClass, Array.getElem?_push, Nat.ne_of_lt older, held]
  have agrees' : (scene.withStores world (scene.left.addClass made).2 (scene.right.addClass made).2).Agrees := by
    refine ⟨state, agrees.current, agrees.output, agrees.now, agrees.frames, agrees.size, agrees.functions, ?_, agrees.instances,
      ?_, ?_, ?_⟩
    · simp [Scene.withStores, Store.addClass, agrees.classes]
    · exact fun frame name value bound => (agrees.names frame name value bound).step lawful moved
    · exact fun id found name value held field => (agrees.fields id found name value held field).step lawful moved
    · intro id found query method held listed
      simp only [Scene.withStores, Store.addClass, Array.getElem?_push] at held
      split at held
      · cases held
        exact (methods query method listed).1.step lawful moved
      · exact (agrees.methods id found query method held listed).step lawful moved
  refine ⟨_, moved, agrees', .inl ⟨scene.left.classes.size, rfl, ?_, ?_⟩⟩
  · simp only [Run.onStore, same, Store.addClass, agrees.classes]
    rfl
  · simp [Scene.withStores, Store.addClass]

/-- A method that a class has gets bound to an instance that the class serves. -/
theorem goes_bindMethod (lawful : pairing.Lawful) (agrees : scene.Agrees) {id : ClassId} {name : String}
    {method : FunctionId} {receiver : InstanceId} (found : scene.left.findMethod? id name = some method)
    (present : receiver < scene.left.instances.size) (serves : pairing.Serves scene.world id receiver) :
    Goes (Run.bindMethod method receiver) (Run.bindMethod method receiver) scene fun bound after =>
      ∃ function function', after.left.functions[bound]? = some function ∧
        after.right.functions[bound]? = some function' ∧ pairing.Callable after.world function function' ∧
        function.declaration.params.length = scene.left.functionArity method := by
  obtain ⟨link, inLineage, listed⟩ := List.exists_of_findSome?_eq_some found
  obtain ⟨definition, held, entry⟩ := Option.bind_eq_some_iff.mp listed
  obtain ⟨function, function', isLeft, isRight, closed, initializer, around, inside, stands, binds, matching⟩ :=
    agrees.methods link definition name method held entry
  obtain ⟨world, later, standing, state⟩ := lawful.bindMethod agrees.state held entry isLeft isRight
    ⟨closed, initializer, inside, matching⟩ present
    (lawful.lineage agrees.state serves inLineage) stands binds
  let bindings : List (String × Value) := [("this", .instance receiver)]
  let copy : Function := { function with closure := scene.left.frames.all.size }
  let copy' : Function := { function' with closure := scene.right.frames.all.size }
  have made : scene.left.toStore.bindMethod function receiver = Store.addFunction
      { scene.left.toStore with frames := (scene.left.frames.openFrame function.closure bindings).2 } copy := rfl
  have made' : scene.right.toStore.bindMethod function' receiver = Store.addFunction
      { scene.right.toStore with frames := (scene.right.frames.openFrame function'.closure bindings).2 } copy' := rfl
  have moved : scene.Step (scene.withStores world (scene.left.toStore.bindMethod function receiver).2
      (scene.right.toStore.bindMethod function' receiver).2) := by
    refine ⟨later, ?_, ?_, fun _ _ held => held, rfl⟩
    · rw [made]
      exact (Store.Extends.withFrames (Frames.grow_openFrame _ _ bindings)).trans (Store.extends_addFunction _ _)
    · rw [made']
      exact (Store.Extends.withFrames (Frames.grow_openFrame _ _ bindings)).trans (Store.extends_addFunction _ _)
  refine Goes.known (Run.function_eq_ok isLeft) (Run.function_eq_ok isRight) (goes_onStore ?_ moved ?_ ?_)
  · exact agrees.size
  · refine ⟨state, agrees.current, agrees.output, agrees.now, ?_, ?_, ?_, agrees.classes, agrees.instances, ?_, ?_, ?_⟩
    · simp [Scene.withStores, made, made', Store.addFunction, agrees.frames]
    · simp [Scene.withStores, made, made', Store.addFunction, agrees.size]
    · exact agrees.functions_push ⟨agrees.frames, initializer, inside, matching⟩
    · intro other query value bound
      have opened : ((scene.left.frames.openFrame function.closure bindings).2.names other).get? query = some value :=
        bound
      rcases mem_of_names_defineAll opened with earlier | ⟨binding, member, rfl⟩
      · rw [Frames.names_create] at earlier
        exact (agrees.names other query _ earlier).step lawful moved
      · obtain rfl := List.mem_singleton.mp member
        exact present
    · exact fun id found name value held field => (agrees.fields id found name value held field).step lawful moved
    · exact fun id found name method held listed => (agrees.methods id found name method held listed).step lawful moved
  · refine ⟨copy, copy', ?_, ?_, ⟨agrees.frames, initializer, inside, standing, matching⟩, ?_⟩
    · exact Store.addFunction_found _ copy
    · have found' := Store.addFunction_found { scene.right.toStore with
        frames := (scene.right.frames.openFrame function'.closure bindings).2 } copy'
      have same : (Store.addFunction { scene.right.toStore with
          frames := (scene.right.frames.openFrame function'.closure bindings).2 } copy').1 =
          (scene.left.toStore.bindMethod function receiver).1 := agrees.size.symm
      rw [same] at found'
      exact found'
    · simp [Store.functionArity, isLeft, copy]

end Stores

end Pairing

end Lox

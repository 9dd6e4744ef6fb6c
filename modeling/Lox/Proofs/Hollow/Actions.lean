import Lox.Proofs.Hollow.Frames

/-!
The actions of two runs of which the first one has hollow frames: both end with values that correspond, or with one
halt. The numbers of frames are the only values for which that is not to be the same.
-/
namespace Lox

namespace Hollow

/-- The two machines at one point of the runs. -/
structure Scene where
  left : Machine
  right : Machine
  twin : FrameId → Option FrameId

/-- Functions that do the same when they are called. -/
def Callable (twins : Twins) (function function' : Function) : Prop :=
  function.isInitializer = function'.isInitializer ∧ ∃ hollow, hollow ≠ some 0 ∧
    twins.Stands hollow function.closure function'.closure ∧
    scheme.MatchFunction hollow function.declaration function'.declaration

/-- Methods that do the same once they are bound. -/
def Bindable (twins : Twins) (function function' : Function) : Prop :=
  function.isInitializer = function'.isInitializer ∧ ∃ hollow,
    twins.Stands hollow function.closure function'.closure ∧
    scheme.MatchFunction (deeper hollow) function.declaration function'.declaration

namespace Scene

variable {before middle after scene : Scene} {hollow : Option Nat} {value : Value}

def twins (scene : Scene) : Twins := ⟨scene.left.frames, scene.right.frames, scene.twin⟩

/-- Values that mean the same to both machines. -/
def Valid (scene : Scene) : Value → Prop
  | .function id => ∃ function function', scene.left.functions[id]? = some function ∧
      scene.right.functions[id]? = some function' ∧ Callable scene.twins function function'
  | _ => True

def Bindable (scene : Scene) (id : FunctionId) : Prop :=
  ∃ function function', scene.left.functions[id]? = some function ∧
    scene.right.functions[id]? = some function' ∧ Hollow.Bindable scene.twins function function'

/-- The frames at hand are at the same place. -/
def At (scene : Scene) (hollow : Option Nat) : Prop :=
  scene.twins.Stands hollow scene.left.current scene.right.current

/-- The invariant of the two runs. -/
structure Agrees (scene : Scene) : Prop where
  twins : scene.twins.Holds
  output : scene.left.output = scene.right.output
  now : scene.left.now = scene.right.now
  size : scene.left.functions.size = scene.right.functions.size
  classes : scene.left.classes = scene.right.classes
  instances : scene.left.instances = scene.right.instances
  names : ∀ frame frame' name value, scene.twin frame = some frame' →
    (scene.left.frames.names frame).get? name = some value → scene.Valid value
  fields : ∀ (id : InstanceId) (found : Instance) (name : String) (value : Value),
    scene.left.instances[id]? = some found → found.fields.get? name = some value → scene.Valid value
  methods : ∀ (id : ClassId) (found : Class) (name : String) (method : FunctionId),
    scene.left.classes[id]? = some found → found.methods.get? name = some method → scene.Bindable method

/-- From one point of the runs to a later one. -/
structure Step (before after : Scene) : Prop where
  twin : ∀ {frame frame'}, before.twin frame = some frame' → after.twin frame = some frame'
  left : before.left.toStore.Extends after.left.toStore
  right : before.right.toStore.Extends after.right.toStore
  current : after.left.current = before.left.current
  current' : after.right.current = before.right.current

theorem Step.refl (scene : Scene) : scene.Step scene := ⟨id, .refl _, .refl _, rfl, rfl⟩

theorem Step.trans (first : before.Step middle) (second : middle.Step after) : before.Step after where
  twin held := second.twin (first.twin held)
  left := first.left.trans second.left
  right := first.right.trans second.right
  current := second.current.trans first.current
  current' := second.current'.trans first.current'

theorem Step.later (moved : before.Step after) : before.twins.Later after.twins :=
  ⟨moved.left.frames, moved.right.frames, moved.twin⟩

theorem At.step (at_ : before.At hollow) (moved : before.Step after) : after.At hollow := by
  unfold At
  rw [moved.current, moved.current']
  exact at_.mono moved.later

theorem Valid.step (valid : before.Valid value) (moved : before.Step after) : after.Valid value := by
  cases value with
  | function id =>
    obtain ⟨function, function', found, found', initializer, around, apart, stands, matching⟩ := valid
    exact ⟨function, function', moved.left.functions _ _ found, moved.right.functions _ _ found', initializer, around,
      apart, stands.mono moved.later, matching⟩
  | _ => trivial

theorem Bindable.step {id : FunctionId} (bindable : before.Bindable id) (moved : before.Step after) :
    after.Bindable id := by
  obtain ⟨function, function', found, found', initializer, around, stands, matching⟩ := bindable
  exact ⟨function, function', moved.left.functions _ _ found, moved.right.functions _ _ found', initializer, around,
    stands.mono moved.later, matching⟩

/-- The machines with other stores. -/
def withStores (scene : Scene) (store store' : Store) (twin : FrameId → Option FrameId) : Scene :=
  ⟨{ scene.left with toStore := store }, { scene.right with toStore := store' }, twin⟩

/-- What a change of both stores has to keep. Whatever is held afterwards was valid before. -/
theorem Agrees.withStores (agrees : scene.Agrees) {store store' : Store} {twin : FrameId → Option FrameId}
    (twins : ∀ {frame frame'}, scene.twin frame = some frame' → twin frame = some frame')
    (left : scene.left.toStore.Extends store) (right : scene.right.toStore.Extends store')
    (holds : Twins.Holds ⟨store.frames, store'.frames, twin⟩)
    (size : store.functions.size = store'.functions.size) (classes : store.classes = store'.classes)
    (instances : store.instances = store'.instances)
    (names : ∀ frame frame' name value, twin frame = some frame' →
      (store.frames.names frame).get? name = some value → scene.Valid value)
    (fields : ∀ (id : InstanceId) (found : Instance) (name : String) (value : Value),
      store.instances[id]? = some found → found.fields.get? name = some value → scene.Valid value)
    (methods : ∀ (id : ClassId) (found : Class) (name : String) (method : FunctionId),
      store.classes[id]? = some found → found.methods.get? name = some method → scene.Bindable method) :
    scene.Step (scene.withStores store store' twin) ∧ (scene.withStores store store' twin).Agrees := by
  have moved : scene.Step (scene.withStores store store' twin) := ⟨twins, left, right, rfl, rfl⟩
  refine ⟨moved, holds, agrees.output, agrees.now, size, classes, instances, ?_, ?_, ?_⟩
  · exact fun frame frame' name value twin bound => (names frame frame' name value twin bound).step moved
  · exact fun id found name value held field => (fields id found name value held field).step moved
  · exact fun id found name method held listed => (methods id found name method held listed).step moved

/-- New frames and new bindings. -/
theorem Agrees.withTwins (agrees : scene.Agrees) {twins : Twins} (later : scene.twins.Later twins) (holds : twins.Holds)
    (names : ∀ frame frame' name value, twins.twin frame = some frame' →
      (twins.left.names frame).get? name = some value → scene.Valid value) :
    let after := scene.withStores { scene.left.toStore with frames := twins.left }
      { scene.right.toStore with frames := twins.right } twins.twin
    scene.Step after ∧ after.Agrees :=
  agrees.withStores later.twin (.withFrames later.left) (.withFrames later.right) holds agrees.size agrees.classes
    agrees.instances names agrees.fields agrees.methods

/-- A change that leaves the frames alone. -/
theorem Agrees.withObjects (agrees : scene.Agrees) {store store' : Store}
    (left : scene.left.toStore.Extends store) (right : scene.right.toStore.Extends store')
    (frames : store.frames = scene.left.frames) (frames' : store'.frames = scene.right.frames)
    (size : store.functions.size = store'.functions.size) (classes : store.classes = store'.classes)
    (instances : store.instances = store'.instances)
    (fields : ∀ (id : InstanceId) (found : Instance) (name : String) (value : Value),
      store.instances[id]? = some found → found.fields.get? name = some value → scene.Valid value)
    (methods : ∀ (id : ClassId) (found : Class) (name : String) (method : FunctionId),
      store.classes[id]? = some found → found.methods.get? name = some method → scene.Bindable method) :
    scene.Step (scene.withStores store store' scene.twin) ∧ (scene.withStores store store' scene.twin).Agrees := by
  refine agrees.withStores id left right ?_ size classes instances ?_ fields methods
  · rw [frames, frames']
    exact agrees.twins
  · rw [frames]
    exact agrees.names

/-- The machines with other frames at hand. -/
def enter (scene : Scene) (frame frame' : FrameId) : Scene :=
  { scene with left := { scene.left with current := frame }, right := { scene.right with current := frame' } }

theorem Agrees.enter (agrees : scene.Agrees) (frame frame' : FrameId) : (scene.enter frame frame').Agrees :=
  ⟨agrees.twins, agrees.output, agrees.now, agrees.size, agrees.classes, agrees.instances, agrees.names, agrees.fields,
    agrees.methods⟩

theorem Agrees.lineage (agrees : scene.Agrees) (id : ClassId) : scene.left.lineage id = scene.right.lineage id := by
  simp only [Store.lineage, agrees.classes]

theorem Agrees.findMethod? (agrees : scene.Agrees) (id : ClassId) (name : String) :
    scene.left.findMethod? id name = scene.right.findMethod? id name := by
  simp only [Store.findMethod?, agrees.lineage, agrees.classes]

/-- A method that some class has can be bound. -/
theorem Agrees.bindable (agrees : scene.Agrees) {id : ClassId} {name : String} {method : FunctionId}
    (found : scene.left.findMethod? id name = some method) : scene.Bindable method := by
  obtain ⟨link, _, listed⟩ := List.exists_of_findSome?_eq_some found
  obtain ⟨definition, held, entry⟩ := Option.bind_eq_some_iff.mp listed
  exact agrees.methods link definition name method held entry

theorem Bindable.functionArity_eq {id : FunctionId} (bindable : scene.Bindable id) :
    scene.left.functionArity id = scene.right.functionArity id := by
  obtain ⟨function, function', found, found', _, _, _, matching⟩ := bindable
  simp only [Store.functionArity, found, found', (match_parts matching).1]

theorem Agrees.classArity (agrees : scene.Agrees) (id : ClassId) :
    scene.left.classArity id = scene.right.classArity id := by
  simp only [Store.classArity, ← agrees.findMethod?]
  cases found : scene.left.findMethod? id initializerName with
  | none => rfl
  | some method => exact (agrees.bindable found).functionArity_eq

end Scene

variable {α α' β β' : Type}

/-- Two actions end alike: with values that correspond, or with one halt. -/
def Goes (action : Run α) (action' : Run α') (scene : Scene) (P : α → α' → Scene → Prop) : Prop :=
  ∃ after : Scene, scene.Step after ∧ after.Agrees ∧
    ((∃ value value', action scene.left = .ok value after.left ∧ action' scene.right = .ok value' after.right ∧
        P value value' after) ∨
      ∃ halt, action scene.left = .error halt after.left ∧ action' scene.right = .error halt after.right)

/-- Both runs have one value, which means the same to them. -/
def Gives (value value' : Value) (scene : Scene) : Prop := value = value' ∧ scene.Valid value

namespace Goes

variable {scene : Scene} {action : Run α} {action' : Run α'} {P Q : α → α' → Scene → Prop}
  {next : α → Run β} {next' : α' → Run β'} {R : β → β' → Scene → Prop}

theorem pure {value : α} {value' : α'} (agrees : scene.Agrees) (holds : P value value' scene) :
    Goes (Pure.pure value) (Pure.pure value') scene P :=
  ⟨scene, .refl scene, agrees, .inl ⟨value, value', rfl, rfl, holds⟩⟩

theorem halt (agrees : scene.Agrees) (halt : Halt) : Goes (throw halt : Run α) (throw halt : Run α') scene P :=
  ⟨scene, .refl scene, agrees, .inr ⟨halt, rfl, rfl⟩⟩

theorem bind (goes : Goes action action' scene P)
    (then_ : ∀ value value' after, scene.Step after → after.Agrees → P value value' after →
      Goes (next value) (next' value') after R) : Goes (action >>= next) (action' >>= next') scene R := by
  obtain ⟨middle, moved, agrees, ⟨value, value', ended, ended', holds⟩ | ⟨halt, ended, ended'⟩⟩ := goes
  · obtain ⟨after, moved', agrees', ending⟩ := then_ value value' middle moved agrees holds
    refine ⟨after, moved.trans moved', agrees', ?_⟩
    simpa only [Bind.bind, EStateM.bind, ended, ended'] using ending
  · refine ⟨middle, moved, agrees, .inr ⟨halt, ?_, ?_⟩⟩
    · simp only [Bind.bind, EStateM.bind, ended]
    · simp only [Bind.bind, EStateM.bind, ended']

/-- What comes after actions that both have one result. -/
theorem bind_same {action' : Run α} {next' : α → Run β'} {F : α → Scene → Prop}
    (goes : Goes action action' scene fun value value' after => value = value' ∧ F value after)
    (then_ : ∀ value after, scene.Step after → after.Agrees → F value after →
      Goes (next value) (next' value) after R) : Goes (action >>= next) (action' >>= next') scene R := by
  refine goes.bind fun value value' after moved agrees ⟨same, holds⟩ => ?_
  subst same
  exact then_ value after moved agrees holds

theorem weaken (goes : Goes action action' scene P)
    (implies : ∀ value value' after, scene.Step after → after.Agrees → P value value' after → Q value value' after) :
    Goes action action' scene Q := by
  obtain ⟨after, moved, agrees, ⟨value, value', ended, ended', holds⟩ | halted⟩ := goes
  · exact ⟨after, moved, agrees, .inl ⟨value, value', ended, ended', implies value value' after moved agrees holds⟩⟩
  · exact ⟨after, moved, agrees, .inr halted⟩

/-- What is known of the first one of the actions in any case. -/
theorem and_left {F : α → Prop} (goes : Goes action action' scene P)
    (fact : ∀ value machine, action scene.left = .ok value machine → F value) :
    Goes action action' scene fun value value' after => P value value' after ∧ F value := by
  obtain ⟨after, moved, agrees, ⟨value, value', ended, ended', holds⟩ | halted⟩ := goes
  · exact ⟨after, moved, agrees, .inl ⟨value, value', ended, ended', holds, fact value _ ended⟩⟩
  · exact ⟨after, moved, agrees, .inr halted⟩

/-- What comes after actions that are known to change nothing. -/
theorem known {value : α} {value' : α'} (left : action scene.left = .ok value scene.left)
    (right : action' scene.right = .ok value' scene.right) (goes : Goes (next value) (next' value') scene R) :
    Goes (action >>= next) (action' >>= next') scene R := by
  obtain ⟨after, moved, agrees, ending⟩ := goes
  refine ⟨after, moved, agrees, ?_⟩
  simpa only [Bind.bind, EStateM.bind, left, right] using ending

/-- What comes after a look at the machines that shows the same. -/
theorem reading {view view' : Machine → α} {next' : α → Run β'} (same : view scene.left = view' scene.right)
    (goes : Goes (next (view scene.left)) (next' (view scene.left)) scene R) :
    Goes (Run.reading view >>= next) (Run.reading view' >>= next') scene R :=
  known rfl (by rw [same]; rfl) goes

end Goes

section Actions

variable {scene : Scene} {hollow : Option Nat} {action : Run α} {action' : Run α'} {P : α → α' → Scene → Prop}

theorem goes_within {frame frame' : FrameId} (goes : Goes action action' (scene.enter frame frame') P)
    (kept : ∀ value value' after, P value value' after →
      P value value' (after.enter scene.left.current scene.right.current)) :
    Goes (Run.within frame action) (Run.within frame' action') scene P := by
  obtain ⟨after, moved, agrees, ending⟩ := goes
  simp only [Scene.enter] at ending
  refine ⟨after.enter scene.left.current scene.right.current, ⟨moved.twin, moved.left, moved.right, rfl, rfl⟩,
    agrees.enter _ _, ?_⟩
  obtain ⟨value, value', ended, ended', holds⟩ | ⟨halt, ended, ended'⟩ := ending
  · refine .inl ⟨value, value', ?_, ?_, kept value value' after holds⟩
    · simp only [Run.within, ended, Scene.enter]
    · simp only [Run.within, ended', Scene.enter]
  · refine .inr ⟨halt, ?_, ?_⟩
    · simp only [Run.within, ended, Scene.enter]
    · simp only [Run.within, ended', Scene.enter]

theorem goes_asCall (paren : Token) (goes : Goes action action' scene P) :
    Goes (Run.asCall paren action) (Run.asCall paren action') scene P := by
  obtain ⟨after, moved, agrees, ⟨value, value', ended, ended', holds⟩ | ⟨halt, ended, ended'⟩⟩ := goes
  · refine ⟨after, moved, agrees, .inl ⟨value, value', ?_, ?_, holds⟩⟩
    · simp only [Run.asCall, ended]
    · simp only [Run.asCall, ended']
  · refine ⟨after, moved, agrees, .inr ?_⟩
    simp only [Run.asCall, ended, ended']
    cases halt <;> exact ⟨_, rfl, rfl⟩

/-- What a round of two loops preserves, the loops preserve. -/
theorem goes_iterate {step : Run (Option α)} {step' : Run (Option α')} {I : Scene → Prop}
    (steps : ∀ scene : Scene, scene.Agrees → I scene → Goes step step' scene fun result result' after =>
      (result = none ∧ result' = none ∧ I after) ∨
        ∃ value value', result = some value ∧ result' = some value' ∧ P value value' after)
    (rounds : Nat) (agrees : scene.Agrees) (start : I scene) :
    Goes (Run.iterate step rounds) (Run.iterate step' rounds) scene P := by
  induction rounds generalizing scene with
  | zero => exact ⟨scene, .refl scene, agrees, .inr ⟨_, rfl, rfl⟩⟩
  | succ rounds ih =>
    rw [Run.iterate_succ, Run.iterate_succ]
    apply Goes.bind (steps scene agrees start)
    rintro result result' after moved agrees' (⟨rfl, rfl, holds⟩ | ⟨value, value', rfl, rfl, holds⟩)
    · exact ih agrees' holds
    · exact Goes.pure agrees' holds

end Actions

section Stores

variable {scene : Scene} {hollow : Option Nat} {P : α → α' → Scene → Prop}

/-- Actions that only change the stores. -/
theorem goes_onStore {change : Store → α × Store} {change' : Store → α' × Store} {twin : FrameId → Option FrameId}
    (ready : scene.Step (scene.withStores (change scene.left.toStore).2 (change' scene.right.toStore).2 twin) ∧
      (scene.withStores (change scene.left.toStore).2 (change' scene.right.toStore).2 twin).Agrees)
    (holds : P (change scene.left.toStore).1 (change' scene.right.toStore).1
      (scene.withStores (change scene.left.toStore).2 (change' scene.right.toStore).2 twin)) :
    Goes (Run.onStore change) (Run.onStore change') scene P :=
  ⟨_, ready.1, ready.2, .inl ⟨_, _, rfl, rfl, holds⟩⟩

/-- Two twins get one name bound to a valid value. -/
theorem goes_bindName {frame frame' : FrameId} (name : String) {value : Value} (agrees : scene.Agrees)
    (twin : scene.twin frame = some frame') (valid : scene.Valid value) :
    Goes (Run.onFrames fun frames => ((), frames.define frame name value))
      (Run.onFrames fun frames => ((), frames.define frame' name value)) scene fun _ _ after =>
        (after.left.frames.names frame).contains name = true ∧
        (after.right.frames.names frame').contains name = true := by
  have later := scene.twins.later_bound frame frame' name value
  obtain ⟨present, present'⟩ := agrees.twins.present twin
  refine goes_onStore (agrees.withTwins later (agrees.twins.bound twin name value) ?_) ⟨?_, ?_⟩
  · intro other other' query found isTwin bound
    rcases Frames.bound_of_define bound with ⟨_, _, rfl⟩ | bound
    · exact valid
    · exact agrees.names other other' query found isTwin bound
  · exact (Frames.contains_define _ _ _ _).mpr (.inr ⟨rfl, present, rfl⟩)
  · exact (Frames.contains_define _ _ _ _).mpr (.inr ⟨rfl, present', rfl⟩)

/-- Two frames, each with the same names, are opened at one place. -/
theorem goes_openFrame {enclosing enclosing' : FrameId} (bindings : List (String × Value)) (agrees : scene.Agrees)
    (stands : scene.twins.Stands hollow enclosing enclosing') (valid : ∀ entry ∈ bindings, scene.Valid entry.2) :
    Goes (Run.onFrames fun frames => frames.openFrame enclosing bindings)
      (Run.onFrames fun frames => frames.openFrame enclosing' bindings) scene fun frame frame' after =>
        after.twins.Stands (deeper hollow) frame frame' := by
  have later := agrees.twins.later_opened enclosing enclosing' bindings
  refine goes_onStore (agrees.withTwins later (agrees.twins.opened enclosing enclosing' bindings) ?_) ?_
  · intro other other' query found isTwin bound
    rcases Pairing.mem_of_names_defineAll bound with earlier | ⟨entry, member, rfl⟩
    · rw [Frames.names_create] at earlier
      rcases Twins.twin_opened isTwin with ⟨new, _⟩ | older
      · rw [new, Frames.names_eq_empty_of_le (Nat.le_refl _)] at earlier
        cases earlier
      · exact agrees.names other other' query found older earlier
    · exact valid entry member
  · exact stands.opened agrees.twins bindings

/-- A hollow frame is opened, at a place with none so far. -/
theorem goes_hollow {enclosing enclosing' : FrameId} (agrees : scene.Agrees)
    (stands : scene.twins.Stands none enclosing enclosing') :
    Goes (Run.onFrames fun frames => frames.create (some enclosing)) (Pure.pure ()) scene fun frame _ after =>
      after.twins.Stands (some 0) frame enclosing' := by
  have later := scene.twins.later_hollowed enclosing
  have ready := agrees.withTwins later (agrees.twins.hollowed enclosing) fun frame frame' name value twin bound => by
    have same : (scene.twins.hollowed enclosing).left.names frame = scene.left.frames.names frame :=
      Frames.names_create (some enclosing) frame
    exact agrees.names frame frame' name value twin (same ▸ bound)
  exact ⟨_, ready.1, ready.2, .inl ⟨_, _, rfl, rfl, stands.hollowed⟩⟩

theorem goes_addFunction (agrees : scene.Agrees) (function function' : Function) :
    Goes (Run.onStore (·.addFunction function)) (Run.onStore (·.addFunction function')) scene fun id id' after =>
      id = id' ∧ after.left.functions[id]? = some function ∧ after.right.functions[id]? = some function' := by
  refine goes_onStore (agrees.withObjects (Store.extends_addFunction _ _) (Store.extends_addFunction _ _) rfl rfl ?_
    agrees.classes agrees.instances agrees.fields agrees.methods) ⟨agrees.size, Store.addFunction_found _ _, ?_⟩
  · simp [Store.addFunction, agrees.size]
  · have same : (scene.left.addFunction function).1 = (scene.right.addFunction function').1 := agrees.size
    rw [same]
    exact Store.addFunction_found _ _

theorem goes_setField (agrees : scene.Agrees) (id : InstanceId) (name : String) {value : Value}
    (valid : scene.Valid value) :
    Goes (Run.onStore fun store => ((), store.setField id name value))
      (Run.onStore fun store => ((), store.setField id name value)) scene fun _ _ _ => True := by
  refine goes_onStore (agrees.withObjects (Store.extends_setField _ _ _ _) (Store.extends_setField _ _ _ _) rfl rfl
    agrees.size agrees.classes ?_ ?_ agrees.methods) trivial
  · simp [Store.setField, agrees.instances]
  · intro other found query held object field
    rcases Store.held_of_setField object field with ⟨_, _, rfl⟩ | ⟨earlier, older, field'⟩
    · exact valid
    · exact agrees.fields other earlier query held older field'

theorem goes_addInstance (agrees : scene.Agrees) (owner : ClassId) :
    Goes (Run.onStore (·.addInstance owner)) (Run.onStore (·.addInstance owner)) scene fun made made' _ =>
      made = made' := by
  refine goes_onStore (agrees.withObjects (Store.extends_addInstance _ _) (Store.extends_addInstance _ _) rfl rfl
    agrees.size agrees.classes ?_ ?_ agrees.methods) (congrArg Array.size agrees.instances)
  · simp [Store.addInstance, agrees.instances]
  · intro other found query held object field
    simp only [Store.addInstance, Array.getElem?_push] at object
    split at object
    · cases object
      cases field
    · exact agrees.fields other found query held object field

/-- A class whose methods can be bound. -/
theorem goes_addClass (agrees : scene.Agrees) (name : String) (parent : Option ClassId) {table : Table FunctionId}
    (methods : ∀ name method, table.get? name = some method → scene.Bindable method) :
    Goes (Run.onStore fun store => store.addClass ⟨name, (parent.map store.lineage).getD [], table⟩)
      (Run.onStore fun store => store.addClass ⟨name, (parent.map store.lineage).getD [], table⟩) scene
      fun id id' _ => id = id' := by
  have same : parent.map scene.left.lineage = parent.map scene.right.lineage :=
    congrArg (parent.map ·) (funext agrees.lineage)
  refine goes_onStore (agrees.withObjects (Store.extends_addClass _ _) (Store.extends_addClass _ _) rfl rfl
    agrees.size ?_ agrees.instances agrees.fields ?_) (congrArg Array.size agrees.classes)
  · simp only [Store.addClass, agrees.classes, same]
  · intro id found query method held listed
    simp only [Store.addClass, Array.getElem?_push] at held
    split at held
    · cases held
      exact methods query method listed
    · exact agrees.methods id found query method held listed

/-- Binding a method makes a frame for the instance, and then a function. -/
theorem bindMethod_eq (method : Function) (receiver : InstanceId) : Run.onStore (·.bindMethod method receiver) = (do
    let frame ← Run.onFrames fun frames => frames.openFrame method.closure [("this", .instance receiver)]
    Run.onStore (·.addFunction { method with closure := frame })) := rfl

/-- A method that can be bound is a value once it is. -/
theorem goes_bindMethod (agrees : scene.Agrees) {method : FunctionId} (bindable : scene.Bindable method)
    (receiver : InstanceId) :
    Goes (Run.bindMethod method receiver) (Run.bindMethod method receiver) scene fun bound bound' after =>
      bound = bound' ∧ after.Valid (.function bound) := by
  obtain ⟨function, function', found, found', initializer, around, stands, matching⟩ := bindable
  refine Goes.known (Run.function_eq_ok found) (Run.function_eq_ok found') ?_
  rw [bindMethod_eq, bindMethod_eq]
  refine Goes.bind (goes_openFrame _ agrees stands (by simp [Scene.Valid]))
    fun frame frame' after _ agrees' stands' => ?_
  refine (goes_addFunction agrees' { function with closure := frame } { function' with closure := frame' }).weaken
    fun id id' last moved _ ⟨same, held, held'⟩ => ⟨same, ?_⟩
  exact ⟨_, _, held, held', initializer, deeper around, deeper_ne_zero around, stands'.mono moved.later, matching⟩

end Stores

end Hollow

end Lox

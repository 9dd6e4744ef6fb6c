import Lox.Proofs.Pairing.Actions

/-!
Names, properties, calls and classes of two runs side by side, given that single statements go alike.
-/
namespace Lox

theorem Frames.holder?_self {frames : Frames} {frame : FrameId} {name : String} (present : frame < frames.all.size)
    (bound : (frames.names frame).contains name = true) : frames.holder? frame name = some frame := by
  simp [Frames.holder?, Frames.chain, Array.getElem?_eq_getElem present, bound]

namespace Pairing

variable {pairing : Pairing} {scene : pairing.Scene} {around next : pairing.Around}

section Names

theorem Scene.Held.valid {value : Value} (held : scene.Held value) (agrees : scene.Agrees) : scene.Valid value := by
  obtain ⟨frame, name, found⟩ := held
  exact agrees.names frame name value found

theorem goes_read (lawful : pairing.Lawful) {reference reference' : Token × Distance} (agrees : scene.Agrees)
    (at_ : scene.At around) (reads : pairing.Reads around reference reference') :
    Goes (Access.byDistance.read reference.1 reference.2) (pairing.right.read reference'.1 reference'.2) scene
      fun value after => after.Valid value := by
  obtain ⟨value, held, gives⟩ | halts := lawful.read agrees at_ reads
  · exact gives.goes lawful agrees (held.valid agrees)
  · exact halts.goes lawful agrees

theorem goes_superAndThis (lawful : pairing.Lawful) {reference reference' : (Token × Distance) × Token}
    (agrees : scene.Agrees) (at_ : scene.At around) (supers : pairing.Supers around reference reference') :
    Goes (Access.byDistance.superAndThis reference.1.1 reference.1.2)
      (pairing.right.superAndThis reference'.1.1 reference'.1.2) scene fun pair after =>
        after.Valid pair.2 ∧ ∀ parent receiver, pair = (.class parent, .instance receiver) →
          pairing.Serves after.world parent receiver := by
  obtain ⟨pair, held, gives, serves⟩ | halts := lawful.superAndThis agrees at_ supers
  · exact gives.goes lawful agrees ⟨held.valid agrees, serves⟩
  · exact halts.goes lawful agrees

theorem goes_assign (lawful : pairing.Lawful) {reference reference' : Token × Distance} {value : Value}
    (agrees : scene.Agrees) (at_ : scene.At around) (assigns : pairing.Assigns around reference reference')
    (valid : scene.Valid value) :
    Goes (Access.byDistance.assign reference.1 reference.2 value) (pairing.right.assign reference'.1 reference'.2 value)
      scene fun _ _ => True := by
  obtain ⟨world, frame, later, state, ended, ended'⟩ | halts := lawful.assign value agrees at_ assigns
  · obtain ⟨moved, agrees'⟩ := agrees.bindName lawful later state fun after moved _ => valid.step lawful moved
    exact ⟨_, moved, agrees', .inl ⟨(), ended, ended', trivial⟩⟩
  · exact halts.goes lawful agrees

/-- A declaration binds its name in the frame at hand, to a value that is valid once it is bound. -/
theorem goes_define (lawful : pairing.Lawful) {name name' : Token} {value : Value} (agrees : scene.Agrees)
    (at_ : scene.At around) (declares : pairing.Declares around name name' next)
    (valid : ∀ after : pairing.Scene, scene.Step after → after.At next → after.Valid value) :
    Goes (Run.define name.lexeme value) (Run.define name'.lexeme value) scene fun _ after => after.At next ∧
      (after.left.frames.names after.left.current).contains name.lexeme = true ∧
      (after.right.frames.names after.left.current).contains name'.lexeme = true := by
  obtain ⟨world, later, stands, state⟩ := lawful.declare value agrees.state at_ declares
  have present := lawful.present agrees.state at_
  have present' : scene.left.current < scene.right.frames.all.size := agrees.frames ▸ present
  refine Goes.reading agrees.current ((goes_bindName lawful agrees later state fun after moved same => ?_).weaken
    fun _ after moved _ same => ?_)
  · apply valid after moved
    unfold Scene.At
    rwa [same, moved.current]
  · subst same
    refine ⟨stands, ?_, ?_⟩
    · exact (Frames.contains_define _ _ _ _).mpr (.inr ⟨rfl, present, rfl⟩)
    · exact (Frames.contains_define _ _ _ _).mpr (.inr ⟨rfl, present', rfl⟩)

/-- A name that the frame at hand has already is bound anew. -/
theorem goes_redefine (lawful : pairing.Lawful) {name name' : Token} {value : Value} (agrees : scene.Agrees)
    (at_ : scene.At next) (declares : pairing.Declares around name name' next) (valid : scene.Valid value)
    (bound : (scene.left.frames.names scene.left.current).contains name.lexeme = true)
    (bound' : (scene.right.frames.names scene.left.current).contains name'.lexeme = true) :
    Goes (Access.assignFrom Machine.current name value) (Access.assignFrom Machine.current name' value) scene
      fun _ after => after.At next := by
  have present := lawful.present agrees.state at_
  have held := Frames.holder?_self present bound
  have held' : scene.right.frames.holder? scene.right.current name'.lexeme = some scene.left.current := by
    rw [← agrees.current]
    exact Frames.holder?_self (agrees.frames ▸ present) bound'
  obtain ⟨world, later, stands, state⟩ := lawful.declare value agrees.state (lawful.declared declares at_) declares
  refine Goes.reading (held.trans held'.symm) ?_
  rw [held]
  refine (goes_bindName lawful agrees later state fun after moved _ => valid.step lawful moved).weaken
    fun _ after moved _ same => ?_
  subst same
  exact stands

end Names

section Objects

theorem valid_of_getAt (agrees : scene.Agrees) {frame : FrameId} {distance : Nat} {name : String} {value : Value}
    (found : scene.left.frames.getAt frame distance name = .ok value) : scene.Valid value := by
  unfold Frames.getAt at found
  split at found
  · cases found
  · split at found
    · cases found
    · rename_i held
      cases found
      exact agrees.names _ _ _ held

/-- A method that a class has, bound to an instance that the class serves, is a value. -/
theorem goes_boundMethod (lawful : pairing.Lawful) (agrees : scene.Agrees) {id : ClassId} {name : String}
    {method : FunctionId} {receiver : InstanceId} (found : scene.left.findMethod? id name = some method)
    (present : receiver < scene.left.instances.size) (serves : pairing.Serves scene.world id receiver) :
    Goes (do return .function (← Run.bindMethod method receiver))
      (do return .function (← Run.bindMethod method receiver)) scene fun value after => after.Valid value := by
  refine Goes.bind lawful (goes_bindMethod lawful agrees found present serves)
    fun bound after moved agrees' ⟨function, function', held, held', callable, _⟩ => ?_
  exact Goes.pure lawful agrees' ⟨function, function', held, held', callable⟩

theorem goes_property (lawful : pairing.Lawful) (agrees : scene.Agrees) {id : InstanceId}
    (present : id < scene.left.instances.size) {name name' : Token} (same : pairing.Same name name')
    (spelled : name.lexeme = name'.lexeme) :
    Goes (Run.property id name) (Run.property id name') scene fun value after => after.Valid value := by
  have held : scene.left.instances[id]? = some scene.left.instances[id] := Array.getElem?_eq_getElem present
  have held' : scene.right.instances[id]? = some scene.left.instances[id] := by rw [← agrees.instances, held]
  apply Goes.known (Run.instanceOf_eq_ok held) (Run.instanceOf_eq_ok held')
  rw [← spelled]
  cases field : scene.left.instances[id].fields.get? name.lexeme with
  | some value => exact Goes.pure lawful agrees (agrees.fields id _ _ value held field)
  | none =>
    apply Goes.reading (agrees.findMethod? _ _)
    cases found : scene.left.findMethod? scene.left.instances[id].owner name.lexeme with
    | none => exact Goes.fail lawful agrees _ same
    | some method => exact goes_boundMethod lawful agrees found present (lawful.owner agrees.state held)

theorem goes_superMethod (lawful : pairing.Lawful) (agrees : scene.Agrees) {pair : Value × Value} {method method' : Token}
    (same : pairing.Same method method') (spelled : method.lexeme = method'.lexeme) (valid : scene.Valid pair.2)
    (serves : ∀ parent receiver, pair = (.class parent, .instance receiver) →
      pairing.Serves scene.world parent receiver) :
    Goes (Run.superMethod method pair) (Run.superMethod method' pair) scene fun value after => after.Valid value := by
  obtain ⟨first, second⟩ := pair
  cases first with
  | «class» parent =>
    cases second with
    | «instance» receiver =>
      have looked : scene.left.findMethod? parent method.lexeme = scene.right.findMethod? parent method'.lexeme := by
        rw [← spelled]
        exact agrees.findMethod? _ _
      apply Goes.reading looked
      cases found : scene.left.findMethod? parent method.lexeme with
      | none =>
        rw [← spelled]
        exact Goes.fail lawful agrees _ same
      | some bound => exact goes_boundMethod lawful agrees found valid (serves parent receiver rfl)
    | _ => exact Goes.broken lawful agrees _
  | _ => exact Goes.broken lawful agrees _

end Objects

section Calls

/-- How a statement may end: with a valid value. -/
def Fine (flow : Flow) (scene : pairing.Scene) : Prop :=
  match flow with
  | .next => True
  | .returned value => scene.Valid value

/-- Single statements go alike. -/
def Executes (pairing : Pairing) (exec exec' : Stmt Distance → Run Flow) : Prop :=
  ∀ ⦃scene : pairing.Scene⦄ ⦃around next : pairing.Around⦄ ⦃stmt stmt' : Stmt Distance⦄, scene.Agrees → scene.At around →
    pairing.MatchStmt around next stmt stmt' →
    Goes (exec stmt) (exec' stmt') scene fun flow after => after.At next ∧ Fine flow after

variable {exec exec' : Stmt Distance → Run Flow}

theorem goes_sequence (lawful : pairing.Lawful) (executes : pairing.Executes exec exec') {body body' : List (Stmt Distance)}
    (agrees : scene.Agrees) (at_ : scene.At around) (matching : pairing.MatchBody around next body body') :
    Goes (Run.sequence exec body) (Run.sequence exec' body') scene fun flow after => Fine flow after := by
  induction body generalizing scene around body' with
  | nil =>
    cases matching
    exact Goes.pure lawful agrees trivial
  | cons first rest ih =>
    cases matching with
    | cons head tail =>
      refine Goes.bind lawful (executes agrees at_ head) fun flow after moved agrees' ⟨at', fine⟩ => ?_
      cases flow with
      | next => exact ih agrees' at' tail
      | returned value => exact Goes.pure lawful agrees' fine

/-- A frame with some names is opened, and then put at hand. -/
theorem goes_opened (lawful : pairing.Lawful) {enclosing : FrameId} {params params' : List Token} {values : List Value}
    {inside : pairing.Around} (agrees : scene.Agrees) (stands : pairing.Stands scene.world around enclosing)
    (opens : pairing.Opens around params params' inside) (enough : params.length = values.length)
    (valid : ∀ value ∈ values, scene.Valid value) :
    Goes (Run.onFrames fun frames => frames.openFrame enclosing ((params.map Token.lexeme).zip values))
      (Run.onFrames fun frames => frames.openFrame enclosing ((params'.map Token.lexeme).zip values)) scene
      fun frame after =>
        let inner : pairing.Scene := { after with left := { after.left with current := frame }
                                                  right := { after.right with current := frame } }
        inner.Agrees ∧ inner.At inside := by
  obtain ⟨world, later, standing, state⟩ := lawful.opens values agrees.state stands opens enough
  have opened := goes_openFrame lawful agrees later state fun entry member => valid _ (List.of_mem_zip member).2
  refine opened.weaken fun frame after moved agrees' ⟨isNew, same⟩ => ⟨?_, ?_⟩
  · exact ⟨agrees'.state, rfl, agrees'.output, agrees'.now, agrees'.frames, agrees'.size, agrees'.functions,
      agrees'.classes, agrees'.instances, agrees'.names, agrees'.fields, agrees'.methods⟩
  · subst isNew same
    exact standing

/-- Statements in a frame of their own. -/
theorem goes_block (lawful : pairing.Lawful) (executes : pairing.Executes exec exec') {body body' : List (Stmt Distance)}
    {enclosing : FrameId} {params params' : List Token} {values : List Value} {inside last : pairing.Around}
    (agrees : scene.Agrees) (stands : pairing.Stands scene.world around enclosing)
    (opens : pairing.Opens around params params' inside) (enough : params.length = values.length)
    (valid : ∀ value ∈ values, scene.Valid value) (matching : pairing.MatchBody inside last body body') :
    Goes (Run.block exec enclosing ((params.map Token.lexeme).zip values) body)
      (Run.block exec' enclosing ((params'.map Token.lexeme).zip values) body') scene
      fun flow after => Fine flow after := by
  refine Goes.bind lawful (goes_opened lawful agrees stands opens enough valid)
    fun frame after moved agrees' ⟨inner, at_⟩ => ?_
  exact goes_within (goes_sequence lawful executes inner at_ matching) agrees' fun flow _ fine => fine

theorem goes_activate (lawful : pairing.Lawful) (executes : pairing.Executes exec exec') {function function' : Function}
    {arguments : List Value} (agrees : scene.Agrees) (callable : pairing.Callable scene.world function function')
    (valid : ∀ value ∈ arguments, scene.Valid value)
    (enough : arguments.length = function.declaration.params.length) :
    Goes (Run.activate exec function arguments) (Run.activate exec' function' arguments) scene
      fun value after => after.Valid value := by
  obtain ⟨closed, initializer, around, stands, matching⟩ := callable
  obtain ⟨declaration, closure, isInitializer⟩ := function
  obtain ⟨declaration', closure', isInitializer'⟩ := function'
  simp only at closed initializer stands matching enough
  subst closed initializer
  cases matching with
  | mk _ _ opens parts =>
    have runs := goes_block lawful executes agrees stands opens enough.symm valid parts
    apply Goes.bind lawful runs
    intro flow after moved agrees' fine
    split
    · apply Goes.reading (lawful.this agrees'.state closure)
      cases found : after.left.frames.getAt closure 0 "this" with
      | ok value => exact Goes.pure lawful agrees' (valid_of_getAt agrees' found)
      | error cause => exact Goes.broken lawful agrees' _
    · cases flow with
      | next => exact Goes.pure lawful agrees' trivial
      | returned value => exact Goes.pure lawful agrees' fine

/-- Makes an instance of a class, and a copy of its initialiser that is bound to the instance, if there is
one. -/
def enroll (id : ClassId) : Run (InstanceId × Option FunctionId) := do
  let made ← Run.onStore (·.addInstance id)
  match ← Run.reading fun machine => machine.findMethod? id initializerName with
  | none => return (made, none)
  | some method => return (made, some (← Run.bindMethod method made))

theorem prepare_eq (id : ClassId) : Run.prepare id = (do
    match ← enroll id with
    | (made, none) => return (made, none)
    | (made, some bound) => return (made, some (← Run.function bound))) := by
  unfold Run.prepare enroll
  rw [bind_assoc]
  apply bind_congr
  intro made
  rw [bind_assoc]
  apply bind_congr
  intro found
  cases found with
  | none => rfl
  | some method => simp only [bind_assoc, pure_bind]

/-- An initialiser that is about to be called takes the arguments that its class takes. -/
theorem goes_enroll (lawful : pairing.Lawful) (agrees : scene.Agrees) {id : ClassId}
    (known : id < scene.left.classes.size) :
    Goes (enroll id) (enroll id) scene fun enrolled after => enrolled.1 < after.left.instances.size ∧
      ∀ bound, enrolled.2 = some bound → ∃ function function', after.left.functions[bound]? = some function ∧
        after.right.functions[bound]? = some function' ∧ pairing.Callable after.world function function' ∧
        function.declaration.params.length = scene.left.classArity id := by
  apply Goes.bind lawful (goes_addInstance lawful agrees known)
  rintro made after moved agrees' ⟨present, serves, classes, functions⟩
  apply Goes.reading (agrees'.findMethod? _ _)
  have unchanged : after.left.findMethod? id initializerName = scene.left.findMethod? id initializerName := by
    simp only [Store.findMethod?, Store.lineage, classes]
  cases found : after.left.findMethod? id initializerName with
  | none =>
    refine Goes.pure lawful agrees' ⟨present, ?_⟩
    rintro _ ⟨⟩
  | some method =>
    apply Goes.bind lawful (goes_bindMethod lawful agrees' found present serves)
    rintro bound last moved' agrees'' ⟨function, function', held, held', callable, arity⟩
    refine Goes.pure lawful agrees'' ⟨Nat.lt_of_lt_of_le present moved'.left.instances, ?_⟩
    rintro _ ⟨⟩
    refine ⟨function, function', held, held', callable, ?_⟩
    rw [arity, Store.classArity, ← unchanged, found]
    simp only [Store.functionArity, functions]

theorem goes_instantiate (lawful : pairing.Lawful) (executes : pairing.Executes exec exec') {id : ClassId}
    {arguments : List Value} (agrees : scene.Agrees) (known : id < scene.left.classes.size)
    (valid : ∀ value ∈ arguments, scene.Valid value) (enough : arguments.length = scene.left.classArity id) :
    Goes (Run.instantiate exec id arguments) (Run.instantiate exec' id arguments) scene
      fun value after => after.Valid value := by
  rw [Run.instantiate_eq, Run.instantiate_eq, prepare_eq, bind_assoc, bind_assoc]
  apply Goes.bind lawful (goes_enroll lawful agrees known)
  rintro ⟨made, _ | bound⟩ after moved agrees' ⟨present, ready⟩
  · exact Goes.pure lawful agrees' present
  · obtain ⟨function, function', held, held', callable, arity⟩ := ready bound rfl
    simp only [bind_assoc, pure_bind]
    apply Goes.known (Run.function_eq_ok held) (Run.function_eq_ok held')
    refine Goes.bind lawful (goes_activate lawful executes agrees' callable
      (fun value member => (valid value member).step lawful moved) (enough.trans arity.symm))
      fun _ last moved' agrees'' _ => ?_
    exact Goes.pure lawful agrees'' (Nat.lt_of_lt_of_le present moved'.left.instances)

theorem functionArity_eq (lawful : pairing.Lawful) {id : FunctionId} {function function' : Function} {around : pairing.Around}
    (found : scene.left.functions[id]? = some function) (found' : scene.right.functions[id]? = some function')
    (matching : pairing.MatchFunction around function.declaration function'.declaration) :
    scene.left.functionArity id = scene.right.functionArity id := by
  simp only [Store.functionArity, found, found']
  generalize function.declaration = declaration at matching
  generalize function'.declaration = declaration' at matching
  cases matching with
  | mk _ _ opens _ => exact lawful.params opens

theorem classArity_eq (lawful : pairing.Lawful) (agrees : scene.Agrees) (id : ClassId) :
    scene.left.classArity id = scene.right.classArity id := by
  simp only [Store.classArity, ← agrees.findMethod?]
  cases found : scene.left.findMethod? id initializerName with
  | none => rfl
  | some method =>
    obtain ⟨link, _, listed⟩ := List.exists_of_findSome?_eq_some found
    obtain ⟨definition, held, entry⟩ := Option.bind_eq_some_iff.mp listed
    obtain ⟨function, function', isLeft, isRight, _, _, _, _, _, _, matching⟩ := agrees.methods _ _ _ _ held entry
    exact functionArity_eq lawful isLeft isRight matching

/-- Any valid value may be called. -/
theorem goes_call (lawful : pairing.Lawful) (executes : pairing.Executes exec exec') {callee : Value}
    {arguments : List Value} {paren paren' : Token} (same : pairing.Same paren paren') (agrees : scene.Agrees)
    (callable : scene.Valid callee) (valid : ∀ value ∈ arguments, scene.Valid value) :
    Goes (Run.call exec paren callee arguments) (Run.call exec' paren' callee arguments) scene
      fun value after => after.Valid value := by
  have given {arity : Nat} (goes : arguments.length = arity → Goes (Run.invoke exec paren arguments callee)
      (Run.invoke exec' paren' arguments callee) scene fun value after => after.Valid value) :
      Goes (if arguments.length ≠ arity then Run.fail paren (.wrongArity arity arguments.length)
        else Run.asCall paren (Run.invoke exec paren arguments callee))
        (if arguments.length ≠ arity then Run.fail paren' (.wrongArity arity arguments.length)
        else Run.asCall paren' (Run.invoke exec' paren' arguments callee)) scene
        fun value after => after.Valid value := by
    split
    · exact Goes.fail lawful agrees _ same
    · rename_i enough
      exact goes_asCall same (goes (not_not.mp enough))
  cases callee with
  | native native =>
    refine Goes.known rfl rfl (given fun _ => ?_)
    cases native
    exact Goes.reading agrees.now (Goes.pure lawful agrees trivial)
  | function id =>
    obtain ⟨function, function', found, found', callable⟩ := callable
    have looked : Run.arity? (.function id) scene.right = .ok (some (scene.left.functionArity id)) scene.right := by
      obtain ⟨_, _, _, _, matching⟩ := callable
      rw [functionArity_eq lawful found found' matching]
      rfl
    refine Goes.known rfl looked (given fun enough => ?_)
    apply Goes.known (Run.function_eq_ok found) (Run.function_eq_ok found')
    apply goes_activate lawful executes agrees callable valid
    simp [enough, Store.functionArity, found]
  | «class» id =>
    have looked : Run.arity? (.class id) scene.right = .ok (some (scene.left.classArity id)) scene.right := by
      rw [classArity_eq lawful agrees id]
      rfl
    exact Goes.known rfl looked (given fun enough => goes_instantiate lawful executes agrees callable valid enough)
  | _ => exact Goes.known rfl rfl (Goes.fail lawful agrees _ same)

end Calls

section Classes

theorem goes_superclass (lawful : pairing.Lawful) {superclass superclass' : Option (Token × Distance)}
    (agrees : scene.Agrees) (at_ : scene.At around) (matching : pairing.MatchSuperclass around superclass superclass') :
    Goes (Run.superclass .byDistance superclass) (Run.superclass pairing.right superclass') scene
      fun parent after => parent.isSome = superclass.isSome ∧ ∀ id, parent = some id → id < after.left.classes.size := by
  cases matching with
  | none => exact Goes.pure lawful agrees ⟨rfl, nofun⟩
  | some same reads =>
    apply Goes.bind lawful (goes_read lawful agrees at_ reads)
    intro value after moved agrees' valid
    cases value with
    | «class» id =>
      refine Goes.pure lawful agrees' ⟨rfl, ?_⟩
      rintro _ ⟨⟩
      exact valid
    | _ => exact Goes.fail lawful agrees' _ same

/-- The frame for the methods of a class. The frame at hand keeps its names. -/
theorem goes_methodFrame (lawful : pairing.Lawful) {parent : Option ClassId} {inside : pairing.Around}
    (agrees : scene.Agrees) (at_ : scene.At around) (inherits : pairing.Inherits around parent.isSome inside)
    (known : ∀ id, parent = some id → id < scene.left.classes.size) :
    Goes (Run.methodFrame parent) (Run.methodFrame parent) scene fun frame after =>
      pairing.Stands after.world inside frame ∧ pairing.Closes after.world parent frame := by
  cases parent with
  | none =>
    obtain ⟨stands, closes⟩ := lawful.plain agrees.state at_ inherits
    refine ⟨scene, .refl lawful scene, agrees, .inl ⟨scene.left.current, rfl, ?_, stands, closes⟩⟩
    rw [agrees.current]
    rfl
  | some parent =>
    obtain ⟨world, later, stands, closes, state⟩ := lawful.inherits agrees.state at_ inherits (known parent rfl)
    apply Goes.reading agrees.current
    refine (goes_openFrame lawful agrees later state ?_).weaken fun frame after moved _ ⟨isNew, same⟩ => ?_
    · intro entry member
      obtain rfl := List.mem_singleton.mp member
      exact known parent rfl
    · subst isNew same
      exact ⟨stands, closes⟩

/-- What is known of the methods of a class that is being declared. -/
def Listed (scene : pairing.Scene) (closure : FrameId) (table : Table FunctionId) : Prop :=
  ∀ name method, table.get? name = some method → scene.Bindable method ∧
    ∃ function, scene.left.functions[method]? = some function ∧ function.closure = closure ∧
      function.isInitializer = decide (name = initializerName) ∧ function.declaration.name.lexeme = name

theorem Listed.step (lawful : pairing.Lawful) {after : pairing.Scene} {closure : FrameId} {table : Table FunctionId}
    (listed : Listed scene closure table) (moved : scene.Step after) : Listed after closure table := by
  intro name method found
  obtain ⟨bindable, function, held, rest⟩ := listed name method found
  exact ⟨bindable.step lawful moved, function, moved.left.functions _ _ held, rest⟩

theorem goes_methodTable (lawful : pairing.Lawful) {closure : FrameId} {parent : Option ClassId}
    {methods methods' : List (FunctionDecl Distance)} {table : Table FunctionId} (agrees : scene.Agrees)
    (stands : pairing.Stands scene.world around closure) (closes : pairing.Closes scene.world parent closure)
    (matching : pairing.MatchMethods around methods methods') (listed : Listed scene closure table) :
    Goes (Run.methodTable closure methods table) (Run.methodTable closure methods' table) scene fun table after =>
      Listed after closure table ∧ pairing.Closes after.world parent closure := by
  induction methods generalizing scene methods' table with
  | nil =>
    cases matching
    exact Goes.pure lawful agrees ⟨listed, closes⟩
  | cons first rest ih =>
    cases matching with
    | @cons _ inside _ first' _ rest' binds head tail =>
      have spelled := head.spelled
      let function : Function := ⟨first, closure, first.name.lexeme = initializerName⟩
      let function' : Function := ⟨first', closure, first'.name.lexeme = initializerName⟩
      have encloses : pairing.Encloses scene.world function.closure := .inr ⟨parent, closes⟩
      have initializer : function.isInitializer = function'.isInitializer := by simp only [function, function', spelled]
      have adds : Goes (Run.onStore (·.addFunction function)) (Run.onStore (·.addFunction function')) scene _ :=
        goes_addFunction lawful agrees encloses ⟨rfl, initializer, inside, head⟩
      refine Goes.bind lawful adds fun id after moved agrees' ⟨found, found'⟩ => ?_
      rw [← spelled]
      have closed := lawful.stands moved.world stands
      apply ih agrees' closed (lawful.closes moved.world closes) tail
      intro name method isListed
      rcases Table.get?_set_cases isListed with ⟨rfl, rfl⟩ | isListed
      · exact ⟨⟨function, function', found, found', rfl, initializer, around, inside, closed, binds, head⟩,
          function, found, rfl, rfl, rfl⟩
      · exact listed.step lawful moved name method isListed

/-- Declaring a class binds its name, first to nothing and then to the class. -/
theorem goes_declareClass (lawful : pairing.Lawful) {name name' : Token}
    {superclass superclass' : Option (Token × Distance)} {methods methods' : List (FunctionDecl Distance)}
    {inside : pairing.Around} (agrees : scene.Agrees) (at_ : scene.At around) (spelled : name.lexeme = name'.lexeme)
    (parent : pairing.MatchSuperclass around superclass superclass')
    (declares : pairing.Declares around name name' next) (inherits : pairing.Inherits next superclass.isSome inside)
    (parts : pairing.MatchMethods inside methods methods') :
    Goes (Run.declareClass .byDistance name superclass methods) (Run.declareClass pairing.right name' superclass' methods')
      scene fun _ after => after.At next := by
  rw [Run.declareClass_eq, Run.declareClass_eq]
  apply Goes.bind lawful (goes_superclass lawful agrees at_ parent)
  rintro found scene₁ moved₁ agrees₁ ⟨same, known⟩
  have nil : ∀ after : pairing.Scene, scene₁.Step after → after.At next → after.Valid .nil := fun _ _ _ => trivial
  refine Goes.bind lawful (goes_define lawful agrees₁ (at_.step lawful moved₁) declares nil)
    fun _ scene₂ moved₂ agrees₂ ⟨at₂, bound, bound'⟩ => ?_
  rw [← same] at inherits
  refine Goes.bind lawful (goes_methodFrame lawful agrees₂ at₂ inherits fun id isParent =>
    Nat.lt_of_lt_of_le (known id isParent) moved₂.classes_le) fun closure scene₃ moved₃ agrees₃ ⟨stands, closes⟩ => ?_
  have empty : Listed scene₃ closure .empty := by simp [Listed]
  refine Goes.bind lawful (goes_methodTable lawful agrees₃ stands closes parts empty)
    fun table scene₄ moved₄ agrees₄ ⟨listed, closes'⟩ => ?_
  have moved := (moved₂.trans lawful moved₃).trans lawful moved₄
  have adds := goes_addClass lawful agrees₄ name.lexeme closes'
    (fun id isParent => Nat.lt_of_lt_of_le (known id isParent) moved.classes_le) listed
  rw [← spelled]
  refine Goes.bind lawful adds fun id scene₅ moved₅ agrees₅ valid => ?_
  have later := (moved₃.trans lawful moved₄).trans lawful moved₅
  refine goes_redefine lawful agrees₅ (at₂.step lawful later) declares valid ?_ ?_
  · rw [later.current]
    exact later.left.frames.names _ _ bound
  · rw [later.current]
    exact later.right.frames.names _ _ bound'

end Classes

end Pairing

end Lox

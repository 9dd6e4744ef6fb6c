import Lox.Proofs.Run.Soundness

/-!
Two runs side by side. The trees they run correspond node by node, and so do their stores, object by object
under the same numbers; what may differ is the names under which frames hold their values, the tokens that
only reports show, and the way names are looked up. A pairing says what corresponds at a place in the trees
and what is known of the stores. What it has to keep is stated once per way of changing a store, and carries
over to whole runs, which then end alike.
-/
namespace Lox

/-- What corresponds at a place in two trees. `Around` is what is known at a place. -/
structure Scheme where
  Around : Type
  /-- Tokens that reports may show for each other. -/
  Same : Token → Token → Prop
  Reads : Around → Token × Distance → Token × Distance → Prop
  Assigns : Around → Token × Distance → Token × Distance → Prop
  /-- The keyword with its note, and the method that is asked for. -/
  Supers : Around → (Token × Distance) × Token → (Token × Distance) × Token → Prop
  /-- A declaration, with what is known after it. -/
  Declares : Around → Token → Token → Around → Prop
  /-- A scope of its own that starts with some names, with what is known inside of it. -/
  Opens : Around → List Token → List Token → Around → Prop
  /-- What is known around the scope of `this`: that of `super`, if there is a superclass. -/
  Inherits : Around → Bool → Around → Prop
  /-- The scope of `this`, for one of the methods. -/
  Binds : Around → FunctionDecl Distance → FunctionDecl Distance → Around → Prop

namespace Scheme

variable (scheme : Scheme)

mutual

inductive MatchExpr : scheme.Around → Expr Distance → Expr Distance → Prop
  | literal {around} (value : Literal) : MatchExpr around (.literal value) (.literal value)
  | grouping {around inner inner'} (part : MatchExpr around inner inner') :
      MatchExpr around (.grouping inner) (.grouping inner')
  | unary {around op sign sign' operand operand'} (same : scheme.Same sign sign')
      (part : MatchExpr around operand operand') :
      MatchExpr around (.unary op sign operand) (.unary op sign' operand')
  | binary {around op left left' sign sign' right right'} (same : scheme.Same sign sign')
      (first : MatchExpr around left left') (second : MatchExpr around right right') :
      MatchExpr around (.binary op left sign right) (.binary op left' sign' right')
  | logical {around op left left' sign sign' right right'} (same : scheme.Same sign sign')
      (first : MatchExpr around left left') (second : MatchExpr around right right') :
      MatchExpr around (.logical op left sign right) (.logical op left' sign' right')
  | read {around name name' note note'} (reads : scheme.Reads around (name, note) (name', note')) :
      MatchExpr around (.read name note) (.read name' note')
  | assign {around name name' note note' value value'}
      (assigns : scheme.Assigns around (name, note) (name', note')) (part : MatchExpr around value value') :
      MatchExpr around (.assign name note value) (.assign name' note' value')
  | call {around callee callee' paren paren' arguments arguments'} (same : scheme.Same paren paren')
      (part : MatchExpr around callee callee') (parts : MatchExprs around arguments arguments') :
      MatchExpr around (.call callee paren arguments) (.call callee' paren' arguments')
  | get {around object object' name name'} (same : scheme.Same name name') (spelled : name.lexeme = name'.lexeme)
      (part : MatchExpr around object object') : MatchExpr around (.get object name) (.get object' name')
  | set {around object object' name name' value value'} (same : scheme.Same name name')
      (spelled : name.lexeme = name'.lexeme) (first : MatchExpr around object object')
      (second : MatchExpr around value value') :
      MatchExpr around (.set object name value) (.set object' name' value')
  | this {around keyword keyword' note note'} (reads : scheme.Reads around (keyword, note) (keyword', note')) :
      MatchExpr around (.this keyword note) (.this keyword' note')
  | super {around keyword keyword' note note' method method'}
      (supers : scheme.Supers around ((keyword, note), method) ((keyword', note'), method'))
      (same : scheme.Same method method') (spelled : method.lexeme = method'.lexeme) :
      MatchExpr around (.super keyword note method) (.super keyword' note' method')

inductive MatchExprs : scheme.Around → List (Expr Distance) → List (Expr Distance) → Prop
  | nil {around} : MatchExprs around [] []
  | cons {around first first' rest rest'} (head : MatchExpr around first first') (tail : MatchExprs around rest rest') :
      MatchExprs around (first :: rest) (first' :: rest')

end

/-- The superclass of a class, if there is one, is read. -/
inductive MatchSuperclass (around : scheme.Around) : Option (Token × Distance) → Option (Token × Distance) → Prop
  | none : MatchSuperclass around none none
  | some {parent parent' note note'} (same : scheme.Same parent parent')
      (reads : scheme.Reads around (parent, note) (parent', note')) :
      MatchSuperclass around (some (parent, note)) (some (parent', note'))

mutual

/-- Statements, with what is known before and after them. -/
inductive MatchStmt : scheme.Around → scheme.Around → Stmt Distance → Stmt Distance → Prop
  | expression {around value value'} (part : scheme.MatchExpr around value value') :
      MatchStmt around around (.expression value) (.expression value')
  | print {around value value'} (part : scheme.MatchExpr around value value') :
      MatchStmt around around (.print value) (.print value')
  | varDecl {around after name name'} (declares : scheme.Declares around name name' after) :
      MatchStmt around after (.varDecl name none) (.varDecl name' none)
  | varInit {around after name name' value value'} (part : scheme.MatchExpr around value value')
      (declares : scheme.Declares around name name' after) :
      MatchStmt around after (.varDecl name (some value)) (.varDecl name' (some value'))
  | block {around inside last body body'} (opens : scheme.Opens around [] [] inside)
      (parts : MatchBody inside last body body') : MatchStmt around around (.block body) (.block body')
  | ifThen {around condition condition' accepted accepted'} (test : scheme.MatchExpr around condition condition')
      (part : MatchStmt around around accepted accepted') :
      MatchStmt around around (.ifThen condition accepted) (.ifThen condition' accepted')
  | ifElse {around condition condition' accepted accepted' rejected rejected'}
      (test : scheme.MatchExpr around condition condition') (first : MatchStmt around around accepted accepted')
      (second : MatchStmt around around rejected rejected') :
      MatchStmt around around (.ifElse condition accepted rejected) (.ifElse condition' accepted' rejected')
  | whileLoop {around condition condition' body body'} (test : scheme.MatchExpr around condition condition')
      (part : MatchStmt around around body body') :
      MatchStmt around around (.whileLoop condition body) (.whileLoop condition' body')
  | funDecl {around after declaration declaration'}
      (declares : scheme.Declares around declaration.name declaration'.name after)
      (part : MatchFunction after declaration declaration') :
      MatchStmt around after (.funDecl declaration) (.funDecl declaration')
  | returnNone {around keyword keyword'} (same : scheme.Same keyword keyword') :
      MatchStmt around around (.returnStmt keyword none) (.returnStmt keyword' none)
  | returnSome {around keyword keyword' value value'} (same : scheme.Same keyword keyword')
      (part : scheme.MatchExpr around value value') :
      MatchStmt around around (.returnStmt keyword (some value)) (.returnStmt keyword' (some value'))
  | classDecl {around after inside name name' superclass superclass' methods methods'}
      (spelled : name.lexeme = name'.lexeme) (parent : scheme.MatchSuperclass around superclass superclass')
      (declares : scheme.Declares around name name' after) (inherits : scheme.Inherits after superclass.isSome inside)
      (parts : MatchMethods inside methods methods') :
      MatchStmt around after (.classDecl name superclass methods) (.classDecl name' superclass' methods')

inductive MatchBody : scheme.Around → scheme.Around → List (Stmt Distance) → List (Stmt Distance) → Prop
  | nil {around} : MatchBody around around [] []
  | cons {around middle after first first' rest rest'} (head : MatchStmt around middle first first')
      (tail : MatchBody middle after rest rest') : MatchBody around after (first :: rest) (first' :: rest')

inductive MatchFunction : scheme.Around → FunctionDecl Distance → FunctionDecl Distance → Prop
  | mk {around inside last name name' params params' body body'} (same : scheme.Same name name')
      (spelled : name.lexeme = name'.lexeme) (opens : scheme.Opens around params params' inside)
      (parts : MatchBody inside last body body') : MatchFunction around (.mk name params body) (.mk name' params' body')

inductive MatchMethods : scheme.Around → List (FunctionDecl Distance) → List (FunctionDecl Distance) → Prop
  | nil {around} : MatchMethods around [] []
  | cons {around inside first first' rest rest'} (binds : scheme.Binds around first first' inside)
      (head : MatchFunction inside first first') (tail : MatchMethods around rest rest') :
      MatchMethods around (first :: rest) (first' :: rest')

end

theorem MatchFunction.spelled {scheme : Scheme} {around : scheme.Around} {declaration declaration' : FunctionDecl Distance}
    (matching : scheme.MatchFunction around declaration declaration') :
    declaration.name.lexeme = declaration'.name.lexeme := by
  cases matching with
  | mk _ spelled _ _ => exact spelled

end Scheme

/-- Two runs of corresponding trees. -/
structure Pairing extends Scheme where
  /-- How the second run gets at names. The first one goes by the distances. -/
  right : Access
  /-- What is known about the frames and objects of the stores, and stays true. -/
  World : Type
  Later : World → World → Prop
  State : World → Store → Store → Prop
  /-- A frame stands where something is known. -/
  Stands : World → Around → FrameId → Prop
  /-- The methods of a class may be bound to an instance. -/
  Serves : World → ClassId → InstanceId → Prop
  /-- The methods of a class with this superclass may be closed over a frame. -/
  Closes : World → Option ClassId → FrameId → Prop

namespace Pairing

variable {pairing : Pairing}

/-- Halts for the same reason. -/
def Alike (pairing : Pairing) : Halt → Halt → Prop
  | .fault ⟨cause, token⟩, .fault ⟨cause', token'⟩ => cause = cause' ∧ pairing.Same token token'
  | .tooDeep, .tooDeep | .unfinished, .unfinished => True
  | .defect cause, .defect cause' => cause = cause'
  | _, _ => False

theorem Alike.cases {halt halt' : Halt} (alike : pairing.Alike halt halt') :
    halt' = halt ∨ ∃ cause token token', halt = .fault ⟨cause, token⟩ ∧ halt' = .fault ⟨cause, token'⟩ ∧
      pairing.Same token token' := by
  cases halt with
  | fault fault =>
    cases halt' with
    | fault fault' =>
      obtain ⟨same, shown⟩ := alike
      exact .inr ⟨fault.cause, fault.token, fault'.token, rfl, same ▸ rfl, shown⟩
    | _ => exact alike.elim
  | defect cause =>
    cases halt' with
    | defect cause' => exact .inl (congrArg Halt.defect alike.symm)
    | _ => exact alike.elim
  | tooDeep =>
    cases halt' with
    | tooDeep => exact .inl rfl
    | _ => exact alike.elim
  | unfinished =>
    cases halt' with
    | unfinished => exact .inl rfl
    | _ => exact alike.elim

/-- Functions that correspond. -/
def Functions (pairing : Pairing) (function function' : Function) : Prop :=
  function.closure = function'.closure ∧ function.isInitializer = function'.isInitializer ∧
    ∃ around, pairing.MatchFunction around function.declaration function'.declaration

/-- Functions that correspond where their closure stands. -/
def Callable (pairing : Pairing) (world : pairing.World) (function function' : Function) : Prop :=
  function.closure = function'.closure ∧ function.isInitializer = function'.isInitializer ∧
    ∃ around, pairing.Stands world around function.closure ∧
      pairing.MatchFunction around function.declaration function'.declaration

/-- Methods that correspond once they are bound. -/
def Bindable (pairing : Pairing) (world : pairing.World) (function function' : Function) : Prop :=
  function.closure = function'.closure ∧ function.isInitializer = function'.isInitializer ∧
    ∃ around inside, pairing.Stands world around function.closure ∧
      pairing.Binds around function.declaration function'.declaration inside ∧
      pairing.MatchFunction inside function.declaration function'.declaration

/-- The two machines at one point of the runs. -/
structure Scene (pairing : Pairing) where
  world : pairing.World
  left : Machine
  right : Machine

namespace Scene

variable {before middle after scene : pairing.Scene}

/-- Values that mean the same to both machines. -/
def Valid (scene : pairing.Scene) : Value → Prop
  | .function id => ∃ function function', scene.left.functions[id]? = some function ∧
      scene.right.functions[id]? = some function' ∧ pairing.Callable scene.world function function'
  | .class id => id < scene.left.classes.size
  | .instance id => id < scene.left.instances.size
  | _ => True

def Bindable (scene : pairing.Scene) (id : FunctionId) : Prop :=
  ∃ function function', scene.left.functions[id]? = some function ∧
    scene.right.functions[id]? = some function' ∧ pairing.Bindable scene.world function function'

/-- The frame at hand stands where something is known. -/
def At (scene : pairing.Scene) (around : pairing.Around) : Prop :=
  pairing.Stands scene.world around scene.left.current

/-- The invariant of the two runs. -/
structure Agrees (scene : pairing.Scene) : Prop where
  state : pairing.State scene.world scene.left.toStore scene.right.toStore
  current : scene.left.current = scene.right.current
  output : scene.left.output = scene.right.output
  now : scene.left.now = scene.right.now
  frames : scene.left.frames.all.size = scene.right.frames.all.size
  size : scene.left.functions.size = scene.right.functions.size
  functions : ∀ (id : FunctionId) (function function' : Function), scene.left.functions[id]? = some function →
    scene.right.functions[id]? = some function' → pairing.Functions function function'
  classes : scene.left.classes = scene.right.classes
  instances : scene.left.instances = scene.right.instances
  names : ∀ frame name value, (scene.left.frames.names frame).get? name = some value → scene.Valid value
  fields : ∀ (id : InstanceId) (found : Instance) (name : String) (value : Value),
    scene.left.instances[id]? = some found → found.fields.get? name = some value → scene.Valid value
  methods : ∀ (id : ClassId) (found : Class) (name : String) (method : FunctionId),
    scene.left.classes[id]? = some found → found.methods.get? name = some method → scene.Bindable method

/-- From one point of the runs to a later one. -/
structure Step (before after : pairing.Scene) : Prop where
  world : pairing.Later before.world after.world
  left : before.left.toStore.Extends after.left.toStore
  right : before.right.toStore.Extends after.right.toStore
  classes : ∀ (id : ClassId) (found : Class), before.left.classes[id]? = some found →
    after.left.classes[id]? = some found
  current : after.left.current = before.left.current

end Scene

/-- Two actions end alike: both with one value, or both with halts for the same reason. -/
def Goes {α : Type} (action action' : Run α) (scene : pairing.Scene) (P : α → pairing.Scene → Prop) : Prop :=
  ∃ after : pairing.Scene, scene.Step after ∧ after.Agrees ∧
    ((∃ value, action scene.left = .ok value after.left ∧ action' scene.right = .ok value after.right ∧
        P value after) ∨
      ∃ halt halt', action scene.left = .error halt after.left ∧ action' scene.right = .error halt' after.right ∧
        pairing.Alike halt halt')

/-- Two actions halt alike and change nothing. -/
def Halts {α : Type} (action action' : Run α) (scene : pairing.Scene) : Prop :=
  ∃ halt halt', action scene.left = .error halt scene.left ∧ action' scene.right = .error halt' scene.right ∧
    pairing.Alike halt halt'

/-- Two actions give one value and change nothing. -/
def Gives {α : Type} (action action' : Run α) (scene : pairing.Scene) (value : α) : Prop :=
  action scene.left = .ok value scene.left ∧ action' scene.right = .ok value scene.right

/-- A value that some frame holds. -/
def Scene.Held (scene : pairing.Scene) (value : Value) : Prop :=
  ∃ frame name, (scene.left.frames.names frame).get? name = some value

/-- The machines with other stores. -/
def Scene.withStores (scene : pairing.Scene) (world : pairing.World) (store store' : Store) : pairing.Scene :=
  ⟨world, { scene.left with toStore := store }, { scene.right with toStore := store' }⟩

/-- A store with a change to its frames. -/
abbrev withFrames (store : Store) (change : Frames → Frames) : Store := { store with frames := change store.frames }

/-- A frame that functions may be closed over: one in which something is declared, or that of the methods of a
class. -/
def Encloses (pairing : Pairing) (world : pairing.World) (frame : FrameId) : Prop :=
  (∃ around name name' after, pairing.Declares around name name' after ∧ pairing.Stands world around frame) ∨
    ∃ parent, pairing.Closes world parent frame

/-- What a pairing has to keep. -/
structure Lawful (pairing : Pairing) : Prop where
  refl : ∀ world, pairing.Later world world
  trans : ∀ {first second third}, pairing.Later first second → pairing.Later second third → pairing.Later first third
  stands : ∀ {before after around frame}, pairing.Later before after → pairing.Stands before around frame →
    pairing.Stands after around frame
  serves : ∀ {before after id receiver}, pairing.Later before after → pairing.Serves before id receiver →
    pairing.Serves after id receiver
  present : ∀ {world store store' around frame}, pairing.State world store store' →
    pairing.Stands world around frame → frame < store.frames.all.size
  read : ∀ {scene : pairing.Scene} {around reference reference'}, scene.Agrees → scene.At around →
    pairing.Reads around reference reference' →
    let action := Access.byDistance.read reference.1 reference.2
    let action' := pairing.right.read reference'.1 reference'.2
    (∃ value, scene.Held value ∧ Gives action action' scene value) ∨ Halts action action' scene
  superAndThis : ∀ {scene : pairing.Scene} {around reference reference'}, scene.Agrees → scene.At around →
    pairing.Supers around reference reference' →
    let action := Access.byDistance.superAndThis reference.1.1 reference.1.2
    let action' := pairing.right.superAndThis reference'.1.1 reference'.1.2
    (∃ pair, scene.Held pair.2 ∧ Gives action action' scene pair ∧ ∀ parent receiver,
      pair = (.class parent, .instance receiver) → pairing.Serves scene.world parent receiver) ∨
    Halts action action' scene
  assign : ∀ {scene : pairing.Scene} {around reference reference'} (value : Value), scene.Agrees → scene.At around →
    pairing.Assigns around reference reference' →
    let action := Access.byDistance.assign reference.1 reference.2 value
    let action' := pairing.right.assign reference'.1 reference'.2 value
    (∃ world frame, pairing.Later scene.world world ∧
      let store := withFrames scene.left.toStore (·.define frame reference.1.lexeme value)
      let store' := withFrames scene.right.toStore (·.define frame reference'.1.lexeme value)
      pairing.State world store store' ∧ action scene.left = .ok () (scene.withStores world store store').left ∧
        action' scene.right = .ok () (scene.withStores world store store').right) ∨
    Halts action action' scene
  declare : ∀ {world store store' around after name name' frame} (value : Value), pairing.State world store store' →
    pairing.Stands world around frame → pairing.Declares around name name' after →
    ∃ later, pairing.Later world later ∧ pairing.Stands later after frame ∧
      pairing.State later (withFrames store (·.define frame name.lexeme value))
        (withFrames store' (·.define frame name'.lexeme value))
  declared : ∀ {world around after name name' frame}, pairing.Declares around name name' after →
    pairing.Stands world after frame → pairing.Stands world around frame
  params : ∀ {around params params' inside}, pairing.Opens around params params' inside →
    params.length = params'.length
  opens : ∀ {world store store' around params params' inside frame} (values : List Value),
    pairing.State world store store' → pairing.Stands world around frame → pairing.Opens around params params' inside →
    params.length = values.length →
    ∃ later, pairing.Later world later ∧ pairing.Stands later inside store.frames.all.size ∧
      pairing.State later
        (withFrames store fun frames => (frames.openFrame frame ((params.map Token.lexeme).zip values)).2)
        (withFrames store' fun frames => (frames.openFrame frame ((params'.map Token.lexeme).zip values)).2)
  plain : ∀ {world store store' around inside frame}, pairing.State world store store' →
    pairing.Stands world around frame → pairing.Inherits around false inside →
    pairing.Stands world inside frame ∧ pairing.Closes world none frame
  inherits : ∀ {world store store' around inside frame parent}, pairing.State world store store' →
    pairing.Stands world around frame → pairing.Inherits around true inside → parent < store.classes.size →
    ∃ later, pairing.Later world later ∧ pairing.Stands later inside store.frames.all.size ∧
      pairing.Closes later (some parent) store.frames.all.size ∧
      pairing.State later (withFrames store fun frames => (frames.openFrame frame [("super", .class parent)]).2)
        (withFrames store' fun frames => (frames.openFrame frame [("super", .class parent)]).2)
  closes : ∀ {before after parent frame}, pairing.Later before after → pairing.Closes before parent frame →
    pairing.Closes after parent frame
  addFunction : ∀ {world store store'} {function function' : Function}, pairing.State world store store' →
    pairing.Encloses world function.closure → pairing.Functions function function' →
    ∃ later, pairing.Later world later ∧ pairing.State later (store.addFunction function).2 (store'.addFunction function').2
  /-- All methods of a new class are closed over one frame. -/
  addClass : ∀ {world store store' parent closure table} (name : String), pairing.State world store store' →
    store.classes = store'.classes → pairing.Closes world parent closure →
    (∀ id, parent = some id → id < store.classes.size) →
    (∀ name method, table.get? name = some method → ∃ function, store.functions[method]? = some function ∧
      function.closure = closure ∧ function.isInitializer = decide (name = initializerName) ∧
        function.declaration.name.lexeme = name) →
    ∃ later, pairing.Later world later ∧
      pairing.State later (store.addClass ⟨name, (parent.map store.lineage).getD [], table⟩).2
        (store'.addClass ⟨name, (parent.map store.lineage).getD [], table⟩).2
  addInstance : ∀ {world store store' owner}, pairing.State world store store' → owner < store.classes.size →
    store.instances = store'.instances →
    ∃ later, pairing.Later world later ∧ pairing.Serves later owner store.instances.size ∧
      pairing.State later (store.addInstance owner).2 (store'.addInstance owner).2
  setField : ∀ {world store store'} (id : InstanceId) (name : String) (value : Value), pairing.State world store store' →
    ∃ later, pairing.Later world later ∧ pairing.State later (store.setField id name value) (store'.setField id name value)
  owner : ∀ {world store store'} {id : InstanceId} {found : Instance}, pairing.State world store store' →
    store.instances[id]? = some found → pairing.Serves world found.owner id
  lineage : ∀ {world store store' id link receiver}, pairing.State world store store' →
    pairing.Serves world id receiver → link ∈ store.lineage id → pairing.Serves world link receiver
  /-- A method that a class has is bound to an instance that the class serves. -/
  bindMethod : ∀ {world store store' around inside} {id : ClassId} {found : Class} {name : String} {method : FunctionId}
    {function function' : Function} {receiver : InstanceId}, pairing.State world store store' →
    store.classes[id]? = some found → found.methods.get? name = some method →
    store.functions[method]? = some function → store'.functions[method]? = some function' →
    pairing.Functions function function' → receiver < store.instances.size → pairing.Serves world id receiver →
    pairing.Stands world around function.closure →
    pairing.Binds around function.declaration function'.declaration inside →
    ∃ later, pairing.Later world later ∧ pairing.Stands later inside store.frames.all.size ∧
      pairing.State later (store.bindMethod function receiver).2 (store'.bindMethod function' receiver).2
  this : ∀ {world store store'}, pairing.State world store store' →
    ∀ frame, store.frames.getAt frame 0 "this" = store'.frames.getAt frame 0 "this"

end Pairing

end Lox

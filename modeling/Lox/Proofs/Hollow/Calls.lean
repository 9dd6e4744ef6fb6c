import Lox.Proofs.Hollow.Actions

/-!
Names, properties, calls and classes of two runs of which the first one has hollow frames, given that single statements
go alike.
-/
namespace Lox

namespace Hollow

variable {scene : Scene} {hollow hollow' inside : scheme.Around}

/-- A statement leaves what is known of the place as it is. -/
theorem after_eq {stmt stmt' : Stmt Distance} (matching : scheme.MatchStmt hollow hollow' stmt stmt') :
    hollow' = hollow := by
  cases matching with
  | varDecl declares | varInit _ declares | funDecl declares _ | classDecl _ _ declares _ _ => exact declares.2.2
  | _ => rfl

section Names

theorem Scene.Agrees.valid_of_lookup? (agrees : scene.Agrees) {name : String} {value : Value}
    (found : scene.left.frames.lookup? globalFrame name = some value) : scene.Valid value := by
  obtain ⟨holder, isHolder, held⟩ := Option.bind_eq_some_iff.mp found
  have member := List.mem_of_find?_eq_some isHolder
  have root : scene.left.frames.chain globalFrame = [globalFrame] := agrees.twins.root
  rw [root, List.mem_singleton] at member
  subst member
  exact agrees.names _ _ _ _ agrees.twins.global held

theorem Scene.Agrees.valid_of_getAt (agrees : scene.Agrees) {frame frame' : FrameId} {distance : Nat} {name : String}
    {value : Value} (stands : scene.twins.Stands hollow frame frame')
    (found : scene.left.frames.getAt frame (shift hollow distance) name = .ok value) : scene.Valid value := by
  unfold Frames.getAt at found
  obtain ⟨link, link', linked, _, twin⟩ | ⟨missing, _⟩ := stands.links distance
  · have linked' : scene.left.frames.link? frame (shift hollow distance) = some link := linked
    simp only [linked'] at found
    split at found
    · cases found
    · rename_i held
      cases found
      exact agrees.names _ _ _ _ twin held
  · have missing' : scene.left.frames.link? frame (shift hollow distance) = none := missing
    simp only [missing'] at found
    cases found

/-- A name is read at corresponding distances. -/
theorem goes_readAt (agrees : scene.Agrees) (at_ : scene.At hollow) {distance distance' : Nat} (name : String)
    (same : distance = shift hollow distance') :
    Goes (Access.readAt distance name) (Access.readAt distance' name) scene Gives := by
  subst same
  refine Goes.reading (at_.getAt agrees.twins distance' name) ?_
  cases found : scene.left.frames.getAt scene.left.current (shift hollow distance') name with
  | ok value => exact Goes.pure agrees ⟨rfl, agrees.valid_of_getAt at_ found⟩
  | error cause => exact Goes.halt agrees _

theorem goes_read (agrees : scene.Agrees) (at_ : scene.At hollow) {reference reference' : Token × Distance}
    (reads : scheme.Reads hollow reference reference') :
    Goes (Access.byDistance.read reference.1 reference.2) (Access.byDistance.read reference'.1 reference'.2) scene
      Gives := by
  obtain ⟨name, note⟩ := reference
  obtain ⟨name', note'⟩ := reference'
  obtain ⟨rfl, rfl⟩ : name = name' ∧ note = note'.map (shift hollow) := reads
  cases note' with
  | some distance => exact goes_readAt agrees at_ name.lexeme rfl
  | none =>
    refine Goes.reading (agrees.twins.lookup?_global name.lexeme) ?_
    cases found : scene.left.frames.lookup? globalFrame name.lexeme with
    | some value => exact Goes.pure agrees ⟨rfl, agrees.valid_of_lookup? found⟩
    | none => exact Goes.halt agrees _

/-- No hollow frame lies between the frame with `super` and that with `this`. -/
theorem goes_superAndThis (agrees : scene.Agrees) (at_ : scene.At hollow)
    {reference reference' : (Token × Distance) × Token} (supers : scheme.Supers hollow reference reference') :
    Goes (Access.byDistance.superAndThis reference.1.1 reference.1.2)
      (Access.byDistance.superAndThis reference'.1.1 reference'.1.2) scene fun pair pair' _ => pair = pair' := by
  obtain ⟨⟨keyword, note⟩, method⟩ := reference
  obtain ⟨⟨keyword', note'⟩, method'⟩ := reference'
  obtain ⟨rfl, apart⟩ : note = note'.map (shift hollow) ∧ ∀ distance, note' = some distance → hollow ≠ some distance :=
    supers
  cases note' with
  | none => exact Goes.halt agrees _
  | some distance =>
    have nearer : shift hollow distance - 1 = shift hollow (distance - 1) := (shift_sub_one (apart distance rfl)).symm
    refine Goes.bind_same (goes_readAt agrees at_ "super" rfl) fun parent after moved agrees' _ => ?_
    refine Goes.bind_same (goes_readAt agrees' (at_.step moved) "this" nearer) fun receiver _ _ agrees'' _ => ?_
    exact Goes.pure agrees'' rfl

theorem goes_assign (agrees : scene.Agrees) (at_ : scene.At hollow) {reference reference' : Token × Distance}
    {value : Value} (assigns : scheme.Assigns hollow reference reference') (valid : scene.Valid value) :
    Goes (Access.byDistance.assign reference.1 reference.2 value)
      (Access.byDistance.assign reference'.1 reference'.2 value) scene fun _ _ _ => True := by
  obtain ⟨name, note⟩ := reference
  obtain ⟨name', note'⟩ := reference'
  obtain ⟨rfl, rfl⟩ : name = name' ∧ note = note'.map (shift hollow) := assigns
  cases note' with
  | some distance =>
    have looks (distance : Nat) (machine : Machine) {found : Option FrameId}
        (linked : machine.frames.link? machine.current distance = found) :
        Run.reading (fun machine => machine.frames.link? machine.current distance) machine = .ok found machine := by
      rw [← linked]
      rfl
    obtain ⟨link, link', linked, linked', twin⟩ | ⟨missing, missing'⟩ := at_.links distance
    · refine Goes.known (looks _ _ linked) (looks _ _ linked') ?_
      exact (goes_bindName name.lexeme agrees twin valid).weaken fun _ _ _ _ _ _ => trivial
    · exact Goes.known (looks _ _ missing) (looks _ _ missing') (Goes.halt agrees _)
  | none =>
    refine Goes.reading (agrees.twins.holder?_global name.lexeme) ?_
    cases found : scene.left.frames.holder? globalFrame name.lexeme with
    | none => exact Goes.halt agrees _
    | some holder =>
      have member := List.mem_of_find?_eq_some found
      have root : scene.left.frames.chain globalFrame = [globalFrame] := agrees.twins.root
      rw [root, List.mem_singleton] at member
      subst member
      exact (goes_bindName name.lexeme agrees agrees.twins.global valid).weaken fun _ _ _ _ _ _ => trivial

/-- A declaration binds its name in the frames at hand. -/
theorem goes_define (agrees : scene.Agrees) (at_ : scene.At hollow) (apart : hollow ≠ some 0) (name : String)
    {value : Value} (valid : scene.Valid value) :
    Goes (Run.define name value) (Run.define name value) scene fun _ _ after =>
      (after.left.frames.names scene.left.current).contains name = true ∧
      (after.right.frames.names scene.right.current).contains name = true :=
  Goes.known rfl rfl (goes_bindName name agrees (at_.twin apart) valid)

/-- A name that the frames at hand have already is bound anew. -/
theorem goes_redefine (agrees : scene.Agrees) (at_ : scene.At hollow) (apart : hollow ≠ some 0) (name : Token)
    {value : Value} (valid : scene.Valid value)
    (bound : (scene.left.frames.names scene.left.current).contains name.lexeme = true)
    (bound' : (scene.right.frames.names scene.right.current).contains name.lexeme = true) :
    Goes (Access.assignFrom Machine.current name value) (Access.assignFrom Machine.current name value) scene
      fun _ _ _ => True := by
  have finds (machine : Machine) (present : machine.current < machine.frames.all.size)
      (bound : (machine.frames.names machine.current).contains name.lexeme = true) :
      Run.reading (fun machine => machine.frames.holder? machine.current name.lexeme) machine =
        .ok (some machine.current) machine := by
    rw [← Frames.holder?_self present bound]
    rfl
  refine Goes.known (finds _ at_.present bound) (finds _ at_.present' bound') ?_
  exact (goes_bindName name.lexeme agrees (at_.twin apart) valid).weaken fun _ _ _ _ _ _ => trivial

end Names

section Objects

theorem goes_instanceOf (agrees : scene.Agrees) (id : InstanceId) :
    Goes (Run.instanceOf id) (Run.instanceOf id) scene fun found found' after =>
      found = found' ∧ after.left.instances[id]? = some found := by
  refine Goes.reading (congrArg (·[id]?) agrees.instances) ?_
  cases held : scene.left.instances[id]? with
  | none => exact Goes.halt agrees _
  | some found => exact Goes.pure agrees ⟨rfl, held⟩

/-- A method that a class has, bound to an instance, is a value. -/
theorem goes_boundMethod (agrees : scene.Agrees) {id : ClassId} {name : String} {method : FunctionId}
    (found : scene.left.findMethod? id name = some method) (receiver : InstanceId) :
    Goes (do return .function (← Run.bindMethod method receiver))
      (do return .function (← Run.bindMethod method receiver)) scene Gives := by
  exact Goes.bind_same (goes_bindMethod agrees (agrees.bindable found) receiver) fun bound _ _ agrees' valid =>
    Goes.pure agrees' ⟨rfl, valid⟩

theorem goes_property (agrees : scene.Agrees) (id : InstanceId) (name : Token) :
    Goes (Run.property id name) (Run.property id name) scene Gives := by
  refine Goes.bind_same (goes_instanceOf agrees id) fun found after _ agrees' held => ?_
  cases field : found.fields.get? name.lexeme with
  | some value => exact Goes.pure agrees' ⟨rfl, agrees'.fields id found _ value held field⟩
  | none =>
    apply Goes.reading (agrees'.findMethod? _ _)
    cases looked : after.left.findMethod? found.owner name.lexeme with
    | none => exact Goes.halt agrees' _
    | some method => exact goes_boundMethod agrees' looked id

theorem goes_superMethod (agrees : scene.Agrees) (method : Token) (pair : Value × Value) :
    Goes (Run.superMethod method pair) (Run.superMethod method pair) scene Gives := by
  obtain ⟨first, second⟩ := pair
  cases first with
  | «class» parent =>
    cases second with
    | «instance» receiver =>
      apply Goes.reading (agrees.findMethod? _ _)
      cases looked : scene.left.findMethod? parent method.lexeme with
      | none => exact Goes.halt agrees _
      | some found => exact goes_boundMethod agrees looked receiver
    | _ => exact Goes.halt agrees _
  | _ => exact Goes.halt agrees _

end Objects

section Calls

/-- Both runs go on, or both return one value, which means the same to them. -/
def Ends (flow flow' : Flow) (scene : Scene) : Prop :=
  flow = flow' ∧ ∀ value, flow = .returned value → scene.Valid value

theorem Ends.next : Ends .next .next scene := ⟨rfl, nofun⟩

theorem Ends.returned {value value' : Value} (gives : Gives value value' scene) :
    Ends (.returned value) (.returned value') scene := by
  refine ⟨congrArg Flow.returned gives.1, ?_⟩
  rintro _ ⟨⟩
  exact gives.2

/-- Single statements go alike. -/
def Executes (exec : Stmt Distance → Run Flow) : Prop :=
  ∀ ⦃scene : Scene⦄ ⦃hollow hollow' : scheme.Around⦄ ⦃stmt stmt' : Stmt Distance⦄, scene.Agrees → scene.At hollow →
    scheme.MatchStmt hollow hollow' stmt stmt' → Goes (exec stmt) (exec stmt') scene Ends

variable {exec : Stmt Distance → Run Flow}

theorem goes_sequence (executes : Executes exec) {body body' : List (Stmt Distance)} (agrees : scene.Agrees)
    (at_ : scene.At hollow) (matching : scheme.MatchBody hollow hollow' body body') :
    Goes (Run.sequence exec body) (Run.sequence exec body') scene Ends := by
  induction body generalizing scene hollow body' with
  | nil =>
    cases matching
    exact Goes.pure agrees .next
  | cons first rest ih =>
    cases matching with
    | cons head tail =>
      refine Goes.bind_same (executes agrees at_ head) fun flow after moved agrees' valid => ?_
      cases flow with
      | next =>
        rw [after_eq head] at tail
        exact ih agrees' (at_.step moved) tail
      | returned value => exact Goes.pure agrees' (.returned ⟨rfl, valid value rfl⟩)

/-- Statements in a frame of their own. -/
theorem goes_block (executes : Executes exec) {body body' : List (Stmt Distance)} {enclosing enclosing' : FrameId}
    {bindings : List (String × Value)} (agrees : scene.Agrees) (stands : scene.twins.Stands hollow enclosing enclosing')
    (valid : ∀ entry ∈ bindings, scene.Valid entry.2)
    (matching : scheme.MatchBody (deeper hollow) hollow' body body') :
    Goes (Run.block exec enclosing bindings body) (Run.block exec enclosing' bindings body') scene Ends := by
  refine Goes.bind (goes_openFrame bindings agrees stands valid) fun frame frame' after _ agrees' inner => ?_
  exact goes_within (goes_sequence executes (agrees'.enter frame frame') inner matching) fun _ _ _ ends => ends

theorem goes_activate (executes : Executes exec) {function function' : Function} {arguments : List Value}
    (agrees : scene.Agrees) (callable : Callable scene.twins function function')
    (valid : ∀ value ∈ arguments, scene.Valid value) :
    Goes (Run.activate exec function arguments) (Run.activate exec function' arguments) scene Gives := by
  obtain ⟨initializer, hollow, apart, stands, matching⟩ := callable
  obtain ⟨params, last, parts⟩ := match_parts matching
  unfold Run.activate
  rw [← initializer, ← params]
  refine Goes.bind_same (goes_block executes agrees stands (fun entry member => valid _ (List.of_mem_zip member).2) parts)
    fun flow after moved agrees' fine => ?_
  split
  · have stands' := stands.mono moved.later
    have found := stands'.getAt agrees'.twins 0 "this"
    have valid' : ∀ value, after.left.frames.getAt function.closure (shift hollow 0) "this" = .ok value →
        after.Valid value := fun _ => agrees'.valid_of_getAt stands'
    rw [shift_zero apart] at found valid'
    apply Goes.reading found
    cases held : after.left.frames.getAt function.closure 0 "this" with
    | ok value => exact Goes.pure agrees' ⟨rfl, valid' value held⟩
    | error cause => exact Goes.halt agrees' _
  · cases flow with
    | next => exact Goes.pure agrees' ⟨rfl, trivial⟩
    | returned value => exact Goes.pure agrees' ⟨rfl, fine value rfl⟩

theorem goes_instantiate (executes : Executes exec) (id : ClassId) {arguments : List Value} (agrees : scene.Agrees)
    (valid : ∀ value ∈ arguments, scene.Valid value) :
    Goes (Run.instantiate exec id arguments) (Run.instantiate exec id arguments) scene Gives := by
  apply Goes.bind (goes_addInstance agrees id)
  rintro made _ after moved agrees' rfl
  apply Goes.reading (agrees'.findMethod? _ _)
  cases found : after.left.findMethod? id initializerName with
  | none => exact Goes.pure agrees' ⟨rfl, trivial⟩
  | some method =>
    refine Goes.bind_same (goes_bindMethod agrees' (agrees'.bindable found) made)
      fun bound last moved' agrees'' ⟨function, function', held, held', callable⟩ => ?_
    refine Goes.known (Run.function_eq_ok held) (Run.function_eq_ok held') ?_
    refine Goes.bind (goes_activate executes agrees'' callable fun value member =>
      (valid value member).step (moved.trans moved')) fun _ _ _ _ agrees₃ _ => ?_
    exact Goes.pure agrees₃ ⟨rfl, trivial⟩

/-- A value takes as many arguments in the one run as in the other one. -/
theorem goes_arity? (agrees : scene.Agrees) {callee : Value} (valid : scene.Valid callee) :
    Goes (Run.arity? callee) (Run.arity? callee) scene fun arity arity' _ => arity = arity' := by
  cases callee with
  | function id =>
    obtain ⟨function, function', found, found', _, _, _, _, matching⟩ := valid
    have same : scene.left.functionArity id = scene.right.functionArity id := by
      simp only [Store.functionArity, found, found', (match_parts matching).1]
    exact Goes.reading same (Goes.pure agrees rfl)
  | «class» id => exact Goes.reading (agrees.classArity id) (Goes.pure agrees rfl)
  | _ => exact Goes.pure agrees rfl

theorem goes_invoke (executes : Executes exec) (paren : Token) {callee : Value} {arguments : List Value}
    (agrees : scene.Agrees) (callable : scene.Valid callee) (valid : ∀ value ∈ arguments, scene.Valid value) :
    Goes (Run.invoke exec paren arguments callee) (Run.invoke exec paren arguments callee) scene Gives := by
  cases callee with
  | native native =>
    cases native
    exact Goes.reading agrees.now (Goes.pure agrees ⟨rfl, trivial⟩)
  | function id =>
    obtain ⟨function, function', found, found', callable⟩ := callable
    exact Goes.known (Run.function_eq_ok found) (Run.function_eq_ok found')
      (goes_activate executes agrees callable valid)
  | «class» id => exact goes_instantiate executes id agrees valid
  | _ => exact Goes.halt agrees _

theorem goes_call (executes : Executes exec) (paren : Token) {callee : Value} {arguments : List Value}
    (agrees : scene.Agrees) (callable : scene.Valid callee) (valid : ∀ value ∈ arguments, scene.Valid value) :
    Goes (Run.call exec paren callee arguments) (Run.call exec paren callee arguments) scene Gives := by
  apply Goes.bind (goes_arity? agrees callable)
  rintro arity _ after moved agrees' rfl
  cases arity with
  | none => exact Goes.halt agrees' _
  | some arity =>
    simp only
    split
    · exact Goes.halt agrees' _
    · exact goes_asCall paren (goes_invoke executes paren agrees' (callable.step moved) fun value member =>
        (valid value member).step moved)

end Calls

section Classes

theorem goes_superclass {superclass superclass' : Option (Token × Distance)} (agrees : scene.Agrees)
    (at_ : scene.At hollow) (matching : scheme.MatchSuperclass hollow superclass superclass') :
    Goes (Run.superclass .byDistance superclass) (Run.superclass .byDistance superclass') scene
      fun parent parent' _ => parent = parent' ∧ parent.isSome = superclass.isSome := by
  cases matching with
  | none => exact Goes.pure agrees ⟨rfl, rfl⟩
  | some same reads =>
    subst same
    refine Goes.bind_same (goes_read agrees at_ reads) fun value after _ agrees' _ => ?_
    cases value with
    | «class» id => exact Goes.pure agrees' ⟨rfl, rfl⟩
    | _ => exact Goes.halt agrees' _

/-- The frames for the methods of a class. -/
theorem goes_methodFrame {parent : Option ClassId} (agrees : scene.Agrees) (at_ : scene.At hollow)
    (inherits : scheme.Inherits hollow parent.isSome inside) :
    Goes (Run.methodFrame parent) (Run.methodFrame parent) scene fun frame frame' after =>
      after.twins.Stands inside frame frame' := by
  obtain rfl : inside = if parent.isSome then deeper hollow else hollow := inherits
  cases parent with
  | none => exact ⟨scene, .refl scene, agrees, .inl ⟨_, _, rfl, rfl, at_⟩⟩
  | some parent =>
    exact Goes.known rfl rfl (goes_openFrame [("super", .class parent)] agrees at_ (by simp [Scene.Valid]))

/-- The methods of a class that is being declared can be bound. -/
def Listed (scene : Scene) (table : Table FunctionId) : Prop :=
  ∀ name method, table.get? name = some method → scene.Bindable method

theorem goes_methodTable {closure closure' : FrameId} {methods methods' : List (FunctionDecl Distance)}
    {table : Table FunctionId} (agrees : scene.Agrees) (stands : scene.twins.Stands hollow closure closure')
    (matching : scheme.MatchMethods hollow methods methods') (listed : Listed scene table) :
    Goes (Run.methodTable closure methods table) (Run.methodTable closure' methods' table) scene
      fun table table' after => table = table' ∧ Listed after table := by
  induction methods generalizing scene methods' table with
  | nil =>
    cases matching
    exact Goes.pure agrees ⟨rfl, listed⟩
  | cons first rest ih =>
    cases matching with
    | cons binds head tail =>
      have spelled := head.spelled
      obtain rfl := binds
      unfold Run.methodTable
      rw [← spelled]
      refine Goes.bind_same (goes_addFunction agrees _ _) fun id after moved agrees' ⟨found, found'⟩ => ?_
      have stands' := stands.mono moved.later
      apply ih agrees' stands' tail
      intro name method isListed
      rcases Table.get?_set_cases isListed with ⟨rfl, rfl⟩ | isListed
      · exact ⟨_, _, found, found', rfl, hollow, stands', head⟩
      · exact (listed name method isListed).step moved

/-- Declaring a class binds its name, first to nothing and then to the class. -/
theorem goes_declareClass (name : Token) {superclass superclass' : Option (Token × Distance)}
    {methods methods' : List (FunctionDecl Distance)} (agrees : scene.Agrees) (at_ : scene.At hollow)
    (apart : hollow ≠ some 0) (parent : scheme.MatchSuperclass hollow superclass superclass')
    (inherits : scheme.Inherits hollow superclass.isSome inside) (parts : scheme.MatchMethods inside methods methods') :
    Goes (Run.declareClass .byDistance name superclass methods) (Run.declareClass .byDistance name superclass' methods')
      scene fun _ _ _ => True := by
  rw [Run.declareClass_eq, Run.declareClass_eq]
  refine Goes.bind_same (goes_superclass agrees at_ parent) fun found scene₁ moved₁ agrees₁ same => ?_
  have at₁ := at_.step moved₁
  refine Goes.bind (goes_define agrees₁ at₁ apart name.lexeme trivial)
    fun _ _ scene₂ moved₂ agrees₂ ⟨bound, bound'⟩ => ?_
  rw [← same] at inherits
  refine Goes.bind (goes_methodFrame agrees₂ (at₁.step moved₂) inherits)
    fun closure closure' scene₃ moved₃ agrees₃ stands => ?_
  refine Goes.bind_same (goes_methodTable agrees₃ stands parts (by simp [Listed]))
    fun table scene₄ moved₄ agrees₄ listed => ?_
  apply Goes.bind (goes_addClass agrees₄ name.lexeme found listed)
  rintro id _ scene₅ moved₅ agrees₅ rfl
  have moved := ((moved₂.trans moved₃).trans moved₄).trans moved₅
  have since := (moved₃.trans moved₄).trans moved₅
  refine goes_redefine agrees₅ (at₁.step moved) apart name trivial ?_ ?_
  · rw [moved.current]
    exact since.left.frames.names _ _ bound
  · rw [moved.current']
    exact since.right.frames.names _ _ bound'

end Classes

end Hollow

end Lox

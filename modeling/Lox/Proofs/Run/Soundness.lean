import Lox.Proofs.Run.Steps

/-!
Running what was bound without a fault. Expressions give valid values, statements leave the names they
declare in the frame at hand, and calls run in frames that have what the body of the function refers to.
The induction is on the room for nesting, which every call takes some of.
-/
namespace Lox

theorem Machine.Step.models {added : List String} {before after : Machine} {scopes : List (List String)}
    (moved : before.Step added after) (models : before.frames.Models scopes before.current) :
    after.frames.Models scopes after.current := by
  rw [moved.current]
  exact models.mono moved.extends_.frames

namespace Run

variable {machine : Machine} {scopes : List (List String)}

section Access

theorem goes_readAt {distance : Nat} {name : String} (sound : machine.toStore.Sound)
    (models : machine.frames.Models scopes machine.current) (declares : Declares scopes distance name) :
    Goes (Access.readAt distance name) [] machine fun value after => after.Admits name value := by
  obtain ⟨value, found⟩ := models.getAt declares
  apply Goes.reading
  rw [found]
  exact Goes.pure sound (sound.admits_of_getAt found)

theorem goes_readGlobal (sound : machine.toStore.Sound) (name : Token) :
    Goes (Access.readFrom (fun _ => globalFrame) name) [] machine fun value after => after.Valid value := by
  apply Goes.reading
  cases found : machine.frames.lookup? globalFrame name.lexeme with
  | none => exact Goes.fail sound _ _
  | some value =>
    apply Goes.pure sound
    obtain ⟨holder, _, held⟩ := Option.bind_eq_some_iff.mp found
    exact (sound.names holder name.lexeme value held).1

theorem goes_read {name : Token} {note : Distance} (sound : machine.toStore.Sound)
    (models : machine.frames.Models scopes machine.current) (reaches : Reaches scopes name.lexeme note) :
    Goes (Access.byDistance.read name note) [] machine fun value after => after.Valid value := by
  cases note with
  | none => exact goes_readGlobal sound name
  | some distance =>
    exact (goes_readAt sound models (reaches distance rfl)).weaken fun _ _ _ admits => admits.1

theorem goes_assign {name : Token} {note : Distance} {value : Value} (sound : machine.toStore.Sound)
    (models : machine.frames.Models scopes machine.current) (plain : name.Plain)
    (near : ∀ distance, note = some distance → distance < scopes.length) (valid : machine.Valid value) :
    Goes (Access.byDistance.assign name note value) [] machine fun _ _ => True := by
  cases note with
  | none =>
    apply Goes.reading
    cases found : machine.frames.holder? globalFrame name.lexeme with
    | none => exact Goes.fail sound _ _
    | some holder =>
      have held := List.find?_some found
      exact (goes_redefine sound models (valid.admits plain) fun _ => held).weaken fun _ _ _ _ => trivial
  | some distance =>
    obtain ⟨link, found, inner, _⟩ := models.link (near distance rfl)
    apply Goes.reading
    rw [found]
    exact (goes_redefine sound models (valid.admits plain) fun same => absurd same inner).weaken
      fun _ _ _ _ => trivial

/-- What `super` and `this` stand for inside a subclass. -/
theorem goes_superAndThis {keyword : Token} {distance : Nat} (sound : machine.toStore.Sound)
    (models : machine.frames.Models scopes machine.current) (super : Declares scopes (distance + 1) "super")
    (this : Declares scopes distance "this") :
    Goes (Access.byDistance.superAndThis keyword (some (distance + 1))) [] machine fun pair after =>
      ∃ parent receiver, pair = (.class parent, .instance receiver) ∧ receiver < after.instances.size := by
  apply Goes.bind (goes_readAt sound models super)
  intro parent middle moved admits
  obtain ⟨parent, rfl⟩ := admits.2.2 rfl
  apply Goes.bind (goes_readAt moved.sound (moved.models models) this)
  intro receiver after moved' admits'
  obtain ⟨receiver, rfl⟩ := admits'.2.1 rfl
  exact Goes.pure moved'.sound ⟨parent, receiver, rfl, admits'.1⟩

end Access

section Objects

/-- A method that has been found gets bound to an instance. -/
theorem goes_bindMethod {method : FunctionId} {receiver : InstanceId} (sound : machine.toStore.Sound)
    (bindable : machine.Bindable method) (present : receiver < machine.instances.size) :
    Goes (bindMethod method receiver) [] machine fun bound after =>
      ∃ function, after.functions[bound]? = some function ∧
        function.declaration.params.length = machine.functionArity method ∧
        function.Callable after.frames := by
  obtain ⟨function, found, bindable⟩ := bindable
  obtain ⟨extends_, kept, bound, held, same, callable⟩ := sound.bindMethod bindable present
  refine Goes.known (function_eq_ok found)
    (goes_onStore extends_ kept (fun name => ?_) ⟨bound, held, ?_, callable⟩)
  · have unchanged : ((machine.toStore.bindMethod function receiver).2.frames.names globalFrame) =
        machine.frames.names globalFrame :=
      Frames.names_openFrame_global sound.sized function.closure [("this", .instance receiver)]
    simp [unchanged]
  · simp [Store.functionArity, found, same]

theorem bindable_of_findMethod? {id : ClassId} {name : String} {method : FunctionId} (sound : machine.toStore.Sound)
    (found : machine.findMethod? id name = some method) : machine.Bindable method := by
  obtain ⟨link, _, listed⟩ := List.exists_of_findSome?_eq_some found
  obtain ⟨definition, held, entry⟩ := Option.bind_eq_some_iff.mp listed
  exact sound.methods link definition name method held entry

/-- A method that a class has, bound to an instance, is a value. -/
theorem goes_boundMethod {id : ClassId} {name : String} {method : FunctionId} {receiver : InstanceId}
    (sound : machine.toStore.Sound) (found : machine.findMethod? id name = some method)
    (present : receiver < machine.instances.size) :
    Goes (do return .function (← bindMethod method receiver)) [] machine fun value after => after.Valid value := by
  refine Goes.bind (goes_bindMethod sound (bindable_of_findMethod? sound found) present)
    fun bound after moved ⟨function, held, _, callable⟩ => ?_
  exact Goes.pure moved.sound ⟨function, held, callable⟩

theorem goes_property {id : InstanceId} (sound : machine.toStore.Sound) (present : id < machine.instances.size)
    (name : Token) : Goes (property id name) [] machine fun value after => after.Valid value := by
  have held : machine.instances[id]? = some machine.instances[id] := Array.getElem?_eq_getElem present
  apply Goes.known (instanceOf_eq_ok held)
  cases field : machine.instances[id].fields.get? name.lexeme with
  | some value => exact Goes.pure sound (sound.fields id _ _ value held field)
  | none =>
    apply Goes.reading
    cases found : machine.findMethod? machine.instances[id].owner name.lexeme with
    | none => exact Goes.fail sound _ _
    | some method => exact goes_boundMethod sound found present

theorem goes_superMethod {parent : ClassId} {receiver : InstanceId} (sound : machine.toStore.Sound)
    (present : receiver < machine.instances.size) (method : Token) :
    Goes (superMethod method (.class parent, .instance receiver)) [] machine
      fun value after => after.Valid value := by
  apply Goes.reading
  cases found : machine.findMethod? parent method.lexeme with
  | none => exact Goes.fail sound _ _
  | some bound => exact goes_boundMethod sound found present

end Objects

section Calls

/-- How a statement may end: with a valid value, and that only where there is a function to leave. -/
def Fine (returns : Bool) (flow : Flow) (machine : Machine) : Prop :=
  match flow with
  | .next => True
  | .returned value => returns = true ∧ machine.Valid value

/-- The execution of single statements goes well. -/
def Executes (exec : Stmt Distance → Run Flow) : Prop :=
  ∀ ⦃machine : Machine⦄ ⦃scopes : List (List String)⦄ ⦃returns : Bool⦄ ⦃stmt : Stmt Distance⦄,
    machine.toStore.Sound → machine.frames.Models scopes machine.current → stmt.Safe returns scopes →
    Goes (exec stmt) (globalsOf scopes stmt.declared) machine fun flow after =>
      after.frames.Models (Place.declare stmt.declared scopes) after.current ∧ Fine returns flow after

variable {exec : Stmt Distance → Run Flow}

theorem globalsOf_append (scopes : List (List String)) (first second : List String) :
    globalsOf scopes first ++ globalsOf (Place.declare first scopes) second = globalsOf scopes (first ++ second) := by
  cases scopes <;> simp [globalsOf, Place.declare]

/-- At the top level, where nothing returns, all statements of a sequence are executed. -/
theorem goes_sequence (executes : Executes exec) {returns : Bool} {body : List (Stmt Distance)}
    (sound : machine.toStore.Sound) (models : machine.frames.Models scopes machine.current)
    (safe : Stmt.SafeAll returns scopes body) (top : scopes = [] → returns = false) :
    Goes (sequence exec body) (globalsOf scopes (body.flatMap Stmt.declared)) machine
      fun flow after => Fine returns flow after := by
  induction body generalizing machine scopes with
  | nil =>
    rw [List.flatMap_nil, globalsOf_nil]
    exact Goes.pure sound trivial
  | cons first rest ih =>
    rw [List.flatMap_cons, ← globalsOf_append]
    refine Goes.append (executes sound models safe.1) fun flow after moved ⟨models', fine⟩ => ?_
    cases flow with
    | next =>
      refine ih moved.sound models' safe.2 fun isTop => top ?_
      cases scopes with
      | nil => rfl
      | cons => cases isTop
    | returned value =>
      have inner : scopes ≠ [] := fun isTop => by simp [top isTop, Fine] at fine
      have none : globalsOf (Place.declare first.declared scopes) (rest.flatMap Stmt.declared) = [] := by
        cases scopes with
        | nil => exact absurd rfl inner
        | cons => simp [globalsOf, Place.declare]
      rw [none]
      exact Goes.pure moved.sound fine

/-- Statements in a frame of their own. -/
theorem goes_block (executes : Executes exec) {returns : Bool} {body : List (Stmt Distance)} {enclosing : FrameId}
    {bindings : List (String × Value)} (sound : machine.toStore.Sound)
    (models : machine.frames.Models scopes enclosing)
    (admits : ∀ entry ∈ bindings, machine.Admits entry.1 entry.2)
    (safe : Stmt.SafeAll returns (bindings.map Prod.fst :: scopes) body) :
    Goes (block exec enclosing bindings body) [] machine fun flow after => Fine returns flow after := by
  have opens : Goes (onFrames fun frames => frames.openFrame enclosing bindings) [] machine fun frame after =>
      after.frames.Models (bindings.map Prod.fst :: scopes) frame := by
    refine goes_onFrames (Frames.grow_openFrame _ _ _) (sound.openFrame enclosing admits) (fun name => ?_) ?_
    · rw [Frames.names_openFrame_global sound.sized]
      simp
    · exact models.openFrame sound.sized bindings
  refine Goes.bind opens fun frame after moved models' => goes_within ?_
  refine goes_sequence executes ?_ ?_ safe nofun
  · exact moved.sound
  · exact models'

/-- The body of a function is safe in a frame inside its closure that has the parameters. -/
theorem callable_body {function : Function} {arguments : List Value} (callable : function.Callable machine.frames)
    (valid : ∀ value ∈ arguments, machine.Valid value)
    (enough : arguments.length = function.declaration.params.length) :
    ∃ scopes, machine.frames.Models scopes function.closure ∧
      (∀ entry ∈ (function.declaration.params.map Token.lexeme).zip arguments,
        machine.Admits entry.1 entry.2) ∧
      Stmt.SafeAll true (((function.declaration.params.map Token.lexeme).zip arguments).map Prod.fst :: scopes)
        function.declaration.body := by
  obtain ⟨scopes, models, safe, _⟩ := callable
  obtain ⟨⟨name, params, body⟩, closure, isInitializer⟩ := function
  have names : ((params.map Token.lexeme).zip arguments).map Prod.fst = params.map Token.lexeme :=
    List.map_fst_zip (by simpa [FunctionDecl.params] using Nat.le_of_eq enough.symm)
  refine ⟨scopes, models, ?_, by rw [FunctionDecl.params, names]; exact safe.2⟩
  rintro ⟨query, value⟩ member
  obtain ⟨left, right⟩ := List.of_mem_zip member
  obtain ⟨param, listed, rfl⟩ := List.mem_map.mp left
  exact (valid value right).admits (safe.1 param listed)

theorem goes_activate (executes : Executes exec) {function : Function} {arguments : List Value}
    (sound : machine.toStore.Sound) (callable : function.Callable machine.frames)
    (valid : ∀ value ∈ arguments, machine.Valid value)
    (enough : arguments.length = function.declaration.params.length) :
    Goes (activate exec function arguments) [] machine fun value after => after.Valid value := by
  obtain ⟨scopes, models, admits, safe⟩ := callable_body callable valid enough
  have runs := goes_block executes sound models admits safe
  apply Goes.bind runs
  intro flow after moved fine
  split
  · rename_i isInitializer
    obtain ⟨_, _, _, answers⟩ := callable.mono moved.extends_.frames
    obtain ⟨value, found⟩ := answers isInitializer
    apply Goes.reading
    rw [found]
    exact Goes.pure moved.sound (moved.sound.admits_of_getAt found).1
  · cases flow with
    | next => exact Goes.pure moved.sound trivial
    | returned value => exact Goes.pure moved.sound fine.2

/-- Makes an instance of a class, and binds the initialiser of the class to it, if there is one. -/
def prepare (id : ClassId) : Run (InstanceId × Option Function) := do
  let made ← onStore (·.addInstance id)
  match ← reading fun machine => machine.findMethod? id initializerName with
  | none => return (made, none)
  | some method =>
    let bound ← bindMethod method made
    return (made, some (← function bound))

theorem instantiate_eq (id : ClassId) (arguments : List Value) : instantiate exec id arguments = (do
    match ← prepare id with
    | (made, none) => return .instance made
    | (made, some initializer) =>
      let _ ← activate exec initializer arguments
      return .instance made) := by
  unfold instantiate prepare
  rw [bind_assoc]
  apply bind_congr
  intro made
  rw [bind_assoc]
  apply bind_congr
  intro found
  cases found with
  | none => rfl
  | some method => simp only [bind_assoc, pure_bind]

/-- An initialiser that is about to be called takes the arguments that its class takes. -/
theorem goes_prepare (id : ClassId) (sound : machine.toStore.Sound) :
    Goes (prepare id) [] machine fun prepared after => prepared.1 < after.instances.size ∧
      ∀ initializer, prepared.2 = some initializer → initializer.Callable after.frames ∧
        initializer.declaration.params.length = machine.classArity id := by
  have makes : Goes (onStore (·.addInstance id)) [] machine fun made after =>
      made = machine.instances.size ∧ after = { machine with toStore := (machine.addInstance id).2 } :=
    goes_onStore (Store.extends_addInstance _ id) (sound.addInstance id) (by simp [Store.addInstance]) ⟨rfl, rfl⟩
  apply Goes.bind makes
  rintro made after moved ⟨isNew, same⟩
  apply Goes.reading
  have present : made < after.instances.size := by simp [same, isNew, Store.addInstance]
  have unchanged : after.findMethod? id initializerName = machine.findMethod? id initializerName := by
    rw [same]
    rfl
  cases found : after.findMethod? id initializerName with
  | none => exact Goes.pure moved.sound ⟨present, by simp⟩
  | some method =>
    have bindable := bindable_of_findMethod? moved.sound found
    apply Goes.bind (goes_bindMethod moved.sound bindable present)
    rintro bound later moved' ⟨function, held, arity, callable⟩
    apply Goes.known (function_eq_ok held)
    refine Goes.pure moved'.sound ⟨Nat.lt_of_lt_of_le present moved'.extends_.instances, ?_⟩
    rintro _ ⟨⟩
    refine ⟨callable, ?_⟩
    rw [arity, Store.classArity, ← unchanged, found, same]
    rfl

theorem goes_instantiate (executes : Executes exec) {id : ClassId} {arguments : List Value}
    (sound : machine.toStore.Sound) (valid : ∀ value ∈ arguments, machine.Valid value)
    (enough : arguments.length = machine.classArity id) :
    Goes (instantiate exec id arguments) [] machine fun value after => after.Valid value := by
  rw [instantiate_eq]
  apply Goes.bind (goes_prepare id sound)
  rintro ⟨made, _ | initializer⟩ after moved ⟨present, ready⟩
  · exact Goes.pure moved.sound present
  · obtain ⟨callable, arity⟩ := ready initializer rfl
    refine Goes.bind (goes_activate executes moved.sound callable
      (fun value member => (valid value member).mono moved.extends_) (enough.trans arity.symm))
      fun _ last moved' _ => ?_
    exact Goes.pure moved'.sound (Nat.lt_of_lt_of_le present moved'.extends_.instances)

/-- Any valid value may be called. -/
theorem goes_call (executes : Executes exec) {callee : Value} {arguments : List Value} (paren : Token)
    (sound : machine.toStore.Sound) (callable : machine.Valid callee)
    (valid : ∀ value ∈ arguments, machine.Valid value) :
    Goes (call exec paren callee arguments) [] machine fun value after => after.Valid value := by
  have given {arity : Nat} (goes : arguments.length = arity → Goes (invoke exec paren arguments callee) [] machine
      fun value after => after.Valid value) :
      Goes (if arguments.length ≠ arity then fail paren (.wrongArity arity arguments.length)
        else asCall paren (invoke exec paren arguments callee)) [] machine
        fun value after => after.Valid value := by
    split
    · exact Goes.fail sound _ _
    · rename_i enough
      exact goes_asCall (goes (not_not.mp enough))
  cases callee with
  | native native =>
    refine Goes.known rfl (given fun _ => ?_)
    cases native
    exact Goes.reading (Goes.pure sound trivial)
  | function id =>
    obtain ⟨function, found, callable⟩ := callable
    refine Goes.known rfl (given fun enough => Goes.known (function_eq_ok found) ?_)
    apply goes_activate executes sound callable valid
    simp [enough, Store.functionArity, found]
  | «class» id =>
    exact Goes.known rfl (given fun enough => goes_instantiate executes sound valid enough)
  | _ => exact Goes.known rfl (Goes.fail sound _ _)

end Calls

section Classes

theorem goes_superclass {superclass : Option (Token × Distance)} (sound : machine.toStore.Sound)
    (models : machine.frames.Models scopes machine.current)
    (reaches : ∀ parent note, superclass = some (parent, note) → Reaches scopes parent.lexeme note) :
    Goes (Run.superclass .byDistance superclass) [] machine
      fun parent _ => parent.isSome = superclass.isSome := by
  cases superclass with
  | none => exact Goes.pure sound rfl
  | some entry =>
    obtain ⟨name, note⟩ := entry
    apply Goes.bind (goes_read sound models (reaches name note rfl))
    intro value after moved _
    cases value with
    | «class» id => exact Goes.pure moved.sound rfl
    | _ => exact Goes.fail moved.sound _ _

/-- The scope around that of `this`, which only a subclass has. -/
def superScopes (hasSuperclass : Bool) : List (List String) := if hasSuperclass then [["super"]] else []

theorem classScopes_eq (hasSuperclass : Bool) :
    Node.classScopes hasSuperclass = ["this"] :: superScopes hasSuperclass := by
  cases hasSuperclass <;> rfl

theorem goes_methodFrame (parent : Option ClassId) (sound : machine.toStore.Sound)
    (models : machine.frames.Models scopes machine.current) :
    Goes (methodFrame parent) [] machine
      fun frame after => after.frames.Models (superScopes parent.isSome ++ scopes) frame := by
  cases parent with
  | none => exact ⟨.refl sound, models⟩
  | some parent =>
    have admits : ∀ entry ∈ [("super", Value.class parent)], machine.Admits entry.1 entry.2 := by
      intro entry member
      obtain rfl := List.mem_singleton.mp member
      exact ⟨trivial, by simp, fun _ => ⟨parent, rfl⟩⟩
    refine Goes.reading (goes_onFrames (Frames.grow_openFrame _ _ [("super", .class parent)])
      (sound.openFrame _ admits) (fun name => ?_) ?_)
    · have unchanged := Frames.names_openFrame_global sound.sized machine.current [("super", .class parent)]
      exact (iff_of_eq (congrArg (fun table => Table.contains table name = true) unchanged)).trans (by simp)
    · exact models.openFrame sound.sized [("super", .class parent)]

theorem goes_methodTable {closure : FrameId} {methods : List (FunctionDecl Distance)} {table : Table FunctionId}
    (sound : machine.toStore.Sound) (models : machine.frames.Models scopes closure)
    (safe : FunctionDecl.SafeAll (["this"] :: scopes) methods)
    (bindable : ∀ name method, table.get? name = some method → machine.Bindable method) :
    Goes (methodTable closure methods table) [] machine fun table after =>
      ∀ name method, table.get? name = some method → after.Bindable method := by
  induction methods generalizing machine table with
  | nil => exact Goes.pure sound bindable
  | cons first rest ih =>
    let function : Function := ⟨first, closure, first.name.lexeme = initializerName⟩
    refine Goes.bind (goes_addFunction sound function) fun id after moved found => ?_
    have closed := models.mono moved.extends_.frames
    apply ih moved.sound closed safe.2
    intro name method listed
    rcases Table.get?_set_cases listed with ⟨rfl, rfl⟩ | listed
    · exact ⟨function, found, scopes, closed, safe.1⟩
    · exact (bindable name method listed).mono moved.extends_

/-- Declaring a class binds its name, first to nothing and then to the class. -/
theorem goes_declareClass {name : Token} {superclass : Option (Token × Distance)}
    {methods : List (FunctionDecl Distance)} (sound : machine.toStore.Sound)
    (models : machine.frames.Models scopes machine.current) (plain : name.Plain)
    (reaches : ∀ parent note, superclass = some (parent, note) → Reaches scopes parent.lexeme note)
    (safe : FunctionDecl.SafeAll
      (Node.classScopes superclass.isSome ++ Place.declare [name.lexeme] scopes) methods) :
    Goes (declareClass .byDistance name superclass methods) (globalsOf scopes [name.lexeme]) machine
      fun _ after => after.frames.Models (Place.declare [name.lexeme] scopes) after.current := by
  rw [declareClass_eq]
  apply Goes.bind (goes_superclass sound models reaches)
  intro parent _ moved₁ same
  have nil : machine.Valid .nil := trivial
  refine Goes.andThen (goes_defineValid moved₁.sound (moved₁.models models) plain (nil.mono moved₁.extends_))
    fun _ _ moved₂ models₂ => ?_
  apply Goes.bind (goes_methodFrame parent moved₂.sound models₂)
  intro closure _ moved₃ models₃
  rw [classScopes_eq, ← same] at safe
  apply Goes.bind (goes_methodTable moved₃.sound models₃ safe (by simp))
  intro table after moved₄ bindable
  let definition : Class := ⟨name.lexeme, (parent.map after.lineage).getD [], table⟩
  have adds : Goes (onStore fun store =>
      store.addClass ⟨name.lexeme, (parent.map store.lineage).getD [], table⟩) [] after fun _ _ => True :=
    goes_onStore (Store.extends_addClass _ definition) (moved₄.sound.addClass bindable)
      (by simp [Store.addClass]) trivial
  apply Goes.bind adds
  intro id last moved₅ _
  have models₅ := moved₅.models (moved₄.models (moved₃.models models₂))
  have valid : last.Valid (.class id) := trivial
  apply Goes.reading
  cases found : last.frames.holder? last.current name.lexeme with
  | none => exact Goes.fail moved₅.sound _ _
  | some holder =>
    have held := List.find?_some found
    exact goes_redefine moved₅.sound models₅ (valid.admits plain) fun _ => held

end Classes

/-- The evaluation of single expressions goes well. -/
def Evaluates (eval : Expr Distance → Run Value) : Prop :=
  ∀ ⦃machine : Machine⦄ ⦃scopes : List (List String)⦄ ⦃expr : Expr Distance⦄,
    machine.toStore.Sound → machine.frames.Models scopes machine.current → expr.Safe scopes →
    Goes (eval expr) [] machine fun value after => after.Valid value

theorem goes_values {eval : Expr Distance → Run Value} (evaluates : Evaluates eval)
    {exprs : List (Expr Distance)} (sound : machine.toStore.Sound)
    (models : machine.frames.Models scopes machine.current) (safe : Expr.SafeAll scopes exprs) :
    Goes (values eval exprs) [] machine fun results after => ∀ value ∈ results, after.Valid value := by
  induction exprs generalizing machine with
  | nil => exact Goes.pure sound (by simp)
  | cons first rest ih =>
    apply Goes.bind (evaluates sound models safe.1)
    intro value middle moved valid
    apply Goes.bind (ih moved.sound (moved.models models) safe.2)
    intro results after moved' valid'
    apply Goes.pure moved'.sound
    simpa using ⟨valid.mono moved'.extends_, valid'⟩

theorem goes_unary {op : UnaryOp} (sign : Token) (operand : Value) (sound : machine.toStore.Sound) :
    Goes (op.apply sign operand) [] machine fun value after => after.Valid value := by
  unfold UnaryOp.apply
  split
  · exact Goes.pure sound trivial
  · exact Goes.pure sound trivial
  · exact Goes.fail sound _ _

theorem goes_compute {op : BinaryOp} (sign : Token) (left right : Value) (sound : machine.toStore.Sound) :
    Goes (op.compute sign left right) [] machine fun value after => after.Valid value := by
  unfold BinaryOp.compute
  split
  · split
    · rename_i result computed
      apply Goes.pure sound
      unfold BinaryOp.onNumbers? at computed
      split at computed <;> cases computed <;> trivial
    · exact Goes.fail sound _ _
  · exact Goes.fail sound _ _

theorem goes_binary {op : BinaryOp} (sign : Token) (left right : Value) (sound : machine.toStore.Sound) :
    Goes (op.apply sign left right) [] machine fun value after => after.Valid value := by
  unfold BinaryOp.apply
  split
  · unfold BinaryOp.addValues
    split
    · exact Goes.pure sound trivial
    · exact Goes.pure sound trivial
    · exact Goes.fail sound _ _
  · exact Goes.pure sound trivial
  · exact Goes.pure sound trivial
  · exact goes_compute sign left right sound

variable {rounds room : Nat}

theorem evaluates_succ (evaluates : Evaluates (eval .byDistance rounds room))
    (executes : Executes (exec .byDistance rounds room)) : Evaluates (eval .byDistance rounds (room + 1)) := by
  intro machine scopes expr sound models safe
  cases expr with
  | literal value =>
    unfold eval
    apply Goes.pure sound
    cases value <;> trivial
  | grouping inner =>
    unfold eval
    exact evaluates sound models safe
  | unary op sign operand =>
    unfold eval
    exact Goes.bind (evaluates sound models safe) fun value after moved _ => goes_unary sign value moved.sound
  | binary op left sign right =>
    unfold eval
    apply Goes.bind (evaluates sound models safe.1)
    intro first _ moved _
    apply Goes.bind (evaluates moved.sound (moved.models models) safe.2)
    intro second _ moved' _
    exact goes_binary sign first second moved'.sound
  | logical op left sign right =>
    unfold eval
    apply Goes.bind (evaluates sound models safe.1)
    intro first _ moved valid
    split
    · exact Goes.pure moved.sound valid
    · exact evaluates moved.sound (moved.models models) safe.2
  | read name note =>
    unfold eval
    exact goes_read sound models safe
  | assign name note value =>
    unfold eval
    obtain ⟨plain, near, safe⟩ := safe
    apply Goes.bind (evaluates sound models safe)
    intro result _ moved valid
    apply Goes.bind (goes_assign moved.sound (moved.models models) plain near valid)
    intro _ _ moved' _
    exact Goes.pure moved'.sound (valid.mono moved'.extends_)
  | call callee paren arguments =>
    unfold eval
    apply Goes.bind (evaluates sound models safe.1)
    intro value _ moved valid
    refine Goes.bind (goes_values evaluates moved.sound (moved.models models) safe.2)
      fun results _ moved' valid' => ?_
    exact goes_call executes paren moved'.sound (valid.mono moved'.extends_) valid'
  | get object name =>
    unfold eval
    refine Goes.bind (evaluates sound models safe) fun value _ moved valid => ?_
    cases value with
    | «instance» id => exact goes_property moved.sound valid name
    | _ => exact Goes.fail moved.sound _ _
  | set object name value =>
    unfold eval
    apply Goes.bind (evaluates sound models safe.1)
    intro target _ moved valid
    cases target with
    | «instance» id =>
      apply Goes.bind (evaluates moved.sound (moved.models models) safe.2)
      intro result after moved' valid'
      have sets : Goes (onStore fun store => ((), store.setField id name.lexeme result)) [] after
          fun _ _ => True :=
        goes_onStore (Store.extends_setField _ _ _ _) (moved'.sound.setField id name.lexeme valid')
          (by simp [Store.setField]) trivial
      apply Goes.bind sets
      intro _ _ moved'' _
      exact Goes.pure moved''.sound (valid'.mono moved''.extends_)
    | _ => exact Goes.fail moved.sound _ _
  | this keyword note =>
    unfold eval
    obtain ⟨spelled, distance, rfl, declares⟩ := safe
    apply goes_read sound models
    rintro _ ⟨⟩
    rwa [spelled]
  | super keyword note method =>
    unfold eval
    obtain ⟨distance, rfl, super, this⟩ := safe
    apply Goes.bind (goes_superAndThis sound models super this)
    rintro _ after moved ⟨parent, receiver, rfl, present⟩
    exact goes_superMethod moved.sound present method

theorem goes_print (text : String) (sound : machine.toStore.Sound) :
    Goes (print text) [] machine fun _ _ => True :=
  ⟨⟨sound, .refl _, rfl, by simp⟩, trivial⟩

/-- A statement that declares nothing, as a part of another one. -/
theorem Executes.silent {exec : Stmt Distance → Run Flow} (executes : Executes exec) {returns : Bool}
    {stmt : Stmt Distance} (sound : machine.toStore.Sound) (models : machine.frames.Models scopes machine.current)
    (safe : stmt.Safe returns scopes) (silent : stmt.declared = []) :
    Goes (exec stmt) [] machine fun flow after =>
      after.frames.Models scopes after.current ∧ Fine returns flow after := by
  have runs := executes sound models safe
  rwa [silent, globalsOf_nil, declare_nil] at runs

/-- One round of a loop, with the way the loop ends if it does. -/
def round (eval : Expr Distance → Run Value) (exec : Stmt Distance → Run Flow) (condition : Expr Distance)
    (body : Stmt Distance) : Run (Option Flow) := do
  if (← eval condition).isTruthy then
    match ← exec body with
    | .next => return none
    | .returned value => return some (.returned value)
  else return some .next

/-- One round of a loop around a body that declares nothing. -/
theorem goes_round (evaluates : Evaluates (eval .byDistance rounds room))
    (executes : Executes (exec .byDistance rounds room)) {returns : Bool} {condition : Expr Distance}
    {body : Stmt Distance} (sound : machine.toStore.Sound)
    (models : machine.frames.Models scopes machine.current) (tested : condition.Safe scopes)
    (inside : body.Safe returns scopes) (silent : body.declared = []) :
    Goes (round (eval .byDistance rounds room) (exec .byDistance rounds room) condition body) [] machine
      fun ending after => after.frames.Models scopes after.current ∧
        ∀ flow, ending = some flow → Fine returns flow after := by
  apply Goes.bind (evaluates sound models tested)
  intro test _ moved _
  have models₁ := moved.models models
  split
  · refine Goes.bind (executes.silent moved.sound models₁ inside silent) fun flow _ moved' ⟨models₂, fine⟩ => ?_
    cases flow with
    | next => exact Goes.pure moved'.sound ⟨models₂, nofun⟩
    | returned value =>
      refine Goes.pure moved'.sound ⟨models₂, ?_⟩
      rintro _ ⟨⟩
      exact fine
  · refine Goes.pure moved.sound ⟨models₁, ?_⟩
    rintro _ ⟨⟩
    trivial

theorem executes_succ (evaluates : Evaluates (eval .byDistance rounds room))
    (executes : Executes (exec .byDistance rounds room)) : Executes (exec .byDistance rounds (room + 1)) := by
  intro machine scopes returns stmt sound models safe
  cases stmt with
  | expression value =>
    rw [Stmt.declared, globalsOf_nil, declare_nil]
    unfold exec
    apply Goes.bind (evaluates sound models safe)
    intro _ _ moved _
    exact Goes.pure moved.sound ⟨moved.models models, trivial⟩
  | print value =>
    rw [Stmt.declared, globalsOf_nil, declare_nil]
    unfold exec
    refine Goes.bind (evaluates sound models safe) fun value _ moved _ => Goes.reading ?_
    apply Goes.bind (goes_print _ moved.sound)
    intro _ _ moved' _
    exact Goes.pure moved'.sound ⟨moved'.models (moved.models models), trivial⟩
  | varDecl name initial =>
    obtain ⟨plain, safe⟩ := safe
    cases initial with
    | none =>
      unfold exec
      have nil : machine.Valid .nil := trivial
      apply Goes.andThen (goes_defineValid sound models plain nil)
      intro _ _ moved models'
      exact Goes.pure moved.sound ⟨models', trivial⟩
    | some value =>
      unfold exec
      apply Goes.bind (evaluates sound models safe)
      intro result _ moved valid
      refine Goes.andThen (goes_defineValid moved.sound (moved.models models) plain valid)
        fun _ _ moved' models' => ?_
      exact Goes.pure moved'.sound ⟨models', trivial⟩
  | block body =>
    rw [Stmt.declared, globalsOf_nil, declare_nil]
    unfold exec
    have runs : Goes (block (exec .byDistance rounds room) machine.current [] body) [] machine
        fun flow after => Fine returns flow after :=
      goes_block executes sound models (by simp) safe
    exact Goes.reading (runs.weaken fun _ _ moved fine => ⟨moved.models models, fine⟩)
  | ifThen condition accepted =>
    obtain ⟨tested, safe, silent⟩ := safe
    rw [Stmt.declared, silent, globalsOf_nil, declare_nil]
    unfold exec
    apply Goes.bind (evaluates sound models tested)
    intro _ _ moved _
    split
    · exact executes.silent moved.sound (moved.models models) safe silent
    · exact Goes.pure moved.sound ⟨moved.models models, trivial⟩
  | ifElse condition accepted rejected =>
    obtain ⟨tested, ⟨first, silent₁⟩, second, silent₂⟩ := safe
    rw [Stmt.declared, silent₁, silent₂, List.append_nil, globalsOf_nil, declare_nil]
    unfold exec
    apply Goes.bind (evaluates sound models tested)
    intro _ _ moved _
    split
    · exact executes.silent moved.sound (moved.models models) first silent₁
    · exact executes.silent moved.sound (moved.models models) second silent₂
  | whileLoop condition body =>
    obtain ⟨tested, inside, silent⟩ := safe
    rw [Stmt.declared, silent, globalsOf_nil, declare_nil]
    unfold exec
    refine goes_iterate (I := fun machine => machine.frames.Models scopes machine.current)
      (fun machine sound models => ?_) rounds sound models
    refine (goes_round evaluates executes sound models tested inside silent).weaken
      fun ending after _ ⟨models', fine⟩ => ?_
    cases ending with
    | none => exact models'
    | some flow => exact ⟨models', fine flow rfl⟩
  | funDecl declaration =>
    obtain ⟨plain, safe⟩ := safe
    let function : Function := ⟨declaration, machine.current, false⟩
    unfold exec
    refine Goes.reading (Goes.bind (goes_addFunction sound function) fun id after moved found => ?_)
    have bound := (moved.models models).define declaration.name.lexeme (.function id)
    have callable : function.Callable (after.frames.define after.current declaration.name.lexeme (.function id)) :=
      ⟨_, by rw [moved.current] at bound ⊢; exact bound, safe, nofun⟩
    have valid : Store.Valid { after.toStore with
        frames := after.frames.define after.current declaration.name.lexeme (.function id) } (.function id) :=
      ⟨function, found, callable⟩
    refine Goes.andThen (goes_define moved.sound (moved.models models) (valid.admits plain))
      fun _ _ moved' models' => ?_
    exact Goes.pure moved'.sound ⟨models', trivial⟩
  | returnStmt keyword value =>
    obtain ⟨isInside, safe⟩ := safe
    rw [Stmt.declared, globalsOf_nil, declare_nil]
    cases value with
    | none =>
      unfold exec
      exact Goes.pure sound ⟨models, isInside, trivial⟩
    | some value =>
      unfold exec
      apply Goes.bind (evaluates sound models safe)
      intro result _ moved valid
      exact Goes.pure moved.sound ⟨moved.models models, isInside, valid⟩
  | classDecl name superclass methods =>
    obtain ⟨plain, reaches, safe⟩ := safe
    unfold exec
    apply Goes.andThen (goes_declareClass sound models plain reaches safe)
    intro _ _ moved models'
    exact Goes.pure moved.sound ⟨models', trivial⟩

/-- Whatever room there is, safe trees run well. -/
theorem goes_well (rounds room : Nat) :
    Evaluates (eval .byDistance rounds room) ∧ Executes (exec .byDistance rounds room) := by
  induction room with
  | zero =>
    constructor
    · intro machine scopes expr sound _ _
      unfold eval
      exact Goes.tooDeep sound
    · intro machine scopes returns stmt sound _ _
      unfold exec
      exact Goes.tooDeep sound
  | succ room ih => exact ⟨evaluates_succ ih.1 ih.2, executes_succ ih.1 ih.2⟩

end Run

end Lox

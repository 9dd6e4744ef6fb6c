import Lox.Proofs.Run.Lineages

/-!
Where classes come from. All class declarations that are executed are in the programs that are run, or in functions that
these programs have made. So whatever runs upholds that all functions are from such programs, and all classes are made
as these declare them.
-/
namespace Lox

namespace Store

/-- All functions have only such class declarations in them, and all classes are made by such. -/
structure Declared (declared : ClassDecl → Prop) (store : Store) : Prop where
  bodies : ∀ (id : FunctionId) (function : Function), store.functions[id]? = some function →
    ∀ declaration ∈ function.declaration.classes, declared declaration
  classes : ∀ id < store.classes.size, ∃ declaration, declared declaration ∧ store.Made id declaration

variable {declared : ClassDecl → Prop} {store after : Store}

theorem Declared.widen (holds : store.Declared declared) {declared' : ClassDecl → Prop}
    (wider : ∀ declaration, declared declaration → declared' declaration) : store.Declared declared' where
  bodies id function stored declaration member := wider declaration (holds.bodies id function stored declaration member)
  classes id present := by
    obtain ⟨declaration, isDeclared, made⟩ := holds.classes id present
    exact ⟨declaration, wider declaration isDeclared, made⟩

theorem Made.of_same {id : ClassId} {declaration : ClassDecl} (made : store.Made id declaration)
    (functions : after.functions = store.functions) (classes : after.classes = store.classes) :
    after.Made id declaration := by
  apply made.mono
  · intro id function stored
    rwa [functions]
  · intro id found held
    rwa [classes]

/-- It is the functions and the classes that matter. -/
theorem Declared.of_same (holds : store.Declared declared) (functions : after.functions = store.functions)
    (classes : after.classes = store.classes) : after.Declared declared where
  bodies id function stored := by
    rw [functions] at stored
    exact holds.bodies id function stored
  classes id present := by
    rw [classes] at present
    obtain ⟨declaration, isDeclared, made⟩ := holds.classes id present
    exact ⟨declaration, isDeclared, made.of_same functions classes⟩

/-- New functions, of programs. -/
theorem Declared.withFunctions (holds : store.Declared declared) {functions : Array Function}
    (kept : ∀ (id : FunctionId) (function : Function), store.functions[id]? = some function →
      functions[id]? = some function)
    (new : ∀ (id : FunctionId) (function : Function), functions[id]? = some function →
      store.functions[id]? = some function ∨ ∀ declaration ∈ function.declaration.classes, declared declaration) :
    Declared declared { store with functions } where
  bodies id function stored := by
    rcases new id function stored with older | isDeclared
    · exact holds.bodies id function older
    · exact isDeclared
  classes id present := by
    obtain ⟨declaration, isDeclared, made⟩ := holds.classes id present
    exact ⟨declaration, isDeclared, made.mono kept fun _ _ held => held⟩

theorem Declared.addFunction (holds : store.Declared declared) {function : Function}
    (isDeclared : ∀ declaration ∈ function.declaration.classes, declared declaration) :
    (store.addFunction function).2.Declared declared := by
  apply holds.withFunctions (extends_addFunction store function).functions
  intro id other stored
  rcases functions_addFunction stored with older | rfl
  · exact .inl older
  · exact .inr isDeclared

theorem Declared.bindMethod (holds : store.Declared declared) {method : Function} (receiver : InstanceId)
    (isDeclared : ∀ declaration ∈ method.declaration.classes, declared declaration) :
    (store.bindMethod method receiver).2.Declared declared := by
  let frames := (store.frames.openFrame method.closure [("this", .instance receiver)]).2
  let function : Function := { method with closure := store.frames.all.size }
  have framed : Declared declared { store with frames } := holds.of_same rfl rfl
  have bound : (Store.addFunction { store with frames } function).2.Declared declared := framed.addFunction isDeclared
  exact bound

/-- A new class is made by the declaration that its table of methods is made of. -/
theorem made_addClass (name : Token) (superclass : Option (Token × Distance)) (ancestors : List ClassId)
    {table : Table FunctionId} {closure : FrameId} {methods : List (FunctionDecl Distance)}
    (lists : store.Lists table closure methods) :
    (store.addClass ⟨name.lexeme, ancestors, table⟩).2.Made store.classes.size ⟨name, superclass, methods⟩ :=
  ⟨⟨name.lexeme, ancestors, table⟩, closure, by simp [addClass], rfl, lists⟩

theorem Declared.addClass (holds : store.Declared declared) {name : Token} {superclass : Option (Token × Distance)}
    {ancestors : List ClassId} {table : Table FunctionId} {closure : FrameId} {methods : List (FunctionDecl Distance)}
    (lists : store.Lists table closure methods) (isDeclared : declared ⟨name, superclass, methods⟩) :
    (store.addClass ⟨name.lexeme, ancestors, table⟩).2.Declared declared where
  bodies := holds.bodies
  classes id present := by
    have size : (store.addClass ⟨name.lexeme, ancestors, table⟩).2.classes.size = store.classes.size + 1 :=
      Array.size_push _
    rw [size] at present
    rcases Nat.lt_succ_iff_lt_or_eq.mp present with older | rfl
    · obtain ⟨declaration, isDeclared', made⟩ := holds.classes id older
      exact ⟨declaration, isDeclared', made.mono (fun _ _ stored => stored) (keeps_addClass store _).classes⟩
    · exact ⟨_, isDeclared, made_addClass name superclass ancestors lists⟩

end Store

namespace Run

variable {α β : Type} {declared : ClassDecl → Prop} {machine after : Machine}

theorem eq_ok_of_bind {action : Run α} {next : α → Run β} {result : β}
    (ended : (action >>= next) machine = .ok result after) :
    ∃ value middle, action machine = .ok value middle ∧ next value middle = .ok result after := by
  simp only [Bind.bind, EStateM.bind] at ended
  cases first : action machine with
  | ok value middle =>
    rw [first] at ended
    exact ⟨value, middle, rfl, ended⟩
  | error halt middle =>
    rw [first] at ended
    cases ended

/-- However an action ends, there are the functions and classes that there were. -/
def Spares (action : Run α) : Prop :=
  ∀ machine, (action.last machine).functions = machine.functions ∧ (action.last machine).classes = machine.classes

/-- However an action ends, all functions and classes are of such declarations if they were so before. -/
def Upholds (declared : ClassDecl → Prop) (action : Run α) : Prop :=
  ∀ machine, machine.toStore.Declared declared → (action.last machine).toStore.Declared declared

namespace Spares

theorem pure (value : α) : Spares (Pure.pure value) := fun _ => ⟨rfl, rfl⟩

theorem fail (token : Token) (cause : RuntimeFault) : Spares (Run.fail token cause : Run α) := fun _ => ⟨rfl, rfl⟩

theorem broken (cause : Defect) : Spares (Run.broken cause : Run α) := fun _ => ⟨rfl, rfl⟩

theorem reading (view : Machine → α) : Spares (Run.reading view) := fun _ => ⟨rfl, rfl⟩

theorem print (text : String) : Spares (Run.print text) := fun _ => ⟨rfl, rfl⟩

theorem onFrames (action : Frames → α × Frames) : Spares (Run.onFrames action) := fun _ => ⟨rfl, rfl⟩

theorem bind {action : Run α} {next : α → Run β} (first : Spares action) (then_ : ∀ value, Spares (next value)) :
    Spares (action >>= next) := by
  intro machine
  obtain ⟨functions, classes⟩ := first machine
  cases ended : action machine with
  | ok value middle =>
    rw [last_of_ok ended] at functions classes
    obtain ⟨functions', classes'⟩ := then_ value middle
    rw [last_bind_of_ok ended]
    exact ⟨functions'.trans functions, classes'.trans classes⟩
  | error halt middle =>
    rw [last_of_error ended] at functions classes
    rw [last_bind_of_error ended]
    exact ⟨functions, classes⟩

theorem of_ok {action : Run α} {value : α} (spares : Spares action) (ended : action machine = .ok value after) :
    after.functions = machine.functions ∧ after.classes = machine.classes := by
  have same := spares machine
  rwa [last_of_ok ended] at same

theorem instanceOf (id : InstanceId) : Spares (Run.instanceOf id) := by
  apply (reading _).bind
  intro found
  cases found with
  | some object => exact pure _
  | none => exact broken _

theorem function (id : FunctionId) : Spares (Run.function id) := by
  apply (reading _).bind
  intro found
  cases found with
  | some function => exact pure _
  | none => exact broken _

theorem define (name : String) (value : Value) : Spares (Run.define name value) :=
  (reading _).bind fun _ => onFrames _

theorem addInstance (id : ClassId) : Spares (Run.onStore (·.addInstance id)) := fun _ => ⟨rfl, rfl⟩

theorem setField (id : InstanceId) (name : String) (value : Value) :
    Spares (Run.onStore fun store => ((), store.setField id name value)) := fun _ => ⟨rfl, rfl⟩

theorem upholds {action : Run α} (spares : Spares action) : Upholds declared action := by
  intro machine holds
  obtain ⟨functions, classes⟩ := spares machine
  exact holds.of_same functions classes

end Spares

namespace Upholds

theorem pure (value : α) : Upholds declared (Pure.pure value) := (Spares.pure value).upholds

theorem tooDeep : Upholds declared (throw .tooDeep : Run α) := fun _ holds => holds

/-- Actions one after the other. Of the values that the first one gives it may be known where they come from. -/
theorem bind_of {action : Run α} {next : α → Run β} {P : α → Prop} (first : Upholds declared action)
    (gives : ∀ machine value after, machine.toStore.Declared declared → action machine = .ok value after → P value)
    (then_ : ∀ value, P value → Upholds declared (next value)) : Upholds declared (action >>= next) := by
  intro machine holds
  have middle := first machine holds
  cases ended : action machine with
  | ok value after =>
    rw [last_of_ok ended] at middle
    rw [last_bind_of_ok ended]
    exact then_ value (gives machine value after holds ended) after middle
  | error halt after =>
    rw [last_of_error ended] at middle
    rwa [last_bind_of_error ended]

theorem bind {action : Run α} {next : α → Run β} (first : Upholds declared action)
    (then_ : ∀ value, Upholds declared (next value)) : Upholds declared (action >>= next) :=
  first.bind_of (fun _ _ _ _ _ => trivial) fun value _ => then_ value

theorem onStore {action : Store → α × Store}
    (keeps : ∀ store : Store, store.Declared declared → (action store).2.Declared declared) :
    Upholds declared (Run.onStore action) :=
  fun machine holds => keeps machine.toStore holds

theorem within (frame : FrameId) {action : Run α} (upholds : Upholds declared action) :
    Upholds declared (Run.within frame action) := by
  intro machine holds
  rw [toStore_last_within]
  exact upholds { machine with current := frame } holds

theorem asCall (paren : Token) {action : Run α} (upholds : Upholds declared action) :
    Upholds declared (Run.asCall paren action) := by
  intro machine holds
  rw [last_asCall]
  exact upholds machine holds

theorem iterate {step : Run (Option α)} (upholds : Upholds declared step) (rounds : Nat) :
    Upholds declared (Run.iterate step rounds) := by
  induction rounds with
  | zero => exact fun _ holds => holds
  | succ rounds ih =>
    rw [iterate_succ]
    apply upholds.bind
    intro result
    cases result with
    | none => exact ih
    | some result => exact pure _

/-- What is done with a function of the store. -/
theorem function_bind (id : FunctionId) {next : Function → Run β}
    (then_ : ∀ function, (∀ declaration ∈ function.declaration.classes, declared declaration) →
      Upholds declared (next function)) : Upholds declared (Run.function id >>= next) := by
  refine (Spares.function id).upholds.bind_of (fun machine found after holds ended => ?_) then_
  cases stored : machine.functions[id]? with
  | none =>
    simp only [Run.function, Bind.bind, EStateM.bind, Run.reading, stored] at ended
    cases ended
  | some function =>
    rw [function_eq_ok stored] at ended
    cases ended
    exact holds.bodies id found stored

theorem bindMethod (method : FunctionId) (receiver : InstanceId) : Upholds declared (Run.bindMethod method receiver) :=
  function_bind method fun _ isDeclared => onStore fun _ holds => holds.bindMethod receiver isDeclared

end Upholds

section Access

open Access

theorem spares_readAt (distance : Nat) (name : String) : Spares (readAt distance name) := by
  apply (Spares.reading _).bind
  intro found
  cases found with
  | ok value => exact .pure _
  | error cause => exact .broken _

theorem spares_assignFrom (frame : Machine → FrameId) (name : Token) (value : Value) :
    Spares (assignFrom frame name value) := by
  apply (Spares.reading _).bind
  intro found
  cases found with
  | some holder => exact .onFrames _
  | none => exact .fail _ _

theorem spares_read (name : Token) (note : Distance) : Spares (byDistance.read name note) := by
  cases note with
  | some distance => exact spares_readAt _ _
  | none =>
    apply (Spares.reading _).bind
    intro found
    cases found with
    | some value => exact .pure _
    | none => exact .fail _ _

theorem spares_assign (name : Token) (note : Distance) (value : Value) :
    Spares (byDistance.assign name note value) := by
  cases note with
  | some distance =>
    apply (Spares.reading _).bind
    intro found
    cases found with
    | some frame => exact .onFrames _
    | none => exact .broken _
  | none => exact spares_assignFrom _ name value

theorem spares_superAndThis (keyword : Token) (note : Distance) : Spares (byDistance.superAndThis keyword note) := by
  cases note with
  | some distance => exact (spares_readAt _ _).bind fun _ => (spares_readAt _ _).bind fun _ => .pure _
  | none => exact .broken _

end Access

section Operators

theorem spares_unary (op : UnaryOp) (sign : Token) (operand : Value) : Spares (op.apply sign operand) := by
  unfold UnaryOp.apply
  split
  · exact .pure _
  · exact .pure _
  · exact .fail _ _

theorem spares_binary (op : BinaryOp) (sign : Token) (left right : Value) : Spares (op.apply sign left right) := by
  unfold BinaryOp.apply BinaryOp.addValues BinaryOp.compute
  split
  · split
    · exact .pure _
    · exact .pure _
    · exact .fail _ _
  · exact .pure _
  · exact .pure _
  · split
    · split
      · exact .pure _
      · exact .fail _ _
    · exact .fail _ _

end Operators

section Classes

variable {methods : List (FunctionDecl Distance)} {closure : FrameId}

/-- The functions of a store with those of some methods. -/
structure Grows (functions functions' : Array Function) (methods : List (FunctionDecl Distance)) : Prop where
  kept : ∀ (id : FunctionId) (function : Function), functions[id]? = some function → functions'[id]? = some function
  new : ∀ (id : FunctionId) (function : Function), functions'[id]? = some function →
    functions[id]? = some function ∨ function.declaration ∈ methods

theorem Grows.cons {functions functions' : Array Function} {first : FunctionDecl Distance}
    (grows : Grows (functions.push ⟨first, closure, decide (first.name.lexeme = initializerName)⟩) functions' methods) :
    Grows functions functions' (first :: methods) where
  kept id other stored := by
    refine grows.kept id other ?_
    have older := (Array.getElem?_eq_some_iff.mp stored).1
    rwa [Array.getElem?_push_lt older, ← Array.getElem?_eq_getElem older]
  new id other stored := by
    rcases grows.new id other stored with older | later
    · rw [Array.getElem?_push] at older
      split at older
      · cases older
        exact .inr List.mem_cons_self
      · exact .inl older
    · exact .inr (List.mem_cons_of_mem _ later)

/-- The methods of a class become functions, and of two with one name the later one is listed. -/
theorem methodTable_eq_ok (closure : FrameId) (methods : List (FunctionDecl Distance)) (table : Table FunctionId)
    (machine : Machine) : ∃ table' functions,
      methodTable closure methods table machine = .ok table' { machine with functions } ∧
      Grows machine.functions functions methods ∧ ∀ name,
        (FunctionDecl.lastOf methods name = none → table'.get? name = table.get? name) ∧
        ∀ method, FunctionDecl.lastOf methods name = some method → ∃ entry, table'.get? name = some entry ∧
          functions[entry]? = some ⟨method, closure, decide (name = initializerName)⟩ := by
  induction methods generalizing table machine with
  | nil => exact ⟨table, machine.functions, rfl, ⟨fun _ _ => id, fun _ _ => .inl⟩, fun name => ⟨fun _ => rfl, nofun⟩⟩
  | cons first rest ih =>
    let function : Function := ⟨first, closure, decide (first.name.lexeme = initializerName)⟩
    let middle : Machine := { machine with toStore := (machine.addFunction function).2 }
    obtain ⟨table', functions, ended, grows, lists⟩ :=
      ih (table.set first.name.lexeme machine.functions.size) middle
    have made : middle.functions[machine.functions.size]? = some function := Store.addFunction_found _ _
    refine ⟨table', functions, ended, grows.cons, fun name => ?_⟩
    obtain ⟨others, listed⟩ := lists name
    rw [FunctionDecl.lastOf_cons]
    cases last : FunctionDecl.lastOf rest name with
    | some method => simpa [last] using listed
    | none =>
      have kept := others last
      by_cases same : first.name.lexeme = name
      · subst same
        rw [Table.get?_set_self] at kept
        simp only [if_true, Option.none_or, reduceCtorEq, false_implies, true_and, Option.some.injEq]
        rintro method rfl
        exact ⟨_, kept, grows.kept _ _ made⟩
      · rw [Table.get?_set_of_ne _ (Ne.symm same)] at kept
        simpa [same] using kept

/-- A table of methods, from the beginning. -/
theorem lists_methodTable (closure : FrameId) (methods : List (FunctionDecl Distance)) (machine : Machine) :
    ∃ table functions, methodTable closure methods .empty machine = .ok table { machine with functions } ∧
      Grows machine.functions functions methods ∧
      Store.Lists { machine.toStore with functions } table closure methods := by
  obtain ⟨table, functions, ended, grows, lists⟩ := methodTable_eq_ok closure methods .empty machine
  refine ⟨table, functions, ended, grows, fun name => ?_⟩
  obtain ⟨others, listed⟩ := lists name
  cases last : FunctionDecl.lastOf methods name with
  | none =>
    rw [others last]
    rfl
  | some method =>
    obtain ⟨entry, found, stored⟩ := listed method last
    rw [found, Option.map_some, Option.map_some, stored]

theorem spares_superclass (superclass : Option (Token × Distance)) :
    Spares (Run.superclass .byDistance superclass) := by
  cases superclass with
  | none => exact .pure _
  | some entry =>
    apply (spares_read entry.1 entry.2).bind
    intro value
    cases value with
    | «class» id => exact .pure _
    | _ => exact .fail _ _

theorem spares_methodFrame (parent : Option ClassId) : Spares (methodFrame parent) := by
  cases parent with
  | none => exact .reading _
  | some parent => exact (Spares.reading _).bind fun _ => .onFrames _

/-- What is done with a new class, whose table lists the methods. -/
theorem makeClass_eq (name : Token) (ancestors : Store → List ClassId) (closure : FrameId)
    (methods : List (FunctionDecl Distance)) (next : ClassId → Run β) (machine : Machine) :
    ∃ table functions, Grows machine.functions functions methods ∧
      Store.Lists { machine.toStore with functions } table closure methods ∧
      let store : Store := { machine.toStore with functions }
      (methodTable closure methods .empty >>= fun table =>
        onStore (fun store => store.addClass ⟨name.lexeme, ancestors store, table⟩) >>= next) machine =
          next machine.classes.size
            { machine with toStore := (store.addClass ⟨name.lexeme, ancestors store, table⟩).2 } := by
  obtain ⟨table, functions, ended, grows, lists⟩ := lists_methodTable closure methods machine
  refine ⟨table, functions, grows, lists, ?_⟩
  simp only [Bind.bind, EStateM.bind, ended]
  rfl

theorem upholds_declareClass {name : Token} {superclass : Option (Token × Distance)}
    (isDeclared : declared ⟨name, superclass, methods⟩)
    (inside : ∀ declaration ∈ FunctionDecl.classesAll methods, declared declaration) :
    Upholds declared (declareClass .byDistance name superclass methods) := by
  rw [declareClass_eq]
  apply (spares_superclass superclass).upholds.bind
  intro parent
  apply (Spares.define _ _).upholds.bind
  intro _
  apply (spares_methodFrame parent).upholds.bind
  intro closure machine holds
  obtain ⟨table, functions, grows, lists, same⟩ := makeClass_eq name (fun store => (parent.map store.lineage).getD [])
    closure methods (fun id => Access.assignFrom Machine.current name (.class id)) machine
  have made : Store.Declared declared { machine.toStore with functions } := by
    apply holds.withFunctions grows.kept
    intro id function stored
    rcases grows.new id function stored with older | isMethod
    · exact .inl older
    · exact .inr fun declaration member => inside declaration (FunctionDecl.subset_classesAll isMethod member)
  rw [last, same]
  exact (spares_assignFrom _ name _).upholds _ (made.addClass lists isDeclared)

/-- A class declaration makes a class that is what it says. -/
theorem made_declareClass {name : Token} {superclass : Option (Token × Distance)}
    (ended : declareClass .byDistance name superclass methods machine = .ok () after) :
    after.toStore.Made machine.classes.size ⟨name, superclass, methods⟩ := by
  rw [declareClass_eq] at ended
  obtain ⟨parent, first, read, ended⟩ := eq_ok_of_bind ended
  obtain ⟨_, second, defined, ended⟩ := eq_ok_of_bind ended
  obtain ⟨closure, third, framed, ended⟩ := eq_ok_of_bind ended
  obtain ⟨table, functions, grows, lists, same⟩ := makeClass_eq name (fun store => (parent.map store.lineage).getD [])
    closure methods (fun id => Access.assignFrom Machine.current name (.class id)) third
  have size : third.classes.size = machine.classes.size := by
    rw [((spares_methodFrame parent).of_ok framed).2, ((Spares.define _ _).of_ok defined).2,
      ((spares_superclass superclass).of_ok read).2]
  obtain ⟨functions', classes'⟩ := (spares_assignFrom _ name _).of_ok (same.symm.trans ended)
  have made := Store.made_addClass name superclass
    ((parent.map (Store.lineage { third.toStore with functions })).getD []) lists
  rw [← size]
  exact made.of_same functions' classes'

end Classes

section Parts

theorem upholds_values {eval : Expr Distance → Run Value} (upholds : ∀ expr, Upholds declared (eval expr))
    (exprs : List (Expr Distance)) : Upholds declared (values eval exprs) := by
  induction exprs with
  | nil => exact .pure _
  | cons first rest ih => exact (upholds first).bind fun _ => ih.bind fun _ => .pure _

variable {exec : Stmt Distance → Run Flow}
  (upholds : ∀ stmt, (∀ declaration ∈ stmt.classes, declared declaration) → Upholds declared (exec stmt))

include upholds

theorem upholds_sequence {body : List (Stmt Distance)}
    (inside : ∀ declaration ∈ Stmt.classesAll body, declared declaration) : Upholds declared (sequence exec body) := by
  induction body with
  | nil => exact .pure _
  | cons first rest ih =>
    rw [Stmt.classesAll, List.forall_mem_append] at inside
    apply (upholds first inside.1).bind
    intro flow
    cases flow with
    | next => exact ih inside.2
    | returned value => exact .pure _

theorem upholds_block (enclosing : FrameId) (bindings : List (String × Value)) {body : List (Stmt Distance)}
    (inside : ∀ declaration ∈ Stmt.classesAll body, declared declaration) :
    Upholds declared (block exec enclosing bindings body) :=
  (Spares.onFrames _).upholds.bind fun frame => .within frame (upholds_sequence upholds inside)

theorem upholds_activate {function : Function}
    (inside : ∀ declaration ∈ function.declaration.classes, declared declaration) (arguments : List Value) :
    Upholds declared (activate exec function arguments) := by
  rw [FunctionDecl.classes_eq] at inside
  apply (upholds_block upholds _ _ inside).bind
  intro flow
  split
  · apply (Spares.reading _).upholds.bind
    intro found
    cases found with
    | ok value => exact .pure _
    | error cause => exact (Spares.broken _).upholds
  · cases flow <;> exact .pure _

theorem upholds_instantiate (id : ClassId) (arguments : List Value) :
    Upholds declared (instantiate exec id arguments) := by
  apply (Spares.addInstance id).upholds.bind
  intro made
  apply (Spares.reading _).upholds.bind
  intro found
  cases found with
  | none => exact .pure _
  | some method =>
    apply (Upholds.bindMethod _ _).bind
    intro bound
    apply Upholds.function_bind
    intro function inside
    exact (upholds_activate upholds inside arguments).bind fun _ => .pure _

theorem upholds_invoke (paren : Token) (arguments : List Value) (callee : Value) :
    Upholds declared (invoke exec paren arguments callee) := by
  unfold invoke
  split
  · exact ((Spares.reading _).bind fun _ => .pure _).upholds
  · exact .function_bind _ fun function inside => upholds_activate upholds inside arguments
  · exact upholds_instantiate upholds _ arguments
  · exact (Spares.fail _ _).upholds

omit upholds in
theorem spares_arity? (callee : Value) : Spares (arity? callee) := by
  unfold arity?
  split
  · exact .pure _
  · exact (Spares.reading _).bind fun _ => .pure _
  · exact (Spares.reading _).bind fun _ => .pure _
  · exact .pure _

theorem upholds_call (paren : Token) (callee : Value) (arguments : List Value) :
    Upholds declared (call exec paren callee arguments) := by
  apply (spares_arity? callee).upholds.bind
  intro arity
  cases arity with
  | none => exact (Spares.fail _ _).upholds
  | some arity =>
    dsimp only
    split
    · exact (Spares.fail _ _).upholds
    · exact .asCall paren (upholds_invoke upholds paren arguments callee)

end Parts

theorem upholds_property (id : InstanceId) (name : Token) : Upholds declared (property id name) := by
  apply (Spares.instanceOf id).upholds.bind
  intro found
  split
  · exact .pure _
  · apply (Spares.reading _).upholds.bind
    intro method
    cases method with
    | some method => exact (Upholds.bindMethod _ _).bind fun _ => .pure _
    | none => exact (Spares.fail _ _).upholds

theorem upholds_superMethod (method : Token) (pair : Value × Value) : Upholds declared (superMethod method pair) := by
  unfold superMethod
  split
  · apply (Spares.reading _).upholds.bind
    intro found
    cases found with
    | some found => exact (Upholds.bindMethod _ _).bind fun _ => .pure _
    | none => exact (Spares.fail _ _).upholds
  · exact (Spares.broken _).upholds
  · exact (Spares.broken _).upholds

section Runs

variable {rounds room : Nat}

theorem upholds_eval_succ (evals : ∀ expr, Upholds declared (eval .byDistance rounds room expr))
    (execs : ∀ stmt, (∀ declaration ∈ stmt.classes, declared declaration) →
      Upholds declared (exec .byDistance rounds room stmt)) (expr : Expr Distance) :
    Upholds declared (eval .byDistance rounds (room + 1) expr) := by
  cases expr with
  | literal value => unfold eval; exact .pure _
  | grouping inner => unfold eval; exact evals inner
  | unary op sign operand => unfold eval; exact (evals operand).bind fun _ => (spares_unary _ _ _).upholds
  | binary op left sign right =>
    unfold eval
    exact (evals left).bind fun _ => (evals right).bind fun _ => (spares_binary _ _ _ _).upholds
  | logical op left sign right =>
    unfold eval
    apply (evals left).bind
    intro value
    split
    · exact .pure _
    · exact evals right
  | read name note => unfold eval; exact (spares_read name note).upholds
  | assign name note value =>
    unfold eval
    exact (evals value).bind fun _ => (spares_assign _ _ _).upholds.bind fun _ => .pure _
  | call callee paren arguments =>
    unfold eval
    exact (evals callee).bind fun _ => (upholds_values evals arguments).bind fun _ => upholds_call execs _ _ _
  | get object name =>
    unfold eval
    apply (evals object).bind
    intro value
    cases value with
    | «instance» id => exact upholds_property id name
    | _ => exact (Spares.fail _ _).upholds
  | set object name value =>
    unfold eval
    apply (evals object).bind
    intro target
    cases target with
    | «instance» id => exact (evals value).bind fun _ => (Spares.setField _ _ _).upholds.bind fun _ => .pure _
    | _ => exact (Spares.fail _ _).upholds
  | this keyword note => unfold eval; exact (spares_read keyword note).upholds
  | super keyword note method =>
    unfold eval
    exact (spares_superAndThis _ _).upholds.bind fun pair => upholds_superMethod method pair

theorem upholds_exec_succ (evals : ∀ expr, Upholds declared (eval .byDistance rounds room expr))
    (execs : ∀ stmt, (∀ declaration ∈ stmt.classes, declared declaration) →
      Upholds declared (exec .byDistance rounds room stmt)) (stmt : Stmt Distance)
    (inside : ∀ declaration ∈ stmt.classes, declared declaration) :
    Upholds declared (exec .byDistance rounds (room + 1) stmt) := by
  cases stmt with
  | expression value => unfold exec; exact (evals value).bind fun _ => .pure _
  | print value =>
    unfold exec
    exact (evals value).bind fun _ =>
      ((Spares.reading _).bind fun _ => (Spares.print _).bind fun _ => .pure _).upholds
  | varDecl name initial =>
    cases initial with
    | none => unfold exec; exact ((Spares.define _ _).bind fun _ => .pure _).upholds
    | some value => unfold exec; exact (evals value).bind fun _ => ((Spares.define _ _).bind fun _ => .pure _).upholds
  | block body =>
    unfold exec
    exact (Spares.reading _).upholds.bind fun _ => upholds_block execs _ _ inside
  | ifThen condition accepted =>
    unfold exec
    apply (evals condition).bind
    intro test
    split
    · exact execs accepted inside
    · exact .pure _
  | ifElse condition accepted rejected =>
    rw [Stmt.classes, List.forall_mem_append] at inside
    unfold exec
    apply (evals condition).bind
    intro test
    split
    · exact execs accepted inside.1
    · exact execs rejected inside.2
  | whileLoop condition body =>
    unfold exec
    refine Upholds.iterate ((evals condition).bind fun test => ?_) rounds
    split
    · apply (execs body inside).bind
      intro flow
      cases flow <;> exact .pure _
    · exact .pure _
  | funDecl declaration =>
    unfold exec
    apply (Spares.reading _).upholds.bind
    intro closure
    rw [Stmt.classes] at inside
    apply Upholds.bind (.onStore fun _ holds => holds.addFunction inside)
    intro _
    exact ((Spares.define _ _).bind fun _ => .pure _).upholds
  | returnStmt keyword value =>
    cases value with
    | none => unfold exec; exact .pure _
    | some value => unfold exec; exact (evals value).bind fun _ => .pure _
  | classDecl name superclass methods =>
    rw [Stmt.classes, List.forall_mem_cons] at inside
    unfold exec
    exact (upholds_declareClass inside.1 inside.2).bind fun _ => .pure _

/-- Whatever runs upholds where functions and classes come from. -/
theorem upholds_run (rounds room : Nat) : (∀ expr, Upholds declared (eval .byDistance rounds room expr)) ∧
    ∀ stmt, (∀ declaration ∈ stmt.classes, declared declaration) →
      Upholds declared (exec .byDistance rounds room stmt) := by
  induction room with
  | zero =>
    constructor
    · intro expr
      unfold eval
      exact .tooDeep
    · intro stmt _
      unfold exec
      exact .tooDeep
  | succ room ih => exact ⟨upholds_eval_succ ih.1 ih.2, upholds_exec_succ ih.1 ih.2⟩

/-- The execution of a class declaration. -/
theorem made_exec {name : Token} {superclass : Option (Token × Distance)} {methods : List (FunctionDecl Distance)}
    {flow : Flow} (ended : exec .byDistance rounds room (.classDecl name superclass methods) machine = .ok flow after) :
    after.toStore.Made machine.classes.size ⟨name, superclass, methods⟩ := by
  cases room with
  | zero =>
    unfold exec at ended
    cases ended
  | succ room =>
    unfold exec at ended
    obtain ⟨_, last, declares, rest⟩ := eq_ok_of_bind ended
    cases rest
    exact made_declareClass declares

end Runs

end Run

end Lox

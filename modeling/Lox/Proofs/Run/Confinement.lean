import Lox.Proofs.Run.Ground
import Lox.Proofs.Run.Soundness

/-!
Executions keep to their ground. Whatever is evaluated or executed, and however that ends, the frame at hand is the one
from before, and what has changed in the store belongs to the objects that could be got at when it all started, or to
new ones. No tree needs to be bound or safe for that. The induction is on the room for nesting.
-/
namespace Lox

open Machine

namespace Run

variable {origin machine : Machine}

section Calls

/-- A statement ends with a value that can be got at, if it ends with one. -/
def Returns (origin : Machine) (flow : Flow) (machine : Machine) : Prop :=
  ∀ value, flow = .returned value → Offers origin machine value

/-- The execution of single statements keeps to the ground. -/
def Keeping (origin : Machine) (exec : Stmt Distance → Run Flow) : Prop :=
  ∀ ⦃machine : Machine⦄ ⦃stmt : Stmt Distance⦄, Underway origin machine →
    Stays origin (exec stmt) machine (Returns origin)

variable {exec : Stmt Distance → Run Flow}

theorem Returns.next : Returns origin .next machine := nofun

theorem Returns.returned {value : Value} (offers : Offers origin machine value) :
    Returns origin (.returned value) machine := by
  rintro _ ⟨⟩
  exact offers

theorem stays_sequence (keeping : Keeping origin exec) {body : List (Stmt Distance)}
    (underway : Underway origin machine) : Stays origin (sequence exec body) machine (Returns origin) := by
  induction body generalizing machine with
  | nil => exact Stays.pure underway .next
  | cons first rest ih =>
    refine Stays.bind (keeping underway) fun flow _ passes returns => ?_
    cases flow with
    | next => exact ih passes.underway
    | returned value => exact Stays.pure passes.underway returns

/-- Statements in a frame of their own. The new frame still leads to the one around it when they have ended. -/
theorem stays_block (keeping : Keeping origin exec) {body : List (Stmt Distance)} {enclosing : FrameId}
    {bindings : List (String × Value)} (underway : Underway origin machine)
    (inside : machine.OnGround origin (.frame enclosing))
    (allowed : ∀ entry ∈ bindings, machine.Allows origin entry.2) :
    Stays origin (block exec enclosing bindings body) machine fun flow after =>
      Returns origin flow after ∧ Reached origin after (.frame enclosing) := by
  refine Stays.bind (stays_openFrame underway inside allowed) fun frame opened passes ⟨created, linked⟩ => ?_
  refine Stays.within passes.underway ?_
  have entered : Underway origin { opened with current := frame } :=
    ⟨passes.underway.settled, .inr created.1, created.2⟩
  refine (stays_sequence keeping entered).weaken fun flow after ran returns => ?_
  have kept : Created origin after (.frame after.current) := by
    rw [ran.current]
    exact ran.created created
  refine ⟨fun value is object stands => (returns value is object stands).leave kept _, ?_⟩
  have linked' : after.frames.link? frame 1 = some enclosing := by
    rw [Frames.link?, ran.confined.frames.chain frame created.2]
    exact linked
  exact (Reached.of_refers (ran.created created).reached (.enclosing linked')).leave kept _

theorem stays_activate (keeping : Keeping origin exec) {function : Function} {arguments : List Value}
    (underway : Underway origin machine) (inside : machine.OnGround origin (.frame function.closure))
    (allowed : ∀ value ∈ arguments, machine.Allows origin value) :
    Stays origin (activate exec function arguments) machine fun value after => Offers origin after value := by
  have binds : ∀ entry ∈ (function.declaration.params.map Token.lexeme).zip arguments,
      machine.Allows origin entry.2 := fun entry member => allowed _ (List.of_mem_zip member).2
  refine Stays.bind (stays_block keeping underway inside binds) fun flow after passes ⟨returns, reached⟩ => ?_
  split
  · apply Stays.reading
    cases found : after.frames.getAt function.closure 0 "this" with
    | error cause => exact Stays.broken passes.underway _
    | ok value =>
      obtain ⟨link, member, held⟩ := Frames.held_of_getAt found
      have path := Store.leadsTo_of_mem_chain passes.underway.settled.nested member
      exact Stays.pure passes.underway ((reached.of_leadsTo path).offers_of_held held)
  · cases flow with
    | next => exact Stays.pure passes.underway (offers_of_none rfl)
    | returned value => exact Stays.pure passes.underway (returns value rfl)

theorem stays_prepare {id : ClassId} (underway : Underway origin machine)
    (inside : machine.OnGround origin (.class id)) : Stays origin (prepare id) machine fun prepared after => Created origin after (.instance prepared.1) ∧
      ∀ initializer, prepared.2 = some initializer → after.OnGround origin (.frame initializer.closure) := by
  have makes : Stays origin (onStore (·.addInstance id)) machine
      fun made after => Created origin after (.instance made) := by
    refine .onStore underway (Store.confined_addInstance underway.settled inside) ?_
    exact underway.created (Nat.lt_irrefl _) (by simp [Store.Has, Store.addInstance])
  apply Stays.bind makes
  intro made after passes created
  apply Stays.reading
  cases found : after.findMethod? id initializerName with
  | none =>
    refine Stays.pure passes.underway ⟨created, ?_⟩
    rintro _ ⟨⟩
  | some method =>
    have path := Store.leadsTo_of_findMethod? passes.underway.settled.lineages found
    have isMethod := passes.underway.settled.onGround_of_leadsTo (passes.confined.onGround inside) path
    apply Stays.bind (stays_bindMethod passes.underway isMethod (passes.underway.onGround created.reached))
    intro bound _ passes' isBound
    apply Stays.bind (stays_function passes'.underway (passes'.underway.onGround isBound.reached))
    intro initializer _ passes'' closure
    refine Stays.pure passes''.underway ⟨passes''.created (passes'.created created), ?_⟩
    rintro _ ⟨⟩
    exact closure

theorem stays_instantiate (keeping : Keeping origin exec) {id : ClassId} {arguments : List Value}
    (underway : Underway origin machine) (inside : machine.OnGround origin (.class id))
    (allowed : ∀ value ∈ arguments, machine.Allows origin value) :
    Stays origin (instantiate exec id arguments) machine fun value after => Offers origin after value := by
  have offers {made : InstanceId} {after : Machine} (created : Created origin after (.instance made)) :
      Offers origin after (.instance made) := by
    rintro _ ⟨⟩
    exact created.reached
  rw [instantiate_eq]
  apply Stays.bind (stays_prepare underway inside)
  rintro ⟨made, _ | initializer⟩ after passes ⟨created, closes⟩
  · exact Stays.pure passes.underway (offers created)
  · refine Stays.bind (stays_activate keeping passes.underway (closes initializer rfl)
      fun value member => passes.confined.allows (allowed value member)) fun _ _ passes' _ => ?_
    exact Stays.pure passes'.underway (offers (passes'.created created))

/-- Any value on the ground may be called. -/
theorem stays_call (keeping : Keeping origin exec) {callee : Value} {arguments : List Value} (paren : Token)
    (underway : Underway origin machine) (callable : machine.Allows origin callee)
    (allowed : ∀ value ∈ arguments, machine.Allows origin value) :
    Stays origin (call exec paren callee arguments) machine fun value after => Offers origin after value := by
  have given {arity : Nat} (stays : Stays origin (invoke exec paren arguments callee) machine
      fun value after => Offers origin after value) :
      Stays origin (if arguments.length ≠ arity then fail paren (.wrongArity arity arguments.length)
        else asCall paren (invoke exec paren arguments callee)) machine
        fun value after => Offers origin after value := by
    split
    · exact Stays.fail underway _ _
    · exact stays.asCall
  cases callee with
  | native native =>
    refine Stays.known rfl (given ?_)
    cases native
    exact Stays.reading (Stays.pure underway (offers_of_none rfl))
  | function id =>
    refine Stays.known rfl (given (Stays.bind (stays_function underway (callable _ rfl)) ?_))
    intro function _ passes closure
    exact stays_activate keeping passes.underway closure fun value member =>
      passes.confined.allows (allowed value member)
  | «class» id => exact Stays.known rfl (given (stays_instantiate keeping underway (callable _ rfl) allowed))
  | _ => exact Stays.known rfl (Stays.fail underway _ _)

end Calls

section Classes

theorem stays_superclass (superclass : Option (Token × Distance)) (underway : Underway origin machine) :
    Stays origin (Run.superclass .byDistance superclass) machine
      fun parent after => ∀ id, parent = some id → after.OnGround origin (.class id) := by
  cases superclass with
  | none => exact Stays.pure underway nofun
  | some entry =>
    apply Stays.bind (stays_read underway entry.1 entry.2)
    intro value after passes offers
    cases value with
    | «class» id =>
      refine Stays.pure passes.underway ?_
      rintro _ ⟨⟩
      exact passes.underway.onGround (offers _ rfl)
    | _ => exact Stays.fail passes.underway _ _

theorem stays_methodFrame {parent : Option ClassId} (underway : Underway origin machine)
    (above : ∀ id, parent = some id → machine.OnGround origin (.class id)) :
    Stays origin (methodFrame parent) machine fun frame after => after.OnGround origin (.frame frame) := by
  cases parent with
  | none => exact ⟨.refl underway, underway.inside⟩
  | some parent =>
    have allowed : ∀ entry ∈ [("super", Value.class parent)], machine.Allows origin entry.2 := by
      intro entry member object is
      rw [List.mem_singleton.mp member] at is
      cases is
      exact above parent rfl
    refine Stays.reading ((stays_openFrame underway underway.inside allowed).weaken fun frame after passes opened => ?_)
    exact passes.underway.onGround opened.1.reached

theorem stays_methodTable {closure : FrameId} {methods : List (FunctionDecl Distance)} {table : Table FunctionId}
    (underway : Underway origin machine) (inside : machine.OnGround origin (.frame closure))
    (listed : ∀ name method, table.get? name = some method → machine.OnGround origin (.function method)) :
    Stays origin (methodTable closure methods table) machine
      fun table after => ∀ name method, table.get? name = some method → after.OnGround origin (.function method) := by
  induction methods generalizing machine table with
  | nil => exact Stays.pure underway listed
  | cons first rest ih =>
    refine Stays.bind (stays_addFunction underway inside) fun id after passes created => ?_
    apply ih passes.underway (passes.confined.onGround inside)
    intro name method entry
    rcases Table.get?_set_cases entry with ⟨_, rfl⟩ | entry
    · exact passes.underway.onGround created.reached
    · exact passes.confined.onGround (listed name method entry)

/-- A name is bound in the frame at hand. -/
theorem stays_defineHere {value : Value} (underway : Underway origin machine) (allowed : machine.Allows origin value)
    (name : String) : Stays origin (define name value) machine fun _ _ => True :=
  Stays.reading ((stays_define underway underway.sees_current allowed name).weaken fun _ _ _ _ => trivial)

theorem stays_declareClass (underway : Underway origin machine) (name : Token)
    (superclass : Option (Token × Distance)) (methods : List (FunctionDecl Distance)) :
    Stays origin (declareClass .byDistance name superclass methods) machine fun _ _ => True := by
  rw [declareClass_eq]
  apply Stays.bind (stays_superclass superclass underway)
  intro parent _ passes₁ above
  apply Stays.bind (stays_defineHere passes₁.underway (Store.allows_of_none rfl) _)
  intro _ _ passes₂ _
  have above₂ id (is : parent = some id) := passes₂.confined.onGround (above id is)
  apply Stays.bind (stays_methodFrame passes₂.underway above₂)
  intro closure _ passes₃ inside
  apply Stays.bind (stays_methodTable passes₃.underway inside (by simp))
  intro table last passes₄ listed
  have above₄ id (is : parent = some id) := passes₄.confined.onGround (passes₃.confined.onGround (above₂ id is))
  have adds : Stays origin (onStore fun store =>
      store.addClass ⟨name.lexeme, (parent.map store.lineage).getD [], table⟩) last
      fun id after => Created origin after (.class id) := by
    refine .onStore passes₄.underway (Store.confined_addClass passes₄.underway.settled above₄ listed) ?_
    exact passes₄.underway.created (Nat.lt_irrefl _) (by simp [Store.Has, Store.addClass])
  apply Stays.bind adds
  intro id after passes₅ created
  have allowed : after.Allows origin (.class id) := by
    rintro _ ⟨⟩
    exact passes₅.underway.onGround created.reached
  apply Stays.reading
  cases found : after.frames.holder? after.current name.lexeme with
  | none => exact Stays.fail passes₅.underway _ _
  | some holder =>
    have sees : after.Sees holder := .inl (List.mem_of_find?_eq_some found)
    exact (stays_define passes₅.underway sees allowed _).weaken fun _ _ _ _ => trivial

end Classes

section Operators

theorem stays_unary {op : UnaryOp} (sign : Token) (operand : Value) (underway : Underway origin machine) :
    Stays origin (op.apply sign operand) machine fun value after => Offers origin after value := by
  unfold UnaryOp.apply
  split
  · exact Stays.pure underway (offers_of_none rfl)
  · exact Stays.pure underway (offers_of_none rfl)
  · exact Stays.fail underway _ _

theorem stays_compute {op : BinaryOp} (sign : Token) (left right : Value) (underway : Underway origin machine) :
    Stays origin (op.compute sign left right) machine fun value after => Offers origin after value := by
  unfold BinaryOp.compute
  split
  · split
    · rename_i result computed
      refine Stays.pure underway (offers_of_none ?_)
      unfold BinaryOp.onNumbers? at computed
      split at computed <;> cases computed <;> rfl
    · exact Stays.fail underway _ _
  · exact Stays.fail underway _ _

theorem stays_binary {op : BinaryOp} (sign : Token) (left right : Value) (underway : Underway origin machine) :
    Stays origin (op.apply sign left right) machine fun value after => Offers origin after value := by
  unfold BinaryOp.apply
  split
  · unfold BinaryOp.addValues
    split
    · exact Stays.pure underway (offers_of_none rfl)
    · exact Stays.pure underway (offers_of_none rfl)
    · exact Stays.fail underway _ _
  · exact Stays.pure underway (offers_of_none rfl)
  · exact Stays.pure underway (offers_of_none rfl)
  · exact stays_compute sign left right underway

end Operators

section Induction

/-- The evaluation of single expressions keeps to the ground. -/
def Finding (origin : Machine) (eval : Expr Distance → Run Value) : Prop :=
  ∀ ⦃machine : Machine⦄ ⦃expr : Expr Distance⦄, Underway origin machine →
    Stays origin (eval expr) machine fun value after => Offers origin after value

/-- Of several values, the earlier ones may be all that still leads to some object when the later ones are there. -/
theorem stays_values {eval : Expr Distance → Run Value} (finding : Finding origin eval)
    {exprs : List (Expr Distance)} (underway : Underway origin machine) :
    Stays origin (values eval exprs) machine fun results after => ∀ value ∈ results, after.Allows origin value := by
  induction exprs generalizing machine with
  | nil => exact Stays.pure underway (by simp)
  | cons first rest ih =>
    apply Stays.bind (finding underway)
    intro value _ passes offers
    apply Stays.bind (ih passes.underway)
    intro results _ passes' allowed
    refine Stays.pure passes'.underway fun result member => ?_
    rcases List.mem_cons.mp member with rfl | later
    · exact passes'.confined.allows (passes.underway.allows offers)
    · exact allowed result later

variable {rounds room : Nat}

theorem finding_succ (finding : Finding origin (eval .byDistance rounds room))
    (keeping : Keeping origin (exec .byDistance rounds room)) :
    Finding origin (eval .byDistance rounds (room + 1)) := by
  intro machine expr underway
  cases expr with
  | literal value =>
    unfold eval
    exact Stays.pure underway (offers_of_none (by cases value <;> rfl))
  | grouping inner =>
    unfold eval
    exact finding underway
  | unary op sign operand =>
    unfold eval
    exact Stays.bind (finding underway) fun value _ passes _ => stays_unary sign value passes.underway
  | binary op left sign right =>
    unfold eval
    apply Stays.bind (finding underway)
    intro first _ passes _
    apply Stays.bind (finding passes.underway)
    intro second _ passes' _
    exact stays_binary sign first second passes'.underway
  | logical op left sign right =>
    unfold eval
    apply Stays.bind (finding underway)
    intro first _ passes offers
    split
    · exact Stays.pure passes.underway offers
    · exact finding passes.underway
  | read name note =>
    unfold eval
    exact stays_read underway name note
  | assign name note value =>
    unfold eval
    apply Stays.bind (finding underway)
    intro result _ passes offers
    apply Stays.bind (stays_assign passes.underway (passes.underway.allows offers) name note)
    intro _ _ passes' offers'
    exact Stays.pure passes'.underway offers'
  | call callee paren arguments =>
    unfold eval
    apply Stays.bind (finding underway)
    intro value _ passes offers
    apply Stays.bind (stays_values finding passes.underway)
    intro results _ passes' allowed
    exact stays_call keeping paren passes'.underway (passes'.confined.allows (passes.underway.allows offers)) allowed
  | get object name =>
    unfold eval
    refine Stays.bind (finding underway) fun value _ passes offers => ?_
    cases value with
    | «instance» id => exact stays_property passes.underway offers name
    | _ => exact Stays.fail passes.underway _ _
  | set object name value =>
    unfold eval
    apply Stays.bind (finding underway)
    intro target _ passes offers
    cases target with
    | «instance» id =>
      apply Stays.bind (finding passes.underway)
      intro result _ passes' offers'
      have inside := passes'.confined.onGround (passes.underway.onGround (offers _ rfl))
      apply Stays.bind (stays_setField passes'.underway inside offers' name.lexeme)
      intro _ _ passes'' offers''
      exact Stays.pure passes''.underway offers''
    | _ => exact Stays.fail passes.underway _ _
  | this keyword note =>
    unfold eval
    exact stays_read underway keyword note
  | super keyword note method =>
    unfold eval
    apply Stays.bind (stays_superAndThis underway keyword note)
    rintro ⟨parent, receiver⟩ _ passes ⟨above, target⟩
    exact stays_superMethod passes.underway above target method

/-- One round of a loop. -/
theorem stays_round (finding : Finding origin (eval .byDistance rounds room))
    (keeping : Keeping origin (exec .byDistance rounds room)) (condition : Expr Distance) (body : Stmt Distance)
    (underway : Underway origin machine) :
    Stays origin (round (eval .byDistance rounds room) (exec .byDistance rounds room) condition body) machine
      fun ending after => ∀ flow, ending = some flow → Returns origin flow after := by
  apply Stays.bind (finding underway)
  intro test _ passes _
  split
  · refine Stays.bind (keeping passes.underway) fun flow _ passes' returns => ?_
    cases flow with
    | next => exact Stays.pure passes'.underway nofun
    | returned value =>
      refine Stays.pure passes'.underway ?_
      rintro _ ⟨⟩
      exact returns
  · refine Stays.pure passes.underway ?_
    rintro _ ⟨⟩
    exact .next

theorem stays_print (text : String) (underway : Underway origin machine) :
    Stays origin (print text) machine fun _ _ => True :=
  ⟨⟨⟨underway.settled, underway.inside⟩, .refl _ _, rfl⟩, trivial⟩

theorem keeping_succ (finding : Finding origin (eval .byDistance rounds room))
    (keeping : Keeping origin (exec .byDistance rounds room)) :
    Keeping origin (exec .byDistance rounds (room + 1)) := by
  intro machine stmt underway
  cases stmt with
  | expression value =>
    unfold exec
    apply Stays.bind (finding underway)
    intro _ _ passes _
    exact Stays.pure passes.underway .next
  | print value =>
    unfold exec
    refine Stays.bind (finding underway) fun value _ passes _ => Stays.reading ?_
    apply Stays.bind (stays_print _ passes.underway)
    intro _ _ passes' _
    exact Stays.pure passes'.underway .next
  | varDecl name initial =>
    cases initial with
    | none =>
      unfold exec
      apply Stays.bind (stays_defineHere underway (Store.allows_of_none rfl) _)
      intro _ _ passes _
      exact Stays.pure passes.underway .next
    | some value =>
      unfold exec
      apply Stays.bind (finding underway)
      intro result _ passes offers
      apply Stays.bind (stays_defineHere passes.underway (passes.underway.allows offers) _)
      intro _ _ passes' _
      exact Stays.pure passes'.underway .next
  | block body =>
    unfold exec
    have runs : Stays origin (block (exec .byDistance rounds room) machine.current [] body) machine _ :=
      stays_block keeping underway underway.inside (by simp)
    exact Stays.reading (runs.weaken fun _ _ _ ends => ends.1)
  | ifThen condition accepted =>
    unfold exec
    apply Stays.bind (finding underway)
    intro _ _ passes _
    split
    · exact keeping passes.underway
    · exact Stays.pure passes.underway .next
  | ifElse condition accepted rejected =>
    unfold exec
    apply Stays.bind (finding underway)
    intro _ _ passes _
    split
    · exact keeping passes.underway
    · exact keeping passes.underway
  | whileLoop condition body =>
    unfold exec
    exact Stays.iterate (fun machine underway => stays_round finding keeping condition body underway) rounds underway
  | funDecl declaration =>
    unfold exec
    refine Stays.reading (Stays.bind (stays_addFunction underway underway.inside) fun id after passes created => ?_)
    have allowed : after.Allows origin (.function id) := by
      rintro _ ⟨⟩
      exact passes.underway.onGround created.reached
    apply Stays.bind (stays_defineHere passes.underway allowed _)
    intro _ _ passes' _
    exact Stays.pure passes'.underway .next
  | returnStmt keyword value =>
    cases value with
    | none =>
      unfold exec
      exact Stays.pure underway (.returned (offers_of_none rfl))
    | some value =>
      unfold exec
      apply Stays.bind (finding underway)
      intro result _ passes offers
      exact Stays.pure passes.underway (.returned offers)
  | classDecl name superclass methods =>
    unfold exec
    apply Stays.bind (stays_declareClass underway name superclass methods)
    intro _ _ passes _
    exact Stays.pure passes.underway .next

/-- Whatever room there is, all that is evaluated or executed keeps to the ground. -/
theorem stays_on_ground (origin : Machine) (rounds room : Nat) :
    Finding origin (eval .byDistance rounds room) ∧ Keeping origin (exec .byDistance rounds room) := by
  induction room with
  | zero =>
    constructor
    · intro machine expr underway
      unfold eval
      exact Stays.halts underway rfl
    · intro machine stmt underway
      unfold exec
      exact Stays.halts underway rfl
  | succ room ih => exact ⟨finding_succ ih.1 ih.2, keeping_succ ih.1 ih.2⟩

end Induction

end Run

end Lox

import Lox.Proofs.Scope.Places
import Mathlib.Data.List.Forall2

/-!
Binding gives every reference its lexical address. The scopes of the walk have, at each node, exactly the
names of the scopes around the place of that node, so that what the walk looks up is what stands there.
-/
namespace Lox

section Bare

variable {ρ : Type}

mutual

/-- A tree without its notes. -/
def Expr.bare : Expr ρ → Expr Unit
  | .literal value => .literal value
  | .grouping inner => .grouping inner.bare
  | .unary op sign operand => .unary op sign operand.bare
  | .binary op left sign right => .binary op left.bare sign right.bare
  | .logical op left sign right => .logical op left.bare sign right.bare
  | .read name _ => .read name ()
  | .assign name _ value => .assign name () value.bare
  | .call callee paren arguments => .call callee.bare paren (Expr.bareAll arguments)
  | .get object name => .get object.bare name
  | .set object name value => .set object.bare name value.bare
  | .this keyword _ => .this keyword ()
  | .super keyword _ method => .super keyword () method

def Expr.bareAll : List (Expr ρ) → List (Expr Unit)
  | [] => []
  | first :: rest => first.bare :: Expr.bareAll rest

end

mutual

def Stmt.bare : Stmt ρ → Stmt Unit
  | .expression value => .expression value.bare
  | .print value => .print value.bare
  | .varDecl name initial => .varDecl name (initial.map Expr.bare)
  | .block body => .block (Stmt.bareAll body)
  | .ifThen condition accepted => .ifThen condition.bare accepted.bare
  | .ifElse condition accepted rejected => .ifElse condition.bare accepted.bare rejected.bare
  | .whileLoop condition body => .whileLoop condition.bare body.bare
  | .funDecl declaration => .funDecl declaration.bare
  | .returnStmt keyword value => .returnStmt keyword (value.map Expr.bare)
  | .classDecl name superclass methods =>
    .classDecl name (superclass.map fun (superclass, _) => (superclass, ())) (FunctionDecl.bareAll methods)

def Stmt.bareAll : List (Stmt ρ) → List (Stmt Unit)
  | [] => []
  | first :: rest => first.bare :: Stmt.bareAll rest

def FunctionDecl.bare : FunctionDecl ρ → FunctionDecl Unit
  | .mk name params body => .mk name params (Stmt.bareAll body)

def FunctionDecl.bareAll : List (FunctionDecl ρ) → List (FunctionDecl Unit)
  | [] => []
  | first :: rest => first.bare :: FunctionDecl.bareAll rest

end

end Bare

/-- What a reference at a place has to have as its note: its lexical address, and nothing for a `this` that
stands in no class. -/
def Place.Fits (place : Place) (kind : ReferenceKind) (token : Token) (note : Distance) : Prop :=
  if kind = .this ∧ place.inClass = false then note = none else place.Address token.lexeme note

/-- Every reference at or below a place has the note it has to have. -/
def Node.Addressed (place : Place) (node : Node Distance) : Prop :=
  ∀ path inner part kind token note, node.at? place path = some (inner, part) →
    part.reference? = some (kind, token, note) → inner.Fits kind token note

namespace Node

variable {place : Place}

theorem Addressed.of_parts {node : Node Distance}
    (own : ∀ kind token note, node.reference? = some (kind, token, note) → place.Fits kind token note)
    (below : ∀ step part, (step, part) ∈ node.parts → Addressed (place.enter step) part) :
    Addressed place node := by
  intro path inner part kind token note found
  cases path with
  | nil =>
    cases found
    exact own kind token note
  | cons number path =>
    unfold at? at found
    cases selected : node.parts[number]? with
    | none => simp [selected] at found
    | some entry =>
      obtain ⟨step, child⟩ := entry
      simp only [selected] at found
      exact below step child (List.mem_of_getElem? selected) path inner part kind token note found

/-- A step that opens nothing and follows nothing stays at the place. -/
@[simp]
theorem enter_empty : place.enter {} = place := by
  obtain ⟨_ | ⟨scope, outer⟩, inClass⟩ := place <;> simp [Place.enter, Place.declare]

end Node

/-- The scopes of a walk have exactly the given names. -/
def Holds : List Scope → List (List String) → Prop :=
  List.Forall₂ fun scope names => ∀ name, scope.contains name = true ↔ name ∈ names

theorem Holds.uncons {tables : List Scope} {names : List String} {scopes : List (List String)}
    (holds : Holds tables (names :: scopes)) : ∃ table rest, tables = table :: rest ∧
      (∀ name, table.contains name = true ↔ name ∈ names) ∧ Holds rest scopes := by
  obtain ⟨table, rest, same, tail, rfl⟩ := List.forall₂_cons_right_iff.mp holds
  exact ⟨table, rest, rfl, same, tail⟩

/-- The walk finds lexical addresses. -/
theorem Holds.address {binder : Binder} {place : Place} (holds : Holds binder.scopes place.scopes)
    (name : String) : place.Address name (binder.distance? name) := by
  obtain ⟨scopes, inClass⟩ := place
  obtain ⟨tables, _, _, _⟩ := binder
  change Holds tables scopes at holds
  change Place.Address ⟨scopes, inClass⟩ name (tables.findIdx? (·.contains name))
  induction holds with
  | nil => exact .free (by simp)
  | @cons table names tables scopes same _ ih =>
    rw [List.findIdx?_cons]
    by_cases present : table.contains name = true
    · simp only [present, if_true]
      exact .bound [] scopes names rfl ((same name).mp present) (by simp)
    · simp only [present]
      have absent : name ∉ names := fun member => present ((same name).mpr member)
      generalize tables.findIdx? (·.contains name) = found at ih
      cases ih with
      | bound inner outer scope around declared nearest =>
        refine .bound (names :: inner) outer scope ?_ declared ?_
        · simpa using around
        · simpa [absent] using nearest
      | free undeclared => exact .free (by simpa [absent] using undeclared)

/-- An action leads from scopes with some names to scopes with others, and to a result of which something
holds. -/
def Walks {α : Type} (action : Bind α) (before after : List (List String)) (P : α → Prop) : Prop :=
  ∀ binder, Holds binder.scopes before → P (action binder).1 ∧ Holds (action binder).2.scopes after

namespace Walks

variable {α β : Type} {before middle after : List (List String)} {P : α → Prop} {Q : β → Prop}

theorem pure {value : α} (holds : P value) : Walks (Pure.pure value) before before P :=
  fun _ same => ⟨holds, same⟩

theorem bind {action : Bind α} {next : α → Bind β} (first : Walks action before middle P)
    (then_ : ∀ value, P value → Walks (next value) middle after Q) : Walks (action >>= next) before after Q := by
  intro binder same
  obtain ⟨holds, still⟩ := first binder same
  exact then_ _ holds _ still

end Walks

theorem walks_modify {before after : List (List String)} {change : Binder → Binder}
    (changes : ∀ binder, Holds binder.scopes before → Holds (change binder).scopes after) :
    Walks (modify change) before after fun _ => True :=
  fun binder same => ⟨trivial, changes binder same⟩

/-- The names after some statements in a row. -/
def declaredAfter {ρ : Type} (earlier : List String) : List (Stmt ρ) → List String
  | [] => earlier
  | first :: rest => declaredAfter (first.declared ++ earlier) rest

theorem declare_append (later earlier : List String) (scopes : List (List String)) :
    Place.declare (later ++ earlier) scopes = Place.declare later (Place.declare earlier scopes) := by
  cases scopes <;> simp [Place.declare]

@[simp]
theorem declare_nil (scopes : List (List String)) : Place.declare [] scopes = scopes := by
  cases scopes <;> rfl

theorem contains_set (scope : Scope) (name other : String) (ready : Bool) :
    (scope.set name ready).contains other = true ↔ other = name ∨ scope.contains other = true := by
  by_cases same : other = name
  · simp [Table.contains, same]
  · simp [Table.contains, Table.get?_set_of_ne scope same, same]

theorem walks_declare (known : List String) (name : Token) (scopes : List (List String)) :
    Walks (modify (·.declare known name)) scopes (Place.declare [name.lexeme] scopes) fun _ => True := by
  apply walks_modify
  intro binder same
  obtain ⟨tables, _, _, _⟩ := binder
  change Holds tables scopes at same
  cases same with
  | nil =>
    simp only [Binder.declare]
    split <;> exact .nil
  | cons head tail =>
    refine .cons (fun other => ?_) ?_
    · rw [contains_set, head]
      simp
    · simpa [Binder.declare, apply_ite Binder.scopes, Binder.complain] using tail

/-- Once a name is declared, that it gets ready changes no names. -/
theorem walks_define (name : Token) (scopes : List (List String)) :
    Walks (modify (·.define name)) (Place.declare [name.lexeme] scopes) (Place.declare [name.lexeme] scopes)
      fun _ => True := by
  apply walks_modify
  intro binder same
  obtain ⟨tables, _, _, _⟩ := binder
  change Holds tables _ at same
  cases scopes with
  | nil =>
    cases same
    exact .nil
  | cons scope outer =>
    cases same with
    | cons head tail =>
      refine .cons (fun other => ?_) tail
      rw [contains_set, head]
      simp

theorem walks_introduce (known : List String) (name : Token) (scopes : List (List String)) :
    Walks (Bind.introduce known name) scopes (Place.declare [name.lexeme] scopes) fun _ => True :=
  fun binder same => walks_define name scopes _ (walks_declare known name scopes binder same).2

theorem walks_params (known : List String) (params : List Token) (scope : List String)
    (outer : List (List String)) :
    Walks (params.forM (Bind.introduce known)) (scope :: outer) ((params.map Token.lexeme ++ scope) :: outer)
      fun _ => True := by
  induction params generalizing scope with
  | nil => exact Walks.pure trivial
  | cons first rest ih =>
    apply Walks.bind (walks_introduce known first _)
    intro _ _ binder same
    obtain ⟨table, tables, split, head, tail⟩ := (ih (first.lexeme :: scope) binder same).2.uncons
    refine ⟨trivial, ?_⟩
    rw [split]
    refine .cons (fun name => ?_) tail
    rw [head]
    simp only [List.map_cons, List.cons_append, List.mem_append, List.mem_cons]
    tauto

theorem contains_opened (names : List String) (table : Scope) (name : String) :
    (names.foldl (fun scope name => scope.set name true) table).contains name = true ↔
      table.contains name = true ∨ name ∈ names := by
  induction names generalizing table with
  | nil => simp
  | cons first rest ih =>
    rw [List.foldl_cons, ih, contains_set, List.mem_cons]
    tauto

theorem walks_inScope {α : Type} {action : Bind α} {P : α → Prop} {scopes : List (List String)}
    (names more : List String) (walks : Walks action (names :: scopes) (more :: scopes) P) :
    Walks (Bind.inScope names action) scopes scopes P := by
  refine Walks.bind (walks_modify fun binder same => ?_) fun _ _ => Walks.bind walks fun value holds =>
    Walks.bind (walks_modify fun binder same => ?_) fun _ _ => Walks.pure holds
  · refine .cons (fun name => ?_) same
    rw [contains_opened]
    simp [Table.contains]
  · obtain ⟨table, rest, split, _, tail⟩ := same.uncons
    simpa [Binder.closeScope, split] using tail

theorem walks_distance (place : Place) (name : Token) :
    Walks (Bind.distance? name) place.scopes place.scopes (place.Address name.lexeme) :=
  fun _ same => ⟨same.address name.lexeme, same⟩

theorem walks_complain (token : Token) (cause : ScopeFault) (scopes : List (List String)) :
    Walks (Bind.complain token cause) scopes scopes fun _ => True :=
  walks_modify fun _ same => same

theorem readName_apply (name : Token) (binder : Binder) :
    Bind.readName name binder = (binder.distance? name.lexeme, match binder.readFault? name with
      | some cause => binder.complain name cause
      | none => binder) := by
  simp only [Bind.readName, bind, StateT.bind, get, getThe, MonadStateOf.get, StateT.get, pure]
  cases fault : binder.readFault? name <;> rfl

theorem walks_readName (place : Place) (name : Token) :
    Walks (Bind.readName name) place.scopes place.scopes (place.Address name.lexeme) := by
  intro binder same
  rw [readName_apply]
  cases binder.readFault? name with
  | some cause => exact ⟨same.address name.lexeme, same⟩
  | none => exact ⟨same.address name.lexeme, same⟩

namespace Node

variable {place : Place}

/-- A reference without parts. -/
theorem Addressed.leaf {node : Node Distance} {kind : ReferenceKind} {token : Token} {note : Distance}
    (reference : node.reference? = some (kind, token, note)) (alone : node.parts = [])
    (fits : place.Fits kind token note) : Addressed place node := by
  refine .of_parts (fun kind' token' note' found => ?_) (by simp [alone])
  rw [reference] at found
  cases found
  exact fits

/-- A node that refers to nothing. -/
theorem Addressed.plain {node : Node Distance} (reference : node.reference? = none)
    (below : ∀ step part, (step, part) ∈ node.parts → Addressed (place.enter step) part) :
    Addressed place node := by
  refine .of_parts (fun kind token note found => ?_) below
  rw [reference] at found
  cases found

end Node

/-- Whether the walk is inside a class. -/
def Inside (around : Surrounding) (place : Place) : Prop := around.owner = .none ↔ place.inClass = false

mutual

theorem Expr.walks (around : Surrounding) (place : Place) (inside : Inside around place) :
    ∀ expr : Expr Unit, Walks (expr.bind around) place.scopes place.scopes
      fun bound => bound.bare = expr ∧ Node.Addressed place (.expr bound)
  | .literal value => by
    refine Walks.pure ⟨rfl, .plain rfl ?_⟩
    simp [Node.parts, Node.exprParts]
  | .grouping inner => by
    refine Walks.bind (Expr.walks around place inside inner) fun bound ⟨same, addressed⟩ => ?_
    refine Walks.pure ⟨by rw [Expr.bare, same], .plain rfl ?_⟩
    simpa [Node.parts, Node.exprParts] using addressed
  | .unary op sign operand => by
    refine Walks.bind (Expr.walks around place inside operand) fun bound ⟨same, addressed⟩ => ?_
    refine Walks.pure ⟨by rw [Expr.bare, same], .plain rfl ?_⟩
    simpa [Node.parts, Node.exprParts] using addressed
  | .binary op left sign right => by
    refine Walks.bind (Expr.walks around place inside left) fun first ⟨same, addressed⟩ => ?_
    refine Walks.bind (Expr.walks around place inside right) fun second ⟨same', addressed'⟩ => ?_
    refine Walks.pure ⟨by rw [Expr.bare, same, same'], .plain rfl ?_⟩
    simp [Node.parts, Node.exprParts, or_imp, forall_and, addressed, addressed']
  | .logical op left sign right => by
    refine Walks.bind (Expr.walks around place inside left) fun first ⟨same, addressed⟩ => ?_
    refine Walks.bind (Expr.walks around place inside right) fun second ⟨same', addressed'⟩ => ?_
    refine Walks.pure ⟨by rw [Expr.bare, same, same'], .plain rfl ?_⟩
    simp [Node.parts, Node.exprParts, or_imp, forall_and, addressed, addressed']
  | .read name _ => by
    apply Walks.bind (walks_readName place name)
    intro note address
    refine Walks.pure ⟨rfl, .leaf rfl rfl ?_⟩
    simpa [Place.Fits] using address
  | .assign name _ value => by
    refine Walks.bind (Expr.walks around place inside value) fun bound ⟨same, addressed⟩ => ?_
    apply Walks.bind (walks_distance place name)
    intro note address
    refine Walks.pure ⟨by rw [Expr.bare, same], .of_parts ?_ ?_⟩
    · rintro _ _ _ ⟨⟩
      simpa [Place.Fits] using address
    · simpa [Node.parts, Node.exprParts] using addressed
  | .call callee paren arguments => by
    refine Walks.bind (Expr.walks around place inside callee) fun bound ⟨same, addressed⟩ => ?_
    refine Walks.bind (Expr.walksAll around place inside arguments) fun bounds ⟨same', addressed'⟩ => ?_
    refine Walks.pure ⟨by rw [Expr.bare, same, same'], .plain rfl ?_⟩
    simp only [Node.parts, Node.exprParts, List.mem_cons, List.mem_map]
    rintro step part (first | ⟨argument, member, further⟩)
    · cases first
      simpa using addressed
    · cases further
      simpa using addressed' argument member
  | .get object name => by
    refine Walks.bind (Expr.walks around place inside object) fun bound ⟨same, addressed⟩ => ?_
    refine Walks.pure ⟨by rw [Expr.bare, same], .plain rfl ?_⟩
    simpa [Node.parts, Node.exprParts] using addressed
  | .set object name value => by
    refine Walks.bind (Expr.walks around place inside value) fun second ⟨same', addressed'⟩ => ?_
    refine Walks.bind (Expr.walks around place inside object) fun first ⟨same, addressed⟩ => ?_
    refine Walks.pure ⟨by rw [Expr.bare, same, same'], .plain rfl ?_⟩
    simp [Node.parts, Node.exprParts, or_imp, forall_and, addressed, addressed']
  | .this keyword _ => by
    simp only [Expr.bind]
    split
    · rename_i outside
      refine Walks.bind (walks_complain _ _ _) fun _ _ => Walks.pure ⟨rfl, .leaf rfl rfl ?_⟩
      simp [Place.Fits, inside.mp outside]
    · rename_i owned
      apply Walks.bind (walks_distance place keyword)
      intro note address
      refine Walks.pure ⟨rfl, .leaf rfl rfl ?_⟩
      have within : place.inClass = true := by
        cases known : place.inClass
        · exact absurd (inside.mpr known) owned
        · rfl
      simpa [Place.Fits, within] using address
  | .super keyword _ method => by
    have looks : Walks (do return Expr.super keyword (← Bind.distance? keyword) method) place.scopes place.scopes
        fun bound => bound.bare = .super keyword () method ∧ Node.Addressed place (.expr bound) := by
      apply Walks.bind (walks_distance place keyword)
      intro note address
      refine Walks.pure ⟨rfl, .leaf rfl rfl ?_⟩
      simpa [Place.Fits] using address
    simp only [Expr.bind]
    split
    · exact Walks.bind (walks_complain _ _ _) fun _ _ => looks
    · exact Walks.bind (walks_complain _ _ _) fun _ _ => looks
    · exact looks

theorem Expr.walksAll (around : Surrounding) (place : Place) (inside : Inside around place) :
    ∀ exprs : List (Expr Unit), Walks (Expr.bindAll around exprs) place.scopes place.scopes
      fun bounds => Expr.bareAll bounds = exprs ∧ ∀ bound ∈ bounds, Node.Addressed place (.expr bound)
  | [] => Walks.pure ⟨rfl, by simp⟩
  | first :: rest => by
    refine Walks.bind (Expr.walks around place inside first) fun bound ⟨same, addressed⟩ => ?_
    refine Walks.bind (Expr.walksAll around place inside rest) fun bounds ⟨same', addressed'⟩ => ?_
    exact Walks.pure ⟨by rw [Expr.bareAll, same, same'], by simpa using ⟨addressed, addressed'⟩⟩

end

theorem Expr.walksOption (around : Surrounding) (place : Place) (inside : Inside around place)
    (value : Option (Expr Unit)) : Walks (Expr.bindOption around value) place.scopes place.scopes
      fun bound => bound.map Expr.bare = value ∧ ∀ expr, bound = some expr → Node.Addressed place (.expr expr) := by
  cases value with
  | none => exact Walks.pure ⟨rfl, by simp⟩
  | some value =>
    refine Walks.bind (Expr.walks around place inside value) fun bound ⟨same, addressed⟩ => ?_
    exact Walks.pure ⟨by simp [same], by simpa using addressed⟩

theorem FunctionDecl.name_bare {ρ : Type} (declaration : FunctionDecl ρ) :
    declaration.bare.name = declaration.name := by
  cases declaration
  rfl

theorem Stmt.declared_bare {ρ : Type} (stmt : Stmt ρ) : stmt.bare.declared = stmt.declared := by
  induction stmt using Stmt.declared.induct <;> simp_all [Stmt.bare, Stmt.declared, FunctionDecl.name_bare]

theorem Inside.enter {around : Surrounding} {place : Place} (inside : Inside around place) (step : Step)
    (stays : step.entersClass = false) : Inside around (place.enter step) := by
  simpa [Inside, Place.enter, stays] using inside

/-- The superclass of a class is read as any name is. -/
theorem walks_superclass (place : Place) (name : Token) (superclass : Option (Token × Unit)) :
    Walks (Bind.superclass name superclass) place.scopes place.scopes fun bound =>
      bound.map (fun (superclass, _) => (superclass, ())) = superclass ∧
      ∀ token note, bound = some (token, note) → place.Address token.lexeme note := by
  cases superclass with
  | none => exact Walks.pure ⟨rfl, by simp⟩
  | some superclass =>
    obtain ⟨token, _⟩ := superclass
    have reads : Walks (do return some (token, ← Bind.readName token)) place.scopes place.scopes
        fun bound => bound.map (fun (superclass, _) => (superclass, ())) = some (token, ()) ∧
          ∀ token note, bound = some (token, note) → place.Address token.lexeme note := by
      refine Walks.bind (walks_readName place token) fun note address => Walks.pure ⟨rfl, ?_⟩
      rintro _ _ ⟨⟩
      exact address
    simp only [Bind.superclass]
    split
    · exact Walks.bind (walks_complain _ _ _) fun _ _ => reads
    · exact reads

theorem walks_inClassScopes {α : Type} {action : Bind α} {P : α → Prop} {scopes : List (List String)}
    (hasSuperclass : Bool)
    (walks : Walks action (Node.classScopes hasSuperclass ++ scopes) (Node.classScopes hasSuperclass ++ scopes) P) :
    Walks (Bind.inClassScopes hasSuperclass action) scopes scopes P := by
  cases hasSuperclass with
  | false => exact walks_inScope _ _ walks
  | true => exact walks_inScope _ _ (walks_inScope _ _ walks)

mutual

theorem Stmt.walks (known : List String) (around : Surrounding) (place : Place) (inside : Inside around place) :
    ∀ stmt : Stmt Unit, Walks (stmt.bind known around) place.scopes (Place.declare stmt.declared place.scopes)
      fun bound => bound.bare = stmt ∧ Node.Addressed place (.stmt bound)
  | .expression value => by
    rw [Stmt.declared, declare_nil]
    refine Walks.bind (Expr.walks around place inside value) fun bound ⟨same, addressed⟩ => ?_
    refine Walks.pure ⟨by rw [Stmt.bare, same], .plain rfl ?_⟩
    simpa [Node.parts, Node.stmtParts] using addressed
  | .print value => by
    rw [Stmt.declared, declare_nil]
    refine Walks.bind (Expr.walks around place inside value) fun bound ⟨same, addressed⟩ => ?_
    refine Walks.pure ⟨by rw [Stmt.bare, same], .plain rfl ?_⟩
    simpa [Node.parts, Node.stmtParts] using addressed
  | .varDecl name initial => by
    have within := inside.enter { earlier := [name.lexeme] } rfl
    apply Walks.bind (walks_declare known name place.scopes)
    intro _ _
    refine Walks.bind (Expr.walksOption around _ within initial) fun bound ⟨same, addressed⟩ => ?_
    apply Walks.bind (walks_define name place.scopes)
    intro _ _
    refine Walks.pure ⟨by rw [Stmt.bare, same], .plain rfl ?_⟩
    cases bound with
    | none => simp [Node.parts, Node.stmtParts, Node.optional]
    | some value => simpa [Node.parts, Node.stmtParts, Node.optional] using addressed
  | .block body => by
    rw [Stmt.declared, declare_nil]
    have within := inside.enter { opened := [[]] } rfl
    have walks := Stmt.walksAll known around _ within body []
    simp only [Place.enter, declare_nil, List.cons_append, List.nil_append] at walks
    refine Walks.bind (walks_inScope [] _ walks) fun bounds ⟨same, addressed⟩ => ?_
    refine Walks.pure ⟨by rw [Stmt.bare, same], .plain rfl ?_⟩
    simp only [Node.parts, Node.stmtParts, List.mem_singleton]
    rintro step part only
    cases only
    exact .plain rfl (by simpa [Node.parts, Place.enter] using addressed)
  | .ifThen condition accepted => by
    refine Walks.bind (Expr.walks around place inside condition) fun test ⟨same, addressed⟩ => ?_
    refine Walks.bind (Stmt.walks known around place inside accepted) fun bound ⟨same', addressed'⟩ => ?_
    refine Walks.pure ⟨by rw [Stmt.bare, same, same'], .plain rfl ?_⟩
    simp [Node.parts, Node.stmtParts, or_imp, forall_and, addressed, addressed']
  | .ifElse condition accepted rejected => by
    refine Walks.bind (Expr.walks around place inside condition) fun test ⟨same, addressed⟩ => ?_
    refine Walks.bind (Stmt.walks known around place inside accepted) fun first ⟨same₁, addressed₁⟩ => ?_
    have within := inside.enter { earlier := accepted.declared } rfl
    rw [Stmt.declared, declare_append]
    refine Walks.bind (Stmt.walks known around _ within rejected) fun second ⟨same₂, addressed₂⟩ => ?_
    refine Walks.pure ⟨by rw [Stmt.bare, same, same₁, same₂], .plain rfl ?_⟩
    have names : first.declared = accepted.declared := by rw [← Stmt.declared_bare, same₁]
    simp [Node.parts, Node.stmtParts, or_imp, forall_and, addressed, addressed₁, addressed₂, names]
  | .whileLoop condition body => by
    refine Walks.bind (Expr.walks around place inside condition) fun test ⟨same, addressed⟩ => ?_
    refine Walks.bind (Stmt.walks known around place inside body) fun bound ⟨same', addressed'⟩ => ?_
    refine Walks.pure ⟨by rw [Stmt.bare, same, same'], .plain rfl ?_⟩
    simp [Node.parts, Node.stmtParts, or_imp, forall_and, addressed, addressed']
  | .funDecl declaration => by
    have within := inside.enter { earlier := [declaration.name.lexeme] } rfl
    apply Walks.bind (walks_introduce known declaration.name place.scopes)
    intro _ _
    refine Walks.bind (FunctionDecl.walks known { around with function := .function } _ within declaration)
      fun bound ⟨same, addressed⟩ => ?_
    refine Walks.pure ⟨by rw [Stmt.bare, same], .plain rfl ?_⟩
    have names : bound.name = declaration.name := by rw [← FunctionDecl.name_bare, same]
    simpa [Node.parts, Node.stmtParts, names] using addressed
  | .returnStmt keyword value => by
    have binds : Walks (do return Stmt.returnStmt keyword (← Expr.bindOption around value)) place.scopes
        place.scopes fun bound => bound.bare = .returnStmt keyword value ∧ Node.Addressed place (.stmt bound) := by
      refine Walks.bind (Expr.walksOption around place inside value) fun bound ⟨same, addressed⟩ => ?_
      refine Walks.pure ⟨by rw [Stmt.bare, same], .plain rfl ?_⟩
      cases bound with
      | none => simp [Node.parts, Node.stmtParts, Node.optional]
      | some value => simpa [Node.parts, Node.stmtParts, Node.optional] using addressed
    have complains (condition : Prop) [Decidable condition] (cause : ScopeFault) {next : Bind (Stmt Distance)}
        (then_ : Walks next place.scopes place.scopes fun bound =>
          bound.bare = .returnStmt keyword value ∧ Node.Addressed place (.stmt bound)) :
        Walks (if condition then do Bind.complain keyword cause; next else next) place.scopes place.scopes
          fun bound => bound.bare = .returnStmt keyword value ∧ Node.Addressed place (.stmt bound) := by
      split
      · exact Walks.bind (walks_complain _ _ _) fun _ _ => then_
      · exact then_
    rw [Stmt.declared, declare_nil]
    simp only [Stmt.bind]
    exact complains _ _ (complains _ _ binds)
  | .classDecl name superclass methods => by
    apply Walks.bind (walks_introduce known name place.scopes)
    intro _ _
    refine Walks.bind (walks_superclass (place.enter { earlier := [name.lexeme] }) name superclass)
      fun parent ⟨same, address⟩ => ?_
    let step : Step := ⟨[name.lexeme], Node.classScopes parent.isSome, true⟩
    have within : Inside { around with owner := if parent.isSome then .subclass else .plain }
        (place.enter step) := by
      cases parent <;> simp [Inside, Place.enter, step]
    have walks := FunctionDecl.walksMethods known _ _ within methods
    refine Walks.bind (walks_inClassScopes parent.isSome walks) fun bounds ⟨same', addressed⟩ => ?_
    refine Walks.pure ⟨by rw [Stmt.bare, same, same'], .plain rfl ?_⟩
    simp only [Node.parts, Node.stmtParts, List.mem_append, List.mem_map]
    rintro inner part (outside | ⟨method, member, below⟩)
    · cases parent with
      | none => simp [Node.optional] at outside
      | some entry =>
        obtain ⟨token, note⟩ := entry
        simp only [Node.optional, Option.map_some, List.mem_singleton] at outside
        cases outside
        exact .leaf rfl rfl (by simpa [Place.Fits] using address token note rfl)
    · cases below
      exact addressed method member

theorem Stmt.walksAll (known : List String) (around : Surrounding) (place : Place)
    (inside : Inside around place) : ∀ (body : List (Stmt Unit)) (earlier : List String),
      Walks (Stmt.bindAll known around body) (Place.declare earlier place.scopes)
        (Place.declare (declaredAfter earlier body) place.scopes)
        fun bounds => Stmt.bareAll bounds = body ∧
          ∀ step part, (step, part) ∈ Node.inOrder earlier bounds → Node.Addressed (place.enter step) part
  | [], earlier => Walks.pure ⟨rfl, by simp [Node.inOrder]⟩
  | first :: rest, earlier => by
    have within := inside.enter { earlier } rfl
    refine Walks.bind (Stmt.walks known around _ within first) fun bound ⟨same, addressed⟩ => ?_
    have after := Stmt.walksAll known around place inside rest (first.declared ++ earlier)
    rw [declare_append] at after
    refine Walks.bind after fun bounds ⟨same', addressed'⟩ => ?_
    refine Walks.pure ⟨by rw [Stmt.bareAll, same, same'], ?_⟩
    have names : bound.declared = first.declared := by rw [← Stmt.declared_bare, same]
    simp only [Node.inOrder, List.mem_cons, names]
    rintro step part (head | tail)
    · cases head
      exact addressed
    · exact addressed' step part tail

theorem FunctionDecl.walks (known : List String) (around : Surrounding) (place : Place)
    (inside : Inside around place) : ∀ declaration : FunctionDecl Unit,
      Walks (declaration.bind known around) place.scopes place.scopes
        fun bound => bound.bare = declaration ∧ Node.Addressed place (.function bound)
  | .mk name params body => by
    have within := inside.enter { opened := [params.map Token.lexeme] } rfl
    have walks := Stmt.walksAll known around _ within body []
    simp only [Place.enter, declare_nil, List.cons_append, List.nil_append] at walks
    have opening := walks_params known params [] place.scopes
    rw [List.append_nil] at opening
    refine Walks.bind (walks_inScope [] _ (Walks.bind opening fun _ _ => walks)) fun bounds ⟨same, addressed⟩ => ?_
    refine Walks.pure ⟨by rw [FunctionDecl.bare, same], .plain rfl ?_⟩
    simp only [Node.parts, List.mem_singleton]
    rintro step part only
    cases only
    exact .plain rfl (by simpa [Node.parts, Place.enter] using addressed)

theorem FunctionDecl.walksMethods (known : List String) (around : Surrounding) (place : Place)
    (inside : Inside around place) : ∀ methods : List (FunctionDecl Unit),
      Walks (FunctionDecl.bindMethods known around methods) place.scopes place.scopes
        fun bounds => FunctionDecl.bareAll bounds = methods ∧
          ∀ bound ∈ bounds, Node.Addressed place (.function bound)
  | [] => Walks.pure ⟨rfl, by simp⟩
  | first :: rest => by
    refine Walks.bind (FunctionDecl.walks known
      { around with function := FunctionContext.ofMethod first.name.lexeme } place inside first)
      fun bound ⟨same, addressed⟩ => ?_
    refine Walks.bind (FunctionDecl.walksMethods known around place inside rest)
      fun bounds ⟨same', addressed'⟩ => ?_
    exact Walks.pure ⟨by rw [FunctionDecl.bareAll, same, same'], by simpa using ⟨addressed, addressed'⟩⟩

end

end Lox

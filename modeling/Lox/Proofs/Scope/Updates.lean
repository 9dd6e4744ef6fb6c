import Lox.Proofs.Run.Updates
import Lox.Proofs.Scope.Rebinding

/-!
Where assignments are written. In a program that was bound without a fault the distance of an assignment leads to a
scope that has the name ready, unless it leads to the variable in whose initialiser the assignment stands: binding
complains about reading such a variable, and not about assigning to it.
-/
namespace Lox

/-- An assignment, with a distance, to the variable in whose initialiser it stands. -/
def Spot.AssignsOwn (spot : Spot Distance) (name : Token) : Prop :=
  (∃ value, spot.node = .expr (.assign name (some 0) value)) ∧
    ∃ target, Around.initializing? spot.above = some target ∧ target.lexeme = name.lexeme

/-- Somewhere in the program there is such an assignment. -/
def Program.AssignsOwn (program : BoundProgram) (name : Token) : Prop :=
  ∃ path spot, program.spot? path = some spot ∧ spot.AssignsOwn name

namespace Updates

/-- The names that are ready at a place: all of its scopes, but for the variable that is being initialised. -/
def Ready (scopes : List (List String)) (place : Place) (above : List (Node Distance)) : Prop :=
  place.scopes = match Around.initializing? above with
    | none => scopes
    | some target => Place.declare [target.lexeme] scopes

/-- A spot of a program that was bound without a fault, where assignments of variables in their own initialisers are
left out. -/
def Settled (known : List String) (excused : Token × Distance → Prop) (spot : Spot Distance) : Prop :=
  spot.Settled known ∧ ∀ name, spot.AssignsOwn name → excused (name, some 0)

variable {known : List String} {excused : Token × Distance → Prop} {place : Place} {globals : List String}
  {above : List (Node Distance)} {scopes : List (List String)}

/-- An address of a name is a scope that declares it. -/
theorem declares_of_address {name : String} {distance : Nat} (address : place.Address name (some distance)) :
    Declares place.scopes distance name := by
  cases address with
  | bound inner outer scope around declared _ => exact ⟨scope, by simp [around], declared⟩

/-- The name of an assignment is ready, or it is the one that is being initialised. -/
theorem meets_of_settled {name : Token} {note : Distance} {value : Expr Distance}
    (settled : Settled known excused ⟨.expr (.assign name note value), place, globals, above⟩)
    (ready : Ready scopes place above) : Meets excused scopes (name, note) := by
  obtain ⟨bound, leftOut⟩ := settled
  have address := (bound.fits .assign name note rfl).address (by simp)
  cases note with
  | none => exact .inl nofun
  | some distance =>
    have declares : Declares place.scopes distance name.lexeme := declares_of_address address
    unfold Ready at ready
    cases initializing : Around.initializing? above with
    | none =>
      simp only [initializing] at ready
      left
      rintro _ ⟨⟩
      rwa [← ready]
    | some target =>
      simp only [initializing] at ready
      rw [ready] at declares
      by_cases own : target.lexeme = name.lexeme
      · cases scopes with
        | nil => exact absurd declares declares_nil
        | cons scope outer =>
          -- The nearest scope that has the name is the innermost one.
          have nearest : place.Address name.lexeme (some 0) := by
            refine .bound [] outer (target.lexeme :: scope) ready ?_ nofun
            rw [own]
            exact List.mem_cons_self
          cases address.unique nearest
          exact .inr (leftOut name ⟨⟨value, rfl⟩, target, initializing, own⟩)
      · left
        rintro _ ⟨⟩
        exact declares_of_declare declares (by simpa using Ne.symm own)

/-- The parts of an expression. -/
theorem settled_part {expr part : Expr Distance}
    (settled : Spot.All (Settled known excused) ⟨.expr expr, place, globals, above⟩)
    (member : ({}, .expr part) ∈ Node.exprParts expr) :
    Spot.All (Settled known excused) ⟨.expr part, place, globals, .expr expr :: above⟩ := by
  apply settled.part
  rw [Spot.parts_expr]
  exact List.mem_map_of_mem member

mutual

theorem matchExpr : ∀ (expr : Expr Distance) {above : List (Node Distance)},
    Spot.All (Settled known excused) ⟨.expr expr, place, globals, above⟩ → Ready scopes place above →
    (pairing excused).MatchExpr scopes expr expr
  | .literal value, _, _, _ => .literal value
  | .grouping inner, _, settled, ready =>
    .grouping (matchExpr inner (settled_part settled (by simp [Node.exprParts])) ready)
  | .unary _ _ operand, _, settled, ready =>
    .unary rfl (matchExpr operand (settled_part settled (by simp [Node.exprParts])) ready)
  | .binary _ left _ right, _, settled, ready =>
    .binary rfl (matchExpr left (settled_part settled (by simp [Node.exprParts])) ready)
      (matchExpr right (settled_part settled (by simp [Node.exprParts])) ready)
  | .logical _ left _ right, _, settled, ready =>
    .logical rfl (matchExpr left (settled_part settled (by simp [Node.exprParts])) ready)
      (matchExpr right (settled_part settled (by simp [Node.exprParts])) ready)
  | .read _ _, _, _, _ => .read rfl
  | .assign _ _ value, _, settled, ready =>
    .assign ⟨rfl, meets_of_settled settled.own ready⟩
      (matchExpr value (settled_part settled (by simp [Node.exprParts])) ready)
  | .call callee _ arguments, _, settled, ready =>
    .call rfl (matchExpr callee (settled_part settled (by simp [Node.exprParts])) ready)
      (matchExprs arguments (fun argument member => settled_part settled (by simp [Node.exprParts, member])) ready)
  | .get object _, _, settled, ready =>
    .get rfl rfl (matchExpr object (settled_part settled (by simp [Node.exprParts])) ready)
  | .set object _ value, _, settled, ready =>
    .set rfl rfl (matchExpr object (settled_part settled (by simp [Node.exprParts])) ready)
      (matchExpr value (settled_part settled (by simp [Node.exprParts])) ready)
  | .this _ _, _, _, _ => .this rfl
  | .super _ _ _, _, _, _ => .super rfl rfl rfl

theorem matchExprs : ∀ (exprs : List (Expr Distance)) {above : List (Node Distance)},
    (∀ expr ∈ exprs, Spot.All (Settled known excused) ⟨.expr expr, place, globals, above⟩) →
    Ready scopes place above → (pairing excused).MatchExprs scopes exprs exprs
  | [], _, _, _ => .nil
  | first :: rest, _, settled, ready =>
    .cons (matchExpr first (settled first List.mem_cons_self) ready)
      (matchExprs rest (fun expr member => settled expr (List.mem_cons_of_mem _ member)) ready)

end

/-- An expression in a statement that declares no variable. -/
theorem matchPart {stmt : Stmt Distance} {part : Expr Distance}
    (settled : Spot.All (Settled known excused) ⟨.stmt stmt, place, globals, above⟩)
    (member : ({}, .expr part) ∈ Node.stmtParts stmt) (other : Around.initializing? (.stmt stmt :: above) = none) :
    (pairing excused).MatchExpr place.scopes part part := by
  have inner := settled.enter member
  rw [Spot.enter_empty] at inner
  apply matchExpr part inner
  simp only [Ready, other]

/-- A statement in a statement. -/
theorem settled_branch {stmt part : Stmt Distance}
    (settled : Spot.All (Settled known excused) ⟨.stmt stmt, place, globals, above⟩)
    (member : ({}, .stmt part) ∈ Node.stmtParts stmt) :
    Spot.All (Settled known excused) ⟨.stmt part, place, globals, .stmt stmt :: above⟩ := by
  have inner := settled.enter member
  rwa [Spot.enter_empty] at inner

mutual

theorem matchStmt : ∀ (stmt : Stmt Distance) {place : Place} {globals : List String} {above : List (Node Distance)},
    Spot.All (Settled known excused) ⟨.stmt stmt, place, globals, above⟩ → stmt.Shaped →
    (pairing excused).MatchStmt place.scopes (Place.declare stmt.declared place.scopes) stmt stmt
  | .expression value, _, _, _, settled, _ => by
    rw [Stmt.declared, declare_nil]
    exact .expression (matchPart settled List.mem_cons_self rfl)
  | .print value, _, _, _, settled, _ => by
    rw [Stmt.declared, declare_nil]
    exact .print (matchPart settled List.mem_cons_self rfl)
  | .varDecl _ none, _, _, _, _, _ => .varDecl ⟨rfl, rfl⟩
  | .varDecl name (some value), _, _, _, settled, _ =>
    .varInit (matchExpr value (settled.enter List.mem_cons_self) rfl) ⟨rfl, rfl⟩
  | .block body, place, globals, above, settled, shaped => by
    obtain ⟨last, parts⟩ := matchBody body (fun spot member => (settled.enter List.mem_cons_self).part member) shaped
    rw [Stmt.declared, declare_nil]
    simp only [Spot.enter, Place.enter, declare_nil, List.cons_append, List.nil_append] at parts
    exact .block ⟨rfl, rfl⟩ parts
  | .ifThen condition accepted, place, _, _, settled, ⟨_, shaped, silent⟩ => by
    have part := matchStmt accepted (settled_branch settled (by simp [Node.stmtParts])) shaped
    rw [silent, declare_nil] at part
    rw [Stmt.declared, silent, declare_nil]
    exact .ifThen (matchPart settled (by simp [Node.stmtParts]) rfl) part
  | .ifElse condition accepted rejected, place, _, _, settled, ⟨_, ⟨shaped, silent⟩, shaped', silent'⟩ => by
    have first := matchStmt accepted (settled_branch settled (by simp [Node.stmtParts])) shaped
    have second := matchStmt rejected (settled_branch settled (by simp [Node.stmtParts, silent])) shaped'
    rw [silent, declare_nil] at first
    rw [silent', declare_nil] at second
    rw [Stmt.declared, silent, silent', List.append_nil, declare_nil]
    exact .ifElse (matchPart settled (by simp [Node.stmtParts]) rfl) first second
  | .whileLoop condition body, place, _, _, settled, ⟨_, shaped, silent⟩ => by
    have part := matchStmt body (settled_branch settled (by simp [Node.stmtParts])) shaped
    rw [silent, declare_nil] at part
    rw [Stmt.declared, silent, declare_nil]
    exact .whileLoop (matchPart settled (by simp [Node.stmtParts]) rfl) part
  | .funDecl declaration, _, _, _, settled, shaped =>
    .funDecl ⟨rfl, rfl⟩ (matchFunction declaration (settled.enter List.mem_cons_self) shaped.2)
  | .returnStmt _ none, _, _, _, _, _ => by
    rw [Stmt.declared, declare_nil]
    exact .returnNone rfl
  | .returnStmt _ (some value), _, _, _, settled, _ => by
    rw [Stmt.declared, declare_nil]
    exact .returnSome rfl (matchPart settled List.mem_cons_self rfl)
  | .classDecl name superclass methods, place, globals, above, settled, shaped => by
    have parent : (pairing excused).MatchSuperclass place.scopes superclass superclass := by
      cases superclass with
      | none => exact .none
      | some => exact .some rfl rfl
    have inner (method : FunctionDecl Distance) (member : method ∈ methods) :=
      settled.enter (List.mem_append_right _ (List.mem_map_of_mem member))
    refine .classDecl rfl parent ⟨rfl, rfl⟩ rfl (matchMethods methods ?_ inner shaped.2)
    simp only [Place.enter, Run.classScopes_eq, List.cons_append]
    rfl

theorem matchBody : ∀ (body : List (Stmt Distance)) {place : Place} {globals earlier : List String}
    {above : List (Node Distance)},
    (∀ spot ∈ Spot.inOrder place globals above earlier body, spot.All (Settled known excused)) → Stmt.ShapedAll body →
    ∃ last, (pairing excused).MatchBody (Place.declare earlier place.scopes) last body body
  | [], _, _, _, _, _, _ => ⟨_, .nil⟩
  | first :: rest, place, globals, earlier, above, settled, shaped => by
    have head := matchStmt first (settled _ List.mem_cons_self) shaped.1
    obtain ⟨last, tail⟩ := matchBody rest (fun spot member => settled spot (List.mem_cons_of_mem _ member)) shaped.2
    rw [declare_append] at tail
    exact ⟨last, .cons head tail⟩

theorem matchFunction : ∀ (declaration : FunctionDecl Distance) {place : Place} {globals : List String}
    {above : List (Node Distance)},
    Spot.All (Settled known excused) ⟨.function declaration, place, globals, above⟩ → declaration.Shaped →
    (pairing excused).MatchFunction place.scopes declaration declaration
  | .mk name params body, place, globals, above, settled, shaped => by
    obtain ⟨last, parts⟩ := matchBody body (fun spot member => (settled.enter List.mem_cons_self).part member) shaped.2
    simp only [Spot.enter, Place.enter, declare_nil, List.cons_append, List.nil_append] at parts
    exact .mk rfl rfl ⟨rfl, rfl⟩ parts

theorem matchMethods : ∀ (methods : List (FunctionDecl Distance)) {place : Place} {globals : List String}
    {above : List (Node Distance)} {outer : List (List String)}, place.scopes = ["this"] :: outer →
    (∀ method ∈ methods, Spot.All (Settled known excused) ⟨.function method, place, globals, above⟩) →
    FunctionDecl.ShapedAll methods → (pairing excused).MatchMethods outer methods methods
  | [], _, _, _, _, _, _, _ => .nil
  | first :: rest, place, globals, above, outer, around, settled, shaped => by
    have head := matchFunction first (settled first List.mem_cons_self) shaped.1
    rw [around] at head
    exact .cons ⟨rfl, rfl⟩ head
      (matchMethods rest around (fun method member => settled method (List.mem_cons_of_mem _ member)) shaped.2)

end

/-- A program that was bound without a fault matches itself. -/
theorem matchProgram {source : Program Unit} (shaped : Stmt.ShapedAll source) (clean : (source.bind known).faults = [])
    (leftOut : ∀ name, (source.bind known).program.AssignsOwn name → excused (name, some 0)) :
    ∃ last, (pairing excused).MatchBody [] last (source.bind known).program (source.bind known).program := by
  have settled : Spot.All (Settled known excused) { node := .sequence (source.bind known).program } :=
    fun path spot found =>
      ⟨Program.settled_of_bind clean path spot found, fun name own => leftOut name ⟨path, spot, found, own⟩⟩
  rw [← (source.addressed_bind known).1] at shaped
  exact matchBody _ (fun spot member => settled.part member) (Stmt.shapedAll_of_bare _ shaped)

end Updates

end Lox

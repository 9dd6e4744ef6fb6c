import Lox.Proofs.Run.Receivers
import Lox.Proofs.Scope.Rebinding

/-!
Where `super` is written. In a program that was bound without a fault it stands in a method of a class with a
superclass, and its distance leads past the scopes inside the method and the one with `this`.
-/
namespace Lox

namespace Receivers

variable {known : List String} {site : Site} {place : Place} {globals : List String} {above : List (Node Distance)}

/-- The scopes around a site, and whether there is a class around it and a superclass. -/
def Site.Fits (scopes : List (List String)) (class? : Option Bool) : Site → Prop
  | .plain => class? = none
  | .method _ depth => ∃ hasSuperclass inner outer, class? = some hasSuperclass ∧
      scopes = inner ++ (Node.classScopes hasSuperclass ++ outer) ∧ inner.length = depth ∧
      ∀ scope ∈ inner, "super" ∉ scope
  | .owner => False

section Fits

variable {scopes : List (List String)} {class? : Option Bool}

theorem Site.Fits.inside (fits : site.Fits scopes class?) {scope : List String} (free : "super" ∉ scope) :
    site.inside.Fits (scope :: scopes) class? := by
  cases site with
  | plain => exact fits
  | method home depth =>
    obtain ⟨hasSuperclass, inner, outer, found, rfl, rfl, clear⟩ := fits
    refine ⟨hasSuperclass, scope :: inner, outer, found, rfl, rfl, ?_⟩
    simpa using ⟨free, clear⟩
  | owner => exact fits.elim

theorem Site.Fits.declare (fits : site.Fits scopes class?) (isOpen : site.Open) {names : List String}
    (free : "super" ∉ names) : site.Fits (Place.declare names scopes) class? := by
  cases site with
  | plain => exact fits
  | method home depth =>
    obtain ⟨hasSuperclass, inner, outer, found, rfl, rfl, clear⟩ := fits
    cases inner with
    | nil => exact absurd isOpen (Nat.lt_irrefl 0)
    | cons scope inner =>
      refine ⟨hasSuperclass, (names ++ scope) :: inner, outer, found, rfl, rfl, ?_⟩
      simp only [List.forall_mem_cons, List.mem_append, not_or] at clear ⊢
      exact ⟨⟨free, clear.1⟩, clear.2⟩
  | owner => exact fits.elim

theorem Site.open_inside (site : Site) : site.inside.Open := by
  cases site with
  | method home depth => exact Nat.succ_pos depth
  | _ => trivial

end Fits

/-- A spot of a program that was bound without a fault. -/
structure Placed (known : List String) (site : Site) (spot : Spot Distance) : Prop where
  settled : spot.All (Spot.Settled known)
  fits : site.Fits spot.place.scopes (Around.class? spot.above)

/-- A part of an expression. -/
theorem Placed.part {expr part : Expr Distance} (placed : Placed known site ⟨.expr expr, place, globals, above⟩)
    (member : ({}, .expr part) ∈ Node.exprParts expr) :
    Placed known site ⟨.expr part, place, globals, .expr expr :: above⟩ := by
  refine ⟨placed.settled.part ?_, placed.fits⟩
  rw [Spot.parts_expr]
  exact List.mem_map_of_mem member

/-- All that is said with `super` somewhere is said in the method around it. -/
def Site.Covers (site : Site) (supers : Nat → List SuperNode) : Prop :=
  ∀ home depth, site = .method home depth → ∀ node ∈ supers depth, node ∈ home.supers

theorem Site.Covers.left {first second : Nat → List SuperNode} (covers : site.Covers fun depth => first depth ++ second depth) :
    site.Covers first :=
  fun home depth same node member => covers home depth same node (List.mem_append_left _ member)

theorem Site.Covers.right {first second : Nat → List SuperNode}
    (covers : site.Covers fun depth => first depth ++ second depth) : site.Covers second :=
  fun home depth same node member => covers home depth same node (List.mem_append_right _ member)

theorem Site.Covers.inside {supers : Nat → List SuperNode} (covers : site.Covers fun depth => supers (depth + 1)) :
    site.inside.Covers supers := by
  rintro home depth same node member
  cases site with
  | method home' depth' =>
    cases same
    exact covers home depth' rfl node member
  | plain => cases same
  | owner => cases same

/-- The distance of `super`. -/
theorem Placed.super {keyword method : Token} {note : Distance}
    (placed : Placed known site ⟨.expr (.super keyword note method), place, globals, above⟩)
    (spelled : keyword.lexeme = "super") : ∃ home depth, site = .method home depth ∧ note = some (depth + 1) := by
  have clean := placed.settled.own.clean
  have address := (placed.settled.own.fits .super keyword note rfl).address (by simp)
  rw [spelled] at address
  have fits := placed.fits
  cases site with
  | plain =>
    have none : Around.class? above = none := fits
    simp [Spot.violations, none] at clean
  | method home depth =>
    obtain ⟨hasSuperclass, inner, outer, found, around, rfl, clear⟩ := fits
    simp only at found around
    have inherits : hasSuperclass = true := by
      simpa [Spot.violations, found, Spot.flag] using clean
    subst inherits
    have bound : place.Address "super" (some (inner ++ [["this"]]).length) := by
      refine .bound (inner ++ [["this"]]) outer ["super"] (by simp [around, Node.classScopes]) (by simp) ?_
      simpa [or_imp, forall_and] using clear
    refine ⟨home, inner.length, rfl, ?_⟩
    simpa using address.unique bound
  | owner => exact fits.elim

mutual

theorem placed_expr : ∀ (expr : Expr Distance) {above : List (Node Distance)},
    Placed known site ⟨.expr expr, place, globals, above⟩ → expr.Shaped → site.Covers (Expr.supers · expr) →
    pairing.MatchExpr site expr expr
  | .literal value, _, _, _, _ => .literal value
  | .grouping inner, _, placed, shaped, covers =>
    .grouping (placed_expr inner (placed.part (by simp [Node.exprParts])) shaped covers)
  | .unary _ _ operand, _, placed, shaped, covers =>
    .unary rfl (placed_expr operand (placed.part (by simp [Node.exprParts])) shaped covers)
  | .binary _ left _ right, _, placed, shaped, covers =>
    .binary rfl (placed_expr left (placed.part (by simp [Node.exprParts])) shaped.1 covers.left)
      (placed_expr right (placed.part (by simp [Node.exprParts])) shaped.2 covers.right)
  | .logical _ left _ right, _, placed, shaped, covers =>
    .logical rfl (placed_expr left (placed.part (by simp [Node.exprParts])) shaped.1 covers.left)
      (placed_expr right (placed.part (by simp [Node.exprParts])) shaped.2 covers.right)
  | .read _ _, _, _, _, _ => .read rfl
  | .assign _ _ value, _, placed, shaped, covers =>
    .assign ⟨rfl, shaped.1⟩ (placed_expr value (placed.part (by simp [Node.exprParts])) shaped.2 covers)
  | .call callee _ arguments, _, placed, shaped, covers =>
    .call rfl (placed_expr callee (placed.part (by simp [Node.exprParts])) shaped.1 covers.left)
      (placed_exprs arguments (fun argument member => placed.part (by simp [Node.exprParts, member])) shaped.2
        covers.right)
  | .get object _, _, placed, shaped, covers =>
    .get rfl rfl (placed_expr object (placed.part (by simp [Node.exprParts])) shaped covers)
  | .set object _ value, _, placed, shaped, covers =>
    .set rfl rfl (placed_expr object (placed.part (by simp [Node.exprParts])) shaped.1 covers.left)
      (placed_expr value (placed.part (by simp [Node.exprParts])) shaped.2 covers.right)
  | .this _ _, _, _, _, _ => .this rfl
  | .super keyword note method, _, placed, shaped, covers => by
    obtain ⟨home, depth, rfl, noted⟩ := placed.super shaped
    exact .super ⟨rfl, home, depth, rfl, noted, covers home depth rfl _ List.mem_cons_self⟩ rfl rfl

theorem placed_exprs : ∀ (exprs : List (Expr Distance)) {above : List (Node Distance)},
    (∀ expr ∈ exprs, Placed known site ⟨.expr expr, place, globals, above⟩) → Expr.ShapedAll exprs →
    site.Covers (Expr.supersAll · exprs) → pairing.MatchExprs site exprs exprs
  | [], _, _, _, _ => .nil
  | first :: rest, _, placed, shaped, covers =>
    .cons (placed_expr first (placed first List.mem_cons_self) shaped.1 covers.left)
      (placed_exprs rest (fun expr member => placed expr (List.mem_cons_of_mem _ member)) shaped.2 covers.right)

end

/-- A part of a node, where it stands. -/
theorem Placed.enter {spot : Spot Distance} {step : Step} {part : Node Distance} {site' : Site}
    (placed : Placed known site spot) (member : (step, part) ∈ spot.node.parts)
    (kept : Around.class? (spot.node :: spot.above) = Around.class? spot.above)
    (fits : site'.Fits (step.opened ++ Place.declare step.earlier spot.place.scopes) (Around.class? spot.above)) :
    Placed known site' (spot.enter step part) :=
  ⟨placed.settled.enter member, kept ▸ fits⟩

/-- A part of a statement after the names that it declares before. -/
theorem Placed.after {stmt : Stmt Distance} {earlier : List String} {part : Node Distance}
    (placed : Placed known site ⟨.stmt stmt, place, globals, above⟩) (isOpen : site.Open)
    (member : ({ earlier }, part) ∈ Node.stmtParts stmt) (free : "super" ∉ earlier) :
    Placed known site (Spot.enter ⟨.stmt stmt, place, globals, above⟩ { earlier } part) :=
  placed.enter member rfl (placed.fits.declare isOpen free)

/-- A part of a statement that stands where the statement does. -/
theorem Placed.inner {stmt : Stmt Distance} {part : Node Distance}
    (placed : Placed known site ⟨.stmt stmt, place, globals, above⟩) (member : ({}, part) ∈ Node.stmtParts stmt) :
    Placed known site ⟨part, place, globals, .stmt stmt :: above⟩ := by
  have settled := placed.settled.enter member
  rw [Spot.enter_empty] at settled
  exact ⟨settled, placed.fits⟩

mutual

theorem placed_stmt : ∀ (stmt : Stmt Distance) {site : Site} {place : Place} {globals : List String}
    {above : List (Node Distance)}, Placed known site ⟨.stmt stmt, place, globals, above⟩ → stmt.Shaped →
    site.Covers (Stmt.supers · stmt) → site.Open → pairing.MatchStmt site site stmt stmt
  | .expression value, _, _, _, _, placed, shaped, covers, isOpen =>
    .expression (placed_expr value (placed.inner List.mem_cons_self) shaped covers)
  | .print value, _, _, _, _, placed, shaped, covers, isOpen =>
    .print (placed_expr value (placed.inner List.mem_cons_self) shaped covers)
  | .varDecl _ none, _, _, _, _, _, shaped, _, isOpen => .varDecl ⟨rfl, rfl, shaped.1, isOpen⟩
  | .varDecl _ (some value), _, _, _, _, placed, shaped, covers, isOpen =>
    .varInit (placed_expr value (placed.after isOpen List.mem_cons_self (by simpa using shaped.1.2.symm)) shaped.2 covers)
      ⟨rfl, rfl, shaped.1, isOpen⟩
  | .block body, site, place, globals, above, placed, shaped, covers, isOpen => by
    have fits : site.inside.Fits ([[]] ++ Place.declare [] place.scopes) (Around.class? above) := by
      rw [declare_nil]
      exact placed.fits.inside (by simp)
    have inner : Placed known site.inside (Spot.enter ⟨.stmt (.block body), place, globals, above⟩ _ (.sequence body)) :=
      placed.enter List.mem_cons_self rfl fits
    refine .block ⟨rfl, rfl, nofun⟩ (placed_body body (fun spot member => inner.settled.part member) ?_ shaped
      covers.inside site.open_inside)
    rw [declare_nil]
    exact inner.fits
  | .ifThen condition accepted, _, _, _, _, placed, shaped, covers, isOpen =>
    .ifThen (placed_expr condition (placed.inner (by simp [Node.stmtParts])) shaped.1 covers.left)
      (placed_stmt accepted (placed.inner (by simp [Node.stmtParts])) shaped.2.1 covers.right isOpen)
  | .ifElse condition accepted rejected, _, _, _, _, placed, shaped, covers, isOpen =>
    .ifElse (placed_expr condition (placed.inner (by simp [Node.stmtParts])) shaped.1 covers.left)
      (placed_stmt accepted (placed.inner (by simp [Node.stmtParts])) shaped.2.1.1 covers.right.left
        isOpen)
      (placed_stmt rejected (placed.after isOpen (by simp [Node.stmtParts]) shaped.2.1.1.free) shaped.2.2.1
        covers.right.right isOpen)
  | .whileLoop condition body, _, _, _, _, placed, shaped, covers, isOpen =>
    .whileLoop (placed_expr condition (placed.inner (by simp [Node.stmtParts])) shaped.1 covers.left)
      (placed_stmt body (placed.inner (by simp [Node.stmtParts])) shaped.2.1 covers.right isOpen)
  | .funDecl declaration, _, _, _, _, placed, shaped, covers, isOpen => by
    have inner := placed.after isOpen List.mem_cons_self (by simpa using shaped.1.2.symm)
    exact .funDecl ⟨rfl, rfl, shaped.1, isOpen⟩ (placed_function declaration inner.settled inner.fits shaped.2 covers)
  | .returnStmt _ none, _, _, _, _, _, _, _, _ => .returnNone rfl
  | .returnStmt _ (some value), _, _, _, _, placed, shaped, covers, isOpen =>
    .returnSome rfl (placed_expr value (placed.inner List.mem_cons_self) shaped covers)
  | .classDecl name superclass methods, site, place, globals, above, placed, shaped, _, isOpen => by
    have parent : pairing.MatchSuperclass site superclass superclass := by
      cases superclass with
      | none => exact .none
      | some => exact .some rfl rfl
    let inside : Step :=
      { earlier := [name.lexeme], opened := Node.classScopes superclass.isSome, entersClass := true }
    have settled (method : FunctionDecl Distance) (member : method ∈ methods) : Spot.All (Spot.Settled known)
        (Spot.enter ⟨.stmt (.classDecl name superclass methods), place, globals, above⟩ inside (.function method)) :=
      placed.settled.enter (List.mem_append_right _ (List.mem_map_of_mem member))
    exact .classDecl rfl parent ⟨rfl, rfl, shaped.1, isOpen⟩ ⟨isOpen, rfl⟩ (placed_methods methods
      (fun method member => ⟨settled method member, superclass.isSome, _, rfl, rfl⟩) shaped.2)

theorem placed_body : ∀ (body : List (Stmt Distance)) {site : Site} {place : Place} {globals earlier : List String}
    {above : List (Node Distance)},
    (∀ spot ∈ Spot.inOrder place globals above earlier body, spot.All (Spot.Settled known)) →
    site.Fits (Place.declare earlier place.scopes) (Around.class? above) → Stmt.ShapedAll body →
    site.Covers (Stmt.supersAll · body) → site.Open → pairing.MatchBody site site body body
  | [], _, _, _, _, _, _, _, _, _, _ => .nil
  | first :: rest, _, _, _, _, _, settled, fits, shaped, covers, isOpen => by
    have head : Placed known _ _ := ⟨settled _ List.mem_cons_self, fits⟩
    refine .cons (placed_stmt first head shaped.1 covers.left isOpen) (placed_body rest
      (fun spot member => settled spot (List.mem_cons_of_mem _ member)) ?_ shaped.2 covers.right isOpen)
    rw [declare_append]
    exact fits.declare isOpen shaped.1.free

theorem placed_function : ∀ (declaration : FunctionDecl Distance) {site : Site} {place : Place} {globals : List String}
    {above : List (Node Distance)},
    Spot.All (Spot.Settled known) ⟨.function declaration, place, globals, above⟩ →
    site.Fits place.scopes (Around.class? (.function declaration :: above)) → declaration.Shaped →
    site.Covers (FunctionDecl.supersFrom · declaration) → pairing.MatchFunction site declaration declaration
  | .mk name params body, site, place, globals, above, settled, fits, shaped, covers => by
    have free : "super" ∉ params.map Token.lexeme := by
      intro member
      obtain ⟨param, isParam, same⟩ := List.mem_map.mp member
      exact (shaped.1 param isParam).2 same
    have inner : Spot.All (Spot.Settled known) (Spot.enter ⟨.function (.mk name params body), place, globals, above⟩
        { opened := [params.map Token.lexeme] } (.sequence body)) := settled.enter List.mem_cons_self
    refine .mk rfl rfl ⟨rfl, rfl, shaped.1⟩ (placed_body body (fun spot member => inner.part member) ?_ shaped.2
      covers.inside site.open_inside)
    simp only [Spot.enter, Place.enter, declare_nil]
    exact fits.inside free

theorem placed_methods : ∀ (methods : List (FunctionDecl Distance)) {place : Place} {globals : List String}
    {above : List (Node Distance)},
    (∀ method ∈ methods, Spot.All (Spot.Settled known) ⟨.function method, place, globals, above⟩ ∧
      ∃ hasSuperclass outer, Around.class? (.function method :: above) = some hasSuperclass ∧
        place.scopes = Node.classScopes hasSuperclass ++ outer) →
    FunctionDecl.ShapedAll methods → pairing.MatchMethods .owner methods methods
  | [], _, _, _, _, _ => .nil
  | first :: rest, _, _, _, placed, shaped => by
    obtain ⟨settled, hasSuperclass, outer, found, around⟩ := placed first List.mem_cons_self
    refine .cons ⟨rfl, rfl⟩ (placed_function first settled ⟨hasSuperclass, [], outer, found, around, rfl, nofun⟩ shaped.1 ?_)
      (placed_methods rest (fun method member => placed method (List.mem_cons_of_mem _ member)) shaped.2)
    rintro _ _ ⟨⟩ node member
    exact member

end

/-- A program that was bound without a fault matches itself. -/
theorem matchProgram {source : Program Unit} (shaped : Stmt.ShapedAll source)
    (clean : (source.bind known).faults = []) :
    pairing.MatchBody .plain .plain (source.bind known).program (source.bind known).program := by
  have settled := Program.settled_of_bind clean
  rw [← (source.addressed_bind known).1] at shaped
  have shaped := Stmt.shapedAll_of_bare _ shaped
  exact placed_body _ (fun spot member => settled.part member) rfl shaped nofun trivial

end Receivers

end Lox

import Lox.Proofs.Pairing.Runs

/-!
Pairings of a tree with itself, where the two runs differ at most in how names are looked up.
-/
namespace Lox

namespace Scheme

/-- What corresponds is the same. -/
structure Diagonal (scheme : Scheme) : Prop where
  same : ∀ {token token'}, scheme.Same token token' → token' = token
  reads : ∀ {around reference reference'}, scheme.Reads around reference reference' → reference' = reference
  assigns : ∀ {around reference reference'}, scheme.Assigns around reference reference' → reference' = reference
  supers : ∀ {around reference reference'}, scheme.Supers around reference reference' → reference' = reference
  declares : ∀ {around name name' after}, scheme.Declares around name name' after → name' = name
  opens : ∀ {around params params' inside}, scheme.Opens around params params' inside → params' = params

namespace Diagonal

variable {scheme : Scheme}

mutual

theorem expr (diagonal : scheme.Diagonal) : ∀ {around : scheme.Around} {expr expr' : Expr Distance},
    scheme.MatchExpr around expr expr' → expr' = expr
  | _, _, _, .literal _ => rfl
  | _, _, _, .grouping part => by rw [diagonal.expr part]
  | _, _, _, .unary same part => by rw [diagonal.expr part, diagonal.same same]
  | _, _, _, .binary same first second => by rw [diagonal.expr first, diagonal.expr second, diagonal.same same]
  | _, _, _, .logical same first second => by rw [diagonal.expr first, diagonal.expr second, diagonal.same same]
  | _, _, _, .read reads => by
    cases diagonal.reads reads
    rfl
  | _, _, _, .assign assigns part => by
    cases diagonal.assigns assigns
    rw [diagonal.expr part]
  | _, _, _, .call same part parts => by rw [diagonal.expr part, diagonal.exprs parts, diagonal.same same]
  | _, _, _, .get same _ part => by rw [diagonal.expr part, diagonal.same same]
  | _, _, _, .set same _ first second => by rw [diagonal.expr first, diagonal.expr second, diagonal.same same]
  | _, _, _, .this reads => by
    cases diagonal.reads reads
    rfl
  | _, _, _, .super supers _ _ => by
    cases diagonal.supers supers
    rfl

theorem exprs (diagonal : scheme.Diagonal) : ∀ {around : scheme.Around} {exprs exprs' : List (Expr Distance)},
    scheme.MatchExprs around exprs exprs' → exprs' = exprs
  | _, _, _, .nil => rfl
  | _, _, _, .cons head tail => by rw [diagonal.expr head, diagonal.exprs tail]

end

mutual

theorem stmt (diagonal : scheme.Diagonal) : ∀ {around after : scheme.Around} {stmt stmt' : Stmt Distance},
    scheme.MatchStmt around after stmt stmt' → stmt' = stmt
  | _, _, _, _, .expression part => by rw [diagonal.expr part]
  | _, _, _, _, .print part => by rw [diagonal.expr part]
  | _, _, _, _, .varDecl declares => by rw [diagonal.declares declares]
  | _, _, _, _, .varInit part declares => by rw [diagonal.expr part, diagonal.declares declares]
  | _, _, _, _, .block _ parts => by rw [diagonal.body parts]
  | _, _, _, _, .ifThen test part => by rw [diagonal.expr test, diagonal.stmt part]
  | _, _, _, _, .ifElse test first second => by rw [diagonal.expr test, diagonal.stmt first, diagonal.stmt second]
  | _, _, _, _, .whileLoop test part => by rw [diagonal.expr test, diagonal.stmt part]
  | _, _, _, _, .funDecl _ part => by rw [diagonal.function part]
  | _, _, _, _, .returnNone same => by rw [diagonal.same same]
  | _, _, _, _, .returnSome same part => by rw [diagonal.expr part, diagonal.same same]
  | _, _, _, _, .classDecl _ parent declares _ parts => by
    rw [diagonal.methods parts, diagonal.declares declares]
    cases parent with
    | none => rfl
    | some _ reads => rw [diagonal.reads reads]

theorem body (diagonal : scheme.Diagonal) : ∀ {around after : scheme.Around} {body body' : List (Stmt Distance)},
    scheme.MatchBody around after body body' → body' = body
  | _, _, _, _, .nil => rfl
  | _, _, _, _, .cons head tail => by rw [diagonal.stmt head, diagonal.body tail]

theorem function (diagonal : scheme.Diagonal) : ∀ {around : scheme.Around} {declaration declaration' : FunctionDecl Distance},
    scheme.MatchFunction around declaration declaration' → declaration' = declaration
  | _, _, _, .mk same _ opens parts => by rw [diagonal.body parts, diagonal.same same, diagonal.opens opens]

theorem methods (diagonal : scheme.Diagonal) : ∀ {around : scheme.Around} {methods methods' : List (FunctionDecl Distance)},
    scheme.MatchMethods around methods methods' → methods' = methods
  | _, _, _, .nil => rfl
  | _, _, _, .cons _ head tail => by rw [diagonal.function head, diagonal.methods tail]

end

end Diagonal

end Scheme

namespace Pairing

variable {pairing : Pairing}

theorem Functions.eq (diagonal : pairing.Diagonal) {function function' : Function}
    (alike : pairing.Functions function function') : function' = function := by
  obtain ⟨declaration, closure, isInitializer⟩ := function
  obtain ⟨declaration', closure', isInitializer'⟩ := function'
  obtain ⟨closed, initializer, _, matching⟩ := alike
  have same : declaration' = declaration := diagonal.function matching
  simp only at closed initializer
  rw [same, closed, initializer]

theorem Alike.eq (diagonal : pairing.Diagonal) {halt halt' : Halt} (alike : pairing.Alike halt halt') :
    halt' = halt := by
  obtain same | ⟨cause, token, token', rfl, rfl, shown⟩ := alike.cases
  · exact same
  · rw [diagonal.same shown]

/-- Where the frames are the same, so are the machines. -/
theorem Scene.Agrees.mirror {scene : pairing.Scene} (agrees : scene.Agrees) (diagonal : pairing.Diagonal)
    (same : scene.left.frames = scene.right.frames) : scene.left = scene.right := by
  have functions : scene.left.functions = scene.right.functions := by
    apply Array.ext agrees.size
    intro id isLeft isRight
    have alike := agrees.functions id _ _ (Array.getElem?_eq_getElem isLeft) (Array.getElem?_eq_getElem isRight)
    exact (alike.eq diagonal).symm
  have classes := agrees.classes
  have instances := agrees.instances
  have current := agrees.current
  have output := agrees.output
  have now := agrees.now
  obtain ⟨world, ⟨⟨frames, functions, classes, instances⟩, current, output, now⟩,
    ⟨⟨frames', functions', classes', instances'⟩, current', output', now'⟩⟩ := scene
  simp_all

end Pairing

end Lox

import Lox.Proofs.Run.Moved
import Lox.Proofs.Scope.Addresses

/-!
Binding does not look at places. Trees that differ only in where their tokens stand are bound to the same distances,
with the same faults, each at the token that has moved.
-/
namespace Lox

/-- Walks at the same point of two trees. -/
structure Binder.Moved (Moves : Token → Token → Prop) (binder binder' : Binder) : Prop where
  scopes : binder'.scopes = binder.scopes
  declared : binder'.declared = binder.declared
  pending : binder'.pending = binder.pending
  faults : List.Forall₂ (Located.Moved Moves) binder.faults.toList binder'.faults.toList

namespace Binder.Moved

variable {Moves : Token → Token → Prop} {binder binder' : Binder} {name name' : Token}

theorem complain (before : binder.Moved Moves binder') (moved : Moves name name') (cause : ScopeFault) :
    (binder.complain name cause).Moved Moves (binder'.complain name' cause) := by
  refine ⟨before.scopes, before.declared, before.pending, ?_⟩
  simp only [Binder.complain, Array.toList_push]
  exact List.rel_append before.faults (.cons ⟨rfl, moved⟩ .nil)

theorem declare (before : binder.Moved Moves binder') (known : List String) (moved : Moves name name')
    (spelled : name'.lexeme = name.lexeme) : (binder.declare known name).Moved Moves (binder'.declare known name') := by
  obtain ⟨scopes, declared, pending, faults⟩ := binder
  obtain ⟨scopes', declared', pending', faults'⟩ := binder'
  obtain ⟨rfl, rfl, rfl, found⟩ := id before
  unfold Binder.declare
  rw [spelled]
  cases scopes' with
  | nil =>
    dsimp only
    split
    · exact before
    · exact ⟨rfl, rfl, rfl, found⟩
  | cons scope outer =>
    dsimp only
    split
    · exact ⟨rfl, rfl, rfl, (before.complain moved .alreadyDeclared).faults⟩
    · exact ⟨rfl, rfl, rfl, found⟩

theorem define (before : binder.Moved Moves binder') (spelled : name'.lexeme = name.lexeme) :
    (binder.define name).Moved Moves (binder'.define name') := by
  obtain ⟨scopes, declared, pending, faults⟩ := binder
  obtain ⟨scopes', declared', pending', faults'⟩ := binder'
  obtain ⟨rfl, rfl, rfl, found⟩ := before
  unfold Binder.define
  rw [spelled]
  cases scopes' <;> exact ⟨rfl, rfl, rfl, found⟩

end Binder.Moved

namespace Bind

variable {Moves : Token → Token → Prop} {α α' β β' : Type}

/-- Two actions that give corresponding results at the same point of the walks. -/
def Twins (Moves : Token → Token → Prop) (action : Bind α) (action' : Bind α') (Out : α → α' → Prop) : Prop :=
  ∀ ⦃binder binder'⦄, binder.Moved Moves binder' →
    Out (action binder).1 (action' binder').1 ∧ (action binder).2.Moved Moves (action' binder').2

variable {action : Bind α} {action' : Bind α'} {Out : α → α' → Prop}

theorem Twins.pure {value : α} {value' : α'} (out : Out value value') :
    Twins Moves (Pure.pure value) (Pure.pure value') Out :=
  fun _ _ moved => ⟨out, moved⟩

theorem Twins.bind {next : α → Bind β} {next' : α' → Bind β'} {Out' : β → β' → Prop}
    (first : Twins Moves action action' Out)
    (second : ∀ value value', Out value value' → Twins Moves (next value) (next' value') Out') :
    Twins Moves (action >>= next) (action' >>= next') Out' := by
  intro binder binder' moved
  obtain ⟨out, moved'⟩ := first moved
  exact second _ _ out moved'

theorem twins_modify {change change' : Binder → Binder}
    (keeps : ∀ binder binder', binder.Moved Moves binder' → (change binder).Moved Moves (change' binder')) :
    Twins Moves (modify change) (modify change') Eq :=
  fun _ _ moved => ⟨rfl, keeps _ _ moved⟩

theorem twins_complain {token token' : Token} (moved : Moves token token') (cause : ScopeFault) :
    Twins Moves (complain token cause) (complain token' cause) Eq :=
  twins_modify fun _ _ before => before.complain moved cause

theorem twins_inScope (names : List String) (inside : Twins Moves action action' Out) :
    Twins Moves (inScope names action) (inScope names action') Out := by
  have opens : Twins Moves (modify (·.openScope names)) (modify (·.openScope names)) Eq :=
    twins_modify fun binder binder' moved =>
      ⟨by simp only [Binder.openScope, moved.scopes], moved.declared, moved.pending, moved.faults⟩
  have closes : Twins Moves (modify Binder.closeScope) (modify Binder.closeScope) Eq :=
    twins_modify fun binder binder' moved =>
      ⟨by simp only [Binder.closeScope, moved.scopes], moved.declared, moved.pending, moved.faults⟩
  exact opens.bind fun _ _ _ => inside.bind fun _ _ out => closes.bind fun _ _ _ => .pure out

theorem twins_inClassScopes (hasSuperclass : Bool) (inside : Twins Moves action action' Out) :
    Twins Moves (inClassScopes hasSuperclass action) (inClassScopes hasSuperclass action') Out := by
  cases hasSuperclass with
  | false => exact twins_inScope _ inside
  | true => exact twins_inScope _ (twins_inScope _ inside)

section Names

variable (places : Relocates Moves) {name name' : Token}

include places

theorem twins_distance? (moved : Moves name name') :
    Twins Moves (distance? name) (distance? name') fun note note' => note' = note := by
  intro binder binder' before
  refine ⟨?_, before⟩
  change binder'.distance? name'.lexeme = binder.distance? name.lexeme
  unfold Binder.distance?
  rw [before.scopes, (places moved).lexeme]

theorem twins_readName (moved : Moves name name') :
    Twins Moves (readName name) (readName name') fun note note' => note' = note := by
  intro binder binder' before
  have same : binder'.readFault? name' = binder.readFault? name := by
    unfold Binder.readFault?
    rw [before.scopes, before.pending, (places moved).lexeme]
  rw [readName_apply, readName_apply, same]
  refine ⟨(twins_distance? places moved before).1, ?_⟩
  cases binder.readFault? name with
  | none => exact before
  | some cause => exact before.complain moved cause

theorem twins_introduce (known : List String) (moved : Moves name name') :
    Twins Moves (introduce known name) (introduce known name') Eq :=
  twins_modify fun _ _ before => (before.declare known moved (places moved).lexeme).define (places moved).lexeme

theorem twins_params (known : List String) {params params' : List Token} (moved : List.Forall₂ Moves params params') :
    Twins Moves (params.forM (introduce known)) (params'.forM (introduce known)) Eq := by
  induction moved with
  | nil => exact .pure rfl
  | cons head _ ih => exact (twins_introduce places known head).bind fun _ _ _ => ih

variable {ρ : Type}

theorem twins_superclass (moved : Moves name name') {superclass superclass' : Option (Token × ρ)}
    (parent : MovedSuperclass Moves superclass superclass') :
    Twins Moves (Bind.superclass name superclass) (Bind.superclass name' superclass')
      ((Places.scheme Moves).MatchSuperclass ()) := by
  cases parent with
  | none => exact .pure .none
  | @some parent parent' _ token =>
    have reads : Twins Moves (do return some (parent, ← readName parent)) (do return some (parent', ← readName parent'))
        ((Places.scheme Moves).MatchSuperclass ()) := by
      refine (twins_readName places token).bind ?_
      rintro note _ rfl
      exact .pure (.some token ⟨token, rfl⟩)
    simp only [Bind.superclass, (places token).lexeme, (places moved).lexeme]
    split
    · exact (twins_complain token _).bind fun _ _ _ => reads
    · exact reads

end Names

section Trees

variable {ρ : Type}

mutual

theorem twins_expr (places : Relocates Moves) (around : Surrounding) :
    ∀ (expr : Expr ρ) {expr' : Expr ρ}, Expr.Moved Moves expr expr' →
    Twins Moves (expr.bind around) (expr'.bind around) ((Places.scheme Moves).MatchExpr ())
  | .literal _, _, .literal _ => .pure (.literal _)
  | .grouping inner, _, .grouping part => (twins_expr places around inner part).bind fun _ _ part => .pure (.grouping part)
  | .unary _ _ operand, _, .unary token part =>
    (twins_expr places around operand part).bind fun _ _ part => .pure (.unary token part)
  | .binary _ left _ right, _, .binary token first second =>
    (twins_expr places around left first).bind fun _ _ first => (twins_expr places around right second).bind fun _ _ second =>
      .pure (.binary token first second)
  | .logical _ left _ right, _, .logical token first second =>
    (twins_expr places around left first).bind fun _ _ first => (twins_expr places around right second).bind fun _ _ second =>
      .pure (.logical token first second)
  | .read _ _, _, .read token => (twins_readName places token).bind fun _ _ same => .pure (.read ⟨token, same⟩)
  | .assign _ _ value, _, .assign token part =>
    (twins_expr places around value part).bind fun _ _ part => (twins_distance? places token).bind fun _ _ same =>
      .pure (.assign ⟨token, same⟩ part)
  | .call callee _ arguments, _, .call token part parts =>
    (twins_expr places around callee part).bind fun _ _ part => (twins_exprs places around arguments parts).bind fun _ _ parts =>
      .pure (.call token part parts)
  | .get object _, _, .get token part =>
    (twins_expr places around object part).bind fun _ _ part => .pure (.get token (places token).lexeme.symm part)
  | .set object _ value, _, .set token first second =>
    (twins_expr places around value second).bind fun _ _ second => (twins_expr places around object first).bind fun _ _ first =>
      .pure (.set token (places token).lexeme.symm first second)
  | .this keyword _, _, .this token => by
    unfold Expr.bind
    split
    · exact (twins_complain token _).bind fun _ _ _ => .pure (.this ⟨token, rfl⟩)
    · exact (twins_distance? places token).bind fun _ _ same => .pure (.this ⟨token, same⟩)
  | .super keyword _ _, _, .super token name => by
    unfold Expr.bind
    cases around.owner with
    | none =>
      refine (twins_complain token _).bind fun _ _ _ => (twins_distance? places token).bind fun _ _ same => ?_
      exact .pure (.super same name (places name).lexeme.symm)
    | plain =>
      refine (twins_complain token _).bind fun _ _ _ => (twins_distance? places token).bind fun _ _ same => ?_
      exact .pure (.super same name (places name).lexeme.symm)
    | subclass =>
      exact (twins_distance? places token).bind fun _ _ same => .pure (.super same name (places name).lexeme.symm)

theorem twins_exprs (places : Relocates Moves) (around : Surrounding) : ∀ (exprs : List (Expr ρ)) {exprs' : List (Expr ρ)},
    List.Forall₂ (Expr.Moved Moves) exprs exprs' →
    Twins Moves (Expr.bindAll around exprs) (Expr.bindAll around exprs') ((Places.scheme Moves).MatchExprs ())
  | [], _, .nil => .pure .nil
  | first :: rest, _, .cons head tail =>
    (twins_expr places around first head).bind fun _ _ head => (twins_exprs places around rest tail).bind fun _ _ tail =>
      .pure (.cons head tail)

end

theorem twins_option (places : Relocates Moves) (around : Surrounding) {value value' : Option (Expr ρ)}
    (moved : Option.Rel (Expr.Moved Moves) value value') :
    Twins Moves (Expr.bindOption around value) (Expr.bindOption around value')
      (Option.Rel ((Places.scheme Moves).MatchExpr ())) := by
  cases moved with
  | none => exact .pure .none
  | some part => exact (twins_expr places around _ part).bind fun _ _ part => .pure (.some part)

theorem match_return {keyword keyword' : Token} (token : Moves keyword keyword') {value value' : Option (Expr Distance)}
    (part : Option.Rel ((Places.scheme Moves).MatchExpr ()) value value') :
    (Places.scheme Moves).MatchStmt () () (.returnStmt keyword value) (.returnStmt keyword' value') := by
  cases part with
  | none => exact .returnNone token
  | some value => exact .returnSome token value

/-- The two complaints that a `return` can give rise to come before what it returns. -/
theorem twins_return {around : Surrounding} {known : List String} {keyword keyword' : Token} (token : Moves keyword keyword')
    {value value' : Option (Expr ρ)} (part : Option.Rel (Expr.Moved Moves) value value')
    (inside : Twins Moves (Expr.bindOption around value) (Expr.bindOption around value')
      (Option.Rel ((Places.scheme Moves).MatchExpr ()))) :
    Twins Moves ((Stmt.returnStmt keyword value).bind known around) ((Stmt.returnStmt keyword' value').bind known around)
      ((Places.scheme Moves).MatchStmt () ()) := by
  have given : value'.isSome = value.isSome := by
    cases part <;> rfl
  have ends : Twins Moves (do return Stmt.returnStmt keyword (← Expr.bindOption around value))
      (do return Stmt.returnStmt keyword' (← Expr.bindOption around value')) ((Places.scheme Moves).MatchStmt () ()) :=
    inside.bind fun _ _ bound => .pure (match_return token bound)
  unfold Stmt.bind
  rw [given]
  split <;> split
  · exact (twins_complain token _).bind fun _ _ _ => (twins_complain token _).bind fun _ _ _ => ends
  · exact (twins_complain token _).bind fun _ _ _ => ends
  · exact (twins_complain token _).bind fun _ _ _ => ends
  · exact ends

mutual

theorem twins_stmt (places : Relocates Moves) (known : List String) :
    ∀ (around : Surrounding) (stmt : Stmt ρ) {stmt' : Stmt ρ}, Stmt.Moved Moves stmt stmt' →
    Twins Moves (stmt.bind known around) (stmt'.bind known around) ((Places.scheme Moves).MatchStmt () ())
  | around, .expression _, _, .expression part =>
    (twins_expr places around _ part).bind fun _ _ part => .pure (.expression part)
  | around, .print _, _, .print part => (twins_expr places around _ part).bind fun _ _ part => .pure (.print part)
  | around, .varDecl name _, _, .varDecl token part => by
    have spelled := (places token).lexeme
    unfold Stmt.bind
    refine (twins_modify fun _ _ before => before.declare known token spelled).bind fun _ _ _ => ?_
    refine (twins_option places around part).bind fun _ _ initial => ?_
    refine (twins_modify fun _ _ before => before.define spelled).bind fun _ _ _ => .pure ?_
    cases initial with
    | none => exact .varDecl token
    | some value => exact .varInit value token
  | around, .block body, _, .block parts =>
    (twins_inScope [] (twins_body places known around body parts)).bind fun _ _ parts => .pure (.block .nil parts)
  | around, .ifThen _ accepted, _, .ifThen test part =>
    (twins_expr places around _ test).bind fun _ _ test => (twins_stmt places known around accepted part).bind fun _ _ part =>
      .pure (.ifThen test part)
  | around, .ifElse _ accepted rejected, _, .ifElse test first second =>
    (twins_expr places around _ test).bind fun _ _ test => (twins_stmt places known around accepted first).bind fun _ _ first =>
      (twins_stmt places known around rejected second).bind fun _ _ second => .pure (.ifElse test first second)
  | around, .whileLoop _ body, _, .whileLoop test part =>
    (twins_expr places around _ test).bind fun _ _ test => (twins_stmt places known around body part).bind fun _ _ part =>
      .pure (.whileLoop test part)
  | around, .funDecl declaration, _, .funDecl part => by
    unfold Stmt.bind
    refine (twins_introduce places known part.name).bind fun _ _ _ => ?_
    exact (twins_function places known _ declaration part).bind fun _ _ bound => .pure (.funDecl bound.same bound)
  | around, .returnStmt _ _, _, .returnStmt token part => twins_return token part (twins_option places around part)
  | around, .classDecl _ _ methods, _, .classDecl token parent parts => by
    unfold Stmt.bind
    refine (twins_introduce places known token).bind fun _ _ _ => ?_
    refine (twins_superclass places token parent).bind fun superclass superclass' parent => ?_
    have same : superclass'.isSome = superclass.isSome := by
      cases parent <;> rfl
    rw [same]
    refine (twins_inClassScopes _ (twins_methods places known _ methods parts)).bind fun _ _ parts => ?_
    exact .pure (.classDecl (places token).lexeme.symm parent token trivial parts)

theorem twins_body (places : Relocates Moves) (known : List String) :
    ∀ (around : Surrounding) (body : List (Stmt ρ)) {body' : List (Stmt ρ)},
    List.Forall₂ (Stmt.Moved Moves) body body' →
    Twins Moves (Stmt.bindAll known around body) (Stmt.bindAll known around body')
      ((Places.scheme Moves).MatchBody () ())
  | _, [], _, .nil => .pure .nil
  | around, first :: rest, _, .cons head tail =>
    (twins_stmt places known around first head).bind fun _ _ head =>
      (twins_body places known around rest tail).bind fun _ _ tail => .pure (.cons head tail)

theorem twins_function (places : Relocates Moves) (known : List String) :
    ∀ (around : Surrounding) (declaration : FunctionDecl ρ)
    {declaration' : FunctionDecl ρ}, FunctionDecl.Moved Moves declaration declaration' →
    Twins Moves (declaration.bind known around) (declaration'.bind known around)
      ((Places.scheme Moves).MatchFunction ())
  | around, .mk _ _ body, _, .mk token tokens parts => by
    unfold FunctionDecl.bind
    refine Twins.bind (twins_inScope [] ((twins_params places known tokens).bind fun _ _ _ =>
      twins_body places known around body parts)) fun _ _ parts => ?_
    exact .pure (.mk token (places token).lexeme.symm tokens parts)

theorem twins_methods (places : Relocates Moves) (known : List String) :
    ∀ (around : Surrounding) (methods : List (FunctionDecl ρ))
    {methods' : List (FunctionDecl ρ)}, List.Forall₂ (FunctionDecl.Moved Moves) methods methods' →
    Twins Moves (FunctionDecl.bindMethods known around methods) (FunctionDecl.bindMethods known around methods')
      ((Places.scheme Moves).MatchMethods ())
  | _, [], _, .nil => .pure .nil
  | around, first :: rest, _, .cons head tail => by
    unfold FunctionDecl.bindMethods
    rw [(places head.name).lexeme]
    refine (twins_function places known _ first head).bind fun _ _ head => ?_
    exact (twins_methods places known around rest tail).bind fun _ _ tail => .pure (.cons trivial head tail)

end

end Trees

end Bind

theorem Program.moved_bind {Moves : Token → Token → Prop} {ρ : Type} (places : Relocates Moves) (known : List String)
    {program program' : Program ρ} (moved : List.Forall₂ (Stmt.Moved Moves) program program') :
    (Places.scheme Moves).MatchBody () () (program.bind known).program (program'.bind known).program ∧
      List.Forall₂ (Located.Moved Moves) (program.bind known).faults (program'.bind known).faults := by
  have start : ({} : Binder).Moved Moves {} := ⟨rfl, rfl, rfl, .nil⟩
  obtain ⟨bodies, walks⟩ := Bind.twins_body places known {} program moved start
  exact ⟨bodies, walks.faults⟩

end Lox

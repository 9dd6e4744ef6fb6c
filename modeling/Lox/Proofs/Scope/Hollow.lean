import Lox.Proofs.Grammar.Shape
import Lox.Proofs.Pairing
import Lox.Proofs.Scope.Addresses

/-!
Trees that are bound inside one more scope than they need. Nothing is ever declared in that scope, so it is hollow:
every name is found in the scope in which it is found without it, at a distance that is greater by one if that scope
lies outside of the hollow one.
-/
namespace Lox

namespace Hollow

/-- A distance with the hollow scope counted in. There may be none; otherwise it is told by the number of scopes
inside of it. -/
def shift : Option Nat → Nat → Nat
  | none, distance => distance
  | some depth, distance => if distance < depth then distance else distance + 1

/-- Where the hollow scope is, seen from one scope further in. -/
def deeper (hollow : Option Nat) : Option Nat := hollow.map (· + 1)

variable {hollow : Option Nat} {distance : Nat}

@[simp]
theorem shift_none (distance : Nat) : shift none distance = distance := rfl

@[simp]
theorem shift_deeper_zero (hollow : Option Nat) : shift (deeper hollow) 0 = 0 := by
  cases hollow <;> simp [shift, deeper]

@[simp]
theorem shift_deeper_succ (hollow : Option Nat) (distance : Nat) :
    shift (deeper hollow) (distance + 1) = shift hollow distance + 1 := by
  cases hollow with
  | none => rfl
  | some depth =>
    by_cases inside : distance < depth <;> simp [shift, deeper, inside]

theorem deeper_ne_zero (hollow : Option Nat) : deeper hollow ≠ some 0 := by
  cases hollow <;> simp [deeper]

/-- The frame at hand is the same frame unless it is the hollow one. -/
theorem shift_zero (apart : hollow ≠ some 0) : shift hollow 0 = 0 := by
  cases hollow with
  | none => rfl
  | some depth =>
    have positive : 0 < depth := Nat.pos_of_ne_zero fun zero => apart (congrArg some zero)
    simp [shift, positive]

/-- Of two scopes one right inside the other, neither of them the hollow one, that stays so unless the hollow one lies
between them. -/
theorem shift_sub_one (apart : hollow ≠ some distance) : shift hollow (distance - 1) = shift hollow distance - 1 := by
  cases hollow with
  | none => rfl
  | some depth =>
    have other : depth ≠ distance := fun same => apart (congrArg some same)
    by_cases inside : distance < depth
    · simp [shift, inside, Nat.lt_of_le_of_lt (Nat.sub_le distance 1) inside]
    · have beyond : ¬ distance - 1 < depth := by omega
      simp only [shift, inside, beyond, if_false]
      omega

/-- A tree bound inside a hollow scope, and the same tree bound without it. -/
def scheme : Scheme where
  Around := Option Nat
  Same := Eq
  Reads hollow reference reference' := reference.1 = reference'.1 ∧ reference.2 = reference'.2.map (shift hollow)
  Assigns hollow reference reference' := reference.1 = reference'.1 ∧ reference.2 = reference'.2.map (shift hollow)
  Supers hollow reference reference' := reference.1.2 = reference'.1.2.map (shift hollow) ∧
    ∀ distance, reference'.1.2 = some distance → hollow ≠ some distance
  Declares hollow name name' after := name = name' ∧ hollow ≠ some 0 ∧ after = hollow
  Opens hollow params params' inside := params = params' ∧ inside = deeper hollow
  Inherits hollow hasSuperclass inside := inside = if hasSuperclass then deeper hollow else hollow
  Binds hollow _ _ inside := inside = deeper hollow

/-- Functions that match have the same parameters, and bodies that match inside of one more scope. -/
theorem match_parts {hollow : scheme.Around} {declaration declaration' : FunctionDecl Distance}
    (matching : scheme.MatchFunction hollow declaration declaration') : declaration.params = declaration'.params ∧
      ∃ last, scheme.MatchBody (deeper hollow) last declaration.body declaration'.body := by
  cases matching with
  | mk _ _ opens parts =>
    obtain ⟨same, rfl⟩ := opens
    exact ⟨same, _, parts⟩

/-! Any bound tree matches itself where there is no hollow scope. -/

mutual

theorem matchExpr_self : ∀ expr : Expr Distance, scheme.MatchExpr none expr expr
  | .literal value => .literal value
  | .grouping inner => .grouping (matchExpr_self inner)
  | .unary _ _ operand => .unary rfl (matchExpr_self operand)
  | .binary _ left _ right => .binary rfl (matchExpr_self left) (matchExpr_self right)
  | .logical _ left _ right => .logical rfl (matchExpr_self left) (matchExpr_self right)
  | .read _ note => .read ⟨rfl, by cases note <;> rfl⟩
  | .assign _ note value => .assign ⟨rfl, by cases note <;> rfl⟩ (matchExpr_self value)
  | .call callee _ arguments => .call rfl (matchExpr_self callee) (matchExprs_self arguments)
  | .get object _ => .get rfl rfl (matchExpr_self object)
  | .set object _ value => .set rfl rfl (matchExpr_self object) (matchExpr_self value)
  | .this _ note => .this ⟨rfl, by cases note <;> rfl⟩
  | .super _ note _ => .super ⟨by cases note <;> rfl, nofun⟩ rfl rfl

theorem matchExprs_self : ∀ exprs : List (Expr Distance), scheme.MatchExprs none exprs exprs
  | [] => .nil
  | first :: rest => .cons (matchExpr_self first) (matchExprs_self rest)

end

theorem declares_self (name : Token) : scheme.Declares none name name none := ⟨rfl, nofun, rfl⟩

mutual

theorem matchStmt_self : ∀ stmt : Stmt Distance, scheme.MatchStmt none none stmt stmt
  | .expression value => .expression (matchExpr_self value)
  | .print value => .print (matchExpr_self value)
  | .varDecl name none => .varDecl (declares_self name)
  | .varDecl name (some value) => .varInit (matchExpr_self value) (declares_self name)
  | .block body => .block ⟨rfl, rfl⟩ (matchBody_self body)
  | .ifThen condition accepted => .ifThen (matchExpr_self condition) (matchStmt_self accepted)
  | .ifElse condition accepted rejected =>
    .ifElse (matchExpr_self condition) (matchStmt_self accepted) (matchStmt_self rejected)
  | .whileLoop condition body => .whileLoop (matchExpr_self condition) (matchStmt_self body)
  | .funDecl declaration => .funDecl (declares_self _) (matchFunction_self declaration)
  | .returnStmt _ none => .returnNone rfl
  | .returnStmt _ (some value) => .returnSome rfl (matchExpr_self value)
  | .classDecl name superclass methods => by
    have parent : scheme.MatchSuperclass none superclass superclass := by
      match superclass with
      | none => exact .none
      | some (_, note) => exact .some rfl ⟨rfl, by cases note <;> rfl⟩
    have inherits : scheme.Inherits none superclass.isSome none := by cases superclass <;> rfl
    exact .classDecl rfl parent (declares_self name) inherits (matchMethods_self methods)

theorem matchBody_self : ∀ body : List (Stmt Distance), scheme.MatchBody none none body body
  | [] => .nil
  | first :: rest => .cons (matchStmt_self first) (matchBody_self rest)

theorem matchFunction_self : ∀ declaration : FunctionDecl Distance, scheme.MatchFunction none declaration declaration
  | .mk _ _ body => .mk rfl rfl ⟨rfl, rfl⟩ (matchBody_self body)

theorem matchMethods_self : ∀ methods : List (FunctionDecl Distance), scheme.MatchMethods none methods methods
  | [] => .nil
  | first :: rest => .cons rfl (matchFunction_self first) (matchMethods_self rest)

end

end Hollow

/-- The first one of two walks has a hollow scope that the second one lacks, with some scopes inside of it and others
outside. -/
def Binder.Inset (depth : Nat) (outer : List Scope) (binder binder' : Binder) : Prop :=
  ∃ inner, inner.length = depth ∧ binder.scopes = inner ++ Table.empty :: outer ∧ binder'.scopes = inner ++ outer

namespace Binder.Inset

variable {depth : Nat} {outer : List Scope} {binder binder' : Binder}

theorem of_scopes {after after' : Binder} (inset : binder.Inset depth outer binder')
    (same : after.scopes = binder.scopes) (same' : after'.scopes = binder'.scopes) :
    after.Inset depth outer after' := by
  obtain ⟨inner, length, scopes, scopes'⟩ := inset
  exact ⟨inner, length, same.trans scopes, same'.trans scopes'⟩

theorem openScope (inset : binder.Inset depth outer binder') (names : List String) :
    (binder.openScope names).Inset (depth + 1) outer (binder'.openScope names) := by
  obtain ⟨inner, length, scopes, scopes'⟩ := inset
  refine ⟨names.foldl (fun scope name => scope.set name true) Table.empty :: inner, congrArg (· + 1) length, ?_, ?_⟩
  · simp [Binder.openScope, scopes]
  · simp [Binder.openScope, scopes']

theorem closeScope (inset : binder.Inset (depth + 1) outer binder') :
    binder.closeScope.Inset depth outer binder'.closeScope := by
  obtain ⟨_ | ⟨scope, inner⟩, length, scopes, scopes'⟩ := inset
  · cases length
  · refine ⟨inner, Nat.succ.inj length, ?_, ?_⟩
    · simp [Binder.closeScope, scopes]
    · simp [Binder.closeScope, scopes']

/-- What is declared inside of the hollow scope leaves that as it is, and what is outside of it. -/
theorem declare (inset : binder.Inset (depth + 1) outer binder') (known : List String) (name : Token) :
    (binder.declare known name).Inset (depth + 1) outer (binder'.declare known name) := by
  obtain ⟨_ | ⟨scope, inner⟩, length, scopes, scopes'⟩ := inset
  · cases length
  · refine ⟨scope.set name.lexeme false :: inner, length, ?_, ?_⟩
    · simp [Binder.declare, scopes]
    · simp [Binder.declare, scopes']

theorem define (inset : binder.Inset (depth + 1) outer binder') (name : Token) :
    (binder.define name).Inset (depth + 1) outer (binder'.define name) := by
  obtain ⟨_ | ⟨scope, inner⟩, length, scopes, scopes'⟩ := inset
  · cases length
  · refine ⟨scope.set name.lexeme true :: inner, length, ?_, ?_⟩
    · simp [Binder.define, scopes]
    · simp [Binder.define, scopes']

theorem distance? (inset : binder.Inset depth outer binder') (name : String) :
    binder.distance? name = (binder'.distance? name).map (Hollow.shift (some depth)) := by
  obtain ⟨inner, rfl, scopes, scopes'⟩ := inset
  have nothing : (Table.empty : Scope).contains name = false := rfl
  simp only [Binder.distance?, scopes, scopes', List.findIdx?_append, List.findIdx?_cons, nothing]
  cases found : inner.findIdx? (·.contains name) with
  | some distance =>
    have inside : distance < inner.length := (List.findIdx?_eq_some_iff_getElem.mp found).1
    simp [Hollow.shift, inside]
  | none =>
    cases outer.findIdx? (·.contains name) with
    | none => rfl
    | some distance => simp [Hollow.shift, Nat.add_right_comm]

/-- A name that is not declared right outside of the hollow scope is not found there. -/
theorem distance?_ne (inset : binder.Inset depth outer binder') {name : String}
    (absent : ∀ scope, outer.head? = some scope → scope.contains name = false) :
    binder'.distance? name ≠ some depth := by
  obtain ⟨inner, rfl, _, scopes'⟩ := inset
  intro found
  rw [Binder.distance?, scopes', List.findIdx?_eq_some_iff_getElem] at found
  obtain ⟨below, held, _⟩ := found
  cases outer with
  | nil => simp at below
  | cons scope outer =>
    simp only [List.getElem_append_right (Nat.le_refl _), Nat.sub_self, List.getElem_cons_zero] at held
    rw [absent scope rfl] at held
    cases held

end Binder.Inset

namespace Bind

variable {α α' β β' : Type} {depth : Nat} {outer : List Scope}

/-- Two actions that give corresponding results with and without a hollow scope, and leave all else about the scopes
outside of it alone. -/
def Insets (depth : Nat) (outer : List Scope) (action : Bind α) (action' : Bind α') (Out : α → α' → Prop) : Prop :=
  ∀ ⦃binder binder'⦄, Binder.Inset depth outer binder binder' →
    Out (action binder).1 (action' binder').1 ∧ Binder.Inset depth outer (action binder).2 (action' binder').2

variable {action : Bind α} {action' : Bind α'} {Out : α → α' → Prop}

theorem Insets.pure {value : α} {value' : α'} (out : Out value value') :
    Insets depth outer (Pure.pure value) (Pure.pure value') Out :=
  fun _ _ inset => ⟨out, inset⟩

theorem Insets.bind {next : α → Bind β} {next' : α' → Bind β'} {Out' : β → β' → Prop}
    (first : Insets depth outer action action' Out)
    (second : ∀ value value', Out value value' → Insets depth outer (next value) (next' value') Out') :
    Insets depth outer (action >>= next) (action' >>= next') Out' := by
  intro binder binder' inset
  obtain ⟨out, inset'⟩ := first inset
  exact second _ _ out inset'

theorem insets_modify {change : Binder → Binder}
    (keeps : ∀ binder binder', Binder.Inset depth outer binder binder' →
      Binder.Inset depth outer (change binder) (change binder')) :
    Insets depth outer (modify change) (modify change) Eq :=
  fun _ _ inset => ⟨rfl, keeps _ _ inset⟩

theorem insets_complain (token : Token) (cause : ScopeFault) :
    Insets depth outer (complain token cause) (complain token cause) Eq :=
  insets_modify fun _ _ inset => inset.of_scopes rfl rfl

theorem insets_inScope (names : List String) (inside : Insets (depth + 1) outer action action' Out) :
    Insets depth outer (inScope names action) (inScope names action') Out := by
  intro binder binder' inset
  obtain ⟨out, inset'⟩ := inside (inset.openScope names)
  exact ⟨out, inset'.closeScope⟩

theorem insets_distance? (name : Token) :
    Insets depth outer (distance? name) (distance? name) fun note note' =>
      note = note'.map (Hollow.shift (some depth)) :=
  fun _ _ inset => ⟨inset.distance? name.lexeme, inset⟩

theorem insets_readName (name : Token) :
    Insets depth outer (readName name) (readName name) fun note note' =>
      note = note'.map (Hollow.shift (some depth)) := by
  intro binder binder' inset
  rw [readName_apply, readName_apply]
  refine ⟨inset.distance? name.lexeme, inset.of_scopes ?_ ?_⟩
  · split <;> rfl
  · split <;> rfl

theorem insets_introduce (known : List String) (name : Token) :
    Insets (depth + 1) outer (introduce known name) (introduce known name) Eq :=
  insets_modify fun _ _ inset => (inset.declare known name).define name

theorem insets_params (known : List String) (params : List Token) :
    Insets (depth + 1) outer (params.forM (introduce known)) (params.forM (introduce known)) Eq := by
  induction params with
  | nil => exact .pure rfl
  | cons first rest ih => exact (insets_introduce known first).bind fun _ _ _ => ih

/-- The scopes of the methods of a class: that of `this`, for each of them, and the one around it, if there is one, for
all of them. -/
theorem insets_inClassScopes {Within : Option Nat → α → α' → Prop} (hasSuperclass : Bool)
    (inside : ∀ depth', Insets (depth' + 1) outer action action' (Within (some depth'))) :
    ∃ within, Hollow.scheme.Inherits (some depth) hasSuperclass within ∧
      Insets depth outer (inClassScopes hasSuperclass action) (inClassScopes hasSuperclass action')
        (Within within) := by
  cases hasSuperclass with
  | false => exact ⟨some depth, rfl, insets_inScope _ (inside depth)⟩
  | true => exact ⟨some (depth + 1), rfl, insets_inScope _ (insets_inScope _ (inside (depth + 1)))⟩

/-- `super` is not declared right outside of the hollow scope. No statement stands right inside of a scope in which it
is, only methods do. -/
def Free (outer : List Scope) : Prop := ∀ scope, outer.head? = some scope → scope.contains "super" = false

section Trees

variable {ρ : Type}

theorem insets_superclass (name : Token) (superclass : Option (Token × ρ)) :
    Insets depth outer (Bind.superclass name superclass) (Bind.superclass name superclass)
      (Hollow.scheme.MatchSuperclass (some depth)) := by
  cases superclass with
  | none => exact .pure .none
  | some parent =>
    have reads : Insets depth outer (do return some (parent.1, ← readName parent.1))
        (do return some (parent.1, ← readName parent.1)) (Hollow.scheme.MatchSuperclass (some depth)) :=
      (insets_readName parent.1).bind fun _ _ same => .pure (.some rfl ⟨rfl, same⟩)
    simp only [Bind.superclass]
    split
    · exact (insets_complain _ _).bind fun _ _ _ => reads
    · exact reads

theorem insets_super (free : Free outer) {keyword : Token} (spelled : keyword.lexeme = "super") (method : Token) :
    Insets depth outer (do return Expr.super keyword (← distance? keyword) method)
      (do return Expr.super keyword (← distance? keyword) method) (Hollow.scheme.MatchExpr (some depth)) := by
  intro binder binder' inset
  have apart : binder'.distance? keyword.lexeme ≠ some depth := by
    rw [spelled]
    exact inset.distance?_ne free
  refine ⟨.super ⟨inset.distance? keyword.lexeme, fun distance found same => apart ?_⟩ rfl rfl, inset⟩
  rw [same]
  exact found

mutual

theorem insets_expr (free : Free outer) (around : Surrounding) : ∀ expr : Expr ρ, expr.Shaped →
    Insets depth outer (expr.bind around) (expr.bind around) (Hollow.scheme.MatchExpr (some depth))
  | .literal _, _ => .pure (.literal _)
  | .grouping inner, shaped => (insets_expr free around inner shaped).bind fun _ _ part => .pure (.grouping part)
  | .unary _ _ operand, shaped => (insets_expr free around operand shaped).bind fun _ _ part => .pure (.unary rfl part)
  | .binary _ left _ right, shaped =>
    (insets_expr free around left shaped.1).bind fun _ _ first =>
      (insets_expr free around right shaped.2).bind fun _ _ second => .pure (.binary rfl first second)
  | .logical _ left _ right, shaped =>
    (insets_expr free around left shaped.1).bind fun _ _ first =>
      (insets_expr free around right shaped.2).bind fun _ _ second => .pure (.logical rfl first second)
  | .read name _, _ => (insets_readName name).bind fun _ _ same => .pure (.read ⟨rfl, same⟩)
  | .assign name _ value, shaped =>
    (insets_expr free around value shaped.2).bind fun _ _ part => (insets_distance? name).bind fun _ _ same =>
      .pure (.assign ⟨rfl, same⟩ part)
  | .call callee _ arguments, shaped =>
    (insets_expr free around callee shaped.1).bind fun _ _ part =>
      (insets_exprs free around arguments shaped.2).bind fun _ _ parts => .pure (.call rfl part parts)
  | .get object _, shaped => (insets_expr free around object shaped).bind fun _ _ part => .pure (.get rfl rfl part)
  | .set object _ value, shaped =>
    (insets_expr free around value shaped.2).bind fun _ _ second =>
      (insets_expr free around object shaped.1).bind fun _ _ first => .pure (.set rfl rfl first second)
  | .this keyword _, _ => by
    unfold Expr.bind
    split
    · exact (insets_complain keyword _).bind fun _ _ _ => .pure (.this ⟨rfl, rfl⟩)
    · exact (insets_distance? keyword).bind fun _ _ same => .pure (.this ⟨rfl, same⟩)
  | .super keyword _ method, spelled => by
    unfold Expr.bind
    cases around.owner with
    | none => exact (insets_complain keyword _).bind fun _ _ _ => insets_super free spelled method
    | plain => exact (insets_complain keyword _).bind fun _ _ _ => insets_super free spelled method
    | subclass => exact insets_super free spelled method

theorem insets_exprs (free : Free outer) (around : Surrounding) : ∀ exprs : List (Expr ρ), Expr.ShapedAll exprs →
    Insets depth outer (Expr.bindAll around exprs) (Expr.bindAll around exprs) (Hollow.scheme.MatchExprs (some depth))
  | [], _ => .pure .nil
  | first :: rest, shaped =>
    (insets_expr free around first shaped.1).bind fun _ _ head =>
      (insets_exprs free around rest shaped.2).bind fun _ _ tail => .pure (.cons head tail)

end

theorem insets_option (free : Free outer) (around : Surrounding) (value : Option (Expr ρ))
    (shaped : Expr.ShapedOption value) :
    Insets depth outer (Expr.bindOption around value) (Expr.bindOption around value)
      (Option.Rel (Hollow.scheme.MatchExpr (some depth))) := by
  cases value with
  | none => exact .pure .none
  | some value => exact (insets_expr free around value shaped).bind fun _ _ part => .pure (.some part)

theorem insets_return (free : Free outer) (around : Surrounding) (known : List String) (keyword : Token)
    (value : Option (Expr ρ)) (shaped : Expr.ShapedOption value) :
    Insets depth outer ((Stmt.returnStmt keyword value).bind known around)
      ((Stmt.returnStmt keyword value).bind known around) (Hollow.scheme.MatchStmt (some depth) (some depth)) := by
  have ends : Insets depth outer (do return Stmt.returnStmt keyword (← Expr.bindOption around value))
      (do return Stmt.returnStmt keyword (← Expr.bindOption around value))
      (Hollow.scheme.MatchStmt (some depth) (some depth)) := by
    refine (insets_option free around value shaped).bind fun bound bound' part => .pure ?_
    cases part with
    | none => exact .returnNone rfl
    | some part => exact .returnSome rfl part
  unfold Stmt.bind
  split <;> split
  · exact (insets_complain keyword _).bind fun _ _ _ => (insets_complain keyword _).bind fun _ _ _ => ends
  · exact (insets_complain keyword _).bind fun _ _ _ => ends
  · exact (insets_complain keyword _).bind fun _ _ _ => ends
  · exact ends

/-- A statement right inside of the hollow scope declares nothing there; deeper in it may declare what it likes. -/
def Quiet (depth : Nat) (names : List String) : Prop := depth = 0 → names = []

mutual

theorem insets_stmt (free : Free outer) (known : List String) : ∀ {depth : Nat} (around : Surrounding) (stmt : Stmt ρ),
    stmt.Shaped → Quiet depth stmt.declared →
    Insets depth outer (stmt.bind known around) (stmt.bind known around)
      (Hollow.scheme.MatchStmt (some depth) (some depth))
  | _, around, .expression value, shaped, _ =>
    (insets_expr free around value shaped).bind fun _ _ part => .pure (.expression part)
  | _, around, .print value, shaped, _ =>
    (insets_expr free around value shaped).bind fun _ _ part => .pure (.print part)
  | 0, _, .varDecl _ _, _, quiet => absurd (quiet rfl) (by simp [Stmt.declared])
  | depth + 1, around, .varDecl name initial, shaped, _ => by
    unfold Stmt.bind
    refine (insets_modify fun _ _ inset => inset.declare known name).bind fun _ _ _ => ?_
    refine (insets_option free around initial shaped.2).bind fun value value' part => ?_
    refine (insets_modify fun _ _ inset => inset.define name).bind fun _ _ _ => .pure ?_
    cases part with
    | none => exact .varDecl ⟨rfl, by simp, rfl⟩
    | some part => exact .varInit part ⟨rfl, by simp, rfl⟩
  | _, around, .block body, shaped, _ =>
    (insets_inScope [] (insets_body free known around body shaped)).bind fun _ _ parts =>
      .pure (.block ⟨rfl, rfl⟩ parts)
  | _, around, .ifThen condition accepted, shaped, _ =>
    (insets_expr free around condition shaped.1).bind fun _ _ test =>
      (insets_stmt free known around accepted shaped.2.1 fun _ => shaped.2.2).bind fun _ _ part =>
        .pure (.ifThen test part)
  | _, around, .ifElse condition accepted rejected, shaped, _ =>
    (insets_expr free around condition shaped.1).bind fun _ _ test =>
      (insets_stmt free known around accepted shaped.2.1.1 fun _ => shaped.2.1.2).bind fun _ _ first =>
        (insets_stmt free known around rejected shaped.2.2.1 fun _ => shaped.2.2.2).bind fun _ _ second =>
          .pure (.ifElse test first second)
  | _, around, .whileLoop condition body, shaped, _ =>
    (insets_expr free around condition shaped.1).bind fun _ _ test =>
      (insets_stmt free known around body shaped.2.1 fun _ => shaped.2.2).bind fun _ _ part =>
        .pure (.whileLoop test part)
  | 0, _, .funDecl _, _, quiet => absurd (quiet rfl) (by simp [Stmt.declared])
  | depth + 1, around, .funDecl declaration, shaped, _ => by
    unfold Stmt.bind
    refine (insets_introduce known declaration.name).bind fun _ _ _ => ?_
    refine (insets_function free known _ declaration shaped.2).bind fun bound bound' part => .pure ?_
    exact .funDecl ⟨part.2, by simp, rfl⟩ part.1
  | _, around, .returnStmt keyword value, shaped, _ => insets_return free around known keyword value shaped
  | 0, _, .classDecl _ _ _, _, quiet => absurd (quiet rfl) (by simp [Stmt.declared])
  | depth + 1, around, .classDecl name superclass methods, shaped, _ => by
    unfold Stmt.bind
    refine (insets_introduce known name).bind fun _ _ _ => ?_
    refine (insets_superclass name superclass).bind fun parent parent' matching => ?_
    have same : parent'.isSome = parent.isSome := by cases matching <;> rfl
    rw [same]
    obtain ⟨within, inherits, inside⟩ := insets_inClassScopes parent.isSome fun _ =>
      insets_methods free known { around with owner := if parent.isSome then .subclass else .plain } methods shaped.2
    exact inside.bind fun _ _ parts => .pure (.classDecl rfl matching ⟨rfl, by simp, rfl⟩ inherits parts)

theorem insets_body (free : Free outer) (known : List String) : ∀ {depth : Nat} (around : Surrounding)
    (body : List (Stmt ρ)), Stmt.ShapedAll body →
    Insets (depth + 1) outer (Stmt.bindAll known around body) (Stmt.bindAll known around body)
      (Hollow.scheme.MatchBody (some (depth + 1)) (some (depth + 1)))
  | _, _, [], _ => .pure .nil
  | _, around, first :: rest, shaped =>
    Insets.bind (insets_stmt free known around first shaped.1 fun zero => absurd zero (Nat.succ_ne_zero _))
      fun _ _ head => (insets_body free known around rest shaped.2).bind fun _ _ tail => .pure (.cons head tail)

theorem insets_function (free : Free outer) (known : List String) : ∀ {depth : Nat} (around : Surrounding)
    (declaration : FunctionDecl ρ), declaration.Shaped →
    Insets depth outer (declaration.bind known around) (declaration.bind known around) fun bound bound' =>
      Hollow.scheme.MatchFunction (some depth) bound bound' ∧ bound.name = bound'.name
  | _, around, .mk name params body, shaped => by
    unfold FunctionDecl.bind
    refine Insets.bind (insets_inScope [] ((insets_params known params).bind fun _ _ _ =>
      insets_body free known around body shaped.2)) fun _ _ parts => .pure ?_
    exact ⟨.mk rfl rfl ⟨rfl, rfl⟩ parts, rfl⟩

theorem insets_methods (free : Free outer) (known : List String) : ∀ {depth : Nat} (around : Surrounding)
    (methods : List (FunctionDecl ρ)), FunctionDecl.ShapedAll methods →
    Insets (depth + 1) outer (FunctionDecl.bindMethods known around methods)
      (FunctionDecl.bindMethods known around methods) (Hollow.scheme.MatchMethods (some depth))
  | _, _, [], _ => .pure .nil
  | _, around, first :: rest, shaped =>
    (insets_function free known _ first shaped.1).bind fun _ _ head =>
      (insets_methods free known around rest shaped.2).bind fun _ _ tail => .pure (.cons rfl head.1 tail)

end

end Trees

end Bind

end Lox

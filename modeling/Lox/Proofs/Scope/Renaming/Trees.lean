import Lox.Proofs.Scope.Renaming.Walk

/-!
Trees with a new name, node by node. At every spot of a program that was bound without a fault, the renamed node
is bound to itself and matches the node.
-/
namespace Lox

namespace Renaming

variable {naming : Renaming} {known : List String} {mark inside : Option Nat} {layers : List Layer}
  {around : Surrounding} {place : Place} {globals : List String} {above : List (Node Distance)}

/-- A spot of a program that was bound without a fault, with what the two walks know there. -/
structure Site (naming : Renaming) (known : List String) (mark : Option Nat) (layers : List Layer)
    (around : Surrounding) (spot : Spot Distance) : Prop where
  inside : Inside around spot.place
  layered : naming.Layered mark layers spot.place.scopes
  new : naming.new ≠ "this" ∧ naming.new ≠ "super"
  old : mark.isSome → naming.old ≠ "this" ∧ naming.old ≠ "super"
  settled : spot.All (Spot.Settled known)

/-- A part of an expression. -/
theorem Site.part {expr part : Expr Distance} (site : Site naming known mark layers around ⟨.expr expr, place, globals, above⟩)
    (member : ({}, .expr part) ∈ Node.exprParts expr) :
    Site naming known mark layers around ⟨.expr part, place, globals, .expr expr :: above⟩ := by
  refine ⟨site.inside, site.layered, site.new, site.old, site.settled.part ?_⟩
  rw [Spot.parts_expr]
  exact List.mem_map_of_mem member

/-- Keywords keep their spelling. -/
theorem Site.keyword {spot : Spot Distance} (site : Site naming known mark layers around spot) {token : Token}
    (isKeyword : token.lexeme = "this" ∨ token.lexeme = "super") (note : Distance) :
    naming.token mark note token = token := by
  have same : naming.call mark note token.lexeme = token.lexeme := by
    unfold call swap
    cases mark with
    | none => rfl
    | some depth =>
      have old := site.old rfl
      have apart : token.lexeme ≠ naming.old := by
        rcases isKeyword with same | same
        · rw [same]
          exact old.1.symm
        · rw [same]
          exact old.2.symm
      simp [apart]
  simp only [Renaming.token, same]

theorem Site.keyword_follows {spot : Spot Distance} (site : Site naming known mark layers around spot) {token : Token}
    (isKeyword : token.lexeme = "this" ∨ token.lexeme = "super") {note : Distance}
    (address : spot.place.Address token.lexeme note) :
    Leads layers token.lexeme token.lexeme note ∧
      Follows (Bind.distance? token) (Bind.distance? token) (naming.Keeps mark spot.place.scopes)
        (naming.Keeps mark spot.place.scopes) note note := by
  have kept := site.keyword isKeyword note
  have plain (_ : mark.isSome = true) : token.lexeme ≠ naming.new := by
    rcases isKeyword with same | same
    · rw [same]
      exact site.new.1.symm
    · rw [same]
      exact site.new.2.symm
  have leads := site.layered.leads address
  have follows := follows_distance address plain
  rw [← token_lexeme, kept] at leads
  rw [kept] at follows
  exact ⟨leads, follows⟩

mutual

theorem renamed_expr : ∀ (expr : Expr Distance) {above : List (Node Distance)},
    Site naming known mark layers around ⟨.expr expr, place, globals, above⟩ → expr.Shaped →
    (mark.isSome → naming.new ∉ expr.names) →
    naming.leaves.pairing.MatchExpr layers expr (naming.ofExpr mark expr) ∧
      Follows (expr.bind around) ((naming.ofExpr mark expr).bind around) (naming.Keeps mark place.scopes)
        (naming.Keeps mark place.scopes) expr (naming.ofExpr mark expr)
  | .literal value, _, _, _, _ => ⟨.literal value, Follows.pure _ _⟩
  | .grouping inner, _, site, shaped, fresh => by
    obtain ⟨part, follows⟩ := renamed_expr inner (site.part (by simp [Node.exprParts])) shaped fresh
    exact ⟨.grouping part, Follows.bind follows (Follows.pure _ _)⟩
  | .unary op sign operand, _, site, shaped, fresh => by
    obtain ⟨part, follows⟩ := renamed_expr operand (site.part (by simp [Node.exprParts])) shaped fresh
    exact ⟨.unary (.inl rfl) part, Follows.bind follows (Follows.pure _ _)⟩
  | .binary op left sign right, _, site, shaped, fresh => by
    simp only [Expr.names, List.mem_append, not_or] at fresh
    obtain ⟨first, follows⟩ := renamed_expr left (site.part (by simp [Node.exprParts])) shaped.1 fun marked => (fresh marked).1
    obtain ⟨second, follows'⟩ :=
      renamed_expr right (site.part (by simp [Node.exprParts])) shaped.2 fun marked => (fresh marked).2
    exact ⟨.binary (.inl rfl) first second, Follows.bind follows (Follows.bind follows' (Follows.pure _ _))⟩
  | .logical op left sign right, _, site, shaped, fresh => by
    simp only [Expr.names, List.mem_append, not_or] at fresh
    obtain ⟨first, follows⟩ := renamed_expr left (site.part (by simp [Node.exprParts])) shaped.1 fun marked => (fresh marked).1
    obtain ⟨second, follows'⟩ :=
      renamed_expr right (site.part (by simp [Node.exprParts])) shaped.2 fun marked => (fresh marked).2
    exact ⟨.logical (.inl rfl) first second, Follows.bind follows (Follows.bind follows' (Follows.pure _ _))⟩
  | .read name note, _, site, _, fresh => by
    have address := Place.Fits.address (site.settled.own.fits .read name note rfl) (by simp)
    have plain (marked : mark.isSome = true) : name.lexeme ≠ naming.new := by
      simpa [Expr.names, eq_comm] using fresh marked
    exact ⟨.read ⟨rfl, same_token _ _ _, site.layered.leads address⟩,
      Follows.bind (follows_readName address plain) (Follows.pure _ _)⟩
  | .assign name note value, _, site, shaped, fresh => by
    simp only [Expr.names, List.mem_cons, not_or] at fresh
    have address := Place.Fits.address (site.settled.own.fits .assign name note rfl) (by simp)
    have plain (marked : mark.isSome = true) : name.lexeme ≠ naming.new := Ne.symm (fresh marked).1
    obtain ⟨part, follows⟩ := renamed_expr value (site.part (by simp [Node.exprParts])) shaped.2 fun marked => (fresh marked).2
    exact ⟨.assign ⟨rfl, same_token _ _ _, site.layered.leads address⟩ part,
      Follows.bind follows (Follows.bind (follows_distance address plain) (Follows.pure _ _))⟩
  | .call callee paren arguments, _, site, shaped, fresh => by
    simp only [Expr.names, List.mem_append, not_or] at fresh
    obtain ⟨part, follows⟩ := renamed_expr callee (site.part (by simp [Node.exprParts])) shaped.1 fun marked => (fresh marked).1
    have sites (argument : Expr Distance) (member : argument ∈ arguments) :
        Site naming known mark layers around ⟨.expr argument, place, globals, _ :: _⟩ :=
      site.part (by simp [Node.exprParts, member])
    obtain ⟨parts, follows'⟩ := renamed_exprs arguments sites shaped.2 fun marked => (fresh marked).2
    exact ⟨.call (.inl rfl) part parts, Follows.bind follows (Follows.bind follows' (Follows.pure _ _))⟩
  | .get object name, _, site, shaped, fresh => by
    obtain ⟨part, follows⟩ := renamed_expr object (site.part (by simp [Node.exprParts])) shaped fresh
    exact ⟨.get (.inl rfl) rfl part, Follows.bind follows (Follows.pure _ _)⟩
  | .set object name value, _, site, shaped, fresh => by
    simp only [Expr.names, List.mem_append, not_or] at fresh
    obtain ⟨first, follows⟩ := renamed_expr object (site.part (by simp [Node.exprParts])) shaped.1 fun marked => (fresh marked).1
    obtain ⟨second, follows'⟩ :=
      renamed_expr value (site.part (by simp [Node.exprParts])) shaped.2 fun marked => (fresh marked).2
    exact ⟨.set (.inl rfl) rfl first second, Follows.bind follows' (Follows.bind follows (Follows.pure _ _))⟩
  | .this keyword note, _, site, shaped, _ => by
    have fits : place.Fits .this keyword note := site.settled.own.fits .this keyword note rfl
    simp only [ofExpr, Expr.bind]
    by_cases outside : place.inClass = false
    · have none : note = none := by simpa [Place.Fits, outside] using fits
      subst none
      rw [if_pos (site.inside.mpr outside)]
      exact ⟨.this ⟨rfl, .inl rfl, rfl⟩, Follows.bind (follows_complain keyword keyword _) (Follows.pure _ _)⟩
    · have address : place.Address keyword.lexeme note := by simpa [Place.Fits, outside] using fits
      rw [if_neg fun none => outside (site.inside.mp none)]
      obtain ⟨leads, follows⟩ := site.keyword_follows (.inl shaped) address
      exact ⟨.this ⟨rfl, .inl rfl, leads⟩, Follows.bind follows (Follows.pure _ _)⟩
  | .super keyword note method, _, site, shaped, _ => by
    have address := Place.Fits.address (site.settled.own.fits .super keyword note rfl) (by simp)
    obtain ⟨_, follows⟩ := site.keyword_follows (.inr shaped) address
    have last : Follows (do return Expr.super keyword (← Bind.distance? keyword) method)
        (do return Expr.super keyword (← Bind.distance? keyword) method) (naming.Keeps mark place.scopes)
        (naming.Keeps mark place.scopes) (.super keyword note method) (.super keyword note method) :=
      Follows.bind follows (Follows.pure _ _)
    refine ⟨.super rfl (.inl rfl) rfl, ?_⟩
    simp only [ofExpr, Expr.bind]
    cases around.owner with
    | none => exact Follows.bind (follows_complain keyword keyword _) last
    | plain => exact Follows.bind (follows_complain keyword keyword _) last
    | subclass => exact last

theorem renamed_exprs : ∀ (exprs : List (Expr Distance)) {above : List (Node Distance)},
    (∀ expr ∈ exprs, Site naming known mark layers around ⟨.expr expr, place, globals, above⟩) → Expr.ShapedAll exprs →
    (mark.isSome → naming.new ∉ Expr.namesAll exprs) →
    naming.leaves.pairing.MatchExprs layers exprs (naming.ofExprs mark exprs) ∧
      Follows (Expr.bindAll around exprs) (Expr.bindAll around (naming.ofExprs mark exprs))
        (naming.Keeps mark place.scopes) (naming.Keeps mark place.scopes) exprs (naming.ofExprs mark exprs)
  | [], _, _, _, _ => ⟨.nil, Follows.pure _ _⟩
  | first :: rest, _, sites, shaped, fresh => by
    simp only [Expr.namesAll, List.mem_append, not_or] at fresh
    obtain ⟨head, follows⟩ := renamed_expr first (sites first (by simp)) shaped.1 fun marked => (fresh marked).1
    obtain ⟨tail, follows'⟩ := renamed_exprs rest (fun expr member => sites expr (by simp [member])) shaped.2
      fun marked => (fresh marked).2
    exact ⟨.cons head tail, Follows.bind follows (Follows.bind follows' (Follows.pure _ _))⟩

end

theorem renamed_option {value : Option (Expr Distance)}
    (site : ∀ expr ∈ value, Site naming known mark layers around ⟨.expr expr, place, globals, above⟩)
    (shaped : Expr.ShapedOption value) (fresh : mark.isSome → naming.new ∉ Expr.namesOption value) :
    (∀ expr ∈ value, naming.leaves.pairing.MatchExpr layers expr (naming.ofExpr mark expr)) ∧
      Follows (Expr.bindOption around value) (Expr.bindOption around (value.map (naming.ofExpr mark)))
        (naming.Keeps mark place.scopes) (naming.Keeps mark place.scopes) value (value.map (naming.ofExpr mark)) := by
  cases value with
  | none => exact ⟨nofun, Follows.pure _ _⟩
  | some value =>
    obtain ⟨part, follows⟩ := renamed_expr value (site value rfl) shaped fresh
    refine ⟨?_, Follows.bind follows (Follows.pure _ _)⟩
    rintro _ ⟨⟩
    exact part

section Distinct

/-- The names of the functions and classes that a statement declares. -/
def named : Stmt Distance → List String
  | .funDecl declaration => [declaration.name.lexeme]
  | .classDecl name _ _ => [name.lexeme]
  | _ => []

theorem declared_of_named {stmt : Stmt Distance} {name : String} (member : name ∈ named stmt) : name ∈ stmt.declared := by
  cases stmt <;> simp_all [named, Stmt.declared]

/-- What declares nothing is no function and no class. -/
theorem notMem_named {stmt : Stmt Distance} {name : String} (bare : stmt.declared = []) : name ∉ named stmt := fun found => by
  simpa [bare] using declared_of_named found

variable {scope earlier : List String} {outer : List (List String)} {inClass : Bool} {body : List (Stmt Distance)}

/-- No name is declared in a scope that has it already. -/
theorem undeclared (settled : ∀ spot ∈ Spot.inOrder ⟨scope :: outer, inClass⟩ globals above earlier body,
      spot.All (Spot.Settled known)) (shaped : Stmt.ShapedAll body) :
    ∀ stmt ∈ body, ∀ name ∈ stmt.declared, name ∉ earlier ++ scope := by
  induction body generalizing earlier with
  | nil => nofun
  | cons first rest ih =>
    intro stmt member name declared
    rcases List.mem_cons.mp member with rfl | member
    · have clean := (settled _ List.mem_cons_self).own.clean
      cases stmt with
      | varDecl => simp_all [Spot.violations, Spot.flag, Spot.scope, Place.enter, Place.declare, Stmt.declared]
      | funDecl => simp_all [Spot.violations, Spot.flag, Spot.scope, Place.enter, Place.declare, Stmt.declared]
      | classDecl => simp_all [Spot.violations, Spot.flag, Spot.scope, Place.enter, Place.declare, Stmt.declared]
      | ifThen => simp [Stmt.declared, shaped.1.2.2] at declared
      | ifElse => simp [Stmt.declared, shaped.1.2.1.2, shaped.1.2.2.2] at declared
      | whileLoop => simp [Stmt.declared, shaped.1.2.2] at declared
      | _ => simp [Stmt.declared] at declared
    · have later := ih (fun spot member => settled spot (List.mem_cons_of_mem _ member)) shaped.2 stmt member name declared
      simp only [List.mem_append, not_or] at later ⊢
      exact ⟨later.1.2, later.2⟩

/-- A scope with a variable has no function and no class of that name. -/
theorem not_named (settled : ∀ spot ∈ Spot.inOrder ⟨scope :: outer, inClass⟩ globals above earlier body,
      spot.All (Spot.Settled known)) (shaped : Stmt.ShapedAll body) {name : Token} {initial : Option (Expr Distance)}
    (variable_ : Stmt.varDecl name initial ∈ body) : ∀ stmt ∈ body, name.lexeme ∉ named stmt := by
  induction body generalizing earlier with
  | nil => nofun
  | cons first rest ih =>
    intro stmt member found
    have settled' : ∀ spot ∈ Spot.inOrder ⟨scope :: outer, inClass⟩ globals above (first.declared ++ earlier) rest,
        spot.All (Spot.Settled known) := fun spot member => settled spot (List.mem_cons_of_mem _ member)
    -- What the first statement declares, no later one does.
    have later (stmt : Stmt Distance) (member : stmt ∈ rest) (declared : name.lexeme ∈ stmt.declared) :
        name.lexeme ∉ first.declared := by
      have new := undeclared settled' shaped.2 stmt member _ declared
      simp only [List.mem_append, not_or] at new
      exact new.1.1
    rcases List.mem_cons.mp variable_ with rfl | isLater
    · rcases List.mem_cons.mp member with rfl | member
      · simp [named] at found
      · exact later stmt member (declared_of_named found) (by simp [Stmt.declared])
    · rcases List.mem_cons.mp member with rfl | member
      · exact later _ isLater (by simp [Stmt.declared]) (declared_of_named found)
      · exact ih settled' shaped.2 isLater stmt member found

end Distinct

section Scopes

theorem shaped_of_mem : ∀ {body : List (Stmt Distance)}, Stmt.ShapedAll body → ∀ stmt ∈ body, stmt.Shaped
  | [], _, _, member => nomatch member
  | _ :: _, shaped, stmt, member => by
    rcases List.mem_cons.mp member with rfl | member
    · exact shaped.1
    · exact shaped_of_mem shaped.2 stmt member

variable {params : List Token} {body : List (Stmt Distance)} {scopes : List (List String)}

/-- What is known inside of a scope. -/
structure Opened (naming : Renaming) (params : List Token) (body : List (Stmt Distance)) (inside : Option Nat)
    (layers : List Layer) (scopes : List (List String)) (layer : Layer) : Prop where
  opens : naming.leaves.pairing.Opens layers params (params.map (naming.token inside (some 0))) (layer :: layers)
  layered : naming.Layered inside (layer :: layers) (params.map Token.lexeme :: scopes)
  open_ : Open naming inside (layer :: layers)
  fresh : inside.isSome → naming.new ∉ params.map Token.lexeme ++ Stmt.namesAll body
  old : inside.isSome → naming.old ≠ "this" ∧ naming.old ≠ "super"

/-- The variable is no keyword. -/
theorem plain_of_declared (plain : ∀ param ∈ params, param.Plain) (shaped : Stmt.ShapedAll body)
    (declared : (∃ param ∈ params, param.lexeme = naming.old) ∨
      ∃ name initial, Stmt.varDecl name initial ∈ body ∧ name.lexeme = naming.old) :
    naming.old ≠ "this" ∧ naming.old ≠ "super" := by
  obtain ⟨param, member, same⟩ | ⟨name, initial, member, same⟩ := declared
  · rw [← same]
    exact plain param member
  · rw [← same]
    exact (shaped_of_mem shaped _ member).1

theorem opens_params {keys : Keys} (may : ∀ param ∈ params, keys.may param.lexeme)
    (layered : naming.Layered inside (⟨keys, params.map Token.lexeme⟩ :: layers) scopes) :
    naming.leaves.pairing.Opens layers params (params.map (naming.token inside (some 0)))
      (⟨keys, params.map Token.lexeme⟩ :: layers) := by
  refine ⟨?_, keys, trivial, may, ?_, rfl⟩
  · rw [List.forall₂_map_right_iff]
    exact List.forall₂_same.mpr fun param _ => same_token _ _ param
  · rw [List.map_map, List.map_map]
    refine List.map_congr_left fun param _ => ?_
    have other : keys.other = _ := layered.other 0 _ rfl
    simp only [Function.comp_apply, token_lexeme, call_eq, other]

theorem Enters.opened (enters : naming.Enters params body mark inside) (layered : naming.Layered mark layers scopes)
    (new : naming.new ≠ "this" ∧ naming.new ≠ "super")
    (old : mark.isSome → naming.old ≠ "this" ∧ naming.old ≠ "super") (plain : ∀ param ∈ params, param.Plain)
    (shaped : Stmt.ShapedAll body)
    (fresh : mark.isSome → naming.new ∉ params.map Token.lexeme ++ Stmt.namesAll body) :
    ∃ layer, naming.Opened params body inside layers scopes layer := by
  let layer : Layer := ⟨.all, params.map Token.lexeme⟩
  have ordinary : naming.Layered (mark.map (· + 1)) (layer :: layers) (params.map Token.lexeme :: scopes) :=
    layered.cons rfl fun _ _ => trivial
  cases enters with
  | outside =>
    exact ⟨layer, opens_params (fun _ _ => trivial) ordinary, ordinary, fun _ _ => trivial, nofun, nofun⟩
  | further depth =>
    exact ⟨layer, opens_params (fun _ _ => trivial) ordinary, ordinary, fun _ _ => trivial, fun _ => fresh rfl,
      fun _ => old rfl⟩
  | here declared fresh' =>
    have old := plain_of_declared plain shaped declared
    let layer : Layer := ⟨naming.keys ⟨old, new⟩, params.map Token.lexeme⟩
    have may : ∀ name ∈ params.map Token.lexeme, layer.keys.may name := by
      rintro name member rfl
      exact fresh' (List.mem_append_left _ member)
    have special : naming.Layered (some 0) (layer :: layers) (params.map Token.lexeme :: scopes) := layered.here rfl may
    exact ⟨layer, opens_params (fun param member => may _ (List.mem_map_of_mem member)) special, special,
      fun name plain => plain rfl, fun _ => fresh', fun _ => old⟩

end Scopes

section Statements

/-- A part of a statement that stands where the statement does. -/
theorem Site.inner {stmt : Stmt Distance} {part : Node Distance}
    (site : Site naming known mark layers around ⟨.stmt stmt, place, globals, above⟩)
    (member : ({}, part) ∈ Node.stmtParts stmt) :
    Site naming known mark layers around ⟨part, place, globals, .stmt stmt :: above⟩ := by
  have settled := site.settled.enter member
  rw [Spot.enter_empty] at settled
  exact ⟨site.inside, site.layered, site.new, site.old, settled⟩

/-- A declaration, and what it is called in the other tree. -/
theorem Site.declares {spot : Spot Distance} (site : Site naming known mark layers around spot) {token : Token}
    (opened : Open naming mark layers) (plain : mark.isSome → token.lexeme ≠ naming.new) :
    naming.leaves.pairing.Declares layers token (naming.token mark (some 0) token) (Layer.grown [token.lexeme] layers) ∧
      naming.Layered mark layers (Place.declare [token.lexeme] spot.place.scopes) := by
  have allowed := opened token.lexeme plain
  exact ⟨site.layered.declares allowed, site.layered.declare (by simpa using allowed)⟩

/-- The name of a function or a class stays the same. -/
theorem token_of_apart {token : Token} (apart : mark = some 0 → token.lexeme ≠ naming.old) :
    naming.token mark (some 0) token = token := by
  have same : naming.call mark (some 0) token.lexeme = token.lexeme := by
    rw [call_eq]
    split
    · rename_i here
      simp [swap, apart here]
    · rfl
  simp only [Renaming.token, same]

/-- The name of a function or a class is declared, and ready at once. -/
theorem Site.introduces {spot : Spot Distance} (site : Site naming known mark layers around spot) {token : Token}
    (opened : Open naming mark layers) (plain : mark.isSome → token.lexeme ≠ naming.new)
    (apart : mark = some 0 → token.lexeme ≠ naming.old) :
    naming.leaves.pairing.Declares layers token token (Layer.grown [token.lexeme] layers) ∧
      naming.Layered mark layers (Place.declare [token.lexeme] spot.place.scopes) ∧
      Follows (Bind.introduce known token) (Bind.introduce known token) (naming.Keeps mark spot.place.scopes)
        (naming.Keeps mark (Place.declare [token.lexeme] spot.place.scopes)) () () := by
  obtain ⟨declares, layered⟩ := site.declares opened plain
  have introduces : Follows _ _ (naming.Keeps mark spot.place.scopes) _ () () := follows_introduce known plain
  rw [token_of_apart apart] at declares introduces
  exact ⟨declares, layered, introduces⟩

/-- A branch of a condition or a loop leaves the scope around it as it is. -/
theorem renamed_branch {stmt stmt' : Stmt Distance} (bare : stmt.declared = [])
    (renamed : naming.leaves.pairing.MatchStmt layers (Layer.grown stmt.declared layers) stmt stmt' ∧
      Follows (stmt.bind known around) (stmt'.bind known around) (naming.Keeps mark place.scopes)
        (naming.Keeps mark (Place.declare stmt.declared place.scopes)) stmt stmt') :
    naming.leaves.pairing.MatchStmt layers layers stmt stmt' ∧
      Follows (stmt.bind known around) (stmt'.bind known around) (naming.Keeps mark place.scopes)
        (naming.Keeps mark place.scopes) stmt stmt' := by
  rwa [bare, Layer.grown_nil, declare_nil] at renamed

/-- The superclass of a class is read like any name. -/
theorem renamed_superclass {name : Token} {superclass : Option (Token × Distance)} {methods : List (FunctionDecl Distance)}
    (site : Site naming known mark layers around ⟨.stmt (.classDecl name superclass methods), place, globals, above⟩)
    (layered : naming.Layered mark layers (Place.declare [name.lexeme] place.scopes))
    (fresh : mark.isSome → naming.new ∉ (Stmt.classDecl name superclass methods).names) :
    let superclass' := superclass.map fun (parent, note) => (naming.token mark note parent, note)
    naming.leaves.pairing.MatchSuperclass layers superclass superclass' ∧
      Follows (Bind.superclass name superclass) (Bind.superclass name superclass')
        (naming.Keeps mark (Place.declare [name.lexeme] place.scopes))
        (naming.Keeps mark (Place.declare [name.lexeme] place.scopes)) superclass superclass' := by
  cases superclass with
  | none => exact ⟨.none, Follows.pure _ _⟩
  | some entry =>
    obtain ⟨parent, note⟩ := entry
    have clean := site.settled.own.clean
    have other : parent.lexeme ≠ name.lexeme := by
      simp only [Spot.violations, List.append_eq_nil_iff, Spot.flag] at clean
      simpa using clean.2
    have member : ({ earlier := [name.lexeme] }, .expr (.read parent note)) ∈
        (Node.stmt (.classDecl name (some (parent, note)) methods)).parts := List.mem_cons_self
    have address := Place.Fits.address ((site.settled.enter member).own.fits .read parent note rfl) (by simp)
    simp only [Stmt.names, Option.toList_some, List.map_cons, List.map_nil, List.cons_append, List.nil_append,
      List.mem_cons, not_or] at fresh
    have plain (marked : mark.isSome = true) : parent.lexeme ≠ naming.new := Ne.symm (fresh marked).2.1
    have other' : (naming.token mark note parent).lexeme ≠ name.lexeme := by
      cases mark with
      | none => exact other
      | some depth =>
        have same : naming.Same parent (naming.token (some depth) note parent) := same_token _ _ _
        rcases same with same | ⟨_, same⟩
        · rwa [same]
        · rw [same]
          exact (fresh rfl).1
    refine ⟨.some (same_token _ _ _) ⟨rfl, same_token _ _ _, layered.leads address⟩, ?_⟩
    simp only [Bind.superclass, Option.map_some, if_neg other, if_neg other']
    exact Follows.bind (follows_readName address plain) (Follows.pure _ _)

/-- Statements in a row, after the names that come before them in their scope. -/
structure Row (naming : Renaming) (known : List String) (mark : Option Nat) (layers : List Layer) (around : Surrounding)
    (place : Place) (globals earlier : List String) (above : List (Node Distance)) (body : List (Stmt Distance)) :
    Prop where
  inside : Inside around place
  layered : naming.Layered mark layers (Place.declare earlier place.scopes)
  new : naming.new ≠ "this" ∧ naming.new ≠ "super"
  old : mark.isSome → naming.old ≠ "this" ∧ naming.old ≠ "super"
  settled : ∀ spot ∈ Spot.inOrder place globals above earlier body, spot.All (Spot.Settled known)

theorem Row.head {earlier : List String} {first : Stmt Distance} {rest : List (Stmt Distance)}
    (row : Row naming known mark layers around place globals earlier above (first :: rest)) :
    Site naming known mark layers around ⟨.stmt first, place.enter { earlier }, place.topLevel earlier globals, above⟩ :=
  ⟨row.inside.enter _ rfl, row.layered, row.new, row.old, row.settled _ List.mem_cons_self⟩

theorem Row.tail {earlier : List String} {first : Stmt Distance} {rest : List (Stmt Distance)}
    (row : Row naming known mark layers around place globals earlier above (first :: rest))
    (allowed : ∀ name ∈ first.declared, Layer.Allows name layers) :
    Row naming known mark (Layer.grown first.declared layers) around place globals (first.declared ++ earlier) above rest := by
  refine ⟨row.inside, ?_, row.new, row.old, fun spot member => row.settled spot (List.mem_cons_of_mem _ member)⟩
  rw [declare_append]
  exact (row.layered.declare allowed).grown _

/-- The statements of a scope. -/
theorem Site.row {body : List (Stmt Distance)}
    (site : Site naming known mark layers around ⟨.sequence body, place, globals, above⟩) :
    Row naming known mark layers around place globals [] (.sequence body :: above) body := by
  refine ⟨site.inside, ?_, site.new, site.old, fun spot member => site.settled.part member⟩
  rw [declare_nil]
  exact site.layered

/-- A scope of its own: what the walks know inside of it. -/
theorem Enters.site {spot : Spot Distance} {params : List Token} {body : List (Stmt Distance)} {layer : Layer}
    (site : Site naming known mark layers around spot)
    (opened : naming.Opened params body inside layers spot.place.scopes layer)
    (member : ({ opened := [params.map Token.lexeme] }, .sequence body) ∈ spot.node.parts) :
    Site naming known inside (layer :: layers) around
      (spot.enter { opened := [params.map Token.lexeme] } (.sequence body)) := by
  refine ⟨site.inside.enter _ rfl, ?_, site.new, opened.old, site.settled.enter member⟩
  simp only [Spot.enter, Place.enter, declare_nil]
  exact opened.layered

/-- No function and no class of the scope has the name of its variable. -/
theorem Enters.apart {params : List Token} {body : List (Stmt Distance)} {outer : List (List String)} {inClass : Bool}
    (enters : naming.Enters params body mark inside)
    (row : Row naming known inside layers around ⟨params.map Token.lexeme :: outer, inClass⟩ globals [] above body)
    (shaped : Stmt.ShapedAll body) : inside = some 0 → ∀ stmt ∈ body, naming.old ∉ named stmt := by
  rintro rfl stmt member found
  cases enters with
  | here declared _ =>
    obtain ⟨param, isParam, same⟩ | ⟨name, initial, isVariable, same⟩ := declared
    · have new := undeclared row.settled shaped stmt member _ (declared_of_named found)
      rw [← same] at new
      exact new (List.mem_map_of_mem isParam)
    · rw [← same] at found
      exact not_named row.settled shaped isVariable stmt member found

theorem OfFunction.name_eq {declaration declaration' : FunctionDecl Distance}
    (part : naming.OfFunction mark declaration declaration') : declaration'.name = declaration.name := by
  cases part
  rfl

theorem names_of_declared {stmt : Stmt Distance} {name : String} (shaped : stmt.Shaped) (member : name ∈ stmt.declared) :
    name ∈ stmt.names := by
  cases stmt with
  | varDecl | funDecl | classDecl => simp_all [Stmt.declared, Stmt.names]
  | ifThen => simp [Stmt.declared, shaped.2.2] at member
  | ifElse => simp [Stmt.declared, shaped.2.1.2, shaped.2.2.2] at member
  | whileLoop => simp [Stmt.declared, shaped.2.2] at member
  | _ => simp [Stmt.declared] at member

mutual

theorem renamed_stmt : ∀ {mark : Option Nat} {stmt stmt' : Stmt Distance}, naming.OfStmt mark stmt stmt' →
    ∀ {layers : List Layer} {around : Surrounding} {place : Place} {globals : List String} {above : List (Node Distance)},
    Site naming known mark layers around ⟨.stmt stmt, place, globals, above⟩ → stmt.Shaped → Open naming mark layers →
    (mark.isSome → naming.new ∉ stmt.names) → (mark = some 0 → naming.old ∉ named stmt) →
    naming.leaves.pairing.MatchStmt layers (Layer.grown stmt.declared layers) stmt stmt' ∧
      Follows (stmt.bind known around) (stmt'.bind known around) (naming.Keeps mark place.scopes)
        (naming.Keeps mark (Place.declare stmt.declared place.scopes)) stmt stmt'
  | _, _, _, .expression value, _, _, _, _, _, site, shaped, _, fresh, _ => by
    obtain ⟨part, follows⟩ := renamed_expr value (site.inner (by simp [Node.stmtParts])) shaped fresh
    rw [Stmt.declared, declare_nil, Layer.grown_nil]
    exact ⟨.expression part, Follows.bind follows (Follows.pure _ _)⟩
  | _, _, _, .print value, _, _, _, _, _, site, shaped, _, fresh, _ => by
    obtain ⟨part, follows⟩ := renamed_expr value (site.inner (by simp [Node.stmtParts])) shaped fresh
    rw [Stmt.declared, declare_nil, Layer.grown_nil]
    exact ⟨.print part, Follows.bind follows (Follows.pure _ _)⟩
  | mark, _, _, .varDecl name initial, layers, around, place, globals, above, site, shaped, opened, fresh, _ => by
    simp only [Stmt.names, List.mem_cons, not_or] at fresh
    have plain (marked : mark.isSome = true) : name.lexeme ≠ naming.new := Ne.symm (fresh marked).1
    obtain ⟨declares, layered⟩ := site.declares opened plain
    have inner (value : Expr Distance) (some_ : value ∈ initial) : Site naming known mark layers around
        ⟨.expr value, place.enter { earlier := [name.lexeme] }, globals, .stmt (.varDecl name initial) :: above⟩ := by
      have member : ({ earlier := [name.lexeme] }, .expr value) ∈ (Node.stmt (.varDecl name initial)).parts := by
        rw [Option.mem_def.mp some_]
        exact List.mem_cons_self
      exact ⟨site.inside.enter _ rfl, layered, site.new, site.old, site.settled.enter member⟩
    obtain ⟨part, follows⟩ := renamed_option inner shaped.2 fun marked => (fresh marked).2
    refine ⟨?_, Follows.bind (follows_declare known plain) (Follows.bind follows
      (Follows.bind (follows_define plain) (Follows.pure _ _)))⟩
    cases initial with
    | none => exact .varDecl declares
    | some value => exact .varInit (part value rfl) declares
  | mark, .block body, _, .block enters parts, layers, around, place, globals, above, site, shaped, _, fresh, _ => by
    obtain ⟨layer, inner⟩ := enters.opened site.layered site.new site.old nofun shaped fresh
    have row := (Enters.site site inner List.mem_cons_self).row
    obtain ⟨parts, follows⟩ := renamed_body parts row shaped inner.open_ inner.fresh (enters.apart row shaped)
    simp only [Place.enter, List.map_nil, declare_nil, List.cons_append, List.nil_append] at follows
    rw [Stmt.declared, declare_nil, Layer.grown_nil]
    exact ⟨.block inner.opens parts, Follows.bind (follows_inScope enters.deeper follows) (Follows.pure _ _)⟩
  | mark, .ifThen _ accepted, _, .ifThen condition part, _, _, _, _, _, site, shaped, opened, fresh, _ => by
    simp only [Stmt.names, List.mem_append, not_or] at fresh
    obtain ⟨test, follows⟩ :=
      renamed_expr condition (site.inner (by simp [Node.stmtParts])) shaped.1 fun marked => (fresh marked).1
    obtain ⟨branch, follows'⟩ := renamed_branch shaped.2.2 <|
      renamed_stmt part (site.inner (by simp [Node.stmtParts])) shaped.2.1 opened (fun marked => (fresh marked).2)
        fun _ => notMem_named shaped.2.2
    rw [Stmt.declared, shaped.2.2, declare_nil, Layer.grown_nil]
    exact ⟨.ifThen test branch, Follows.bind follows (Follows.bind follows' (Follows.pure _ _))⟩
  | mark, .ifElse _ accepted rejected, _, .ifElse condition first second, _, _, _, _, _, site, shaped, opened, fresh, _ => by
    simp only [Stmt.names, List.mem_append, not_or] at fresh
    obtain ⟨test, follows⟩ :=
      renamed_expr condition (site.inner (by simp [Node.stmtParts])) shaped.1 fun marked => (fresh marked).1.1
    obtain ⟨branch, follows'⟩ := renamed_branch shaped.2.1.2 <|
      renamed_stmt first (site.inner (by simp [Node.stmtParts])) shaped.2.1.1 opened (fun marked => (fresh marked).1.2)
        fun _ => notMem_named shaped.2.1.2
    obtain ⟨branch', follows''⟩ := renamed_branch shaped.2.2.2 <|
      renamed_stmt second (site.inner (by simp [Node.stmtParts, shaped.2.1.2])) shaped.2.2.1 opened
        (fun marked => (fresh marked).2) fun _ => notMem_named shaped.2.2.2
    rw [Stmt.declared, shaped.2.1.2, shaped.2.2.2, List.append_nil, declare_nil, Layer.grown_nil]
    exact ⟨.ifElse test branch branch',
      Follows.bind follows (Follows.bind follows' (Follows.bind follows'' (Follows.pure _ _)))⟩
  | mark, .whileLoop _ body, _, .whileLoop condition part, _, _, _, _, _, site, shaped, opened, fresh, _ => by
    simp only [Stmt.names, List.mem_append, not_or] at fresh
    obtain ⟨test, follows⟩ :=
      renamed_expr condition (site.inner (by simp [Node.stmtParts])) shaped.1 fun marked => (fresh marked).1
    obtain ⟨branch, follows'⟩ := renamed_branch shaped.2.2 <|
      renamed_stmt part (site.inner (by simp [Node.stmtParts])) shaped.2.1 opened (fun marked => (fresh marked).2)
        fun _ => notMem_named shaped.2.2
    rw [Stmt.declared, shaped.2.2, declare_nil, Layer.grown_nil]
    exact ⟨.whileLoop test branch, Follows.bind follows (Follows.bind follows' (Follows.pure _ _))⟩
  | mark, .funDecl declaration, .funDecl declaration', .funDecl part, layers, around, place, globals, above, site, shaped,
      opened, fresh, apart => by
    simp only [Stmt.names, List.mem_cons, not_or] at fresh
    have plain (marked : mark.isSome = true) : declaration.name.lexeme ≠ naming.new := Ne.symm (fresh marked).1
    obtain ⟨declares, layered, introduces⟩ := site.introduces opened plain
      fun here same => apart here (by simp [named, same])
    have inner : Site naming known mark (Layer.grown [declaration.name.lexeme] layers) { around with function := .function }
        (Spot.enter ⟨.stmt (.funDecl declaration), place, globals, above⟩ { earlier := [declaration.name.lexeme] }
          (.function declaration)) :=
      ⟨site.inside.enter _ rfl, layered.grown _, site.new, site.old, site.settled.enter List.mem_cons_self⟩
    obtain ⟨part', follows⟩ := renamed_function part inner shaped.2 fun marked => (fresh marked).2
    have same := part.name_eq
    constructor
    · refine .funDecl ?_ part'
      rw [same]
      exact declares
    simp only [Stmt.bind, same]
    exact Follows.bind introduces (Follows.bind follows (Follows.pure _ _))
  | mark, _, _, .returnStmt keyword value, layers, around, place, globals, above, site, shaped, opened, fresh, _ => by
    have inner (expr : Expr Distance) (some_ : expr ∈ value) : Site naming known mark layers around
        ⟨.expr expr, place, globals, .stmt (.returnStmt keyword value) :: above⟩ := by
      apply site.inner
      rw [Option.mem_def.mp some_]
      exact List.mem_cons_self
    obtain ⟨part, follows⟩ := renamed_option inner shaped fresh
    have valued : Follows (do
        if value.isSome && around.function = .initializer then
          Bind.complain keyword .returnValueFromInitializer
        return Stmt.returnStmt keyword (← Expr.bindOption around value)) (do
        if value.isSome && around.function = .initializer then
          Bind.complain keyword .returnValueFromInitializer
        return Stmt.returnStmt keyword (← Expr.bindOption around (value.map (naming.ofExpr mark))))
        (naming.Keeps mark place.scopes) (naming.Keeps mark place.scopes) (.returnStmt keyword value)
        (.returnStmt keyword (value.map (naming.ofExpr mark))) := by
      split
      · exact Follows.bind (follows_complain keyword keyword _) (Follows.bind follows (Follows.pure _ _))
      · exact Follows.bind follows (Follows.pure _ _)
    rw [Stmt.declared, declare_nil, Layer.grown_nil]
    constructor
    · cases value with
      | none => exact .returnNone (.inl rfl)
      | some value => exact .returnSome (.inl rfl) (part value rfl)
    · simp only [Stmt.bind, Option.isSome_map]
      split
      · exact Follows.bind (follows_complain keyword keyword _) valued
      · exact valued
  | mark, .classDecl _ _ methods, _, .classDecl name superclass parts, layers, around, place, globals, above, site, shaped,
      opened, fresh, apart => by
    have fresh' := fresh
    simp only [Stmt.names, List.cons_append, List.mem_cons, List.mem_append, not_or] at fresh'
    have plain (marked : mark.isSome = true) : name.lexeme ≠ naming.new := Ne.symm (fresh' marked).1
    obtain ⟨declares, layered, introduces⟩ := site.introduces opened plain
      fun here same => apart here (by simp [named, same])
    obtain ⟨reads, follows⟩ := renamed_superclass site layered fresh
    let inside : Step :=
      { earlier := [name.lexeme], opened := Node.classScopes superclass.isSome, entersClass := true }
    let around' : Surrounding := { around with owner := if superclass.isSome then .subclass else .plain }
    have inClass : Inside around' (place.enter inside) := by
      simp only [Inside, around', Place.enter, inside, Bool.or_true, Bool.true_eq_false, iff_false]
      split <;> simp
    have old : (mark.map (· + (Node.classScopes superclass.isSome).length)).isSome → _ := fun marked =>
      site.old (by simpa using marked)
    have sites (method : FunctionDecl Distance) (member : method ∈ methods) :
        Site naming known (mark.map (· + (Node.classScopes superclass.isSome).length))
          (.ofThis :: Layer.inherited superclass.isSome (Layer.grown [name.lexeme] layers)) around'
          (Spot.enter ⟨.stmt (.classDecl name superclass methods), place, globals, above⟩ inside (.function method)) := by
      have part : (inside, Node.function method) ∈ (Node.stmt (.classDecl name superclass methods)).parts :=
        List.mem_append_right _ (List.mem_map_of_mem member)
      exact ⟨inClass, (layered.grown _).inherited _, site.new, old, site.settled.enter part⟩
    obtain ⟨parts', follows'⟩ := renamed_methods parts sites shaped.2 fun marked => (fresh' (by simpa using marked)).2.2
    refine ⟨.classDecl rfl reads declares rfl parts', ?_⟩
    refine Follows.bind introduces (Follows.bind follows ?_)
    simp only [Option.isSome_map]
    exact Follows.bind (follows_inClassScopes superclass.isSome site.new follows') (Follows.pure _ _)

theorem renamed_body : ∀ {mark : Option Nat} {body body' : List (Stmt Distance)}, naming.OfBody mark body body' →
    ∀ {layers : List Layer} {around : Surrounding} {place : Place} {globals earlier : List String}
      {above : List (Node Distance)},
    Row naming known mark layers around place globals earlier above body → Stmt.ShapedAll body →
    Open naming mark layers → (mark.isSome → naming.new ∉ Stmt.namesAll body) →
    (mark = some 0 → ∀ stmt ∈ body, naming.old ∉ named stmt) →
    naming.leaves.pairing.MatchBody layers (Layer.grown (declaredAfter [] body) layers) body body' ∧
      Follows (Stmt.bindAll known around body) (Stmt.bindAll known around body')
        (naming.Keeps mark (Place.declare earlier place.scopes))
        (naming.Keeps mark (Place.declare (declaredAfter earlier body) place.scopes)) body body'
  | _, _, _, .nil, _, _, _, _, _, _, _, _, _, _, _ => by
    rw [declaredAfter, declaredAfter, Layer.grown_nil]
    exact ⟨.nil, Follows.pure _ _⟩
  | mark, first :: rest, _, .cons head tail, layers, around, place, globals, earlier, above, row, shaped, opened, fresh,
      apart => by
    simp only [Stmt.namesAll, List.mem_append, not_or] at fresh
    have allowed : ∀ name ∈ first.declared, Layer.Allows name layers := fun name member =>
      opened name fun marked same => (fresh marked).1 (same ▸ names_of_declared shaped.1 member)
    obtain ⟨head', follows⟩ := renamed_stmt head row.head shaped.1 opened (fun marked => (fresh marked).1)
      fun here => apart here first List.mem_cons_self
    obtain ⟨tail', follows'⟩ := renamed_body tail (row.tail allowed) shaped.2 (opened.grown _)
      (fun marked => (fresh marked).2) fun here stmt member => apart here stmt (List.mem_cons_of_mem _ member)
    rw [Layer.grown_grown, ← declaredAfter_append] at tail'
    rw [declare_append] at follows'
    rw [declaredAfter, List.append_nil]
    refine ⟨.cons head' tail', Follows.bind follows (Follows.bind ?_ (Follows.pure _ _))⟩
    exact follows'

theorem renamed_function : ∀ {mark : Option Nat} {declaration declaration' : FunctionDecl Distance},
    naming.OfFunction mark declaration declaration' →
    ∀ {layers : List Layer} {around : Surrounding} {place : Place} {globals : List String} {above : List (Node Distance)},
    Site naming known mark layers around ⟨.function declaration, place, globals, above⟩ → declaration.Shaped →
    (mark.isSome → naming.new ∉ declaration.names) →
    naming.leaves.pairing.MatchFunction layers declaration declaration' ∧
      Follows (declaration.bind known around) (declaration'.bind known around) (naming.Keeps mark place.scopes)
        (naming.Keeps mark place.scopes) declaration declaration'
  | mark, .mk _ params body, _, .mk name enters parts, layers, around, place, globals, above, site, shaped, fresh => by
    obtain ⟨layer, inner⟩ := enters.opened site.layered site.new site.old shaped.1 shaped.2 fresh
    have row := (Enters.site site inner List.mem_cons_self).row
    have fresh' (marked : _) := not_or.mp (List.mem_append.not.mp (inner.fresh marked))
    obtain ⟨parts, follows⟩ := renamed_body parts row shaped.2 inner.open_ (fun marked => (fresh' marked).2)
      (enters.apart row shaped.2)
    have opening : Follows _ _ (naming.Keeps _ ([] :: place.scopes)) _ () () :=
      follows_params known params [] fun marked => (fresh' marked).1
    rw [List.append_nil] at opening
    simp only [Place.enter, declare_nil, List.cons_append, List.nil_append] at follows
    refine ⟨.mk (.inl rfl) rfl inner.opens parts, ?_⟩
    exact Follows.bind (follows_inScope enters.deeper (Follows.bind opening follows)) (Follows.pure _ _)

theorem renamed_methods : ∀ {mark : Option Nat} {methods methods' : List (FunctionDecl Distance)},
    naming.OfMethods mark methods methods' →
    ∀ {layers : List Layer} {around : Surrounding} {place : Place} {globals : List String} {above : List (Node Distance)},
    (∀ method ∈ methods, Site naming known mark (.ofThis :: layers) around ⟨.function method, place, globals, above⟩) →
    FunctionDecl.ShapedAll methods → (mark.isSome → naming.new ∉ FunctionDecl.namesAll methods) →
    naming.leaves.pairing.MatchMethods layers methods methods' ∧
      Follows (FunctionDecl.bindMethods known around methods) (FunctionDecl.bindMethods known around methods')
        (naming.Keeps mark place.scopes) (naming.Keeps mark place.scopes) methods methods'
  | _, _, _, .nil, _, _, _, _, _, _, _, _ => ⟨.nil, Follows.pure _ _⟩
  | mark, first :: rest, _, .cons head tail, layers, around, place, globals, above, sites, shaped, fresh => by
    simp only [FunctionDecl.namesAll, List.mem_append, not_or] at fresh
    have site := sites first List.mem_cons_self
    have inner : Site naming known mark (.ofThis :: layers)
        { around with function := FunctionContext.ofMethod first.name.lexeme } ⟨.function first, place, globals, above⟩ :=
      ⟨site.inside, site.layered, site.new, site.old, site.settled⟩
    obtain ⟨head', follows⟩ := renamed_function head inner shaped.1 fun marked => (fresh marked).1
    obtain ⟨tail', follows'⟩ := renamed_methods tail (fun method member => sites method (List.mem_cons_of_mem _ member))
      shaped.2 fun marked => (fresh marked).2
    have same : _ = first.name := head.name_eq
    refine ⟨.cons rfl head' tail', ?_⟩
    simp only [FunctionDecl.bindMethods, same]
    exact Follows.bind follows (Follows.bind follows' (Follows.pure _ _))

end

/-- A program that was bound without a fault, with the new name: it matches the program, and is bound to itself
without a fault. -/
theorem Renames.bind_eq {source : Program Unit} {program' : BoundProgram} (shaped : Stmt.ShapedAll source)
    (clean : (source.bind known).faults = []) (renames : naming.Renames (source.bind known).program program')
    (new : naming.new ≠ "this" ∧ naming.new ≠ "super") :
    naming.leaves.pairing.MatchBody [] [] (source.bind known).program program' ∧
      program'.bind known = ⟨program', []⟩ := by
  have again := source.bind_again known
  have bare := (source.addressed_bind known).1
  have settled := Program.settled_of_bind clean
  rw [← bare] at shaped
  generalize (source.bind known).program = program at again bare settled shaped renames
  have layered : naming.Layered none [] [] := ⟨.nil, nofun, nofun⟩
  have site : Site naming known none [] {} { node := .sequence program } := ⟨by simp [Inside], layered, new, nofun, settled⟩
  obtain ⟨parts, follows⟩ := renamed_body renames site.row (Stmt.shapedAll_of_bare program shaped) (fun _ _ => trivial)
    nofun nofun
  have start : naming.Keeps none [] {} {} := ⟨.nil, .outside _, rfl, rfl, rfl⟩
  obtain ⟨after, _, bound⟩ := follows {} {} start
  have faults : ((Stmt.bindAll known {} program {}).2.faults.toList : List (Located ScopeFault)) = [] := by
    have kept : (Program.bind known program).faults = [] := by rw [again, clean]
    exact kept
  have same := after.faults
  rw [Array.toList_eq_nil_iff.mp faults] at same
  refine ⟨parts, ?_⟩
  have none : (Stmt.bindAll known {} program' {}).2.faults.toList = [] :=
    Array.toList_eq_nil_iff.mpr (Array.eq_empty_of_size_eq_zero same)
  change Bound.mk (Stmt.bindAll known {} program' {}).1 (Stmt.bindAll known {} program' {}).2.faults.toList = _
  rw [bound, none]

end Statements

end Renaming

end Lox

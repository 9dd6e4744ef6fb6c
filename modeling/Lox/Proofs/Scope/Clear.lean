import Lox.Proofs.Run.Outward
import Lox.Proofs.Scope.Safety

/-!
Programs in which nothing stands between a reference and what it refers to. No scope that is nearer than that
of its name declares the name anywhere, be it after the reference or in code that is never reached, and no
reference is in the initialiser of its own variable. In such programs the search outward finds what the
distances say.
-/
namespace Lox

/-- No scope between a place and the one at a distance declares a name; without a distance, none around does. -/
def Unhidden (scopes : List (List String)) (name : String) : Distance → Prop
  | some distance => ∀ scope ∈ scopes.take distance, name ∉ scope
  | none => ∀ scope ∈ scopes, name ∉ scope

instance (scopes : List (List String)) (name : String) : (note : Distance) → Decidable (Unhidden scopes name note)
  | some distance => inferInstanceAs (Decidable (∀ scope ∈ scopes.take distance, name ∉ scope))
  | none => inferInstanceAs (Decidable (∀ scope ∈ scopes, name ∉ scope))

section Clear

mutual

/-- Expressions inside scopes with all their names. `pending` is the variable that is being initialised. -/
def Expr.Clear (scopes : List (List String)) (pending : Option String) : Expr Distance → Prop
  | .literal _ => True
  | .grouping inner => inner.Clear scopes pending
  | .unary _ _ operand => operand.Clear scopes pending
  | .binary _ left _ right => left.Clear scopes pending ∧ right.Clear scopes pending
  | .logical _ left _ right => left.Clear scopes pending ∧ right.Clear scopes pending
  | .read name note => Unhidden scopes name.lexeme note ∧ (note = some 0 → pending ≠ some name.lexeme)
  | .assign name note value => Unhidden scopes name.lexeme note ∧ (note = some 0 → pending ≠ some name.lexeme) ∧
      value.Clear scopes pending
  | .call callee _ arguments => callee.Clear scopes pending ∧ Expr.ClearAll scopes pending arguments
  | .get object _ => object.Clear scopes pending
  | .set object _ value => object.Clear scopes pending ∧ value.Clear scopes pending
  | .this keyword note => Unhidden scopes keyword.lexeme note
  | .super keyword note _ => Unhidden scopes keyword.lexeme note

def Expr.ClearAll (scopes : List (List String)) (pending : Option String) : List (Expr Distance) → Prop
  | [] => True
  | first :: rest => first.Clear scopes pending ∧ Expr.ClearAll scopes pending rest

end

def Expr.ClearOption (scopes : List (List String)) (pending : Option String) : Option (Expr Distance) → Prop
  | none => True
  | some value => value.Clear scopes pending

mutual

/-- Statements inside scopes with all their names. -/
def Stmt.Clear (scopes : List (List String)) : Stmt Distance → Prop
  | .expression value | .print value => value.Clear scopes none
  | .varDecl name initial => Expr.ClearOption scopes (some name.lexeme) initial
  | .block body => Stmt.ClearAll (declaredAfter [] body :: scopes) body
  | .ifThen condition accepted => condition.Clear scopes none ∧ accepted.Clear scopes
  | .ifElse condition accepted rejected =>
    condition.Clear scopes none ∧ accepted.Clear scopes ∧ rejected.Clear scopes
  | .whileLoop condition body => condition.Clear scopes none ∧ body.Clear scopes
  | .funDecl declaration => declaration.Clear scopes
  | .returnStmt _ value => Expr.ClearOption scopes none value
  | .classDecl _ superclass methods =>
    Expr.ClearOption scopes none (superclass.map fun (parent, note) => .read parent note) ∧
      FunctionDecl.ClearAll (Node.classScopes superclass.isSome ++ scopes) methods

def Stmt.ClearAll (scopes : List (List String)) : List (Stmt Distance) → Prop
  | [] => True
  | first :: rest => first.Clear scopes ∧ Stmt.ClearAll scopes rest

/-- The scope of a function has its parameters and all that its body declares. -/
def FunctionDecl.Clear (scopes : List (List String)) : FunctionDecl Distance → Prop
  | .mk _ params body => Stmt.ClearAll (declaredAfter (params.map Token.lexeme) body :: scopes) body

def FunctionDecl.ClearAll (scopes : List (List String)) : List (FunctionDecl Distance) → Prop
  | [] => True
  | first :: rest => first.Clear scopes ∧ FunctionDecl.ClearAll scopes rest

end

/-- Nothing stands between the references of a program and what they refer to. -/
def BoundProgram.Clear (program : BoundProgram) : Prop := Stmt.ClearAll [] program

end Clear

section Decidable

mutual

def Expr.decideClear (scopes : List (List String)) (pending : Option String) :
    (expr : Expr Distance) → Decidable (expr.Clear scopes pending)
  | .literal _ => inferInstanceAs (Decidable True)
  | .grouping inner => inner.decideClear scopes pending
  | .unary _ _ operand => operand.decideClear scopes pending
  | .binary _ left _ right | .logical _ left _ right =>
    @instDecidableAnd _ _ (left.decideClear scopes pending) (right.decideClear scopes pending)
  | .read name note => inferInstanceAs (Decidable (Unhidden scopes name.lexeme note ∧ (note = some 0 → _)))
  | .assign name note value =>
    @instDecidableAnd (Unhidden scopes name.lexeme note) _ inferInstance
      (@instDecidableAnd (note = some 0 → pending ≠ some name.lexeme) _ inferInstance (value.decideClear scopes pending))
  | .call callee _ arguments =>
    @instDecidableAnd _ _ (callee.decideClear scopes pending) (Expr.decideClearAll scopes pending arguments)
  | .get object _ => object.decideClear scopes pending
  | .set object _ value =>
    @instDecidableAnd _ _ (object.decideClear scopes pending) (value.decideClear scopes pending)
  | .this keyword note => inferInstanceAs (Decidable (Unhidden scopes keyword.lexeme note))
  | .super keyword note _ => inferInstanceAs (Decidable (Unhidden scopes keyword.lexeme note))

def Expr.decideClearAll (scopes : List (List String)) (pending : Option String) :
    (exprs : List (Expr Distance)) → Decidable (Expr.ClearAll scopes pending exprs)
  | [] => inferInstanceAs (Decidable True)
  | first :: rest =>
    @instDecidableAnd _ _ (first.decideClear scopes pending) (Expr.decideClearAll scopes pending rest)

end

def Expr.decideClearOption (scopes : List (List String)) (pending : Option String) :
    (value : Option (Expr Distance)) → Decidable (Expr.ClearOption scopes pending value)
  | none => inferInstanceAs (Decidable True)
  | some value => value.decideClear scopes pending

mutual

def Stmt.decideClear (scopes : List (List String)) : (stmt : Stmt Distance) → Decidable (stmt.Clear scopes)
  | .expression value | .print value => value.decideClear scopes none
  | .varDecl name initial => Expr.decideClearOption scopes (some name.lexeme) initial
  | .block body => Stmt.decideClearAll (declaredAfter [] body :: scopes) body
  | .ifThen condition accepted =>
    @instDecidableAnd _ _ (condition.decideClear scopes none) (accepted.decideClear scopes)
  | .ifElse condition accepted rejected =>
    @instDecidableAnd _ _ (condition.decideClear scopes none)
      (@instDecidableAnd _ _ (accepted.decideClear scopes) (rejected.decideClear scopes))
  | .whileLoop condition body =>
    @instDecidableAnd _ _ (condition.decideClear scopes none) (body.decideClear scopes)
  | .funDecl declaration => declaration.decideClear scopes
  | .returnStmt _ value => Expr.decideClearOption scopes none value
  | .classDecl _ superclass methods =>
    @instDecidableAnd _ _ (Expr.decideClearOption scopes none (superclass.map fun (parent, note) => .read parent note))
      (FunctionDecl.decideClearAll (Node.classScopes superclass.isSome ++ scopes) methods)

def Stmt.decideClearAll (scopes : List (List String)) :
    (body : List (Stmt Distance)) → Decidable (Stmt.ClearAll scopes body)
  | [] => inferInstanceAs (Decidable True)
  | first :: rest => @instDecidableAnd _ _ (first.decideClear scopes) (Stmt.decideClearAll scopes rest)

def FunctionDecl.decideClear (scopes : List (List String)) :
    (declaration : FunctionDecl Distance) → Decidable (declaration.Clear scopes)
  | .mk _ params body => Stmt.decideClearAll (declaredAfter (params.map Token.lexeme) body :: scopes) body

def FunctionDecl.decideClearAll (scopes : List (List String)) :
    (methods : List (FunctionDecl Distance)) → Decidable (FunctionDecl.ClearAll scopes methods)
  | [] => inferInstanceAs (Decidable True)
  | first :: rest => @instDecidableAnd _ _ (first.decideClear scopes) (FunctionDecl.decideClearAll scopes rest)

end

instance (program : BoundProgram) : Decidable program.Clear := Stmt.decideClearAll [] program

end Decidable

namespace Outward

variable {layers : List Layer} {scopes : List (List String)} {name : String} {note : Distance} {pending : Option String}

/-- A layer whose frames may have the given names, and no other ones. -/
structure Fit (layer : Layer) (names : List String) : Prop where
  may : ∀ name, layer.keys.may name ↔ name ∈ names
  ready : ∀ name ∈ layer.ready, layer.keys.may name
  other : layer.keys.other = id

/-- Scopes with all the names that the frames of layers may have. -/
def Fits (layers : List Layer) (scopes : List (List String)) : Prop := List.Forall₂ Fit layers scopes

theorem Fits.grown {names : List String} (fits : Fits layers scopes) (allowed : ∀ name ∈ names, Layer.Allows name layers) :
    Fits (Layer.grown names layers) scopes := by
  cases fits with
  | nil => exact .nil
  | cons head tail =>
    refine .cons ⟨head.may, fun name member => ?_, head.other⟩ tail
    rcases List.mem_append.mp member with new | older
    · exact allowed name new
    · exact head.ready name older

/-- What is ready at a distance is no nearer than what may be there. -/
theorem Fits.not_declares {distance closer : Nat} (fits : Fits layers scopes)
    (nearest : Nearest layers name (some distance)) (below : closer < distance) :
    ¬ Declares (layers.map Layer.ready) closer name := by
  rintro ⟨names, found, member⟩
  rw [List.getElem?_map, Option.map_eq_some_iff] at found
  obtain ⟨layer, found, rfl⟩ := found
  have near : layer ∈ layers.take distance := by
    apply List.mem_of_getElem?
    rw [List.getElem?_take_of_lt below, found]
  obtain ⟨place, inside, same⟩ := List.getElem_of_mem (List.mem_of_getElem? found)
  have fit := (List.forall₂_iff_get.mp fits).2 place inside (fits.length_eq ▸ inside)
  refine nearest.2 layer near ?_
  rw [← same] at member ⊢
  exact fit.ready name member

theorem Fits.nearest (fits : Fits layers scopes) (reaches : Reaches (layers.map Layer.ready) name note)
    (unhidden : Unhidden scopes name note) : Nearest layers name note := by
  have never {layers : List Layer} {scopes : List (List String)} (fits : Fits layers scopes)
      (absent : ∀ scope ∈ scopes, name ∉ scope) : ∀ layer ∈ layers, ¬ layer.keys.may name := by
    induction fits with
    | nil => simp
    | cons head _ ih =>
      simp only [List.mem_cons, forall_eq_or_imp, head.may name] at absent ⊢
      exact ⟨absent.1, ih absent.2⟩
  cases note with
  | none => exact never fits unhidden
  | some distance =>
    obtain ⟨names, found, member⟩ := reaches distance rfl
    rw [List.getElem?_map, Option.map_eq_some_iff] at found
    obtain ⟨layer, found, rfl⟩ := found
    exact ⟨⟨layer, found, member⟩, never (List.forall₂_take distance fits) unhidden⟩

/-- Inside a class with a superclass the nearest `this` is right inside the nearest `super`. -/
def Owned (layers : List Layer) (owner : ClassContext) : Prop :=
  owner = .subclass → ∃ distance, Nearest layers "this" (some distance) ∧ Nearest layers "super" (some (distance + 1))

theorem Nearest.declares {distance : Nat} (nearest : Nearest layers name (some distance)) :
    Declares (layers.map Layer.ready) distance name := by
  obtain ⟨⟨layer, found, member⟩, _⟩ := nearest
  exact ⟨layer.ready, by rw [List.getElem?_map, found]; rfl, member⟩

theorem Nearest.grown {distance : Nat} (nearest : Nearest layers name (some distance)) (names : List String) :
    Nearest (Layer.grown names layers) name (some distance) := by
  obtain ⟨⟨layer, found, member⟩, never⟩ := nearest
  cases layers with
  | nil => simp at found
  | cons first outer =>
    cases distance with
    | zero =>
      simp only [List.getElem?_cons_zero, Option.some.injEq] at found
      subst found
      exact ⟨⟨_, rfl, List.mem_append_right _ member⟩, by simp⟩
    | succ distance =>
      refine ⟨⟨layer, found, member⟩, ?_⟩
      simpa [Layer.grown] using never

theorem Nearest.cons {distance : Nat} {layer : Layer} (nearest : Nearest layers name (some distance))
    (never : ¬ layer.keys.may name) : Nearest (layer :: layers) name (some (distance + 1)) := by
  obtain ⟨⟨target, found, member⟩, further⟩ := nearest
  refine ⟨⟨target, by simpa using found, member⟩, ?_⟩
  simpa using ⟨never, further⟩

theorem Owned.grown {owner : ClassContext} (owned : Owned layers owner) (names : List String) :
    Owned (Layer.grown names layers) owner := by
  intro inside
  obtain ⟨distance, this, super⟩ := owned inside
  exact ⟨distance, this.grown names, super.grown names⟩

theorem Owned.cons {owner : ClassContext} {layer : Layer} (owned : Owned layers owner)
    (plain : ¬ layer.keys.may "this" ∧ ¬ layer.keys.may "super") : Owned (layer :: layers) owner := by
  intro inside
  obtain ⟨distance, this, super⟩ := owned inside
  exact ⟨distance + 1, this.cons plain.1, super.cons plain.2⟩

theorem Fits.inherited (fits : Fits layers scopes) (hasSuperclass : Bool) :
    Fits (.ofThis :: Layer.inherited hasSuperclass layers) (Node.classScopes hasSuperclass ++ scopes) := by
  have fit (name : String) : Fit ⟨.only (· = name), [name]⟩ [name] := by constructor <;> simp [Keys.only]
  cases hasSuperclass with
  | false => exact .cons (fit "this") fits
  | true => exact .cons (fit "this") (.cons (fit "super") fits)

theorem Owned.inherited (hasSuperclass : Bool) (layers : List Layer) :
    Owned (.ofThis :: Layer.inherited hasSuperclass layers) (if hasSuperclass then .subclass else .plain) := by
  cases hasSuperclass with
  | false => exact nofun
  | true =>
    have this : Nearest (.ofThis :: .ofSuper :: layers) "this" (some 0) :=
      ⟨⟨.ofThis, rfl, by simp [Layer.ofThis]⟩, by simp⟩
    have super : Nearest (.ofThis :: .ofSuper :: layers) "super" (some 1) :=
      ⟨⟨.ofSuper, rfl, by simp [Layer.ofSuper]⟩, by simp [Layer.ofThis, Keys.only]⟩
    exact fun _ => ⟨0, this, super⟩

/-- A name that is assigned outside of its own initialiser is ready. -/
theorem checks_completed (name : Token) :
    Checks (Bind.distance? name) (Tracks pending · scopes) (Tracks pending · scopes) fun note =>
      (note = some 0 → pending ≠ some name.lexeme) → Reaches scopes name.lexeme note := by
  refine fun binder tracks => ⟨tracks, Nat.le_refl _, fun _ complete => ?_⟩
  by_cases unready : pending = some name.lexeme
  · obtain ⟨tables, _, _, _⟩ := binder
    change Tracks pending tables scopes at tracks
    cases tracks with
    | nil => exact nofun
    | @cons table _ tables _ head _ _ =>
      have found : (table :: tables).findIdx? (·.contains name.lexeme) = some 0 := by
        rw [List.findIdx?_cons, (head name.lexeme).mpr (.inr unready)]
        rfl
      exact absurd unready (complete found)
  · exact (tracks.finds unready).reaches

mutual

theorem matchExpr {around : Surrounding} (fits : Fits layers scopes) (owned : Owned layers around.owner)
    (plain : PlainPending pending) : ∀ expr : Expr Unit, expr.Shaped →
      Checks (expr.bind around) (Tracks pending · (layers.map Layer.ready)) (Tracks pending · (layers.map Layer.ready))
        fun bound => bound.Clear scopes pending → leaves.pairing.MatchExpr layers bound bound
  | .literal value, _ => Checks.pure fun _ => .literal value
  | .grouping inner, shaped =>
    Checks.bind (matchExpr fits owned plain inner shaped) fun _ => Checks.pure fun part clear => .grouping (part clear)
  | .unary op sign operand, shaped =>
    Checks.bind (matchExpr fits owned plain operand shaped) fun _ => Checks.pure fun part clear => .unary rfl (part clear)
  | .binary op left sign right, shaped =>
    Checks.bind (matchExpr fits owned plain left shaped.1) fun _ =>
      Checks.bind (matchExpr fits owned plain right shaped.2) fun _ =>
        Checks.pure fun second first clear => .binary rfl (first clear.1) (second clear.2)
  | .logical op left sign right, shaped =>
    Checks.bind (matchExpr fits owned plain left shaped.1) fun _ =>
      Checks.bind (matchExpr fits owned plain right shaped.2) fun _ =>
        Checks.pure fun second first clear => .logical rfl (first clear.1) (second clear.2)
  | .read name _, _ =>
    Checks.bind (checks_readName name) fun _ => Checks.pure fun reaches clear =>
      .read ⟨rfl, fits.nearest reaches clear.1⟩
  | .assign name _ value, shaped =>
    Checks.bind (matchExpr fits owned plain value shaped.2) fun _ =>
      Checks.bind (checks_completed name) fun _ => Checks.pure fun reaches part clear =>
        .assign ⟨rfl, fits.nearest (reaches clear.2.1) clear.1⟩ (part clear.2.2)
  | .call callee paren arguments, shaped =>
    Checks.bind (matchExpr fits owned plain callee shaped.1) fun _ =>
      Checks.bind (matchExprs fits owned plain arguments shaped.2) fun _ =>
        Checks.pure fun parts part clear => .call rfl (part clear.1) (parts clear.2)
  | .get object name, shaped =>
    Checks.bind (matchExpr fits owned plain object shaped) fun _ => Checks.pure fun part clear => .get rfl rfl (part clear)
  | .set object name value, shaped =>
    Checks.bind (matchExpr fits owned plain value shaped.2) fun _ =>
      Checks.bind (matchExpr fits owned plain object shaped.1) fun _ =>
        Checks.pure fun first second clear => .set rfl rfl (first clear.1) (second clear.2)
  | .this keyword _, shaped => by
    have spelled : keyword.lexeme = "this" := shaped
    simp only [Expr.bind]
    split
    · exact Checks.bind (checks_complain _ _ fun _ => False) fun _ => Checks.pure False.elim
    · refine Checks.bind (checks_distance keyword (by rw [spelled]; exact plain.1)) fun note =>
        Checks.pure fun finds clear => .this ⟨rfl, fits.nearest finds.reaches clear⟩
  | .super keyword _ method, shaped => by
    have spelled : keyword.lexeme = "super" := shaped
    have looks : Checks (do return Expr.super keyword (← Bind.distance? keyword) method)
        (Tracks pending · (layers.map Layer.ready)) (Tracks pending · (layers.map Layer.ready)) fun bound =>
          around.owner = .subclass → leaves.pairing.MatchExpr layers bound bound := by
      refine Checks.bind (checks_distance keyword (by rw [spelled]; exact plain.2)) fun note =>
        Checks.pure fun finds inside => .super ⟨rfl, spelled, ?_⟩ rfl rfl
      rw [spelled] at finds
      obtain ⟨distance, this, super⟩ := owned inside
      have declared : Declares (layers.map Layer.ready) (distance + 1) "super" := super.declares
      cases note with
      | none => exact absurd declared (finds (distance + 1))
      | some found =>
        have same : found = distance + 1 := by
          rcases Nat.lt_trichotomy found (distance + 1) with below | same | above
          · exact absurd finds.1 (fits.not_declares super below)
          · exact same
          · exact absurd declared (finds.2 _ above)
        exact ⟨distance, congrArg some same, super, this⟩
    simp only [Expr.bind]
    split
    · exact Checks.bind (checks_complain _ _ fun _ => False) fun _ => looks.weaken fun _ _ => False.elim
    · exact Checks.bind (checks_complain _ _ fun _ => False) fun _ => looks.weaken fun _ _ => False.elim
    · rename_i inside
      exact looks.weaken fun _ safe _ => safe inside

theorem matchExprs {around : Surrounding} (fits : Fits layers scopes) (owned : Owned layers around.owner)
    (plain : PlainPending pending) : ∀ exprs : List (Expr Unit), Expr.ShapedAll exprs →
      Checks (Expr.bindAll around exprs) (Tracks pending · (layers.map Layer.ready))
        (Tracks pending · (layers.map Layer.ready))
        fun bound => Expr.ClearAll scopes pending bound → leaves.pairing.MatchExprs layers bound bound
  | [], _ => Checks.pure fun _ => .nil
  | first :: rest, shaped =>
    Checks.bind (matchExpr fits owned plain first shaped.1) fun _ =>
      Checks.bind (matchExprs fits owned plain rest shaped.2) fun _ =>
        Checks.pure fun tail head clear => .cons (head clear.1) (tail clear.2)

end

theorem matchOption {around : Surrounding} (fits : Fits layers scopes) (owned : Owned layers around.owner)
    (plain : PlainPending pending) (value : Option (Expr Unit)) (shaped : Expr.ShapedOption value) :
    Checks (Expr.bindOption around value) (Tracks pending · (layers.map Layer.ready))
      (Tracks pending · (layers.map Layer.ready))
      fun bound => Expr.ClearOption scopes pending bound → ∀ value ∈ bound, leaves.pairing.MatchExpr layers value value := by
  cases value with
  | none => exact Checks.pure fun _ => nofun
  | some value =>
    refine Checks.bind (matchExpr fits owned plain value shaped) fun _ => Checks.pure fun part clear => ?_
    rintro _ ⟨⟩
    exact part clear

theorem declares_grown {name : Token} (fits : Fits layers scopes) (allowed : Layer.Allows name.lexeme layers) :
    leaves.pairing.Declares layers name name (Layer.grown [name.lexeme] layers) := by
  cases fits with
  | nil => exact ⟨rfl, rfl, rfl⟩
  | cons head tail => exact ⟨rfl, allowed, by rw [head.other]; rfl, rfl⟩

/-- A new scope, in which the names that it has from the start and those that the body declares may be. -/
def opened (names : List String) (body : List (Stmt Unit)) : Layer := ⟨.only (· ∈ declaredAfter names body), names⟩

theorem mem_declaredAfter {ρ : Type} {earlier : List String} {body : List (Stmt ρ)} :
    name ∈ declaredAfter earlier body ↔ name ∈ declaredAfter [] body ∨ name ∈ earlier := by
  rw [declaredAfter_append, List.mem_append]

theorem Fits.opened (fits : Fits layers scopes) (names : List String) (body : List (Stmt Unit)) :
    Fits (opened names body :: layers) (declaredAfter names body :: scopes) :=
  .cons ⟨fun _ => .rfl, fun _ member => mem_declaredAfter.mpr (.inr member), rfl⟩ fits

/-- No keyword is declared. -/
theorem plain_declared {stmt : Stmt Unit} (shaped : stmt.Shaped) (member : name ∈ stmt.declared) :
    name ≠ "this" ∧ name ≠ "super" := by
  cases stmt with
  | varDecl => exact List.mem_singleton.mp member ▸ shaped.1
  | funDecl => exact List.mem_singleton.mp member ▸ shaped.1
  | classDecl => exact List.mem_singleton.mp member ▸ shaped.1
  | ifThen => simp [Stmt.declared, shaped.2.2] at member
  | ifElse => simp [Stmt.declared, shaped.2.1.2, shaped.2.2.2] at member
  | whileLoop => simp [Stmt.declared, shaped.2.2] at member
  | _ => simp [Stmt.declared] at member

theorem plain_declaredAfter : ∀ {body : List (Stmt Unit)}, Stmt.ShapedAll body → name ∈ declaredAfter [] body →
    name ≠ "this" ∧ name ≠ "super"
  | [], _, member => by simp [declaredAfter] at member
  | first :: rest, shaped, member => by
    rw [declaredAfter, mem_declaredAfter, List.append_nil] at member
    rcases member with later | own
    · exact plain_declaredAfter shaped.2 later
    · exact plain_declared shaped.1 own

theorem Owned.opened {owner : ClassContext} {params : List Token} {body : List (Stmt Unit)} (owned : Owned layers owner)
    (plain : ∀ param ∈ params, param.Plain) (shaped : Stmt.ShapedAll body) :
    Owned (opened (params.map Token.lexeme) body :: layers) owner := by
  have never {keyword : String} (isKeyword : keyword = "this" ∨ keyword = "super") :
      keyword ∉ declaredAfter (params.map Token.lexeme) body := by
    intro member
    rcases mem_declaredAfter.mp member with declared | own
    · have other := plain_declaredAfter shaped declared
      rcases isKeyword with same | same <;> simp [same] at other
    · obtain ⟨param, isParam, same⟩ := List.mem_map.mp own
      have other := plain param isParam
      rw [Token.Plain, same] at other
      rcases isKeyword with same | same <;> simp [same] at other
  exact owned.cons ⟨never (.inl rfl), never (.inr rfl)⟩

theorem opens_opened (params : List Token) (body : List (Stmt Unit)) :
    leaves.pairing.Opens layers params params (opened (params.map Token.lexeme) body :: layers) := by
  refine ⟨?_, .only (· ∈ declaredAfter (params.map Token.lexeme) body), rfl, fun param member => ?_, by simp [Keys.only], rfl⟩
  · exact List.forall₂_same.mpr fun _ _ => rfl
  · exact mem_declaredAfter.mpr (.inr (List.mem_map_of_mem member))

mutual

theorem matchStmt (known : List String) (around : Surrounding) {layers : List Layer} {scopes : List (List String)}
    (fits : Fits layers scopes) (owned : Owned layers around.owner) : ∀ stmt : Stmt Unit, stmt.Shaped →
      (∀ name ∈ stmt.declared, Layer.Allows name layers) →
      Checks (stmt.bind known around) (Tracks none · (layers.map Layer.ready))
        (Tracks none · (Place.declare stmt.declared (layers.map Layer.ready))) fun bound =>
          bound.declared = stmt.declared ∧ (bound.Clear scopes →
            leaves.pairing.MatchStmt layers (Layer.grown stmt.declared layers) bound bound)
  | .expression value, shaped, _ => by
    rw [Stmt.declared, declare_nil, Layer.grown_nil]
    exact Checks.bind (matchExpr fits owned plainPending_none value shaped) fun _ =>
      Checks.pure fun part => ⟨rfl, fun clear => .expression (part clear)⟩
  | .print value, shaped, _ => by
    rw [Stmt.declared, declare_nil, Layer.grown_nil]
    exact Checks.bind (matchExpr fits owned plainPending_none value shaped) fun _ =>
      Checks.pure fun part => ⟨rfl, fun clear => .print (part clear)⟩
  | .varDecl name initial, shaped, allowed => by
    refine Checks.bind (checks_declare known name) fun _ =>
      Checks.bind (matchOption fits owned shaped.1.pending initial shaped.2) fun bound =>
        Checks.bind (checks_define name) fun _ => Checks.pure fun _ part _ => ⟨rfl, fun clear => ?_⟩
    have declares := declares_grown fits (allowed name.lexeme (by simp [Stmt.declared]))
    cases bound with
    | none => exact .varDecl declares
    | some value => exact .varInit (part clear value rfl) declares
  | .block body, shaped, _ => by
    rw [Stmt.declared, declare_nil, Layer.grown_nil]
    have noParams : ∀ param ∈ ([] : List Token), param.Plain := nofun
    have owned' : Owned (opened [] body :: layers) around.owner := owned.opened noParams shaped
    have inside := matchBody known around (fits.opened [] body) owned' body shaped fun _ member => member
    refine Checks.bind (checks_inScope [] _ inside) fun bound => Checks.pure fun parts => ⟨rfl, fun clear => ?_⟩
    have clear : Stmt.ClearAll (declaredAfter [] bound :: scopes) bound := clear
    rw [parts.1] at clear
    exact .block (opens_opened [] body) (parts.2 clear)
  | .ifThen condition accepted, shaped, allowed => by
    have after := matchStmt known around fits owned accepted shaped.2.1 allowed
    refine Checks.bind (matchExpr fits owned plainPending_none condition shaped.1) fun _ =>
      Checks.bind after fun bound => Checks.pure fun part test => ⟨part.1, fun clear => ?_⟩
    have branch := part.2 clear.2
    simp only [Stmt.declared, shaped.2.2, Layer.grown_nil] at branch ⊢
    exact .ifThen (test clear.1) branch
  | .ifElse condition accepted rejected, shaped, _ => by
    have silent : (Stmt.ifElse condition accepted rejected).declared = [] := by
      simp [Stmt.declared, shaped.2.1.2, shaped.2.2.2]
    have first := matchStmt known around fits owned accepted shaped.2.1.1 (by simp [shaped.2.1.2])
    have second := matchStmt known around fits owned rejected shaped.2.2.1 (by simp [shaped.2.2.2])
    rw [shaped.2.1.2, declare_nil, Layer.grown_nil] at first
    rw [shaped.2.2.2, declare_nil, Layer.grown_nil] at second
    rw [silent, declare_nil, Layer.grown_nil]
    refine Checks.bind (matchExpr fits owned plainPending_none condition shaped.1) fun _ => Checks.bind first fun one =>
      Checks.bind second fun two => Checks.pure fun rejected accepted test => ⟨?_, fun clear => ?_⟩
    · simp [Stmt.declared, accepted.1, rejected.1]
    · exact .ifElse (test clear.1) (accepted.2 clear.2.1) (rejected.2 clear.2.2)
  | .whileLoop condition body, shaped, allowed => by
    have after := matchStmt known around fits owned body shaped.2.1 allowed
    refine Checks.bind (matchExpr fits owned plainPending_none condition shaped.1) fun _ =>
      Checks.bind after fun bound => Checks.pure fun part test => ⟨part.1, fun clear => ?_⟩
    have branch := part.2 clear.2
    simp only [Stmt.declared, shaped.2.2, Layer.grown_nil] at branch ⊢
    exact .whileLoop (test clear.1) branch
  | .funDecl declaration, shaped, allowed => by
    have may := allowed declaration.name.lexeme (by simp [Stmt.declared])
    have inside := matchFunction known { around with function := .function }
      (fits.grown (by simpa using may)) (owned.grown [declaration.name.lexeme]) declaration shaped.2
    rw [Layer.ready_grown] at inside
    refine Checks.bind (checks_introduce known declaration.name) fun _ =>
      Checks.bind inside fun bound => Checks.pure fun part _ => ⟨?_, fun clear => ?_⟩
    · simp only [Stmt.declared, part.1]
    · refine .funDecl ?_ (part.2 clear)
      rw [part.1]
      exact declares_grown fits may
  | .returnStmt keyword value, shaped, _ => by
    have binds : Checks (do return Stmt.returnStmt keyword (← Expr.bindOption around value))
        (Tracks none · (layers.map Layer.ready)) (Tracks none · (layers.map Layer.ready)) fun bound =>
          bound.declared = [] ∧ (bound.Clear scopes → leaves.pairing.MatchStmt layers layers bound bound) := by
      refine Checks.bind (matchOption fits owned plainPending_none value shaped) fun bound =>
        Checks.pure fun part => ⟨rfl, fun clear => ?_⟩
      cases bound with
      | none => exact .returnNone rfl
      | some value => exact .returnSome rfl (part clear value rfl)
    have valued : Checks (do
        if value.isSome && around.function = .initializer then
          Bind.complain keyword .returnValueFromInitializer
        return Stmt.returnStmt keyword (← Expr.bindOption around value))
        (Tracks none · (layers.map Layer.ready)) (Tracks none · (layers.map Layer.ready)) fun bound =>
          bound.declared = [] ∧ (bound.Clear scopes → leaves.pairing.MatchStmt layers layers bound bound) := by
      split
      · exact Checks.bind (checks_complain _ _ fun _ => True) fun _ => binds.weaken fun _ matching _ => matching
      · exact binds
    rw [Stmt.declared, declare_nil, Layer.grown_nil]
    simp only [Stmt.bind]
    split
    · exact Checks.bind (checks_complain _ _ fun _ => True) fun _ => valued.weaken fun _ matching _ => matching
    · exact valued
  | .classDecl name superclass methods, shaped, allowed => by
    have may := allowed name.lexeme (by simp [Stmt.declared])
    refine Checks.bind (checks_introduce known name) fun _ =>
      Checks.bind (checks_superclass name superclass) fun parent => ?_
    have fits' : Fits (Layer.grown [name.lexeme] layers) scopes := fits.grown (by simpa using may)
    have inside := matchMethods known { around with owner := if parent.isSome then .subclass else .plain }
      (fits'.inherited parent.isSome) (.inherited parent.isSome _) methods shaped.2
    rw [Layer.ready_inherited, Layer.ready_grown] at inside
    refine Checks.bind (checks_inClassScopes parent.isSome inside) fun bound =>
      Checks.pure fun parts reached _ => ⟨rfl, fun clear => ?_⟩
    have reads : leaves.pairing.MatchSuperclass layers parent parent := by
      cases parent with
      | none => exact .none
      | some entry => exact .some rfl ⟨rfl, fits.nearest (reached.2 _ _ rfl) clear.1.1⟩
    exact .classDecl rfl reads (declares_grown fits may) rfl (parts clear.2)

theorem matchBody (known : List String) (around : Surrounding) {layers : List Layer} {scopes : List (List String)}
    (fits : Fits layers scopes) (owned : Owned layers around.owner) : ∀ body : List (Stmt Unit), Stmt.ShapedAll body →
      (∀ name ∈ declaredAfter [] body, Layer.Allows name layers) →
      Checks (Stmt.bindAll known around body) (Tracks none · (layers.map Layer.ready))
        (Tracks none · (Place.declare (declaredAfter [] body) (layers.map Layer.ready))) fun bound =>
          (∀ earlier, declaredAfter earlier bound = declaredAfter earlier body) ∧ (Stmt.ClearAll scopes bound →
            leaves.pairing.MatchBody layers (Layer.grown (declaredAfter [] body) layers) bound bound)
  | [], _, _ => by
    rw [declaredAfter, declare_nil, Layer.grown_nil]
    exact Checks.pure ⟨fun _ => rfl, fun _ => .nil⟩
  | first :: rest, shaped, allowed => by
    have allowed' : ∀ name, name ∈ declaredAfter [] rest ∨ name ∈ first.declared → Layer.Allows name layers := by
      intro name member
      apply allowed
      rwa [declaredAfter, mem_declaredAfter, List.append_nil]
    have may : ∀ name ∈ first.declared, Layer.Allows name layers := fun name member => allowed' name (.inr member)
    have before := matchStmt known around fits owned first shaped.1 may
    have after := matchBody known around (fits.grown may) (owned.grown first.declared) rest shaped.2
      fun name member => Layer.allows_grown.mpr (allowed' name (.inl member))
    rw [Layer.ready_grown, ← declare_append, Layer.grown_grown, ← declaredAfter_append] at after
    rw [declaredAfter, List.append_nil]
    refine Checks.bind before fun _ => Checks.bind after fun _ => Checks.pure fun tail head => ⟨fun earlier => ?_, ?_⟩
    · rw [declaredAfter, declaredAfter, head.1, tail.1]
    · exact fun clear => .cons (head.2 clear.1) (tail.2 clear.2)

theorem matchFunction (known : List String) (around : Surrounding) {layers : List Layer} {scopes : List (List String)}
    (fits : Fits layers scopes) (owned : Owned layers around.owner) :
    ∀ declaration : FunctionDecl Unit, declaration.Shaped →
      Checks (declaration.bind known around) (Tracks none · (layers.map Layer.ready))
        (Tracks none · (layers.map Layer.ready)) fun bound =>
          bound.name = declaration.name ∧ (bound.Clear scopes → leaves.pairing.MatchFunction layers bound bound)
  | .mk name params body, shaped => by
    have allowed : ∀ name ∈ declaredAfter [] body, Layer.Allows name (opened (params.map Token.lexeme) body :: layers) :=
      fun _ member => mem_declaredAfter.mpr (.inl member)
    have opening := checks_params known params [] (layers.map Layer.ready)
    rw [List.append_nil] at opening
    have inside := matchBody known around (fits.opened (params.map Token.lexeme) body) (owned.opened shaped.1 shaped.2)
      body shaped.2 allowed
    refine Checks.bind (checks_inScope [] _ (Checks.bind opening fun _ => inside.weaken fun _ parts _ => parts))
      fun bound => Checks.pure fun parts => ⟨rfl, fun clear => ?_⟩
    have clear : Stmt.ClearAll (declaredAfter (params.map Token.lexeme) bound :: scopes) bound := clear
    rw [parts.1] at clear
    exact .mk rfl rfl (opens_opened params body) (parts.2 clear)

theorem matchMethods (known : List String) (around : Surrounding) {layers : List Layer} {scopes : List (List String)}
    (fits : Fits (.ofThis :: layers) scopes) (owned : Owned (.ofThis :: layers) around.owner) :
    ∀ methods : List (FunctionDecl Unit), FunctionDecl.ShapedAll methods →
      Checks (FunctionDecl.bindMethods known around methods) (Tracks none · ((Layer.ofThis :: layers).map Layer.ready))
        (Tracks none · ((Layer.ofThis :: layers).map Layer.ready)) fun bound =>
          FunctionDecl.ClearAll scopes bound → leaves.pairing.MatchMethods layers bound bound
  | [], _ => Checks.pure fun _ => .nil
  | first :: rest, shaped =>
    Checks.bind (matchFunction known { around with function := FunctionContext.ofMethod first.name.lexeme } fits owned
        first shaped.1) fun _ =>
      Checks.bind (matchMethods known around fits owned rest shaped.2) fun _ =>
        Checks.pure fun tail head clear => .cons rfl (head.2 clear.1) (tail clear.2)

end

/-- A program that is bound without a fault, and in which nothing hides anything, looks the same either way. -/
theorem matchProgram {known : List String} {program : Program Unit} (shaped : Stmt.ShapedAll program)
    (clean : (program.bind known).faults = []) (clear : (program.bind known).program.Clear) :
    leaves.pairing.MatchBody [] [] (program.bind known).program (program.bind known).program := by
  have checks := matchBody known {} (.nil : Fits [] []) nofun program shaped fun _ _ => trivial
  obtain ⟨_, _, matches_⟩ := checks {} .nil
  have none : (Stmt.bindAll known {} program {}).2.faults.toList = [] := clean
  refine (matches_ ?_).2 clear
  rw [Array.toList_eq_nil_iff.mp none]

end Outward

end Lox

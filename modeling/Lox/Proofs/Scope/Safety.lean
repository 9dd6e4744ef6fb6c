import Lox.Proofs.Grammar.Shape
import Lox.Proofs.Scope.Addresses

/-!
What binding without a fault says about the bound tree: every reference with a distance leads to a scope
that has the name ready at that point, `this` and `super` lead to the scopes of a class, and returns stand
in functions only. Of the scopes around a place only the ready names count here, so a variable whose
initialiser is being walked is not among them.
-/
namespace Lox

/-- The scope at a distance has a name. -/
def Declares (scopes : List (List String)) (distance : Nat) (name : String) : Prop :=
  ∃ names, scopes[distance]? = some names ∧ name ∈ names

/-- A reference with a distance leads to a scope that has its name. -/
def Reaches (scopes : List (List String)) (name : String) (note : Distance) : Prop :=
  ∀ distance, note = some distance → Declares scopes distance name

section Declares

variable {scopes : List (List String)} {scope names : List String} {distance : Nat} {name : String}

@[simp]
theorem declares_nil : ¬ Declares [] distance name := by simp [Declares]

@[simp]
theorem declares_cons_zero : Declares (scope :: scopes) 0 name ↔ name ∈ scope := by simp [Declares]

@[simp]
theorem declares_cons_succ : Declares (scope :: scopes) (distance + 1) name ↔ Declares scopes distance name := by
  simp [Declares]

theorem Declares.declare (declares : Declares scopes distance name) (names : List String) :
    Declares (Place.declare names scopes) distance name := by
  obtain _ | ⟨scope, outer⟩ := scopes
  · exact declares
  · cases distance with
    | zero => simp_all [Place.declare]
    | succ distance => simpa [Place.declare] using declares

theorem declares_of_declare (declares : Declares (Place.declare names scopes) distance name)
    (other : name ∉ names) : Declares scopes distance name := by
  obtain _ | ⟨scope, outer⟩ := scopes
  · exact declares
  · cases distance with
    | zero => simpa [Place.declare, other] using declares
    | succ distance => simpa [Place.declare] using declares

theorem Declares.lt_length (declares : Declares scopes distance name) : distance < scopes.length := by
  obtain ⟨names, found, _⟩ := declares
  exact (List.getElem?_eq_some_iff.mp found).1

end Declares

section Safe

mutual

def Expr.Safe (scopes : List (List String)) : Expr Distance → Prop
  | .literal _ => True
  | .grouping inner => inner.Safe scopes
  | .unary _ _ operand => operand.Safe scopes
  | .binary _ left _ right => left.Safe scopes ∧ right.Safe scopes
  | .logical _ left _ right => left.Safe scopes ∧ right.Safe scopes
  | .read name note => Reaches scopes name.lexeme note
  | .assign name note value =>
    name.Plain ∧ (∀ distance, note = some distance → distance < scopes.length) ∧ value.Safe scopes
  | .call callee _ arguments => callee.Safe scopes ∧ Expr.SafeAll scopes arguments
  | .get object _ => object.Safe scopes
  | .set object _ value => object.Safe scopes ∧ value.Safe scopes
  | .this keyword note =>
    keyword.lexeme = "this" ∧ ∃ distance, note = some distance ∧ Declares scopes distance "this"
  | .super _ note _ => ∃ distance, note = some (distance + 1) ∧ Declares scopes (distance + 1) "super" ∧
      Declares scopes distance "this"

def Expr.SafeAll (scopes : List (List String)) : List (Expr Distance) → Prop
  | [] => True
  | first :: rest => first.Safe scopes ∧ Expr.SafeAll scopes rest

end

def Expr.SafeOption (scopes : List (List String)) : Option (Expr Distance) → Prop
  | none => True
  | some value => value.Safe scopes

mutual

/-- Statements where `returns` says whether there is a function to return from. -/
def Stmt.Safe (returns : Bool) (scopes : List (List String)) : Stmt Distance → Prop
  | .expression value | .print value => value.Safe scopes
  | .varDecl name initial => name.Plain ∧ Expr.SafeOption scopes initial
  | .block body => Stmt.SafeAll returns ([] :: scopes) body
  | .ifThen condition accepted =>
    condition.Safe scopes ∧ accepted.Safe returns scopes ∧ accepted.declared = []
  | .ifElse condition accepted rejected => condition.Safe scopes ∧
      (accepted.Safe returns scopes ∧ accepted.declared = []) ∧
      rejected.Safe returns scopes ∧ rejected.declared = []
  | .whileLoop condition body => condition.Safe scopes ∧ body.Safe returns scopes ∧ body.declared = []
  | .funDecl declaration => declaration.name.Plain ∧
      declaration.Safe (Place.declare [declaration.name.lexeme] scopes)
  | .returnStmt _ value => returns = true ∧ Expr.SafeOption scopes value
  | .classDecl name superclass methods => name.Plain ∧
      (∀ parent note, superclass = some (parent, note) → Reaches scopes parent.lexeme note) ∧
      FunctionDecl.SafeAll
        (Node.classScopes superclass.isSome ++ Place.declare [name.lexeme] scopes) methods

def Stmt.SafeAll (returns : Bool) (scopes : List (List String)) : List (Stmt Distance) → Prop
  | [] => True
  | first :: rest => first.Safe returns scopes ∧ Stmt.SafeAll returns (Place.declare first.declared scopes) rest

def FunctionDecl.Safe (scopes : List (List String)) : FunctionDecl Distance → Prop
  | .mk _ params body =>
    (∀ param ∈ params, param.Plain) ∧ Stmt.SafeAll true (params.map Token.lexeme :: scopes) body

def FunctionDecl.SafeAll (scopes : List (List String)) : List (FunctionDecl Distance) → Prop
  | [] => True
  | first :: rest => first.Safe scopes ∧ FunctionDecl.SafeAll scopes rest

end

end Safe

/-- The scopes of a walk have the given names and, in the innermost one, perhaps a name that is not ready. -/
inductive Tracks (pending : Option String) : List Scope → List (List String) → Prop
  | nil : Tracks pending [] []
  | cons {table : Scope} {names : List String} {tables : List Scope} {scopes : List (List String)}
      (head : ∀ name, table.contains name = true ↔ name ∈ names ∨ pending = some name)
      (unready : ∀ name, pending = some name → table.get? name = some false) (tail : Holds tables scopes) :
      Tracks pending (table :: tables) (names :: scopes)

theorem tracks_none_iff {tables : List Scope} {scopes : List (List String)} :
    Tracks none tables scopes ↔ Holds tables scopes := by
  constructor
  · rintro (_ | ⟨head, _, tail⟩)
    · exact .nil
    · exact .cons (by simpa using head) tail
  · rintro (_ | ⟨head, tail⟩)
    · exact .nil
    · exact .cons (by simpa using head) (by simp) tail

/-- What a search for a name finds in the scopes of a walk. -/
def Finds (scopes : List (List String)) (name : String) : Distance → Prop
  | some distance => Declares scopes distance name ∧ ∀ closer < distance, ¬ Declares scopes closer name
  | none => ∀ distance, ¬ Declares scopes distance name

theorem Finds.cons {table : Scope} {names : List String} {tables : List Scope} {scopes : List (List String)}
    {name : String} (same : table.contains name = true ↔ name ∈ names)
    (tail : Finds scopes name (tables.findIdx? (·.contains name))) :
    Finds (names :: scopes) name ((table :: tables).findIdx? (·.contains name)) := by
  rw [List.findIdx?_cons]
  by_cases present : table.contains name = true
  · simp only [present, if_true]
    exact ⟨by simpa using same.mp present, by simp⟩
  · have absent : name ∉ names := fun member => present (same.mpr member)
    simp only [present]
    cases found : tables.findIdx? (·.contains name) with
    | none =>
      rw [found] at tail
      rintro (_ | distance)
      · simpa using absent
      · simpa using tail distance
    | some distance =>
      rw [found] at tail
      refine ⟨by simpa using tail.1, ?_⟩
      rintro (_ | closer) below
      · simpa using absent
      · simpa using tail.2 closer (by simpa using below)

theorem Holds.finds {tables : List Scope} {scopes : List (List String)} (holds : Holds tables scopes)
    (name : String) : Finds scopes name (tables.findIdx? (·.contains name)) := by
  induction holds with
  | nil => simp [Finds]
  | cons same _ ih => exact .cons (same name) ih

/-- A search for a name other than the one that is not ready. -/
theorem Tracks.finds {pending : Option String} {tables : List Scope} {scopes : List (List String)}
    (tracks : Tracks pending tables scopes) {name : String} (other : pending ≠ some name) :
    Finds scopes name (tables.findIdx? (·.contains name)) := by
  cases tracks with
  | nil => simp [Finds]
  | cons head _ tail => exact .cons (by simpa [other] using head name) (tail.finds name)

/-- An action on the scopes of a walk, and what holds of its result if it has found no fault. Faults are
never taken back. -/
def Checks {α : Type} (action : Bind α) (Before After : List Scope → Prop) (P : α → Prop) : Prop :=
  ∀ binder, Before binder.scopes →
    After (action binder).2.scopes ∧ binder.faults.size ≤ (action binder).2.faults.size ∧
      ((action binder).2.faults.size = binder.faults.size → P (action binder).1)

namespace Checks

variable {α β : Type} {Before Middle After : List Scope → Prop} {P : α → Prop} {Q : β → Prop}

theorem pure {value : α} (holds : P value) : Checks (Pure.pure value) Before Before P :=
  fun _ same => ⟨same, Nat.le_refl _, fun _ => holds⟩

theorem bind {action : Bind α} {next : α → Bind β} (first : Checks action Before Middle P)
    (then_ : ∀ value, Checks (next value) Middle After fun result => P value → Q result) :
    Checks (action >>= next) Before After Q := by
  intro binder before
  obtain ⟨middle, more, holds⟩ := first binder before
  obtain ⟨after, further, follows⟩ := then_ _ _ middle
  refine ⟨after, Nat.le_trans more further, fun clean => ?_⟩
  -- No fault at the end means that there was none half way.
  have half : (action binder).2.faults.size = binder.faults.size :=
    Nat.le_antisymm (Nat.le_trans further (Nat.le_of_eq clean)) more
  exact follows (clean.trans half.symm) (holds half)

theorem weaken {R : α → Prop} {action : Bind α} (checks : Checks action Before After P)
    (implies : ∀ value, P value → R value) : Checks action Before After R := by
  intro binder before
  obtain ⟨after, more, holds⟩ := checks binder before
  exact ⟨after, more, fun clean => implies _ (holds clean)⟩

end Checks

section Steps

variable {Before After : List Scope → Prop} {scopes : List (List String)} {pending : Option String}

/-- After a complaint anything may be said of a walk without faults. -/
theorem checks_complain (token : Token) (cause : ScopeFault) (P : Unit → Prop) :
    Checks (Bind.complain token cause) Before Before P := by
  intro binder before
  have more : (binder.complain token cause).faults.size = binder.faults.size + 1 := Array.size_push ..
  refine ⟨before, ?_, fun clean => ?_⟩
  · change _ ≤ (binder.complain token cause).faults.size
    omega
  · change (binder.complain token cause).faults.size = _ at clean
    omega

theorem checks_modify {change : Binder → Binder}
    (changes : ∀ binder, Before binder.scopes → After (change binder).scopes)
    (grows : ∀ binder, binder.faults.size ≤ (change binder).faults.size) :
    Checks (modify change) Before After fun _ => True :=
  fun binder before => ⟨changes binder before, grows binder, fun _ => trivial⟩

theorem checks_declare (known : List String) (name : Token) :
    Checks (modify (·.declare known name)) (Tracks none · scopes) (Tracks (some name.lexeme) · scopes)
      fun _ => True := by
  refine checks_modify (fun binder tracks => ?_) fun binder => ?_
  · obtain ⟨tables, _, _, _⟩ := binder
    change Tracks none tables scopes at tracks
    cases tracks with
    | nil =>
      simp only [Binder.declare]
      split <;> exact .nil
    | cons head _ tail =>
      refine .cons (fun other => ?_) (by simp) ?_
      · rw [contains_set, head]
        simp [or_comm, eq_comm]
      · simpa [Binder.declare, apply_ite Binder.scopes, Binder.complain] using tail
  · unfold Binder.declare
    split
    · split <;> exact Nat.le_refl _
    · split <;> simp [Binder.complain]

theorem checks_define (name : Token) :
    Checks (modify (·.define name)) (Tracks (some name.lexeme) · scopes)
      (Tracks none · (Place.declare [name.lexeme] scopes)) fun _ => True := by
  refine checks_modify (fun binder tracks => ?_) fun binder => ?_
  · obtain ⟨tables, _, _, _⟩ := binder
    change Tracks _ tables scopes at tracks
    cases tracks with
    | nil => exact .nil
    | cons head _ tail =>
      refine .cons (fun other => ?_) (by simp) tail
      rw [contains_set, head]
      simp [or_comm, eq_comm]
  · unfold Binder.define
    split <;> exact Nat.le_refl _

theorem checks_introduce (known : List String) (name : Token) :
    Checks (Bind.introduce known name) (Tracks none · scopes)
      (Tracks none · (Place.declare [name.lexeme] scopes)) fun _ => True := by
  intro binder tracks
  obtain ⟨middle, more, _⟩ := checks_declare known name binder tracks
  obtain ⟨after, further, _⟩ := checks_define name _ middle
  exact ⟨after, Nat.le_trans more further, fun _ => trivial⟩

theorem checks_params (known : List String) (params : List Token) (scope : List String)
    (scopes : List (List String)) :
    Checks (params.forM (Bind.introduce known)) (Tracks none · (scope :: scopes))
      (Tracks none · ((params.map Token.lexeme ++ scope) :: scopes)) fun _ => True := by
  induction params generalizing scope with
  | nil => exact Checks.pure trivial
  | cons first rest ih =>
    apply Checks.bind (checks_introduce known first)
    intro _ binder before
    obtain ⟨after, more, _⟩ := ih (first.lexeme :: scope) binder before
    refine ⟨?_, more, fun _ _ => trivial⟩
    generalize ((rest.forM (Bind.introduce known)) binder).2.scopes = tables at after
    cases after with
    | cons head _ tail =>
      refine .cons (fun name => ?_) (by simp) tail
      rw [head]
      simp only [List.map_cons, List.cons_append, List.mem_append, List.mem_cons]
      tauto

theorem checks_inScope {α : Type} {action : Bind α} {P : α → Prop} (names more : List String)
    (checks : Checks action (Tracks none · (names :: scopes)) (Tracks none · (more :: scopes)) P) :
    Checks (Bind.inScope names action) (Tracks none · scopes) (Tracks none · scopes) P := by
  refine Checks.bind (checks_modify (fun binder tracks => ?_) fun _ => Nat.le_refl _) fun _ =>
    Checks.bind checks fun value => Checks.bind (checks_modify (fun binder tracks => ?_) fun _ => Nat.le_refl _)
      fun _ => Checks.pure fun _ holds _ => holds
  · rw [tracks_none_iff] at tracks ⊢
    refine .cons (fun name => ?_) tracks
    rw [contains_opened]
    simp [Table.contains]
  · rw [tracks_none_iff] at tracks ⊢
    obtain ⟨table, rest, split, _, tail⟩ := tracks.uncons
    simpa [Binder.closeScope, split] using tail

theorem checks_distance (name : Token) (other : pending ≠ some name.lexeme) :
    Checks (Bind.distance? name) (Tracks pending · scopes) (Tracks pending · scopes)
      (Finds scopes name.lexeme) :=
  fun _ tracks => ⟨tracks, Nat.le_refl _, fun _ => tracks.finds other⟩

theorem Tracks.length {tables : List Scope} (tracks : Tracks pending tables scopes) :
    tables.length = scopes.length := by
  cases tracks with
  | nil => rfl
  | cons _ _ tail => simp [List.Forall₂.length_eq tail]

/-- Even a name that is not ready has its scope. -/
theorem checks_assigned (name : Token) :
    Checks (Bind.distance? name) (Tracks pending · scopes) (Tracks pending · scopes)
      fun note => ∀ distance, note = some distance → distance < scopes.length := by
  refine fun binder tracks => ⟨tracks, Nat.le_refl _, fun _ distance found => ?_⟩
  rw [← tracks.length]
  exact (List.findIdx?_eq_some_iff_getElem.mp found).1

theorem Finds.reaches {name : String} {note : Distance} (finds : Finds scopes name note) :
    Reaches scopes name note := by
  rintro distance rfl
  exact finds.1

/-- A name that is read without a fault is ready. -/
theorem checks_readName (name : Token) :
    Checks (Bind.readName name) (Tracks pending · scopes) (Tracks pending · scopes)
      (Reaches scopes name.lexeme) := by
  intro binder tracks
  rw [readName_apply]
  cases fault : binder.readFault? name with
  | some cause =>
    have more : (binder.complain name cause).faults.size = binder.faults.size + 1 := Array.size_push ..
    exact ⟨tracks, by simp only [more]; omega, fun clean => by simp only [more] at clean; omega⟩
  | none =>
    refine ⟨tracks, Nat.le_refl _, fun _ => ?_⟩
    by_cases unready : pending = some name.lexeme
    · obtain ⟨tables, _, _, _⟩ := binder
      change Tracks pending tables scopes at tracks
      cases tracks with
      | nil => exact nofun
      | cons _ held _ => simp [Binder.readFault?, held _ unready] at fault
    · exact (tracks.finds unready).reaches

end Steps

/-- What the class around a place means for the scopes: `this` is in one of them, and in a subclass the
nearest `super` is in the one right outside. -/
def Owned (scopes : List (List String)) : ClassContext → Prop
  | .none => True
  | .plain => ∃ distance, Declares scopes distance "this"
  | .subclass => ∃ distance, Declares scopes distance "this" ∧ Declares scopes (distance + 1) "super" ∧
      ∀ closer < distance + 1, ¬ Declares scopes closer "super"

namespace Owned

variable {scopes : List (List String)} {owner : ClassContext}

theorem this (owned : Owned scopes owner) (inside : owner ≠ .none) : ∃ distance, Declares scopes distance "this" := by
  cases owner with
  | none => exact absurd rfl inside
  | plain => exact owned
  | subclass =>
    obtain ⟨distance, declares, _⟩ := owned
    exact ⟨distance, declares⟩

theorem declare {names : List String} (owned : Owned scopes owner) (free : "super" ∉ names) :
    Owned (Place.declare names scopes) owner := by
  cases owner with
  | none => trivial
  | plain =>
    obtain ⟨distance, declares⟩ := owned
    exact ⟨distance, declares.declare names⟩
  | subclass =>
    obtain ⟨distance, this, super, nearest⟩ := owned
    refine ⟨distance, this.declare names, super.declare names, fun closer below found => ?_⟩
    exact nearest closer below (declares_of_declare found free)

theorem cons {scope : List String} (owned : Owned scopes owner) (free : "super" ∉ scope) :
    Owned (scope :: scopes) owner := by
  cases owner with
  | none => trivial
  | plain =>
    obtain ⟨distance, declares⟩ := owned
    exact ⟨distance + 1, by simpa using declares⟩
  | subclass =>
    obtain ⟨distance, this, super, nearest⟩ := owned
    refine ⟨distance + 1, by simpa using this, by simpa using super, ?_⟩
    rintro (_ | closer) below found
    · exact free (by simpa using found)
    · exact nearest closer (by omega) (by simpa using found)

theorem ofClass (hasSuperclass : Bool) (scopes : List (List String)) :
    Owned (Node.classScopes hasSuperclass ++ scopes) (if hasSuperclass then .subclass else .plain) := by
  cases hasSuperclass with
  | false => exact ⟨0, by simp [Node.classScopes]⟩
  | true =>
    refine ⟨0, by simp [Node.classScopes], by simp [Node.classScopes], fun closer below found => ?_⟩
    obtain rfl : closer = 0 := by omega
    simp [Node.classScopes] at found

end Owned

/-- Names that are not ready are no keywords. -/
def PlainPending (pending : Option String) : Prop := pending ≠ some "this" ∧ pending ≠ some "super"

mutual

theorem Expr.checks {around : Surrounding} {scopes : List (List String)} {pending : Option String}
    (owned : Owned scopes around.owner) (plain : PlainPending pending) :
    ∀ expr : Expr Unit, expr.Shaped →
      Checks (expr.bind around) (Tracks pending · scopes) (Tracks pending · scopes) (Expr.Safe scopes)
  | .literal value, _ => Checks.pure trivial
  | .grouping inner, shaped =>
    Checks.bind (Expr.checks owned plain inner shaped) fun _ => Checks.pure id
  | .unary op sign operand, shaped =>
    Checks.bind (Expr.checks owned plain operand shaped) fun _ => Checks.pure id
  | .binary op left sign right, shaped =>
    Checks.bind (Expr.checks owned plain left shaped.1) fun _ =>
      Checks.bind (Expr.checks owned plain right shaped.2) fun _ => Checks.pure fun second first => ⟨first, second⟩
  | .logical op left sign right, shaped =>
    Checks.bind (Expr.checks owned plain left shaped.1) fun _ =>
      Checks.bind (Expr.checks owned plain right shaped.2) fun _ => Checks.pure fun second first => ⟨first, second⟩
  | .read name _, _ => Checks.bind (checks_readName name) fun _ => Checks.pure id
  | .assign name _ value, shaped =>
    Checks.bind (Expr.checks owned plain value shaped.2) fun _ =>
      Checks.bind (checks_assigned name) fun _ => Checks.pure fun near safe => ⟨shaped.1, near, safe⟩
  | .call callee paren arguments, shaped =>
    Checks.bind (Expr.checks owned plain callee shaped.1) fun _ =>
      Checks.bind (Expr.checksAll owned plain arguments shaped.2) fun _ =>
        Checks.pure fun second first => ⟨first, second⟩
  | .get object name, shaped =>
    Checks.bind (Expr.checks owned plain object shaped) fun _ => Checks.pure id
  | .set object name value, shaped =>
    Checks.bind (Expr.checks owned plain value shaped.2) fun _ =>
      Checks.bind (Expr.checks owned plain object shaped.1) fun _ => Checks.pure fun second first => ⟨second, first⟩
  | .this keyword _, shaped => by
    simp only [Expr.bind]
    split
    · exact Checks.bind (checks_complain _ _ fun _ => False) fun _ => Checks.pure False.elim
    · rename_i inside
      have spelled : keyword.lexeme = "this" := shaped
      refine Checks.bind (checks_distance keyword (by rw [spelled]; exact plain.1)) fun note =>
        Checks.pure fun finds => ⟨spelled, ?_⟩
      rw [spelled] at finds
      obtain ⟨distance, declares⟩ := owned.this inside
      cases note with
      | none => exact absurd declares (finds distance)
      | some found => exact ⟨found, rfl, finds.1⟩
  | .super keyword _ method, shaped => by
    have spelled : keyword.lexeme = "super" := shaped
    have looks : Checks (do return Expr.super keyword (← Bind.distance? keyword) method) (Tracks pending · scopes)
        (Tracks pending · scopes) fun bound => around.owner = .subclass → bound.Safe scopes := by
      refine Checks.bind (checks_distance keyword (by rw [spelled]; exact plain.2)) fun note =>
        Checks.pure fun finds inside => ?_
      rw [spelled] at finds
      rw [inside] at owned
      obtain ⟨distance, this, super, nearest⟩ := owned
      cases note with
      | none => exact absurd super (finds (distance + 1))
      | some found =>
        have same : found = distance + 1 := by
          rcases Nat.lt_trichotomy found (distance + 1) with below | same | above
          · exact absurd finds.1 (nearest found below)
          · exact same
          · exact absurd super (finds.2 _ above)
        exact ⟨distance, congrArg some same, super, this⟩
    simp only [Expr.bind]
    split
    · exact Checks.bind (checks_complain _ _ fun _ => False) fun _ => looks.weaken fun _ _ => False.elim
    · exact Checks.bind (checks_complain _ _ fun _ => False) fun _ => looks.weaken fun _ _ => False.elim
    · rename_i inside
      exact looks.weaken fun _ safe => safe inside

theorem Expr.checksAll {around : Surrounding} {scopes : List (List String)} {pending : Option String}
    (owned : Owned scopes around.owner) (plain : PlainPending pending) :
    ∀ exprs : List (Expr Unit), Expr.ShapedAll exprs →
      Checks (Expr.bindAll around exprs) (Tracks pending · scopes) (Tracks pending · scopes)
        (Expr.SafeAll scopes)
  | [], _ => Checks.pure trivial
  | first :: rest, shaped =>
    Checks.bind (Expr.checks owned plain first shaped.1) fun _ =>
      Checks.bind (Expr.checksAll owned plain rest shaped.2) fun _ =>
        Checks.pure fun second first => ⟨first, second⟩

end

theorem Expr.checksOption {around : Surrounding} {scopes : List (List String)} {pending : Option String}
    (owned : Owned scopes around.owner) (plain : PlainPending pending) (value : Option (Expr Unit))
    (shaped : Expr.ShapedOption value) :
    Checks (Expr.bindOption around value) (Tracks pending · scopes) (Tracks pending · scopes)
      (Expr.SafeOption scopes) := by
  cases value with
  | none => exact Checks.pure trivial
  | some value => exact Checks.bind (Expr.checks owned plain value shaped) fun _ => Checks.pure id

theorem plainPending_none : PlainPending none := ⟨nofun, nofun⟩

theorem Token.Plain.pending {name : Token} (plain : name.Plain) : PlainPending (some name.lexeme) := by
  simpa [PlainPending, Token.Plain] using plain

theorem Token.Plain.free {name : Token} (plain : name.Plain) : "super" ∉ [name.lexeme] := by
  simpa [eq_comm] using plain.2

/-- The names that a tree of the right shape declares are no keywords. -/
theorem Stmt.Shaped.free {ρ : Type} {stmt : Stmt ρ} (shaped : stmt.Shaped) : "super" ∉ stmt.declared := by
  cases stmt with
  | varDecl name initial => exact shaped.1.free
  | funDecl declaration => exact shaped.1.free
  | classDecl name superclass methods => exact shaped.1.free
  | ifThen condition accepted => simp [Stmt.declared, shaped.2.2]
  | ifElse condition accepted rejected => simp [Stmt.declared, shaped.2.1.2, shaped.2.2.2]
  | whileLoop condition body => simp [Stmt.declared, shaped.2.2]
  | _ => simp [Stmt.declared]

theorem declaredAfter_append {ρ : Type} (earlier : List String) (body : List (Stmt ρ)) :
    declaredAfter earlier body = declaredAfter [] body ++ earlier := by
  induction body generalizing earlier with
  | nil => rfl
  | cons first rest ih =>
    rw [declaredAfter, declaredAfter, ih, ih (first.declared ++ [])]
    simp

/-- Whether there is a function around a place to return from. -/
def Surrounding.returns (around : Surrounding) : Bool := around.function != .none

/-- The superclass of a class is another one. -/
theorem checks_superclass {scopes : List (List String)} (name : Token) (superclass : Option (Token × Unit)) :
    Checks (Bind.superclass name superclass) (Tracks none · (Place.declare [name.lexeme] scopes))
      (Tracks none · (Place.declare [name.lexeme] scopes)) fun bound =>
        bound.isSome = superclass.isSome ∧
          ∀ parent note, bound = some (parent, note) → Reaches scopes parent.lexeme note := by
  cases superclass with
  | none => exact Checks.pure ⟨rfl, nofun⟩
  | some entry =>
    obtain ⟨parent, _⟩ := entry
    have reads : Checks (do return some (parent, ← Bind.readName parent))
        (Tracks none · (Place.declare [name.lexeme] scopes)) (Tracks none · (Place.declare [name.lexeme] scopes))
        fun bound => parent.lexeme ≠ name.lexeme → bound.isSome = true ∧
          ∀ parent note, bound = some (parent, note) → Reaches scopes parent.lexeme note := by
      refine Checks.bind (checks_readName parent) fun note => Checks.pure fun reaches other => ⟨rfl, ?_⟩
      rintro _ _ ⟨⟩ distance found
      exact declares_of_declare (reaches distance found) (by simpa using other)
    simp only [Bind.superclass]
    split
    · exact Checks.bind (checks_complain _ _ fun _ => False) fun _ => reads.weaken fun _ _ => False.elim
    · rename_i other
      exact reads.weaken fun _ reached => reached other

theorem checks_inClassScopes {α : Type} {action : Bind α} {P : α → Prop} {scopes : List (List String)}
    (hasSuperclass : Bool)
    (checks : Checks action (Tracks none · (Node.classScopes hasSuperclass ++ scopes))
      (Tracks none · (Node.classScopes hasSuperclass ++ scopes)) P) :
    Checks (Bind.inClassScopes hasSuperclass action) (Tracks none · scopes) (Tracks none · scopes) P := by
  cases hasSuperclass with
  | false => exact checks_inScope _ _ checks
  | true => exact checks_inScope _ _ (checks_inScope _ _ checks)

mutual

theorem Stmt.checks (known : List String) (around : Surrounding) {scopes : List (List String)}
    (owned : Owned scopes around.owner) : ∀ stmt : Stmt Unit, stmt.Shaped →
      Checks (stmt.bind known around) (Tracks none · scopes) (Tracks none · (Place.declare stmt.declared scopes))
        fun bound => bound.declared = stmt.declared ∧ bound.Safe around.returns scopes
  | .expression value, shaped => by
    rw [Stmt.declared, declare_nil]
    exact Checks.bind (Expr.checks owned plainPending_none value shaped) fun _ => Checks.pure fun safe => ⟨rfl, safe⟩
  | .print value, shaped => by
    rw [Stmt.declared, declare_nil]
    exact Checks.bind (Expr.checks owned plainPending_none value shaped) fun _ => Checks.pure fun safe => ⟨rfl, safe⟩
  | .varDecl name initial, shaped =>
    Checks.bind (checks_declare known name) fun _ =>
      Checks.bind (Expr.checksOption owned shaped.1.pending initial shaped.2) fun _ =>
        Checks.bind (checks_define name) fun _ => Checks.pure fun _ safe _ => ⟨rfl, shaped.1, safe⟩
  | .block body, shaped => by
    rw [Stmt.declared, declare_nil]
    apply Checks.bind (checks_inScope [] _ (Stmt.checksAll known around (owned.cons (by simp)) body shaped))
    intro _
    exact Checks.pure fun safe => ⟨rfl, safe⟩
  | .ifThen condition accepted, shaped => by
    have after := Stmt.checks known around owned accepted shaped.2.1
    refine Checks.bind (Expr.checks owned plainPending_none condition shaped.1) fun _ =>
      Checks.bind after fun bound => Checks.pure fun safe tested => ?_
    exact ⟨safe.1, tested, safe.2, safe.1.trans shaped.2.2⟩
  | .ifElse condition accepted rejected, shaped => by
    have first := Stmt.checks known around owned accepted shaped.2.1.1
    have second := Stmt.checks known around owned rejected shaped.2.2.1
    rw [shaped.2.1.2, declare_nil] at first
    rw [shaped.2.2.2, declare_nil] at second
    have silent : (Stmt.ifElse condition accepted rejected).declared = [] := by
      simp [Stmt.declared, shaped.2.1.2, shaped.2.2.2]
    rw [silent, declare_nil]
    refine Checks.bind (Expr.checks owned plainPending_none condition shaped.1) fun _ => Checks.bind first fun one =>
      Checks.bind second fun two => Checks.pure fun safe' safe tested => ⟨?_, tested, safe.symm, safe'.symm⟩
    simp [Stmt.declared, safe.1, safe'.1]
  | .whileLoop condition body, shaped => by
    have after := Stmt.checks known around owned body shaped.2.1
    refine Checks.bind (Expr.checks owned plainPending_none condition shaped.1) fun _ =>
      Checks.bind after fun bound => Checks.pure fun safe tested => ?_
    exact ⟨safe.1, tested, safe.2, safe.1.trans shaped.2.2⟩
  | .funDecl declaration, shaped => by
    refine Checks.bind (checks_introduce known declaration.name) fun _ =>
      Checks.bind (FunctionDecl.checks known { around with function := .function }
        (owned.declare shaped.1.free) rfl declaration shaped.2) fun bound => Checks.pure fun safe _ => ?_
    simp only [Stmt.declared, Stmt.Safe, safe.1]
    exact ⟨trivial, shaped.1, safe.2⟩
  | .returnStmt keyword value, shaped => by
    have binds : Checks (do return Stmt.returnStmt keyword (← Expr.bindOption around value)) (Tracks none · scopes)
        (Tracks none · scopes) fun bound => around.function ≠ .none →
          bound.declared = [] ∧ bound.Safe around.returns scopes := by
      refine Checks.bind (Expr.checksOption owned plainPending_none value shaped) fun _ =>
        Checks.pure fun safe inside => ⟨rfl, ?_, safe⟩
      simpa [Surrounding.returns] using inside
    have valued : Checks (do
        if value.isSome && around.function = .initializer then
          Bind.complain keyword .returnValueFromInitializer
        return Stmt.returnStmt keyword (← Expr.bindOption around value)) (Tracks none · scopes)
        (Tracks none · scopes) fun bound => around.function ≠ .none →
          bound.declared = [] ∧ bound.Safe around.returns scopes := by
      split
      · exact Checks.bind (checks_complain _ _ fun _ => False) fun _ => binds.weaken fun _ _ => False.elim
      · exact binds
    rw [Stmt.declared, declare_nil]
    simp only [Stmt.bind]
    split
    · exact Checks.bind (checks_complain _ _ fun _ => False) fun _ => valued.weaken fun _ _ => False.elim
    · rename_i inside
      exact valued.weaken fun _ safe => safe inside
  | .classDecl name superclass methods, shaped => by
    refine Checks.bind (checks_introduce known name) fun _ =>
      Checks.bind (checks_superclass name superclass) fun parent => ?_
    have inside := FunctionDecl.checksMethods known
      { around with owner := if parent.isSome then .subclass else .plain }
      (Owned.ofClass parent.isSome (Place.declare [name.lexeme] scopes)) methods shaped.2
    exact Checks.bind (checks_inClassScopes parent.isSome inside) fun _ =>
      Checks.pure fun safe reached _ => ⟨rfl, shaped.1, reached.2, safe⟩

theorem Stmt.checksAll (known : List String) (around : Surrounding) {scopes : List (List String)}
    (owned : Owned scopes around.owner) : ∀ body : List (Stmt Unit), Stmt.ShapedAll body →
      Checks (Stmt.bindAll known around body) (Tracks none · scopes)
        (Tracks none · (Place.declare (declaredAfter [] body) scopes)) (Stmt.SafeAll around.returns scopes)
  | [], _ => by
    rw [declaredAfter, declare_nil]
    exact Checks.pure trivial
  | first :: rest, shaped => by
    have before := Stmt.checks known around owned first shaped.1
    have after := Stmt.checksAll known around (owned.declare shaped.1.free) rest shaped.2
    rw [← declare_append, ← declaredAfter_append] at after
    rw [declaredAfter, List.append_nil]
    refine Checks.bind before fun _ => Checks.bind after fun _ => Checks.pure fun safe' safe => ⟨safe.2, ?_⟩
    rw [safe.1]
    exact safe'

theorem FunctionDecl.checks (known : List String) (around : Surrounding) {scopes : List (List String)}
    (owned : Owned scopes around.owner) (returns : around.returns = true) :
    ∀ declaration : FunctionDecl Unit, declaration.Shaped →
      Checks (declaration.bind known around) (Tracks none · scopes) (Tracks none · scopes)
        fun bound => bound.name = declaration.name ∧ bound.Safe scopes
  | .mk name params body, shaped => by
    have free : "super" ∉ params.map Token.lexeme := by
      intro member
      obtain ⟨param, found, same⟩ := List.mem_map.mp member
      exact (shaped.1 param found).2 same
    have opening := checks_params known params [] scopes
    rw [List.append_nil] at opening
    have inside := Stmt.checksAll known around (owned.cons free) body shaped.2
    rw [returns] at inside
    exact Checks.bind (checks_inScope [] _ (Checks.bind opening fun _ => inside.weaken fun _ safe _ => safe))
      fun _ => Checks.pure fun safe => ⟨rfl, shaped.1, safe⟩

theorem FunctionDecl.checksMethods (known : List String) (around : Surrounding) {scopes : List (List String)}
    (owned : Owned scopes around.owner) : ∀ methods : List (FunctionDecl Unit), FunctionDecl.ShapedAll methods →
      Checks (FunctionDecl.bindMethods known around methods) (Tracks none · scopes) (Tracks none · scopes)
        (FunctionDecl.SafeAll scopes)
  | [], _ => Checks.pure trivial
  | first :: rest, shaped => by
    let inside : Surrounding := { around with function := FunctionContext.ofMethod first.name.lexeme }
    have returns : inside.returns = true := by
      simp only [inside, Surrounding.returns, FunctionContext.ofMethod]
      split <;> rfl
    exact Checks.bind (FunctionDecl.checks known inside owned returns first shaped.1) fun _ =>
      Checks.bind (FunctionDecl.checksMethods known around owned rest shaped.2) fun _ =>
        Checks.pure fun safe' safe => ⟨safe.2, safe'⟩

end

/-- A program of the right shape that is bound without a fault is safe to run at the top level. -/
theorem Program.safe_of_bind {known : List String} {program : Program Unit} (shaped : Stmt.ShapedAll program)
    (clean : (program.bind known).faults = []) : Stmt.SafeAll false [] (program.bind known).program := by
  have owned : Owned [] ClassContext.none := trivial
  have checks := Stmt.checksAll known {} owned program shaped
  obtain ⟨_, _, safe⟩ := checks {} .nil
  apply safe
  have none : (Stmt.bindAll known {} program {}).2.faults.toList = [] := clean
  rw [Array.toList_eq_nil_iff.mp none]

end Lox

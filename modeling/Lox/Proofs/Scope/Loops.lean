import Lox.Proofs.Grammar.Loops
import Lox.Proofs.Scope.Hollow
import Lox.Proofs.Scope.Safety

/-!
`for` loops bound as they stand, with all clauses in one scope, and the trees that reading makes of them. A tree has one
scope more, around the body and the increment, in which nothing is declared.
-/
namespace Lox

/-- The places at which statements may stand: none stands right inside of a scope with `super`, only methods do. -/
def Place.TakesStatements (place : Place) : Prop := ∀ names, place.scopes.head? = some names → "super" ∉ names

section Statements

variable {ρ : Type} {place : Place} {names : List String}

theorem Place.TakesStatements.declare (takes : place.TakesStatements) (free : "super" ∉ names) :
    (place.enter { earlier := names }).TakesStatements := by
  obtain ⟨_ | ⟨scope, outer⟩, _⟩ := place
  · exact takes
  · rintro _ ⟨⟩
    simpa [free] using takes scope rfl

/-- A scope of its own takes statements whatever it stands in. -/
theorem Place.takesStatements_opened (place : Place) (free : "super" ∉ names) :
    (place.enter { opened := [names] }).TakesStatements := by
  rintro _ ⟨⟩
  exact free

namespace Node

/-- Nodes of the right shape, where the statements in them stand at places that take statements. -/
def WellPlaced (place : Place) : Node ρ → Prop
  | .expr _ => True
  | .stmt inner => inner.Shaped ∧ place.TakesStatements
  | .function declaration => declaration.Shaped
  | .sequence body => Stmt.ShapedAll body ∧ place.TakesStatements

variable {node part : Node ρ} {step : Step}

theorem wellPlaced_optional (place : Place) {earlier : Step} {value : Option (Expr ρ)}
    (member : (step, part) ∈ optional earlier value) : part.WellPlaced place := by
  cases value with
  | none => cases member
  | some value =>
    cases List.mem_singleton.mp member
    trivial

theorem wellPlaced_exprParts (place : Place) {expr : Expr ρ} (member : (step, part) ∈ exprParts expr) :
    part.WellPlaced place := by
  have isExpr : ∃ value, part = .expr value := by
    cases expr <;>
      simp only [exprParts, List.mem_cons, List.mem_map, List.not_mem_nil, Prod.mk.injEq, or_false] at member <;> grind
  obtain ⟨value, rfl⟩ := isExpr
  trivial

theorem wellPlaced_inOrder {body : List (Stmt ρ)} {earlier : List String} (takes : place.TakesStatements)
    (free : "super" ∉ earlier) (shaped : Stmt.ShapedAll body) (member : (step, part) ∈ inOrder earlier body) :
    part.WellPlaced (place.enter step) := by
  induction body generalizing earlier with
  | nil => cases member
  | cons first rest ih =>
    rcases List.mem_cons.mp member with here | later
    · cases here
      exact ⟨shaped.1, takes.declare free⟩
    · exact ih (by simp [free, shaped.1.free]) shaped.2 later

theorem shaped_of_mem_methods {methods : List (FunctionDecl ρ)} {method : FunctionDecl ρ}
    (shaped : FunctionDecl.ShapedAll methods) (member : method ∈ methods) : method.Shaped := by
  induction methods with
  | nil => cases member
  | cons first rest ih =>
    rcases List.mem_cons.mp member with rfl | later
    · exact shaped.1
    · exact ih shaped.2 later

/-- What a step preserves. -/
theorem WellPlaced.below (placed : node.WellPlaced place) (member : (step, part) ∈ node.parts) :
    part.WellPlaced (place.enter step) := by
  cases node with
  | expr expr => exact wellPlaced_exprParts _ member
  | sequence body => exact wellPlaced_inOrder placed.2 (by simp) placed.1 member
  | function declaration =>
    obtain ⟨name, params, body⟩ := declaration
    cases List.mem_singleton.mp member
    refine ⟨placed.2, place.takesStatements_opened ?_⟩
    intro among
    obtain ⟨param, isParam, spelled⟩ := List.mem_map.mp among
    exact (placed.1 param isParam).2 spelled
  | stmt inner =>
    obtain ⟨shaped, takes⟩ := placed
    cases inner with
    | expression value | print value =>
      cases List.mem_singleton.mp member
      trivial
    | varDecl name initial => exact wellPlaced_optional _ member
    | returnStmt keyword value => exact wellPlaced_optional _ member
    | block body =>
      cases List.mem_singleton.mp member
      exact ⟨shaped, place.takesStatements_opened (by simp)⟩
    | funDecl declaration =>
      cases List.mem_singleton.mp member
      exact shaped.2
    | ifThen condition accepted =>
      rcases List.mem_pair.mp member with is | is
      · cases is
        trivial
      · cases is
        exact ⟨shaped.2.1, by simpa using takes⟩
    | whileLoop condition body =>
      rcases List.mem_pair.mp member with is | is
      · cases is
        trivial
      · cases is
        exact ⟨shaped.2.1, by simpa using takes⟩
    | ifElse condition accepted rejected =>
      simp only [parts, stmtParts, List.mem_cons, List.not_mem_nil, or_false] at member
      rcases member with is | is | is
      · cases is
        trivial
      · cases is
        exact ⟨shaped.2.1.1, by simpa using takes⟩
      · cases is
        exact ⟨shaped.2.2.1, takes.declare shaped.2.1.1.free⟩
    | classDecl name superclass methods =>
      rcases List.mem_append.mp member with outside | inside
      · exact wellPlaced_optional _ outside
      · obtain ⟨method, isMethod, is⟩ := List.mem_map.mp inside
        cases is
        exact shaped_of_mem_methods shaped.2 isMethod

theorem WellPlaced.at? {path : List Nat} {inner : Place} (placed : node.WellPlaced place)
    (found : node.at? place path = some (inner, part)) : part.WellPlaced inner := by
  induction path generalizing place node with
  | nil =>
    cases found
    exact placed
  | cons number path ih =>
    unfold Node.at? at found
    split at found
    · cases found
    · rename_i step child selected
      exact ih (placed.below (List.mem_of_getElem? selected)) found

end Node

/-- Wherever in a program of the right shape a statement stands, statements may stand. -/
theorem Stmt.takesStatements_at? {body : List (Stmt ρ)} {path : List Nat} {inner : Place} {stmt : Stmt ρ}
    (shaped : Stmt.ShapedAll body) (found : (Node.sequence body).at? {} path = some (inner, .stmt stmt)) :
    inner.TakesStatements := by
  have placed : (Node.sequence body).WellPlaced {} := ⟨shaped, nofun⟩
  exact (placed.at? found).2

end Statements

namespace ForLoop

variable {ρ : Type}

/-- Binds what the rounds of a loop take, in the order in which it runs, after the initial clause. -/
def bindRounds (known : List String) (around : Surrounding) (loop : ForLoop ρ) (initial : Option (Stmt Distance)) :
    Bind (ForLoop Distance) := do
  let condition ← Expr.bindOption around loop.condition
  let body ← loop.body.bind known around
  let increment ← Expr.bindOption around loop.increment
  return ⟨initial, condition, increment, body⟩

/-- Binds a loop. All its clauses stand in one scope: in one of its own if there is an initial clause, and otherwise in
the one around the loop. -/
def bind (known : List String) (around : Surrounding) (loop : ForLoop ρ) : Bind (ForLoop Distance) :=
  match loop.initial with
  | none => loop.bindRounds known around none
  | some first => Bind.inScope [] do loop.bindRounds known around (some (← first.bind known around))

/-- The place of the condition, the increment and the body. -/
def place (loop : ForLoop ρ) (place : Place) : Place :=
  match loop.initial with
  | none => place
  | some first => place.enter { opened := [first.declared] }

/-- The condition, the body and the increment are bound at one place, at which a variable of the initial clause is
declared, and those of the body are not. -/
def Addressed (place : Place) (loop : ForLoop Distance) : Prop :=
  (∀ test, loop.condition = some test → Node.Addressed place (.expr test)) ∧ Node.Addressed place (.stmt loop.body) ∧
    ∀ step, loop.increment = some step → Node.Addressed place (.expr step)

variable (known : List String) {around : Surrounding}

section Places

variable {place : Place} {loop : ForLoop Unit}

theorem walks_bindRounds (inside : Inside around place) (undeclared : loop.body.declared = [])
    (initial : Option (Stmt Distance)) :
    Walks (loop.bindRounds known around initial) place.scopes place.scopes (Addressed place) := by
  have body := Stmt.walks known around place inside loop.body
  rw [undeclared, declare_nil] at body
  refine Walks.bind (Expr.walksOption around place inside loop.condition) fun test ⟨_, first⟩ => ?_
  refine Walks.bind body fun bound ⟨_, second⟩ => ?_
  refine Walks.bind (Expr.walksOption around place inside loop.increment) fun step ⟨_, third⟩ => ?_
  exact Walks.pure ⟨first, second, third⟩

theorem scopes_enter (place : Place) (names : List String) :
    (place.enter { opened := [names] }).scopes = names :: place.scopes := by
  simp [Place.enter, declare_nil]

/-- The initial clause declares its variable in the scope of the loop. -/
theorem walks_clause (inside : Inside around place) (first : Stmt Unit) :
    Walks (first.bind known around) ([] :: place.scopes) (first.declared :: place.scopes)
      fun bound => bound.bare = first := by
  have declares := Stmt.walks known around _ (inside.enter { opened := [[]] } rfl) first
  rw [scopes_enter, Place.declare, List.append_nil] at declares
  exact fun binder holds => ⟨(declares binder holds).1.1, (declares binder holds).2⟩

theorem walks_bind (inside : Inside around place) (undeclared : loop.body.declared = []) :
    Walks (loop.bind known around) place.scopes place.scopes (Addressed (loop.place place)) := by
  unfold ForLoop.bind ForLoop.place
  cases loop.initial with
  | none => exact walks_bindRounds known inside undeclared none
  | some first =>
    have rest := walks_bindRounds known (inside.enter { opened := [first.declared] } rfl) undeclared
    simp only [scopes_enter] at rest
    exact walks_inScope [] _ (Walks.bind (walks_clause known inside first) fun bound _ => rest (some bound))

end Places

section Unfolding

/-- What a loop is bound to as the tree that it is read as, and what it is bound to as it stands. If there is an
increment, the body and the increment of the tree have the hollow scope around them. -/
structure Unfolds (made loop : ForLoop Distance) : Prop where
  initial : made.initial = loop.initial
  condition : made.condition = loop.condition
  increment : Option.Rel (Hollow.scheme.MatchExpr (some 0)) made.increment loop.increment
  body : let hollow := loop.increment.map fun _ => 0
    Hollow.scheme.MatchStmt hollow hollow made.body loop.body

variable {place : Place} {loop : ForLoop Unit} {binder : Binder}

theorem free_of_holds (holds : Holds binder.scopes place.scopes) (takes : place.TakesStatements) :
    Bind.Free binder.scopes := by
  intro scope first
  generalize binder.scopes = scopes at holds first
  unfold Place.TakesStatements at takes
  generalize place.scopes = names at holds takes
  cases holds with
  | nil => cases first
  | cons same _ =>
    cases first
    exact Bool.eq_false_iff.mpr fun held => takes _ rfl ((same _).mp held)

/-- Binding an expression inside of the hollow scope and without it. -/
theorem inset_hollow (binder : Binder) : (binder.openScope []).Inset 0 binder.scopes binder := ⟨[], rfl, rfl, rfl⟩

theorem unfolds_bindRounds (inside : Inside around place) (holds : Holds binder.scopes place.scopes)
    (takes : place.TakesStatements) (shaped : loop.Shaped) (initial : Option (Stmt Distance)) :
    ∃ made : ForLoop Distance, made.Unfolds (loop.bindRounds known around initial binder).1 ∧
      ((Stmt.forLoop none loop.condition loop.increment loop.body).bind known around binder).1 =
        .forLoop none made.condition made.increment made.body := by
  obtain ⟨_, condition, increment, body⟩ := loop
  have tested := Expr.walksOption around place inside condition binder holds
  have binds : ∀ round : Stmt Unit,
      ((Stmt.whileLoop (condition.getD (.literal (.bool true))) round).bind known around binder).1 =
        .whileLoop ((Expr.bindOption around condition binder).1.getD (.literal (.bool true)))
          (round.bind known around (Expr.bindOption around condition binder).2).1 := by
    intro round
    cases condition <;> simp only [Stmt.bind, Expr.bindOption, Option.getD, Expr.bind] <;> rfl
  cases increment with
  | none =>
    refine ⟨⟨initial, (Expr.bindOption around condition binder).1, none, _⟩, ⟨rfl, rfl, .none, ?_⟩, binds body⟩
    exact Hollow.matchStmt_self _
  | some step =>
    have apart := free_of_holds tested.2 takes
    have quiet : Bind.Quiet 0 body.declared := fun _ => shaped.undeclared
    obtain ⟨matching, inset⟩ := Bind.insets_stmt apart known around body shaped.body quiet (inset_hollow _)
    obtain ⟨matching', _⟩ := Bind.insets_expr apart around step shaped.increment inset
    let walked := body.bind known around ((Expr.bindOption around condition binder).2.openScope [])
    refine ⟨⟨initial, (Expr.bindOption around condition binder).1, some (step.bind around walked.2).1, walked.1⟩,
      ⟨rfl, rfl, .some matching', matching⟩, (binds _).trans ?_⟩
    simp only [Stmt.bind, Stmt.bindAll]
    rfl

theorem isClause_bind {first : Stmt Unit} (isClause : first.IsClause) (binder : Binder) :
    (first.bind known around binder).1.IsClause := by
  cases first with
  | varDecl name value =>
    unfold Stmt.bind
    trivial
  | expression value =>
    unfold Stmt.bind
    trivial
  | _ => exact isClause.elim

/-- The initial clause of a bound loop is of the sort it was. -/
theorem isClause_initial (shaped : loop.Shaped) {first : Stmt Distance}
    (clause : (loop.bind known around binder).1.initial = some first) : first.IsClause := by
  unfold ForLoop.bind at clause
  cases present : loop.initial with
  | none =>
    rw [present] at clause
    cases clause
  | some earlier =>
    rw [present] at clause
    cases clause
    exact isClause_bind known (shaped.initial earlier present).1 _

/-- Reading makes a loop into a tree that is bound to the same, but for the hollow scope. -/
theorem unfolds (inside : Inside around place) (holds : Holds binder.scopes place.scopes)
    (takes : place.TakesStatements) (shaped : loop.Shaped) :
    ∃ made : ForLoop Distance, made.Unfolds (loop.bind known around binder).1 ∧
      (loop.tree.bind known around binder).1 = made.tree := by
  unfold ForLoop.bind ForLoop.tree
  cases clause : loop.initial with
  | none =>
    obtain ⟨made, unfolds, same⟩ := unfolds_bindRounds known inside holds takes shaped none
    refine ⟨made, unfolds, same.trans ?_⟩
    have absent : made.initial = none := by
      rw [unfolds.initial]
      rfl
    rw [absent]
  | some first =>
    obtain ⟨_, formed⟩ := shaped.initial first clause
    have opened : Holds (binder.openScope []).scopes ([] :: place.scopes) := .cons (by simp [Table.contains]) holds
    have declared := (walks_clause known inside first _ opened).2
    rw [← scopes_enter] at declared
    have takes' := place.takesStatements_opened formed.free
    obtain ⟨made, unfolds, same⟩ := unfolds_bindRounds known (inside.enter _ rfl) declared takes' shaped
      (some (first.bind known around (binder.openScope [])).1)
    have present : made.initial = some (first.bind known around (binder.openScope [])).1 := by
      rw [unfolds.initial]
      rfl
    refine ⟨made, unfolds, ?_⟩
    have round : ((Stmt.forLoop (some first) loop.condition loop.increment loop.body).bind known around binder).1 =
        .block [(first.bind known around (binder.openScope [])).1,
          ((Stmt.forLoop none loop.condition loop.increment loop.body).bind known around
            (first.bind known around (binder.openScope [])).2).1] := by
      simp only [Stmt.forLoop, Stmt.bind, Stmt.bindAll]
      rfl
    rw [round, same, present]
    rfl

end Unfolding

end ForLoop

end Lox

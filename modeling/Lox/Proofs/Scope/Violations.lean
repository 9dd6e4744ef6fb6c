import Lox.Proofs.Scope.Addresses
import Lox.Proofs.Scope.Spots

/-!
Binding finds exactly what is wrong. The state of the walk says at each node what the surroundings of the
node say: which names are declared in its scope, which variable is being initialised, and in what function
and class the walk is. So the faults of a walk are the rules that the nodes it has been to break.
-/
namespace Lox

variable {ρ : Type}

namespace Around

def functionContext : Option (FunctionDecl ρ × Bool) → FunctionContext
  | none => .none
  | some (_, false) => .function
  | some (declaration, true) => .ofMethod declaration.name.lexeme

def classContext : Option Bool → ClassContext
  | none => .none
  | some false => .plain
  | some true => .subclass

/-- What the walk has to take for the surroundings of a node. -/
def surrounding (above : List (Node ρ)) : Surrounding := ⟨functionContext (function? above), classContext (class? above)⟩

variable {above : List (Node ρ)}

@[simp]
theorem surrounding_expr (expr : Expr ρ) : surrounding (.expr expr :: above) = surrounding above := rfl

@[simp]
theorem surrounding_stmt (stmt : Stmt ρ) : surrounding (.stmt stmt :: above) = surrounding above := rfl

@[simp]
theorem surrounding_sequence (body : List (Stmt ρ)) : surrounding (.sequence body :: above) = surrounding above := rfl

theorem surrounding_function (declaration : FunctionDecl ρ) :
    surrounding (.function declaration :: .stmt (.funDecl declaration) :: above) =
      { surrounding above with function := .function } := rfl

theorem surrounding_method (declaration : FunctionDecl ρ) (name : Token) (superclass : Option (Token × ρ))
    (methods : List (FunctionDecl ρ)) :
    surrounding (.function declaration :: .stmt (.classDecl name superclass methods) :: above) =
      ⟨.ofMethod declaration.name.lexeme, if superclass.isSome then .subclass else .plain⟩ := by
  cases superclass <;> rfl

end Around

open Around

namespace Spot

/-- A part that no names come in before and no scopes are opened around. -/
theorem enter_empty (spot : Spot ρ) (part : Node ρ) :
    spot.enter {} part = ⟨part, spot.place, spot.globals, spot.node :: spot.above⟩ := by
  simp only [enter, Node.enter_empty, Place.topLevel, List.nil_append, ite_self]
  split <;> rfl

end Spot

/-- The faults that an action finds, and what it makes of the state of the walk. -/
def Reports {α : Type} (action : Bind α) (Before After : Binder → Prop)
    (Found : List (Located ScopeFault) → Prop) : Prop :=
  ∀ binder, Before binder → After (action binder).2 ∧
    ∃ found, (action binder).2.faults.toList = binder.faults.toList ++ found ∧ Found found

namespace Reports

variable {α β : Type} {Before Middle After : Binder → Prop} {Found More : List (Located ScopeFault) → Prop}

theorem pure {value : α} (holds : Found []) : Reports (Pure.pure value) Before Before Found :=
  fun _ before => ⟨before, [], (List.append_nil _).symm, holds⟩

theorem bind {action : Bind α} {next : α → Bind β} (first : Reports action Before Middle Found)
    (then_ : ∀ value found, Found found → Reports (next value) Middle After fun more => More (found ++ more)) :
    Reports (action >>= next) Before After More := by
  intro binder before
  obtain ⟨middle, found, added, holds⟩ := first binder before
  obtain ⟨after, more, added', holds'⟩ := then_ (action binder).1 found holds _ middle
  refine ⟨after, found ++ more, ?_, holds'⟩
  change (next (action binder).1 (action binder).2).2.faults.toList = _
  rw [added', added, List.append_assoc]

theorem weaken {action : Bind α} (reports : Reports action Before After Found)
    (implies : ∀ found, Found found → More found) : Reports action Before After More := by
  intro binder before
  obtain ⟨after, found, added, holds⟩ := reports binder before
  exact ⟨after, found, added, implies found holds⟩

/-- A change of the state without a fault. -/
theorem modify {change : Binder → Binder} (changes : ∀ binder, Before binder → After (change binder))
    (silent : ∀ binder, (change binder).faults = binder.faults) :
    Reports (modify change) Before After (· = []) :=
  fun binder before => ⟨changes binder before, [],
    (congrArg Array.toList (silent binder)).trans (List.append_nil _).symm, rfl⟩

/-- A fault, and what comes after it. -/
theorem complain {token : Token} {cause : ScopeFault} {next : Bind α}
    (kept : ∀ binder faults, Before binder → Before { binder with faults })
    (then_ : Reports next Before After fun more => More (⟨cause, token⟩ :: more)) :
    Reports (do Bind.complain token cause; next) Before After More := by
  intro binder before
  obtain ⟨after, more, added, holds⟩ := then_ (binder.complain token cause) (kept _ _ before)
  refine ⟨after, ⟨cause, token⟩ :: more, ?_, holds⟩
  change (next (binder.complain token cause)).2.faults.toList = _
  rw [added]
  simp [Binder.complain]

/-- A condition under which there is a fault. -/
theorem flag {condition : Prop} [Decidable condition] {token : Token} {cause : ScopeFault} {next : Bind α}
    (kept : ∀ binder faults, Before binder → Before { binder with faults })
    (then_ : Reports next Before After fun more => More (Spot.flag condition cause token ++ more)) :
    Reports (if condition then do Bind.complain token cause; next else next) Before After More := by
  by_cases holds : condition
  · simp only [Spot.flag, holds, if_true] at then_ ⊢
    exact complain kept then_
  · simpa only [Spot.flag, holds, if_false, List.nil_append] using then_

end Reports

section Expressions

variable {known : List String}

/-- What holds of a walk where names are read with the faults that the surroundings say, and has nothing to do
with the faults found so far. -/
structure Watches (known : List String) (place : Place) (globals : List String) (above : List (Node ρ))
    (State : Binder → Prop) : Prop where
  kept : ∀ binder faults, State binder → State { binder with faults }
  reads : ∀ binder, State binder → ∀ name,
    ((binder.readFault? name).toList.map fun cause => (⟨cause, name⟩ : Located ScopeFault)) =
      Spot.misread known place globals above name

variable {place : Place} {globals : List String} {above : List (Node ρ)} {State : Binder → Prop}

/-- A part of an expression is where the expression is. -/
theorem Watches.part (watches : Watches known place globals above State) (expr : Expr ρ) :
    Watches known place globals (.expr expr :: above) State :=
  ⟨watches.kept, watches.reads⟩

/-- A name that is read. -/
theorem reports_readName (watches : Watches known place globals above State) (name : Token) :
    Reports (Bind.readName name) State State (· = Spot.misread known place globals above name) := by
  intro binder before
  rw [readName_apply, ← watches.reads binder before name]
  cases binder.readFault? name with
  | some cause => exact ⟨watches.kept _ _ before, [⟨cause, name⟩], by simp [Binder.complain], rfl⟩
  | none => exact ⟨before, [], by simp, rfl⟩

theorem reports_distance (name : Token) : Reports (Bind.distance? name) State State (· = []) :=
  fun _ before => ⟨before, [], (List.append_nil _).symm, rfl⟩

theorem Tallies.of_parts {spot : Spot ρ} {parts : List (Spot ρ)} {faults own : List (Located ScopeFault)}
    (own_ : spot.violations known = own) (same : spot.parts = parts) (below : Tallies known (among parts) faults) :
    Tallies known spot.at? (own ++ faults) := by
  rw [← own_]
  apply Tallies.spot
  rwa [same]

/-- What is wrong at and below a spot that breaks no rule itself. -/
theorem Tallies.plain {spot : Spot ρ} {parts : List (Spot ρ)} {faults : List (Located ScopeFault)}
    (own : spot.violations known = []) (same : spot.parts = parts) (below : Tallies known (among parts) faults) :
    Tallies known spot.at? faults :=
  .of_parts own same below

theorem Spot.parts_expr (expr : Expr ρ) : Spot.parts ⟨.expr expr, place, globals, above⟩ =
    (Node.exprParts expr).map fun entry => ⟨entry.2, place, globals, .expr expr :: above⟩ := by
  cases expr <;> simp [Spot.parts, Node.parts, Node.exprParts, Spot.enter_empty]

/-- What is wrong in an expression that breaks no rule itself. -/
theorem Tallies.expr {expr : Expr ρ} {faults : List (Located ScopeFault)}
    (own : Spot.violations known ⟨.expr expr, place, globals, above⟩ = [])
    (below : Tallies known (among ((Node.exprParts expr).map fun entry => ⟨entry.2, place, globals, .expr expr :: above⟩))
      faults) : Tallies known (Spot.at? ⟨.expr expr, place, globals, above⟩) faults :=
  .plain own (Spot.parts_expr expr) below

theorem classContext_eq_none_iff {found : Option Bool} : classContext found = .none ↔ found = none := by
  rcases found with _ | _ | _ <;> simp [classContext]

mutual

theorem Expr.reports : ∀ (expr : Expr ρ) (above : List (Node ρ)),
    Watches known place globals above State →
      Reports (expr.bind (surrounding above)) State State (Tallies known (Spot.at? ⟨.expr expr, place, globals, above⟩))
  | .literal value, above, watches => Reports.pure (.leaf rfl)
  | .grouping inner, above, watches =>
    Reports.bind (inner.reports (.expr (.grouping inner) :: above) (watches.part _)) fun _ _ below =>
      Reports.pure (.expr rfl (below.cons .nil))
  | .unary op sign operand, above, watches =>
    Reports.bind (operand.reports (.expr (.unary op sign operand) :: above) (watches.part _)) fun _ _ below =>
      Reports.pure (.expr rfl (below.cons .nil))
  | .binary op left sign right, above, watches =>
    Reports.bind (left.reports (.expr (.binary op left sign right) :: above) (watches.part _)) fun _ _ below =>
      Reports.bind (right.reports (.expr (.binary op left sign right) :: above) (watches.part _)) fun _ _ below' =>
        Reports.pure (.expr rfl (below.cons (below'.cons .nil)))
  | .logical op left sign right, above, watches =>
    Reports.bind (left.reports (.expr (.logical op left sign right) :: above) (watches.part _)) fun _ _ below =>
      Reports.bind (right.reports (.expr (.logical op left sign right) :: above) (watches.part _)) fun _ _ below' =>
        Reports.pure (.expr rfl (below.cons (below'.cons .nil)))
  | .read name note, above, watches => by
    refine Reports.bind (reports_readName watches name) fun _ found same => Reports.pure ?_
    rw [same, List.append_nil]
    exact .leaf rfl
  | .assign name note value, above, watches =>
    Reports.bind (value.reports (.expr (.assign name note value) :: above) (watches.part _)) fun _ _ below =>
      Reports.bind (reports_distance name) fun _ _ none => Reports.pure (by
        rw [none]
        exact .expr rfl (below.cons .nil))
  | .call callee paren arguments, above, watches =>
    Reports.bind (callee.reports (.expr (.call callee paren arguments) :: above) (watches.part _)) fun _ _ below =>
      Reports.bind (Expr.reportsAll arguments (.expr (.call callee paren arguments) :: above) (watches.part _))
        fun _ _ below' => Reports.pure (.expr rfl (by simpa [Node.exprParts, Function.comp_def] using below.cons below'))
  | .get object name, above, watches =>
    Reports.bind (object.reports (.expr (.get object name) :: above) (watches.part _)) fun _ _ below =>
      Reports.pure (.expr rfl (below.cons .nil))
  | .set object name value, above, watches =>
    Reports.bind (value.reports (.expr (.set object name value) :: above) (watches.part _)) fun _ found below =>
      Reports.bind (object.reports (.expr (.set object name value) :: above) (watches.part _)) fun _ found' below' =>
        Reports.pure ((Tallies.expr rfl (below'.cons (below.cons .nil))).perm (by
          simpa using List.perm_append_comm))
  | .this keyword note, above, watches => by
    have own : Spot.violations known ⟨.expr (.this keyword note), place, globals, above⟩ =
        Spot.flag (class? above = none) .thisOutsideClass keyword := rfl
    have leaf : Tallies known (Spot.at? ⟨.expr (.this keyword note), place, globals, above⟩) _ := .leaf rfl
    rw [own] at leaf
    simp only [Expr.bind]
    split
    · rename_i outside
      have none := classContext_eq_none_iff.mp outside
      exact Reports.complain watches.kept (Reports.pure (by simpa [Spot.flag, none] using leaf))
    · rename_i inside
      have some_ : class? above ≠ none := fun none => inside (classContext_eq_none_iff.mpr none)
      refine Reports.bind (reports_distance keyword) fun _ _ none => Reports.pure ?_
      rw [none]
      simpa [Spot.flag, some_] using leaf
  | .super keyword note method, above, watches => by
    have leaf : Tallies known (Spot.at? ⟨.expr (.super keyword note method), place, globals, above⟩) _ := .leaf rfl
    have last (found : List (Located ScopeFault)) (same : found = Spot.violations known
        ⟨.expr (.super keyword note method), place, globals, above⟩) :
        Reports (do return Expr.super keyword (← Bind.distance? keyword) method) State State fun more =>
          Tallies known (Spot.at? ⟨.expr (.super keyword note method), place, globals, above⟩) (found ++ more) := by
      refine Reports.bind (reports_distance keyword) fun _ _ none => Reports.pure ?_
      rw [none, same]
      simpa using leaf
    have context : (surrounding above).owner = classContext (class? above) := rfl
    simp only [Expr.bind, context]
    rcases found : class? above with _ | _ | _
    · exact Reports.complain watches.kept (last [_] (by simp [Spot.violations, found]))
    · exact Reports.complain watches.kept (last [_] (by simp [Spot.violations, found, Spot.flag]))
    · exact last [] (by simp [Spot.violations, found, Spot.flag])

theorem Expr.reportsAll : ∀ (exprs : List (Expr ρ)) (above : List (Node ρ)),
    Watches known place globals above State →
      Reports (Expr.bindAll (surrounding above) exprs) State State
        (Tallies known (Tallies.among (exprs.map fun expr => ⟨.expr expr, place, globals, above⟩)))
  | [], above, watches => Reports.pure .nil
  | first :: rest, above, watches =>
    Reports.bind (first.reports above watches) fun _ _ below =>
      Reports.bind (Expr.reportsAll rest above watches) fun _ _ below' => Reports.pure (by
        simpa using below.cons below')

end

end Expressions

section Statements

/-- A walk between statements. Its scopes have the names of the scopes around, all of them ready, and it knows
the names that the top level has so far. -/
structure Meets (scopes : List (List String)) (globals : List String) (binder : Binder) : Prop where
  holds : Holds binder.scopes scopes
  ready : ∀ table ∈ binder.scopes, ∀ name, table.get? name ≠ some false
  pending : binder.pending = none
  declared : ∀ name, name ∈ binder.declared ↔ name ∈ globals

/-- A walk in the initialiser of a variable, which is the only one that is not ready. At the top level it is
followed up only if its name is new. -/
structure Starts (known : List String) (scopes : List (List String)) (globals : List String) (name : Token)
    (binder : Binder) : Prop where
  holds : Holds binder.scopes (Place.declare [name.lexeme] scopes)
  unready : ∀ table outer, binder.scopes = table :: outer →
    (∀ query, table.get? query = some false ↔ query = name.lexeme) ∧
      ∀ table ∈ outer, ∀ query, table.get? query ≠ some false
  pending : binder.pending =
    if scopes = [] ∧ name.lexeme ∉ globals ∧ name.lexeme ∉ known then some name.lexeme else none
  declared : ∀ query, query ∈ binder.declared ↔ query ∈ globals

variable {known : List String} {scopes : List (List String)} {place : Place} {globals : List String}
  {above : List (Node ρ)}

theorem Meets.withFaults {binder : Binder} (meets : Meets scopes globals binder) (faults : Array (Located ScopeFault)) :
    Meets scopes globals { binder with faults } :=
  ⟨meets.holds, meets.ready, meets.pending, meets.declared⟩

/-- Outside of initialisers every name may be read. -/
theorem Meets.watches (outside : initializing? above = none) :
    Watches known place globals above (Meets place.scopes globals) where
  kept _ faults meets := meets.withFaults faults
  reads binder meets name := by
    have none : Spot.misread known place globals above name = [] := by simp [Spot.misread, outside]
    rw [none]
    unfold Binder.readFault?
    split
    · simp [meets.pending]
    · rename_i table outer split
      simp [meets.ready table (by simp [split]) name.lexeme]

theorem Starts.watches (known : List String) (place : Place) (globals : List String) (above : List (Node ρ))
    (name : Token) (initial : Option (Expr ρ)) :
    Watches known (place.enter { earlier := [name.lexeme] }) globals (.stmt (.varDecl name initial) :: above)
      (Starts known place.scopes globals name) where
  kept _ faults starts := ⟨starts.holds, starts.unready, starts.pending, starts.declared⟩
  reads binder starts query := by
    have target : initializing? (.stmt (.varDecl name initial) :: above) = some name := rfl
    obtain ⟨scopes, inClass⟩ := place
    obtain ⟨tables, declared, pending, faults⟩ := binder
    have holds := starts.holds
    have follows := starts.pending
    simp only at holds follows
    cases scopes with
    | nil =>
      cases holds
      simp only [Spot.misread, target, Place.enter, Place.declare, List.nil_append, if_true, Binder.readFault?, follows,
        true_and, Spot.flag]
      by_cases same : name.lexeme = query.lexeme
      · by_cases new : query.lexeme ∉ globals ∧ query.lexeme ∉ known <;> simp [same, new]
      · simp only [same, false_and, if_false]
        split <;> simp [same]
    | cons scope outer =>
      obtain ⟨table, rest, rfl, _, _⟩ := Holds.uncons holds
      have unready := (starts.unready table rest rfl).1 query.lexeme
      simp only [Spot.misread, target, Place.enter, Place.declare, List.nil_append, reduceCtorEq, if_false, Spot.flag,
        Binder.readFault?, unready]
      by_cases same : query.lexeme = name.lexeme
      · simp [same]
      · simp [same, Ne.symm same]

section Equations

variable {tables : List Scope} {table : Scope} {declared : List String} {pending : Option String}
  {faults : Array (Located ScopeFault)}

theorem Binder.declare_top (name : Token) : Binder.declare known ⟨[], declared, pending, faults⟩ name =
    ⟨[], declared, if name.lexeme ∈ declared ∨ name.lexeme ∈ known then pending else some name.lexeme, faults⟩ := by
  simp only [Binder.declare, Bool.or_eq_true, List.contains_iff_mem]
  split <;> rfl

theorem Binder.declare_inner (name : Token) : Binder.declare known ⟨table :: tables, declared, pending, faults⟩ name =
    ⟨table.set name.lexeme false :: tables, declared, pending,
      if table.contains name.lexeme then faults.push ⟨.alreadyDeclared, name⟩ else faults⟩ := by
  simp only [Binder.declare]
  split <;> rfl

end Equations

theorem reports_declare (known : List String) (name : Token) :
    Reports (modify (·.declare known name)) (Meets scopes globals) (Starts known scopes globals name)
      (· = Spot.flag (name.lexeme ∈ scopes.headD []) .alreadyDeclared name) := by
  intro binder meets
  change Starts known scopes globals name (binder.declare known name) ∧
    ∃ found, (binder.declare known name).faults.toList = binder.faults.toList ++ found ∧ _
  have after : Holds (binder.declare known name).scopes _ := (walks_declare known name scopes binder meets.holds).2
  obtain ⟨tables, declared, pending, faults⟩ := binder
  obtain ⟨holds, ready, settled, names⟩ := meets
  simp only at holds ready settled names
  subst settled
  cases holds with
  | nil =>
    rw [Binder.declare_top] at after ⊢
    refine ⟨⟨after, nofun, ?_, names⟩, [], by simp, by simp [Spot.flag]⟩
    simp only [← names]
    by_cases old : name.lexeme ∈ declared ∨ name.lexeme ∈ known
    · rw [if_pos old, if_neg (by tauto)]
    · rw [if_neg old, if_pos (by tauto)]
  | @cons table scope tables scopes same tail =>
    rw [Binder.declare_inner] at after ⊢
    refine ⟨⟨after, ?_, by simp, names⟩, _, ?_, rfl⟩
    · rintro _ _ ⟨⟩
      refine ⟨fun query => ?_, fun table member => ready table (List.mem_cons_of_mem _ member)⟩
      have old := ready table List.mem_cons_self query
      rw [Table.get?_set]
      split <;> simp_all
    · simp only [List.headD_cons, Spot.flag, ← same name.lexeme]
      split <;> simp

theorem reports_define (name : Token) :
    Reports (modify (·.define name)) (Starts known place.scopes globals name)
      (Meets (Place.declare [name.lexeme] place.scopes) (place.topLevel [name.lexeme] globals)) (· = []) := by
  refine Reports.modify (fun binder starts => ?_) fun binder => ?_
  · have after : Holds (binder.define name).scopes _ := (walks_define name place.scopes binder starts.holds).2
    obtain ⟨scopes, inClass⟩ := place
    obtain ⟨tables, declared, pending, faults⟩ := binder
    obtain ⟨holds, unready, follows, names⟩ := starts
    simp only at holds unready follows names after
    cases scopes with
    | nil =>
      cases holds
      exact ⟨after, nofun, rfl, by simp [Binder.define, Place.topLevel, names]⟩
    | cons scope outer =>
      obtain ⟨table, rest, rfl, _, _⟩ := Holds.uncons holds
      obtain ⟨only, others⟩ := unready table rest rfl
      refine ⟨after, ?_, by simpa [Binder.define] using follows, by simpa [Binder.define, Place.topLevel] using names⟩
      intro table' member query
      rcases List.mem_cons.mp member with rfl | member
      · rw [Table.get?_set]
        split
        · simp
        · rename_i other
          exact fun found => other ((only query).mp found)
      · exact others table' member query
  · unfold Binder.define
    split <;> rfl

theorem reports_introduce (known : List String) (name : Token) :
    Reports (Bind.introduce known name) (Meets place.scopes globals)
      (Meets (Place.declare [name.lexeme] place.scopes) (place.topLevel [name.lexeme] globals))
      (· = Spot.flag (name.lexeme ∈ place.scopes.headD []) .alreadyDeclared name) := by
  intro binder meets
  obtain ⟨starts, found, added, same⟩ := reports_declare known name binder meets
  obtain ⟨after, more, added', none⟩ := reports_define name _ starts
  refine ⟨after, found, ?_, same⟩
  rw [none, List.append_nil] at added'
  exact added'.trans added

/-- The names that a scope starts with are ready. -/
theorem get?_opened {query : String} (names : List String) (table : Scope) (ready : table.get? query ≠ some false) :
    (names.foldl (fun scope name => scope.set name true) table).get? query ≠ some false := by
  induction names generalizing table with
  | nil => exact ready
  | cons first rest ih =>
    apply ih
    rw [Table.get?_set]
    split <;> simp [ready]

theorem reports_inScope {α : Type} {action : Bind α} {Found : List (Located ScopeFault) → Prop}
    (names more : List String)
    (reports : Reports action (Meets (names :: scopes) globals) (Meets (more :: scopes) globals) Found) :
    Reports (Bind.inScope names action) (Meets scopes globals) (Meets scopes globals) Found := by
  refine Reports.bind (Reports.modify (fun binder meets => ?_) fun _ => rfl) fun _ _ none =>
    Reports.bind reports fun value found holds =>
      Reports.bind (Reports.modify (fun binder meets => ?_) fun _ => rfl) fun _ _ none' => Reports.pure ?_
  · refine ⟨.cons (fun name => ?_) meets.holds, fun table member name => ?_, meets.pending, meets.declared⟩
    · rw [contains_opened]
      simp [Table.contains]
    · rcases List.mem_cons.mp member with rfl | member
      · exact get?_opened names .empty (by simp)
      · exact meets.ready table member name
  · obtain ⟨table, rest, split, _, tail⟩ := meets.holds.uncons
    refine ⟨by simpa [Binder.closeScope, split] using tail, fun table' member => ?_, meets.pending, meets.declared⟩
    refine meets.ready table' ?_
    rw [split]
    exact List.mem_cons_of_mem _ (by simpa [Binder.closeScope, split] using member)
  · simpa [none, none'] using holds

theorem reports_inClassScopes {α : Type} {action : Bind α} {Found : List (Located ScopeFault) → Prop}
    (hasSuperclass : Bool)
    (reports : Reports action (Meets (Node.classScopes hasSuperclass ++ scopes) globals)
      (Meets (Node.classScopes hasSuperclass ++ scopes) globals) Found) :
    Reports (Bind.inClassScopes hasSuperclass action) (Meets scopes globals) (Meets scopes globals) Found := by
  cases hasSuperclass with
  | false => exact reports_inScope _ _ reports
  | true => exact reports_inScope _ _ (reports_inScope _ _ reports)

theorem Meets.congr {names more : List String} {binder : Binder} (meets : Meets (names :: scopes) globals binder)
    (same : ∀ name, name ∈ more ↔ name ∈ names) : Meets (more :: scopes) globals binder := by
  obtain ⟨holds, ready, pending, declared⟩ := meets
  obtain ⟨table, rest, split, head, tail⟩ := holds.uncons
  refine ⟨?_, ready, pending, declared⟩
  rw [split]
  exact .cons (fun name => (head name).trans (same name).symm) tail

theorem reports_params (params : List Token) (scope : List String) :
    Reports (params.forM (Bind.introduce known)) (Meets (scope :: scopes) globals)
      (Meets ((params.map Token.lexeme ++ scope) :: scopes) globals) (· = Spot.repeated scope params) := by
  induction params generalizing scope with
  | nil => exact Reports.pure rfl
  | cons first rest ih =>
    let place : Place := ⟨scope :: scopes, false⟩
    have start : Reports (Bind.introduce known first) (Meets place.scopes globals) _ _ := reports_introduce known first
    refine Reports.bind start fun _ found same => ?_
    intro binder meets
    obtain ⟨after, more, added, same'⟩ := ih (first.lexeme :: scope) binder meets
    refine ⟨after.congr fun name => ?_, more, added, ?_⟩
    · simp only [List.map_cons, List.cons_append, List.mem_append, List.mem_cons]
      tauto
    · rw [same, same']
      rfl

theorem Place.topLevel_append (place : Place) (step : Step) (later globals : List String)
    (plain : step.opened = []) :
    (place.enter step).topLevel later (place.topLevel step.earlier globals) =
      place.topLevel (later ++ step.earlier) globals := by
  obtain ⟨_ | ⟨scope, outer⟩, inClass⟩ := place <;> simp [Place.topLevel, Place.enter, Place.declare, plain]

@[simp]
theorem Place.topLevel_nil (place : Place) (globals : List String) : place.topLevel [] globals = globals := by
  simp [Place.topLevel]

/-- The spots of statements in a row. -/
def Spot.inOrder (place : Place) (globals : List String) (above : List (Node ρ)) (earlier : List String)
    (body : List (Stmt ρ)) : List (Spot ρ) :=
  (Node.inOrder earlier body).map fun (step, part) =>
    ⟨part, place.enter step, place.topLevel step.earlier globals, above⟩

/-- An expression outside of initialisers. -/
theorem reports_part (known : List String) (expr : Expr ρ) (place : Place) (globals : List String)
    (above : List (Node ρ)) (outside : initializing? above = none) :
    Reports (expr.bind (surrounding above)) (Meets place.scopes globals) (Meets place.scopes globals)
      (Tallies known (Spot.at? ⟨.expr expr, place, globals, above⟩)) :=
  expr.reports above (Meets.watches outside)

theorem reports_option {State : Binder → Prop} (watches : Watches known place globals above State)
    (value : Option (Expr ρ)) :
    Reports (Expr.bindOption (surrounding above) value) State State
      (Tallies known (Tallies.among (value.toList.map fun expr => ⟨.expr expr, place, globals, above⟩))) := by
  cases value with
  | none => exact Reports.pure .nil
  | some value =>
    refine Reports.bind (value.reports above watches) fun _ found below => Reports.pure ?_
    exact below.cons .nil

/-- The statements of a scope, from what they report one after the other. -/
theorem Reports.body {scope : List String} {outer : List (List String)} {body : List (Stmt ρ)}
    (around : place.scopes = scope :: outer)
    (reports : Reports (Stmt.bindAll known (surrounding (.sequence body :: above)) body)
      (Meets (Place.declare [] place.scopes) (place.topLevel [] globals))
      (Meets (Place.declare (declaredAfter [] body) place.scopes) (place.topLevel (declaredAfter [] body) globals))
      (Tallies known (Tallies.among (Spot.inOrder place globals (.sequence body :: above) [] body)))) :
    Reports (Stmt.bindAll known (surrounding above) body) (Meets (scope :: outer) globals)
      (Meets ((declaredAfter [] body ++ scope) :: outer) globals)
      (Tallies known (Spot.at? ⟨.sequence body, place, globals, above⟩)) := by
  have inner (names : List String) : place.topLevel names globals = globals := by simp [Place.topLevel, around]
  rw [inner, inner, around] at reports
  exact reports.weaken fun found below => .plain rfl rfl below

variable (known)

mutual

theorem Stmt.reports : ∀ (stmt : Stmt ρ) (place : Place) (globals : List String) (above : List (Node ρ)),
    Reports (stmt.bind known (surrounding above)) (Meets place.scopes globals)
      (Meets (Place.declare stmt.declared place.scopes) (place.topLevel stmt.declared globals))
      (Tallies known (Spot.at? ⟨.stmt stmt, place, globals, above⟩))
  | .expression value, place, globals, above => by
    rw [Stmt.declared, declare_nil, Place.topLevel_nil]
    refine Reports.bind (reports_part known value place globals (.stmt (.expression value) :: above) rfl) fun _ _ below =>
      Reports.pure (.plain rfl ?_ (below.cons .nil))
    simp [Spot.parts, Node.parts, Node.stmtParts, Spot.enter_empty]
  | .print value, place, globals, above => by
    rw [Stmt.declared, declare_nil, Place.topLevel_nil]
    refine Reports.bind (reports_part known value place globals (.stmt (.print value) :: above) rfl) fun _ _ below =>
      Reports.pure (.plain rfl ?_ (below.cons .nil))
    simp [Spot.parts, Node.parts, Node.stmtParts, Spot.enter_empty]
  | .varDecl name initial, place, globals, above => by
    have inside := reports_option (Starts.watches known place globals above name initial) initial
    refine Reports.bind (reports_declare known name) fun _ found own => ?_
    refine Reports.bind inside fun _ found' below => ?_
    refine Reports.bind (reports_define name) fun _ _ none => Reports.pure ?_
    rw [own, none, List.append_nil, List.append_nil]
    refine .of_parts rfl ?_ below
    cases initial <;> rfl
  | .block body, place, globals, above => by
    rw [Stmt.declared, declare_nil, Place.topLevel_nil]
    have around : (place.enter { opened := [[]] }).scopes = [] :: place.scopes := by simp [Place.enter]
    have inside := Reports.body around (Stmt.reportsAll body _ globals (.sequence body :: .stmt (.block body) :: above) [])
    refine Reports.bind (reports_inScope [] _ inside) fun _ _ below =>
      Reports.pure (.plain rfl ?_ (below.cons .nil))
    simp [Spot.parts, Node.parts, Node.stmtParts, Spot.enter]
  | .ifThen condition accepted, place, globals, above => by
    refine Reports.bind (reports_part known condition place globals (.stmt (.ifThen condition accepted) :: above) rfl)
      fun _ _ below => ?_
    refine Reports.bind (Stmt.reports accepted place globals (.stmt (.ifThen condition accepted) :: above))
      fun _ _ below' => Reports.pure (.plain rfl ?_ (below.cons (below'.cons .nil)))
    simp [Spot.parts, Node.parts, Node.stmtParts, Spot.enter_empty]
  | .ifElse condition accepted rejected, place, globals, above => by
    let here : Node ρ := .stmt (.ifElse condition accepted rejected)
    have second := Stmt.reports rejected (place.enter { earlier := accepted.declared })
      (place.topLevel accepted.declared globals) (here :: above)
    rw [Place.topLevel_append place { earlier := accepted.declared } _ _ rfl] at second
    rw [Stmt.declared, declare_append]
    refine Reports.bind (reports_part known condition place globals (here :: above) rfl) fun _ _ below => ?_
    refine Reports.bind (Stmt.reports accepted place globals (here :: above)) fun _ _ below' => ?_
    refine Reports.bind second fun _ _ below'' =>
      Reports.pure (.plain rfl ?_ (below.cons (below'.cons (below''.cons .nil))))
    simp [Spot.parts, Node.parts, Node.stmtParts, Spot.enter_empty, here]
    rfl
  | .whileLoop condition body, place, globals, above => by
    refine Reports.bind (reports_part known condition place globals (.stmt (.whileLoop condition body) :: above) rfl)
      fun _ _ below => ?_
    refine Reports.bind (Stmt.reports body place globals (.stmt (.whileLoop condition body) :: above))
      fun _ _ below' => Reports.pure (.plain rfl ?_ (below.cons (below'.cons .nil)))
    simp [Spot.parts, Node.parts, Node.stmtParts, Spot.enter_empty]
  | .funDecl declaration, place, globals, above => by
    let step : Step := { earlier := [declaration.name.lexeme] }
    have inside := FunctionDecl.reports declaration (place.enter step) (place.topLevel step.earlier globals)
      (.stmt (.funDecl declaration) :: above)
    rw [surrounding_function] at inside
    refine Reports.bind (reports_introduce known declaration.name) fun _ _ own => ?_
    refine Reports.bind inside fun _ _ below => Reports.pure ?_
    rw [own]
    exact .of_parts rfl rfl (below.cons .nil)
  | .returnStmt keyword value, place, globals, above => by
    rw [Stmt.declared, declare_nil, Place.topLevel_nil]
    let here : Node ρ := .stmt (.returnStmt keyword value)
    have kept (binder : Binder) (faults : Array (Located ScopeFault)) (meets : Meets place.scopes globals binder) :=
      meets.withFaults faults
    have watches (above : List (Node ρ)) (outside : initializing? above = none) :
        Watches known place globals above (Meets place.scopes globals) := Meets.watches outside
    have last (own : List (Located ScopeFault)) (same : own = Spot.violations known ⟨here, place, globals, above⟩) :
        Reports (do return Stmt.returnStmt keyword (← Expr.bindOption (surrounding above) value))
          (Meets place.scopes globals) (Meets place.scopes globals)
          fun more => Tallies known (Spot.at? ⟨here, place, globals, above⟩) (own ++ more) := by
      have inside := reports_option (watches (here :: above) rfl) value
      refine Reports.bind inside fun _ found below => Reports.pure ?_
      rw [List.append_nil, same]
      refine .of_parts rfl ?_ below
      cases value <;> simp [Spot.parts, Node.parts, Node.stmtParts, Spot.enter_empty, here, Node.optional]
    have context : (surrounding above).function = functionContext (function? above) := rfl
    simp only [Stmt.bind, context]
    rcases found : function? above with _ | ⟨declaration, _ | _⟩
    · simp only [functionContext, if_true, reduceCtorEq, decide_false, Bool.and_false, Bool.false_eq_true, if_false]
      exact Reports.complain kept (last [_] (by simp [Spot.violations, here, found]))
    · simp only [functionContext, reduceCtorEq, decide_false, Bool.and_false, Bool.false_eq_true, if_false]
      exact last [] (by simp [Spot.violations, here, found, Spot.flag])
    · have method : functionContext (some (declaration, true)) ≠ .none := by
        simp only [functionContext, FunctionContext.ofMethod]
        split <;> simp
      have initializer : functionContext (some (declaration, true)) = .initializer ↔
          declaration.name.lexeme = initializerName := by
        simp only [functionContext, FunctionContext.ofMethod]
        split <;> simp_all
      simp only [method, if_false, Bool.and_eq_true, decide_eq_true_eq, initializer]
      exact Reports.flag kept (last _ (by simp [Spot.violations, here, found]))
  | .classDecl name superclass methods, place, globals, above => by
    let here : Node ρ := .stmt (.classDecl name superclass methods)
    let step : Step := ⟨[name.lexeme], Node.classScopes superclass.isSome, true⟩
    let outside : Place := place.enter { earlier := [name.lexeme] }
    let names : List String := place.topLevel [name.lexeme] globals
    have inside := reports_inClassScopes superclass.isSome
      (FunctionDecl.reportsMethods methods (place.enter step) names above name superclass methods)
    refine Reports.bind (reports_introduce known name) fun _ own same => ?_
    subst same
    cases superclass with
    | none =>
      change Reports (do return Stmt.classDecl name none (← Bind.inClassScopes false _)) _ _ _
      refine Reports.bind inside fun _ found below => Reports.pure ?_
      rw [List.append_nil]
      refine .of_parts (by simp [Spot.violations, Spot.scope]) ?_ below
      simp [Spot.parts, Node.parts, Node.stmtParts, Spot.enter, Node.optional, step, names, Function.comp_def]
    | some pair =>
      obtain ⟨parent, note⟩ := pair
      have reading : Reports (Bind.readName parent) (Meets outside.scopes names) (Meets outside.scopes names)
          (Tallies known (Spot.at? ⟨.expr (.read parent note), outside, names, here :: above⟩)) := by
        have watches : Watches known outside names (here :: above) (Meets outside.scopes names) := Meets.watches rfl
        refine (reports_readName watches parent).weaken fun found same => ?_
        rw [same]
        exact .leaf rfl
      let rest : Bind (Stmt Distance) := do
        let distance ← Bind.readName parent
        return Stmt.classDecl name (some (parent, distance)) (← Bind.inClassScopes true
          (FunctionDecl.bindMethods known { surrounding above with owner := .subclass } methods))
      have last : Reports rest (Meets outside.scopes names) (Meets outside.scopes names) fun found =>
          Tallies known (Spot.at? ⟨here, place, globals, above⟩)
            (Spot.flag (name.lexeme ∈ place.scopes.headD []) .alreadyDeclared name ++
              (Spot.flag (parent.lexeme = name.lexeme) .inheritsFromItself parent ++ found)) := by
        refine Reports.bind reading fun _ found below => Reports.bind inside fun _ found below' => Reports.pure ?_
        rw [List.append_nil, ← List.append_assoc]
        refine .of_parts (by simp [Spot.violations, Spot.scope, here]) ?_ (below.cons below')
        simp [Spot.parts, Node.parts, Node.stmtParts, Spot.enter, Node.optional, step, names, Function.comp_def, here,
          outside]
      have kept (binder : Binder) (faults : Array (Located ScopeFault)) (meets : Meets outside.scopes names binder) :=
        meets.withFaults faults
      have whole : Reports (if parent.lexeme = name.lexeme then do Bind.complain parent .inheritsFromItself; rest
          else rest) (Meets outside.scopes names) (Meets outside.scopes names) fun found =>
            Tallies known (Spot.at? ⟨here, place, globals, above⟩)
              (Spot.flag (name.lexeme ∈ place.scopes.headD []) .alreadyDeclared name ++ found) :=
        Reports.flag kept last
      simp only [Bind.superclass]
      split at whole
      · rename_i self
        simp only [self, if_true]
        exact whole
      · rename_i other
        simp only [other, if_false]
        exact whole

theorem Stmt.reportsAll : ∀ (body : List (Stmt ρ)) (place : Place) (globals : List String) (above : List (Node ρ))
    (earlier : List String),
    Reports (Stmt.bindAll known (surrounding above) body)
      (Meets (Place.declare earlier place.scopes) (place.topLevel earlier globals))
      (Meets (Place.declare (declaredAfter earlier body) place.scopes)
        (place.topLevel (declaredAfter earlier body) globals))
      (Tallies known (Tallies.among (Spot.inOrder place globals above earlier body)))
  | [], place, globals, above, earlier => Reports.pure .nil
  | first :: rest, place, globals, above, earlier => by
    have before := Stmt.reports first (place.enter { earlier }) (place.topLevel earlier globals) above
    have after := Stmt.reportsAll rest place globals above (first.declared ++ earlier)
    rw [Place.topLevel_append place { earlier } first.declared globals rfl] at before
    rw [declare_append] at after
    refine Reports.bind before fun _ _ below => Reports.bind after fun _ _ below' => Reports.pure ?_
    rw [List.append_nil]
    exact below.cons below'

theorem FunctionDecl.reports : ∀ (declaration : FunctionDecl ρ) (place : Place) (globals : List String)
    (above : List (Node ρ)),
    Reports (declaration.bind known (surrounding (.function declaration :: above))) (Meets place.scopes globals)
      (Meets place.scopes globals) (Tallies known (Spot.at? ⟨.function declaration, place, globals, above⟩))
  | .mk name params body, place, globals, above => by
    let here : Node ρ := .function (.mk name params body)
    let step : Step := { opened := [params.map Token.lexeme] }
    have around : (place.enter step).scopes = params.map Token.lexeme :: place.scopes := by simp [Place.enter, step]
    have inside := Reports.body around (Stmt.reportsAll body _ globals (.sequence body :: here :: above) [])
    have opening : Reports (params.forM (Bind.introduce known)) (Meets ([] :: place.scopes) globals)
        (Meets ((params.map Token.lexeme ++ []) :: place.scopes) globals) (· = Spot.repeated [] params) :=
      reports_params params []
    rw [List.append_nil] at opening
    have whole : Reports (do params.forM (Bind.introduce known); Stmt.bindAll known (surrounding (here :: above)) body)
        (Meets ([] :: place.scopes) globals)
        (Meets ((declaredAfter [] body ++ params.map Token.lexeme) :: place.scopes) globals)
        (Tallies known (Spot.at? ⟨here, place, globals, above⟩)) := by
      refine Reports.bind opening fun _ own same => inside.weaken fun found below => ?_
      rw [same]
      have alone := below.cons (Tallies.nil : Tallies known (Tallies.among ([] : List (Spot ρ))) [])
      rw [List.append_nil] at alone
      exact .of_parts rfl (by simp [Spot.parts, Node.parts, Spot.enter, here, step]) alone
    refine Reports.bind (reports_inScope [] _ whole) fun _ found below => Reports.pure ?_
    rwa [List.append_nil]

theorem FunctionDecl.reportsMethods : ∀ (methods : List (FunctionDecl ρ)) (place : Place) (globals : List String)
    (above : List (Node ρ)) (name : Token) (superclass : Option (Token × ρ)) (all : List (FunctionDecl ρ)),
    Reports (FunctionDecl.bindMethods known
        { surrounding above with owner := if superclass.isSome then .subclass else .plain } methods)
      (Meets place.scopes globals) (Meets place.scopes globals)
      (Tallies known (Tallies.among (methods.map fun method =>
        ⟨.function method, place, globals, .stmt (.classDecl name superclass all) :: above⟩)))
  | [], place, globals, above, name, superclass, all => Reports.pure .nil
  | first :: rest, place, globals, above, name, superclass, all => by
    have inside := FunctionDecl.reports first place globals (.stmt (.classDecl name superclass all) :: above)
    rw [surrounding_method] at inside
    refine Reports.bind inside fun _ _ below => ?_
    refine Reports.bind (FunctionDecl.reportsMethods rest place globals above name superclass all) fun _ _ below' =>
      Reports.pure ?_
    rw [List.append_nil]
    exact below.cons below'

end

end Statements

/-- The faults of a program are the rules that its nodes break. -/
theorem Program.tallies_bind (known : List String) (program : Program ρ) :
    Tallies known program.spot? (program.bind known).faults := by
  have start : Meets (Place.declare [] ({} : Place).scopes) (({} : Place).topLevel [] []) ({} : Binder) :=
    ⟨.nil, nofun, rfl, fun _ => .rfl⟩
  obtain ⟨_, found, added, below⟩ := Stmt.reportsAll known program {} [] [.sequence program] [] {} start
  have faults : (program.bind known).faults = found := added
  rw [faults]
  exact .plain rfl rfl below

/-- Binding a program finds the rules that its nodes break, each one once, at the token at fault, and nothing
else. So it finds nothing if and only if no node breaks a rule. -/
theorem Program.bind_finds_violations (known : List String) (program : Program ρ) :
    (∃ paths : List (List Nat), paths.Nodup ∧ (∀ path, path ∈ paths ↔ (program.spot? path).isSome = true) ∧
      (program.bind known).faults.Perm
        (paths.flatMap fun path => (program.spot? path).elim [] (Spot.violations known))) ∧
    ((program.bind known).faults = [] ↔
      ∀ path spot, program.spot? path = some spot → spot.violations known = []) :=
  ⟨program.tallies_bind known, (program.tallies_bind known).eq_nil_iff⟩

end Lox

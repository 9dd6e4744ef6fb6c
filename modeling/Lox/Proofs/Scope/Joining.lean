import Lox.Proofs.Scope.Addresses

/-!
Binding two programs one after the other. What binding knows of the first one when it comes to the second is
which names exist at the top level, whether they were there before or have been declared in the meantime. So
the second one is bound as it is bound alone where all these names exist.
-/
namespace Lox

section Agreement

/-- Two walks that have come to the same point, with the same names at the top level. -/
structure Binder.Alike (known known' : List String) (left right : Binder) : Prop where
  scopes : left.scopes = right.scopes
  pending : left.pending = right.pending
  faults : left.faults = right.faults
  names : ∀ name, name ∈ left.declared ∨ name ∈ known ↔ name ∈ right.declared ∨ name ∈ known'

namespace Binder.Alike

variable {known known' : List String} {left right : Binder} (alike : left.Alike known known' right)

include alike

theorem complain (token : Token) (cause : ScopeFault) :
    (left.complain token cause).Alike known known' (right.complain token cause) :=
  ⟨alike.scopes, alike.pending, by simp only [Binder.complain, alike.faults], alike.names⟩

theorem distance? (name : String) : left.distance? name = right.distance? name := by
  simp only [Binder.distance?, alike.scopes]

theorem readFault? (name : Token) : left.readFault? name = right.readFault? name := by
  simp only [Binder.readFault?, alike.scopes, alike.pending]

theorem openScope (names : List String) : (left.openScope names).Alike known known' (right.openScope names) :=
  ⟨by simp only [Binder.openScope, alike.scopes], alike.pending, alike.faults, alike.names⟩

theorem closeScope : left.closeScope.Alike known known' right.closeScope :=
  ⟨by simp only [Binder.closeScope, alike.scopes], alike.pending, alike.faults, alike.names⟩

/-- Only which names exist counts, not where they come from. -/
theorem declare (name : Token) : (left.declare known name).Alike known known' (right.declare known' name) := by
  have exists_ : (left.declared.contains name.lexeme || known.contains name.lexeme) =
      (right.declared.contains name.lexeme || known'.contains name.lexeme) := by
    rw [Bool.eq_iff_iff]
    simpa using alike.names name.lexeme
  unfold Binder.declare
  rw [alike.scopes, exists_]
  split
  · split
    · exact alike
    · exact ⟨rfl, rfl, alike.faults, alike.names⟩
  · split
    · exact ⟨rfl, alike.pending, (alike.complain name _).faults, alike.names⟩
    · exact ⟨rfl, alike.pending, alike.faults, alike.names⟩

theorem define (name : Token) : (left.define name).Alike known known' (right.define name) := by
  unfold Binder.define
  rw [alike.scopes]
  split
  · refine ⟨rfl, rfl, alike.faults, fun query => ?_⟩
    simp only [List.mem_cons, or_assoc, alike.names query]
  · exact ⟨rfl, alike.pending, alike.faults, alike.names⟩

end Binder.Alike

/-- Two actions that cannot tell such walks apart. -/
def Agrees {α : Type} (known known' : List String) (action action' : Bind α) : Prop :=
  ∀ left right, left.Alike known known' right →
    (action left).1 = (action' right).1 ∧ (action left).2.Alike known known' (action' right).2

namespace Agrees

variable {α β : Type} {known known' : List String}

theorem pure (value : α) : Agrees known known' (Pure.pure value) (Pure.pure value) :=
  fun _ _ alike => ⟨rfl, alike⟩

theorem bind {action action' : Bind α} {next next' : α → Bind β} (first : Agrees known known' action action')
    (then_ : ∀ value, Agrees known known' (next value) (next' value)) :
    Agrees known known' (action >>= next) (action' >>= next') := by
  intro left right alike
  obtain ⟨same, still⟩ := first left right alike
  change (next (action left).1 (action left).2).1 = _ ∧ Binder.Alike _ _ (next (action left).1 (action left).2).2 _
  rw [same]
  exact then_ (action' right).1 _ _ still

theorem modify {change change' : Binder → Binder}
    (changes : ∀ left right, left.Alike known known' right → (change left).Alike known known' (change' right)) :
    Agrees known known' (modify change) (modify change') :=
  fun left right alike => ⟨rfl, changes left right alike⟩

theorem complain (token : Token) (cause : ScopeFault) :
    Agrees known known' (Bind.complain token cause) (Bind.complain token cause) :=
  modify fun _ _ alike => alike.complain token cause

theorem distance (name : Token) : Agrees known known' (Bind.distance? name) (Bind.distance? name) :=
  fun _ _ alike => ⟨alike.distance? name.lexeme, alike⟩

theorem readName (name : Token) : Agrees known known' (Bind.readName name) (Bind.readName name) := by
  intro left right alike
  rw [readName_apply, readName_apply, alike.readFault? name, alike.distance? name.lexeme]
  cases right.readFault? name with
  | some cause => exact ⟨rfl, alike.complain name cause⟩
  | none => exact ⟨rfl, alike⟩

theorem introduce (name : Token) : Agrees known known' (Bind.introduce known name) (Bind.introduce known' name) :=
  modify fun _ _ alike => (alike.declare name).define name

theorem inScope (names : List String) {action action' : Bind α} (agree : Agrees known known' action action') :
    Agrees known known' (Bind.inScope names action) (Bind.inScope names action') :=
  bind (modify fun _ _ alike => alike.openScope names) fun _ =>
    bind agree fun _ => bind (modify fun _ _ alike => alike.closeScope) fun _ => pure _

theorem params (params : List Token) :
    Agrees known known' (params.forM (Bind.introduce known)) (params.forM (Bind.introduce known')) := by
  induction params with
  | nil => exact pure _
  | cons first rest ih => exact bind (introduce first) fun _ => ih

end Agrees

section Trees

variable {known known' : List String}

mutual

theorem Expr.agrees (around : Surrounding) : ∀ expr : Expr Unit,
    Agrees known known' (expr.bind around) (expr.bind around)
  | .literal _ => Agrees.pure _
  | .grouping inner => Agrees.bind (inner.agrees around) fun _ => Agrees.pure _
  | .unary _ _ operand => Agrees.bind (operand.agrees around) fun _ => Agrees.pure _
  | .binary _ left _ right | .logical _ left _ right =>
    Agrees.bind (left.agrees around) fun _ => Agrees.bind (right.agrees around) fun _ => Agrees.pure _
  | .read name _ => Agrees.bind (Agrees.readName name) fun _ => Agrees.pure _
  | .assign name _ value =>
    Agrees.bind (value.agrees around) fun _ => Agrees.bind (Agrees.distance name) fun _ => Agrees.pure _
  | .call callee _ arguments =>
    Agrees.bind (callee.agrees around) fun _ => Agrees.bind (Expr.agreesAll around arguments) fun _ => Agrees.pure _
  | .get object _ => Agrees.bind (object.agrees around) fun _ => Agrees.pure _
  | .set object _ value =>
    Agrees.bind (value.agrees around) fun _ => Agrees.bind (object.agrees around) fun _ => Agrees.pure _
  | .this keyword _ => by
    unfold Expr.bind
    split
    · exact Agrees.bind (Agrees.complain keyword _) fun _ => Agrees.pure _
    · exact Agrees.bind (Agrees.distance keyword) fun _ => Agrees.pure _
  | .super keyword _ method => by
    have last : Agrees known known' (do return Expr.super keyword (← Bind.distance? keyword) method)
        (do return Expr.super keyword (← Bind.distance? keyword) method) :=
      Agrees.bind (Agrees.distance keyword) fun _ => Agrees.pure _
    unfold Expr.bind
    split
    · exact Agrees.bind (Agrees.complain keyword _) fun _ => last
    · exact Agrees.bind (Agrees.complain keyword _) fun _ => last
    · exact last

theorem Expr.agreesAll (around : Surrounding) : ∀ exprs : List (Expr Unit),
    Agrees known known' (Expr.bindAll around exprs) (Expr.bindAll around exprs)
  | [] => Agrees.pure _
  | first :: rest =>
    Agrees.bind (first.agrees around) fun _ => Agrees.bind (Expr.agreesAll around rest) fun _ => Agrees.pure _

end

theorem Expr.agreesOption (around : Surrounding) (initial : Option (Expr Unit)) :
    Agrees known known' (Expr.bindOption around initial) (Expr.bindOption around initial) := by
  cases initial with
  | none => exact Agrees.pure _
  | some value => exact Agrees.bind (value.agrees around) fun _ => Agrees.pure _

theorem agrees_superclass (name : Token) (superclass : Option (Token × Unit)) :
    Agrees known known' (Bind.superclass name superclass) (Bind.superclass name superclass) := by
  rcases superclass with _ | ⟨parent, note⟩
  · exact Agrees.pure _
  · have last : Agrees known known' (do return some (parent, ← Bind.readName parent))
        (do return some (parent, ← Bind.readName parent)) :=
      Agrees.bind (Agrees.readName parent) fun _ => Agrees.pure _
    simp only [Bind.superclass]
    split
    · exact Agrees.bind (Agrees.complain parent _) fun _ => last
    · exact last

theorem Agrees.inClassScopes {α : Type} (hasSuperclass : Bool) {action action' : Bind α}
    (agrees : Agrees known known' action action') :
    Agrees known known' (Bind.inClassScopes hasSuperclass action) (Bind.inClassScopes hasSuperclass action') := by
  cases hasSuperclass with
  | false => exact Agrees.inScope _ agrees
  | true => exact Agrees.inScope _ (Agrees.inScope _ agrees)

mutual

theorem Stmt.agrees (around : Surrounding) : ∀ stmt : Stmt Unit,
    Agrees known known' (stmt.bind known around) (stmt.bind known' around)
  | .expression value | .print value => Agrees.bind (value.agrees around) fun _ => Agrees.pure _
  | .varDecl name initial =>
    Agrees.bind (Agrees.modify fun _ _ alike => alike.declare name) fun _ =>
      Agrees.bind (Expr.agreesOption around initial) fun _ =>
        Agrees.bind (Agrees.modify fun _ _ alike => alike.define name) fun _ => Agrees.pure _
  | .block body => Agrees.bind (Agrees.inScope [] (Stmt.agreesAll around body)) fun _ => Agrees.pure _
  | .ifThen condition accepted =>
    Agrees.bind (condition.agrees around) fun _ => Agrees.bind (accepted.agrees around) fun _ => Agrees.pure _
  | .ifElse condition accepted rejected =>
    Agrees.bind (condition.agrees around) fun _ => Agrees.bind (accepted.agrees around) fun _ =>
      Agrees.bind (rejected.agrees around) fun _ => Agrees.pure _
  | .whileLoop condition body =>
    Agrees.bind (condition.agrees around) fun _ => Agrees.bind (body.agrees around) fun _ => Agrees.pure _
  | .funDecl declaration =>
    Agrees.bind (Agrees.introduce declaration.name) fun _ =>
      Agrees.bind (declaration.agrees { around with function := .function }) fun _ => Agrees.pure _
  | .returnStmt keyword value => by
    have last : Agrees known known' (do return Stmt.returnStmt keyword (← Expr.bindOption around value))
        (do return Stmt.returnStmt keyword (← Expr.bindOption around value)) :=
      Agrees.bind (Expr.agreesOption around value) fun _ => Agrees.pure _
    unfold Stmt.bind
    dsimp only
    split
    · apply Agrees.bind (Agrees.complain keyword _)
      intro _
      split
      · exact Agrees.bind (Agrees.complain keyword _) fun _ => last
      · exact last
    · split
      · exact Agrees.bind (Agrees.complain keyword _) fun _ => last
      · exact last
  | .classDecl name superclass methods =>
    Agrees.bind (Agrees.introduce name) fun _ =>
      Agrees.bind (agrees_superclass name superclass) fun superclass =>
        Agrees.bind (Agrees.inClassScopes superclass.isSome (FunctionDecl.agreesMethods _ methods)) fun _ =>
          Agrees.pure _

theorem Stmt.agreesAll (around : Surrounding) : ∀ body : List (Stmt Unit),
    Agrees known known' (Stmt.bindAll known around body) (Stmt.bindAll known' around body)
  | [] => Agrees.pure _
  | first :: rest =>
    Agrees.bind (first.agrees around) fun _ => Agrees.bind (Stmt.agreesAll around rest) fun _ => Agrees.pure _

theorem FunctionDecl.agrees (around : Surrounding) : ∀ declaration : FunctionDecl Unit,
    Agrees known known' (declaration.bind known around) (declaration.bind known' around)
  | .mk _ params body =>
    Agrees.bind (Agrees.inScope [] (Agrees.bind (Agrees.params params) fun _ => Stmt.agreesAll around body))
      fun _ => Agrees.pure _

theorem FunctionDecl.agreesMethods (around : Surrounding) : ∀ methods : List (FunctionDecl Unit),
    Agrees known known' (FunctionDecl.bindMethods known around methods)
      (FunctionDecl.bindMethods known' around methods)
  | [] => Agrees.pure _
  | first :: rest =>
    Agrees.bind (first.agrees _) fun _ => Agrees.bind (FunctionDecl.agreesMethods around rest) fun _ =>
      Agrees.pure _

end

end Trees

end Agreement

section Addition

/-- An action that may find faults and changes nothing else. -/
def Steady {α : Type} (action : Bind α) : Prop := ∀ binder, ∃ faults, (action binder).2 = { binder with faults }

/-- An action that declares names where it stands, which counts at the top level only. -/
def Adds {α : Type} (action : Bind α) (names : List String) : Prop :=
  ∀ binder, binder.pending = none →
    (action binder).2.pending = none ∧ (action binder).2.scopes.length = binder.scopes.length ∧
      ∀ name, name ∈ (action binder).2.declared ↔ name ∈ binder.declared ∨ binder.scopes = [] ∧ name ∈ names

variable {α β : Type}

namespace Steady

theorem pure (value : α) : Steady (Pure.pure value) := fun binder => ⟨binder.faults, rfl⟩

theorem bind {action : Bind α} {next : α → Bind β} (first : Steady action)
    (then_ : ∀ value, Steady (next value)) : Steady (action >>= next) := by
  intro binder
  obtain ⟨faults, same⟩ := first binder
  obtain ⟨faults', same'⟩ := then_ (action binder).1 (action binder).2
  refine ⟨faults', ?_⟩
  change (next (action binder).1 (action binder).2).2 = _
  rw [same', same]

theorem complain (token : Token) (cause : ScopeFault) : Steady (Bind.complain token cause) :=
  fun _ => ⟨_, rfl⟩

theorem distance (name : Token) : Steady (Bind.distance? name) := fun binder => ⟨binder.faults, rfl⟩

theorem readName (name : Token) : Steady (Bind.readName name) := by
  intro binder
  rw [readName_apply]
  cases binder.readFault? name with
  | some cause => exact ⟨_, rfl⟩
  | none => exact ⟨binder.faults, rfl⟩

theorem adds {action : Bind α} (steady : Steady action) : Adds action [] := by
  intro binder settled
  obtain ⟨faults, same⟩ := steady binder
  rw [same]
  exact ⟨settled, rfl, by simp⟩

end Steady

mutual

theorem Expr.steady (around : Surrounding) : ∀ expr : Expr Unit, Steady (expr.bind around)
  | .literal _ => Steady.pure _
  | .grouping inner => Steady.bind (inner.steady around) fun _ => Steady.pure _
  | .unary _ _ operand => Steady.bind (operand.steady around) fun _ => Steady.pure _
  | .binary _ left _ right | .logical _ left _ right =>
    Steady.bind (left.steady around) fun _ => Steady.bind (right.steady around) fun _ => Steady.pure _
  | .read name _ => Steady.bind (Steady.readName name) fun _ => Steady.pure _
  | .assign name _ value =>
    Steady.bind (value.steady around) fun _ => Steady.bind (Steady.distance name) fun _ => Steady.pure _
  | .call callee _ arguments =>
    Steady.bind (callee.steady around) fun _ => Steady.bind (Expr.steadyAll around arguments) fun _ => Steady.pure _
  | .get object _ => Steady.bind (object.steady around) fun _ => Steady.pure _
  | .set object _ value =>
    Steady.bind (value.steady around) fun _ => Steady.bind (object.steady around) fun _ => Steady.pure _
  | .this keyword _ => by
    unfold Expr.bind
    split
    · exact Steady.bind (Steady.complain keyword _) fun _ => Steady.pure _
    · exact Steady.bind (Steady.distance keyword) fun _ => Steady.pure _
  | .super keyword _ method => by
    have last : Steady (do return Expr.super keyword (← Bind.distance? keyword) method) :=
      Steady.bind (Steady.distance keyword) fun _ => Steady.pure _
    unfold Expr.bind
    split
    · exact Steady.bind (Steady.complain keyword _) fun _ => last
    · exact Steady.bind (Steady.complain keyword _) fun _ => last
    · exact last

theorem Expr.steadyAll (around : Surrounding) : ∀ exprs : List (Expr Unit), Steady (Expr.bindAll around exprs)
  | [] => Steady.pure _
  | first :: rest =>
    Steady.bind (first.steady around) fun _ => Steady.bind (Expr.steadyAll around rest) fun _ => Steady.pure _

end

theorem Expr.steadyOption (around : Surrounding) (initial : Option (Expr Unit)) :
    Steady (Expr.bindOption around initial) := by
  cases initial with
  | none => exact Steady.pure _
  | some value => exact Steady.bind (value.steady around) fun _ => Steady.pure _

theorem steady_superclass (name : Token) (superclass : Option (Token × Unit)) :
    Steady (Bind.superclass name superclass) := by
  rcases superclass with _ | ⟨parent, note⟩
  · exact Steady.pure _
  · have last : Steady (do return some (parent, ← Bind.readName parent)) :=
      Steady.bind (Steady.readName parent) fun _ => Steady.pure _
    simp only [Bind.superclass]
    split
    · exact Steady.bind (Steady.complain parent _) fun _ => last
    · exact last

namespace Adds

variable {names more : List String} {action : Bind α}

theorem bind {next : α → Bind β} (first : Adds action names) (then_ : ∀ value, Adds (next value) more) :
    Adds (action >>= next) (names ++ more) := by
  intro binder settled
  obtain ⟨settled', length, declared⟩ := first binder settled
  obtain ⟨settled'', length', declared'⟩ := then_ (action binder).1 (action binder).2 settled'
  refine ⟨settled'', length'.trans length, fun name => ?_⟩
  have top : (action binder).2.scopes = [] ↔ binder.scopes = [] := by
    rw [← List.length_eq_zero_iff, length, List.length_eq_zero_iff]
  apply (declared' name).trans
  rw [declared, top, List.mem_append]
  tauto

/-- Something that declares names, and then something that does not. -/
theorem andThen {next : α → Bind β} (first : Adds action names) (then_ : ∀ value, Adds (next value) []) :
    Adds (action >>= next) names := by
  simpa using first.bind then_

theorem swap (adds : Adds action (more ++ names)) : Adds action (names ++ more) := by
  intro binder settled
  obtain ⟨settled', length, declared⟩ := adds binder settled
  refine ⟨settled', length, fun name => ?_⟩
  rw [declared, List.mem_append, List.mem_append, or_comm (a := name ∈ more)]

/-- A name is declared, and defined after a walk that changes nothing. -/
theorem of_define (known : List String) (name : Token) (change : Binder → Binder)
    (steady : ∀ binder, ∃ faults, change binder = { binder with faults }) {action : Bind α}
    (does : ∀ binder, (action binder).2 = (change (binder.declare known name)).define name) :
    Adds action [name.lexeme] := by
  intro binder settled
  obtain ⟨faults, same⟩ := steady (binder.declare known name)
  obtain ⟨scopes, declared, pending, older⟩ := binder
  obtain rfl : pending = none := settled
  rw [does, same]
  cases scopes with
  | nil =>
    have kept : (Binder.declare known ⟨[], declared, none, older⟩ name).declared = declared ∧
        (Binder.declare known ⟨[], declared, none, older⟩ name).scopes = [] := by
      simp only [Binder.declare]
      split <;> exact ⟨rfl, rfl⟩
    simp only [Binder.define, kept.2, kept.1, List.mem_cons, List.not_mem_nil, or_false, true_and]
    exact fun query => or_comm
  | cons scope outer =>
    have kept (binder : Binder) (hasScopes : binder.scopes = scope :: outer) :
        (binder.declare known name).declared = binder.declared ∧
          (binder.declare known name).pending = binder.pending ∧
          (binder.declare known name).scopes = scope.set name.lexeme false :: outer := by
      simp only [Binder.declare, hasScopes, and_true]
      split <;> exact ⟨rfl, rfl⟩
    obtain ⟨names, unpending, scopes⟩ := kept ⟨scope :: outer, declared, none, older⟩ rfl
    simp [Binder.define, names, unpending, scopes]

theorem introduce (known : List String) (name : Token) : Adds (Bind.introduce known name) [name.lexeme] :=
  of_define known name id (fun binder => ⟨binder.faults, rfl⟩) fun _ => rfl

/-- What is declared in a scope of its own stays there. -/
theorem inScope (opened : List String) (adds : Adds action names) : Adds (Bind.inScope opened action) [] := by
  intro binder settled
  obtain ⟨settled', length, declared⟩ := adds (binder.openScope opened) settled
  refine ⟨settled', ?_, fun name => ?_⟩
  · change ((action (binder.openScope opened)).2.scopes.tail).length = _
    rw [List.length_tail, length]
    rfl
  · change name ∈ (action (binder.openScope opened)).2.declared ↔ _
    rw [declared]
    simp [Binder.openScope]

theorem params (known : List String) (params : List Token) :
    Adds (params.forM (Bind.introduce known)) (params.map Token.lexeme) := by
  induction params with
  | nil => exact (Steady.pure _).adds
  | cons first rest ih => exact (introduce known first).bind fun _ => ih

theorem inClassScopes (hasSuperclass : Bool) (adds : Adds action names) :
    Adds (Bind.inClassScopes hasSuperclass action) [] := by
  cases hasSuperclass with
  | false => exact inScope _ adds
  | true => exact inScope _ (inScope _ adds)

end Adds

mutual

theorem Stmt.adds (known : List String) (around : Surrounding) : ∀ stmt : Stmt Unit,
    Adds (stmt.bind known around) stmt.declared
  | .expression value | .print value => (Steady.bind (value.steady around) fun _ => Steady.pure _).adds
  | .varDecl name initial =>
    Adds.of_define known name (fun binder => (Expr.bindOption around initial binder).2)
      (Expr.steadyOption around initial) fun _ => rfl
  | .block body =>
    (Adds.inScope [] (Stmt.addsAll known around body)).andThen fun _ => (Steady.pure _).adds
  | .ifThen condition accepted =>
    (condition.steady around).adds.bind fun _ =>
      (accepted.adds known around).andThen fun _ => (Steady.pure _).adds
  | .ifElse condition accepted rejected =>
    Adds.swap ((condition.steady around).adds.bind fun _ => (accepted.adds known around).bind fun _ =>
      (rejected.adds known around).andThen fun _ => (Steady.pure _).adds)
  | .whileLoop condition body =>
    (condition.steady around).adds.bind fun _ => (body.adds known around).andThen fun _ => (Steady.pure _).adds
  | .funDecl declaration =>
    (Adds.introduce known declaration.name).andThen fun _ =>
      (declaration.adds known _).andThen fun _ => (Steady.pure _).adds
  | .returnStmt keyword value => by
    have last : Steady (do return Stmt.returnStmt keyword (← Expr.bindOption around value)) :=
      Steady.bind (Expr.steadyOption around value) fun _ => Steady.pure _
    unfold Stmt.bind
    dsimp only
    split
    · refine (Steady.bind (Steady.complain keyword _) fun _ => ?_).adds
      split
      · exact Steady.bind (Steady.complain keyword _) fun _ => last
      · exact last
    · split
      · exact (Steady.bind (Steady.complain keyword _) fun _ => last).adds
      · exact last.adds
  | .classDecl name superclass methods =>
    (Adds.introduce known name).andThen fun _ =>
      (steady_superclass name superclass).adds.bind fun superclass =>
        (Adds.inClassScopes superclass.isSome (FunctionDecl.addsMethods known _ methods)).andThen fun _ =>
          (Steady.pure _).adds

theorem Stmt.addsAll (known : List String) (around : Surrounding) : ∀ body : List (Stmt Unit),
    Adds (Stmt.bindAll known around body) (body.flatMap Stmt.declared)
  | [] => (Steady.pure _).adds
  | first :: rest =>
    (first.adds known around).bind fun _ =>
      (Stmt.addsAll known around rest).andThen fun _ => (Steady.pure _).adds

theorem FunctionDecl.adds (known : List String) (around : Surrounding) : ∀ declaration : FunctionDecl Unit,
    Adds (declaration.bind known around) []
  | .mk _ params body =>
    (Adds.inScope [] ((Adds.params known params).bind fun _ => Stmt.addsAll known around body)).andThen
      fun _ => (Steady.pure _).adds

theorem FunctionDecl.addsMethods (known : List String) (around : Surrounding) :
    ∀ methods : List (FunctionDecl Unit), Adds (FunctionDecl.bindMethods known around methods) []
  | [] => (Steady.pure _).adds
  | first :: rest =>
    (first.adds known _).andThen fun _ =>
      (FunctionDecl.addsMethods known around rest).andThen fun _ => (Steady.pure _).adds

end

end Addition

variable {known known' : List String} {first : Program Unit}

theorem Stmt.bindAll_append (known : List String) (around : Surrounding) (first second : List (Stmt Unit)) :
    Stmt.bindAll known around (first ++ second) = (do
      let bounds ← Stmt.bindAll known around first
      return bounds ++ (← Stmt.bindAll known around second)) := by
  induction first with
  | nil => simp [Stmt.bindAll]
  | cons stmt rest ih => simp [Stmt.bindAll, ih]

/-- A binder at the end of a program without faults, as the next program finds it. -/
theorem alike_after (clean : (first.bind known).faults = [])
    (names : ∀ name, name ∈ known' ↔ name ∈ known ∨ name ∈ first.flatMap Stmt.declared) :
    (Stmt.bindAll known {} first {}).2.Alike known known' {} := by
  obtain ⟨settled, length, declared⟩ := Stmt.addsAll known {} first {} rfl
  refine ⟨List.length_eq_zero_iff.mp length, settled, Array.toList_eq_nil_iff.mp clean, fun name => ?_⟩
  simp only [declared, names, List.not_mem_nil, true_and, false_or]
  exact or_comm

/-- A program whose first part is bound without a fault is bound part by part. -/
theorem Program.bind_append (clean : (first.bind known).faults = [])
    (names : ∀ name, name ∈ known' ↔ name ∈ known ∨ name ∈ first.flatMap Stmt.declared) (second : Program Unit) :
    Program.bind known (first ++ second) =
      ⟨(first.bind known).program ++ (second.bind known').program, (second.bind known').faults⟩ := by
  obtain ⟨same, alike⟩ := Stmt.agreesAll {} second _ _ (alike_after clean names)
  have split : Stmt.bindAll known {} (first ++ second) {} =
      ((Stmt.bindAll known {} first {}).1 ++
          (Stmt.bindAll known {} second (Stmt.bindAll known {} first {}).2).1,
        (Stmt.bindAll known {} second (Stmt.bindAll known {} first {}).2).2) := by
    rw [Stmt.bindAll_append]
    rfl
  unfold Program.bind Binder.bind
  simp only [StateT.run, split, same, alike.faults]
  rfl

/-- Binding keeps the names that a program declares. -/
theorem Program.declared_bind (known : List String) (program : Program Unit) :
    (program.bind known).program.flatMap Stmt.declared = program.flatMap Stmt.declared := by
  have walks := Stmt.walksAll known {} {} (by simp [Inside]) program []
  obtain ⟨⟨bare, _⟩, _⟩ := walks {} .nil
  have flat (bounds : List (Stmt Distance)) :
      (Stmt.bareAll bounds).flatMap Stmt.declared = bounds.flatMap Stmt.declared := by
    induction bounds with
    | nil => rfl
    | cons bound rest ih => rw [Stmt.bareAll, List.flatMap_cons, List.flatMap_cons, ih, Stmt.declared_bare]
  exact (flat _).symm.trans (congrArg (List.flatMap Stmt.declared) bare)

end Lox

import Lox.Proofs.Scope.Joining
import Lox.Proofs.Scope.Recording

/-!
Binding a program again. A binder that has been over it comes back to where it began, but it knows the names that
the program declares at the top level, so that no initialiser is followed up any more. The distances do not depend
on that, and of the faults only those of reading a global variable in its own initialiser do.
-/
namespace Lox

/-- The faults that a binder finds again in a program that it has been over. -/
def lasting (faults : List (Located ScopeFault)) : List (Located ScopeFault) :=
  faults.filter fun fault => fault.cause ≠ .readsGlobalInInitializer

/-- Two walks that have come to the same point: the first one of a binder, and a later one, by a binder that had
some faults already. -/
structure Binder.Recalls (before : List (Located ScopeFault)) (first again : Binder) : Prop where
  scopes : first.scopes = again.scopes
  settled : again.pending = none
  faults : again.faults.toList = before ++ lasting first.faults.toList

namespace Binder.Recalls

variable {before : List (Located ScopeFault)} {first again : Binder} (recalls : Recalls before first again)

include recalls

theorem complain (token : Token) (cause : ScopeFault) (lasts : cause ≠ .readsGlobalInInitializer) :
    Recalls before (first.complain token cause) (again.complain token cause) := by
  constructor
  · exact recalls.scopes
  · exact recalls.settled
  · simp [Binder.complain, recalls.faults, lasting, lasts]

/-- What only the first walk complains about. -/
theorem complain_once (token : Token) :
    Recalls before (first.complain token .readsGlobalInInitializer) again := by
  constructor
  · exact recalls.scopes
  · exact recalls.settled
  · simp [Binder.complain, recalls.faults, lasting]

theorem distance? (name : String) : first.distance? name = again.distance? name := by
  simp only [Binder.distance?, recalls.scopes]

theorem openScope (names : List String) : Recalls before (first.openScope names) (again.openScope names) := by
  constructor
  · simp only [Binder.openScope, recalls.scopes]
  · exact recalls.settled
  · exact recalls.faults

theorem closeScope : Recalls before first.closeScope again.closeScope := by
  constructor
  · simp only [Binder.closeScope, recalls.scopes]
  · exact recalls.settled
  · exact recalls.faults

/-- The later walk follows up no name that it knows. -/
theorem declare (known : List String) (name : Token) (knows : again.scopes = [] → name.lexeme ∈ again.declared) :
    Recalls before (first.declare known name) (again.declare known name) := by
  have scopes := recalls.scopes
  cases around : again.scopes with
  | nil =>
    rw [around] at scopes
    have kept : again.declare known name = again := by
      simp [Binder.declare, around, knows around]
    have same : (first.declare known name).scopes = [] ∧ (first.declare known name).faults = first.faults := by
      simp only [Binder.declare, scopes]
      split <;> simp [scopes]
    rw [kept]
    constructor
    · rw [same.1, around]
    · exact recalls.settled
    · rw [same.2, recalls.faults]
  | cons scope outer =>
    rw [around] at scopes
    have told := recalls.complain name .alreadyDeclared (by decide)
    simp only [Binder.declare, around, scopes]
    split
    · exact ⟨rfl, told.settled, told.faults⟩
    · exact ⟨rfl, recalls.settled, recalls.faults⟩

theorem define (name : Token) : Recalls before (first.define name) (again.define name) := by
  have scopes := recalls.scopes
  cases around : again.scopes with
  | nil =>
    rw [around] at scopes
    simp only [Binder.define, around, scopes]
    exact ⟨rfl, rfl, recalls.faults⟩
  | cons scope outer =>
    rw [around] at scopes
    simp only [Binder.define, around, scopes]
    exact ⟨rfl, recalls.settled, recalls.faults⟩

end Binder.Recalls

/-- An action that gives the same in both walks, whatever the later one knows. -/
def Echoes {α : Type} (action : Bind α) : Prop :=
  ∀ before first again, Binder.Recalls before first again →
    (action first).1 = (action again).1 ∧ Binder.Recalls before (action first).2 (action again).2

/-- An action that gives the same in both walks if the later one knows the names that it declares at the top
level. -/
def Repeats {α : Type} (names : List String) (action : Bind α) : Prop :=
  ∀ before first again, Binder.Recalls before first again →
    (again.scopes = [] → ∀ name ∈ names, name ∈ again.declared) →
    (action first).1 = (action again).1 ∧ Binder.Recalls before (action first).2 (action again).2

variable {α β : Type}

namespace Echoes

theorem pure (value : α) : Echoes (Pure.pure value) := fun _ _ _ recalls => ⟨rfl, recalls⟩

theorem bind {action : Bind α} {next : α → Bind β} (echoes : Echoes action)
    (then_ : ∀ value, Echoes (next value)) : Echoes (action >>= next) := by
  intro before first again recalls
  obtain ⟨same, still⟩ := echoes before first again recalls
  change (next (action first).1 (action first).2).1 = _ ∧ Binder.Recalls _ (next (action first).1 (action first).2).2 _
  rw [same]
  exact then_ (action again).1 _ _ _ still

theorem complain (token : Token) (cause : ScopeFault) (lasts : cause ≠ .readsGlobalInInitializer) :
    Echoes (Bind.complain token cause) :=
  fun _ _ _ recalls => ⟨rfl, recalls.complain token cause lasts⟩

theorem distance (name : Token) : Echoes (Bind.distance? name) :=
  fun _ _ _ recalls => ⟨recalls.distance? name.lexeme, recalls⟩

/-- At the top level the later walk does not complain, as nothing is pending there. -/
theorem readName (name : Token) : Echoes (Bind.readName name) := by
  intro before first again recalls
  have scopes := recalls.scopes
  rw [readName_apply, readName_apply, recalls.distance? name.lexeme]
  refine ⟨rfl, ?_⟩
  cases around : again.scopes with
  | nil =>
    rw [around] at scopes
    simp only [Binder.readFault?, around, scopes, recalls.settled]
    by_cases pending : first.pending = some name.lexeme
    · simpa [pending] using recalls.complain_once name
    · simpa [pending] using recalls
  | cons scope outer =>
    rw [around] at scopes
    simp only [Binder.readFault?, around, scopes]
    by_cases pending : scope.get? name.lexeme = some false
    · simpa [pending] using recalls.complain name .readsLocalInInitializer (by decide)
    · simpa [pending] using recalls

theorem repeats {action : Bind α} (echoes : Echoes action) : Repeats [] action :=
  fun before first again recalls _ => echoes before first again recalls

end Echoes

mutual

theorem Expr.echoes (around : Surrounding) : ∀ expr : Expr Unit, Echoes (expr.bind around)
  | .literal _ => Echoes.pure _
  | .grouping inner => Echoes.bind (inner.echoes around) fun _ => Echoes.pure _
  | .unary _ _ operand => Echoes.bind (operand.echoes around) fun _ => Echoes.pure _
  | .binary _ left _ right | .logical _ left _ right =>
    Echoes.bind (left.echoes around) fun _ => Echoes.bind (right.echoes around) fun _ => Echoes.pure _
  | .read name _ => Echoes.bind (Echoes.readName name) fun _ => Echoes.pure _
  | .assign name _ value =>
    Echoes.bind (value.echoes around) fun _ => Echoes.bind (Echoes.distance name) fun _ => Echoes.pure _
  | .call callee _ arguments =>
    Echoes.bind (callee.echoes around) fun _ => Echoes.bind (Expr.echoesAll around arguments) fun _ => Echoes.pure _
  | .get object _ => Echoes.bind (object.echoes around) fun _ => Echoes.pure _
  | .set object _ value =>
    Echoes.bind (value.echoes around) fun _ => Echoes.bind (object.echoes around) fun _ => Echoes.pure _
  | .this keyword _ => by
    unfold Expr.bind
    split
    · exact Echoes.bind (Echoes.complain keyword _ (by decide)) fun _ => Echoes.pure _
    · exact Echoes.bind (Echoes.distance keyword) fun _ => Echoes.pure _
  | .super keyword _ method => by
    have last : Echoes (do return Expr.super keyword (← Bind.distance? keyword) method) :=
      Echoes.bind (Echoes.distance keyword) fun _ => Echoes.pure _
    unfold Expr.bind
    split
    · exact Echoes.bind (Echoes.complain keyword _ (by decide)) fun _ => last
    · exact Echoes.bind (Echoes.complain keyword _ (by decide)) fun _ => last
    · exact last

theorem Expr.echoesAll (around : Surrounding) : ∀ exprs : List (Expr Unit), Echoes (Expr.bindAll around exprs)
  | [] => Echoes.pure _
  | first :: rest =>
    Echoes.bind (first.echoes around) fun _ => Echoes.bind (Expr.echoesAll around rest) fun _ => Echoes.pure _

end

theorem Expr.echoesOption (around : Surrounding) (initial : Option (Expr Unit)) :
    Echoes (Expr.bindOption around initial) := by
  cases initial with
  | none => exact Echoes.pure _
  | some value => exact Echoes.bind (value.echoes around) fun _ => Echoes.pure _

theorem echoes_superclass (name : Token) (superclass : Option (Token × Unit)) :
    Echoes (Bind.superclass name superclass) := by
  rcases superclass with _ | ⟨parent, note⟩
  · exact Echoes.pure _
  · have last : Echoes (do return some (parent, ← Bind.readName parent)) :=
      Echoes.bind (Echoes.readName parent) fun _ => Echoes.pure _
    simp only [Bind.superclass]
    split
    · exact Echoes.bind (Echoes.complain parent _ (by decide)) fun _ => last
    · exact last

namespace Repeats

variable {names more : List String} {action : Bind α}

/-- What the later walk has to know for the second action it has to know before the first one, since the first
one keeps the names and the number of scopes. -/
theorem bind {next : α → Bind β} (repeats : Repeats names action) (adds : Adds action names)
    (then_ : ∀ value, Repeats more (next value)) : Repeats (names ++ more) (action >>= next) := by
  intro before first again recalls knows
  obtain ⟨same, still⟩ := repeats before first again recalls fun top name member =>
    knows top name (List.mem_append_left _ member)
  obtain ⟨_, length, declared⟩ := adds again recalls.settled
  have knows' : (action again).2.scopes = [] → ∀ name ∈ more, name ∈ (action again).2.declared := by
    intro top name member
    rw [top, List.length_nil] at length
    exact (declared name).mpr
      (.inl (knows (List.length_eq_zero_iff.mp length.symm) name (List.mem_append_right _ member)))
  change (next (action first).1 (action first).2).1 = _ ∧ Binder.Recalls _ (next (action first).1 (action first).2).2 _
  rw [same]
  exact then_ (action again).1 _ _ _ still knows'

/-- Something that declares names, and then something that does not. -/
theorem andThen {next : α → Bind β} (repeats : Repeats names action) (adds : Adds action names)
    (then_ : ∀ value, Repeats [] (next value)) : Repeats names (action >>= next) := by
  simpa using repeats.bind adds then_

theorem swap (repeats : Repeats (more ++ names) action) : Repeats (names ++ more) action := by
  intro before first again recalls knows
  refine repeats before first again recalls fun top name member => knows top name ?_
  rw [List.mem_append] at member ⊢
  exact member.symm

theorem introduce (known : List String) (name : Token) : Repeats [name.lexeme] (Bind.introduce known name) := by
  intro before first again recalls knows
  have declared := recalls.declare known name fun top => knows top _ (List.mem_singleton_self _)
  exact ⟨rfl, declared.define name⟩

theorem inScope (opened : List String) (repeats : Repeats names action) : Repeats [] (Bind.inScope opened action) := by
  intro before first again recalls _
  obtain ⟨same, still⟩ := repeats before _ _ (recalls.openScope opened) fun top => by simp [Binder.openScope] at top
  exact ⟨same, still.closeScope⟩

theorem params (known : List String) (params : List Token) :
    Repeats (params.map Token.lexeme) (params.forM (Bind.introduce known)) := by
  induction params with
  | nil => exact (Echoes.pure _).repeats
  | cons first rest ih => exact (introduce known first).bind (Adds.introduce known first) fun _ => ih

theorem inClassScopes (hasSuperclass : Bool) (repeats : Repeats names action) :
    Repeats [] (Bind.inClassScopes hasSuperclass action) := by
  cases hasSuperclass with
  | false => exact inScope _ repeats
  | true => exact inScope _ (inScope _ repeats)

end Repeats

mutual

theorem Stmt.repeats (known : List String) (around : Surrounding) : ∀ stmt : Stmt Unit,
    Repeats stmt.declared (stmt.bind known around)
  | .expression value | .print value => (Echoes.bind (value.echoes around) fun _ => Echoes.pure _).repeats
  | .varDecl name initial => by
    intro before first again recalls knows
    have declared := recalls.declare known name fun top => knows top _ (List.mem_singleton_self _)
    obtain ⟨same, walked⟩ := Expr.echoesOption around initial _ _ _ declared
    exact ⟨congrArg (Stmt.varDecl name) same, walked.define name⟩
  | .block body =>
    (Repeats.inScope [] (Stmt.repeatsAll known around body)).andThen
      (Adds.inScope [] (Stmt.addsAll known around body)) fun _ => (Echoes.pure _).repeats
  | .ifThen condition accepted =>
    (condition.echoes around).repeats.bind (condition.steady around).adds fun _ =>
      (accepted.repeats known around).andThen (accepted.adds known around) fun _ => (Echoes.pure _).repeats
  | .ifElse condition accepted rejected =>
    Repeats.swap ((condition.echoes around).repeats.bind (condition.steady around).adds fun _ =>
      (accepted.repeats known around).bind (accepted.adds known around) fun _ =>
        (rejected.repeats known around).andThen (rejected.adds known around) fun _ => (Echoes.pure _).repeats)
  | .whileLoop condition body =>
    (condition.echoes around).repeats.bind (condition.steady around).adds fun _ =>
      (body.repeats known around).andThen (body.adds known around) fun _ => (Echoes.pure _).repeats
  | .funDecl declaration =>
    (Repeats.introduce known declaration.name).andThen (Adds.introduce known declaration.name) fun _ =>
      (declaration.repeats known _).andThen (declaration.adds known _) fun _ => (Echoes.pure _).repeats
  | .returnStmt keyword value => by
    have last : Echoes (do return Stmt.returnStmt keyword (← Expr.bindOption around value)) :=
      Echoes.bind (Expr.echoesOption around value) fun _ => Echoes.pure _
    unfold Stmt.bind
    dsimp only
    split
    · refine (Echoes.bind (Echoes.complain keyword _ (by decide)) fun _ => ?_).repeats
      split
      · exact Echoes.bind (Echoes.complain keyword _ (by decide)) fun _ => last
      · exact last
    · split
      · exact (Echoes.bind (Echoes.complain keyword _ (by decide)) fun _ => last).repeats
      · exact last.repeats
  | .classDecl name superclass methods =>
    (Repeats.introduce known name).andThen (Adds.introduce known name) fun _ =>
      (echoes_superclass name superclass).repeats.bind (steady_superclass name superclass).adds fun superclass =>
        (Repeats.inClassScopes superclass.isSome (FunctionDecl.repeatsMethods known _ methods)).andThen
          (Adds.inClassScopes superclass.isSome (FunctionDecl.addsMethods known _ methods)) fun _ =>
            (Echoes.pure _).repeats

theorem Stmt.repeatsAll (known : List String) (around : Surrounding) : ∀ body : List (Stmt Unit),
    Repeats (body.flatMap Stmt.declared) (Stmt.bindAll known around body)
  | [] => (Echoes.pure _).repeats
  | first :: rest =>
    (first.repeats known around).bind (first.adds known around) fun _ =>
      (Stmt.repeatsAll known around rest).andThen (Stmt.addsAll known around rest) fun _ => (Echoes.pure _).repeats

theorem FunctionDecl.repeats (known : List String) (around : Surrounding) : ∀ declaration : FunctionDecl Unit,
    Repeats [] (declaration.bind known around)
  | .mk _ params body =>
    have inside := (Repeats.params known params).bind (Adds.params known params) fun _ =>
      Stmt.repeatsAll known around body
    have adds := (Adds.params known params).bind fun _ => Stmt.addsAll known around body
    (Repeats.inScope [] inside).andThen (Adds.inScope [] adds) fun _ => (Echoes.pure _).repeats

theorem FunctionDecl.repeatsMethods (known : List String) (around : Surrounding) :
    ∀ methods : List (FunctionDecl Unit), Repeats [] (FunctionDecl.bindMethods known around methods)
  | [] => (Echoes.pure _).repeats
  | first :: rest =>
    (first.repeats known _).andThen (first.adds known _) fun _ =>
      (FunctionDecl.repeatsMethods known around rest).andThen (FunctionDecl.addsMethods known around rest) fun _ =>
        (Echoes.pure _).repeats

end

/-- A binder that has been over a program. -/
structure Binder.Spent (program : Program Unit) (binder : Binder) : Prop where
  top : binder.scopes = []
  settled : binder.pending = none
  knows : ∀ name ∈ program.flatMap Stmt.declared, name ∈ binder.declared

namespace Binder

variable {known : List String} {program : Program Unit} {binder : Binder}

/-- A binder comes back to where it was, whatever faults it has found. -/
theorem spent_bind (top : binder.scopes = []) (settled : binder.pending = none) :
    Spent program (Binder.bind known program binder).2 := by
  obtain ⟨settled', length, declared⟩ := Stmt.addsAll known {} program binder settled
  rw [top, List.length_nil, List.length_eq_zero_iff] at length
  constructor
  · exact length
  · exact settled'
  · exact fun name member => (declared name).mpr (.inr ⟨top, member⟩)

/-- A binder that has been over a program finds the same distances there, and the faults that last. -/
theorem Spent.bind (known : List String) (spent : Spent program binder) :
    (Binder.bind known program binder).1 = (program.bind known).program ∧
      (Binder.bind known program binder).2.faults.toList =
        binder.faults.toList ++ lasting (program.bind known).faults := by
  have recalls : Recalls binder.faults.toList {} binder := ⟨spent.top.symm, spent.settled, by simp [lasting]⟩
  obtain ⟨same, after⟩ := Stmt.repeatsAll known {} program _ _ _ recalls fun _ => spent.knows
  exact ⟨same.symm, after.faults⟩

end Binder

/-- A program that is bound time and again: what is recorded, and the binders that have been over it. -/
structure BindingPasses where
  registry : Registry
  binders : List Binder

namespace BindingPasses

section

variable (known : List String) (number : Nat) (program : Program Unit)

/-- A pass by a new binder. -/
def fresh (passes : BindingPasses) : BindingPasses :=
  let (bound, binder) := Binder.bind known program {}
  ⟨passes.registry.recordAll (bound.entries number), passes.binders ++ [binder]⟩

/-- A pass by one of the binders that there are. -/
def again (index : Nat) (binder : Binder) (passes : BindingPasses) : BindingPasses :=
  let (bound, after) := Binder.bind known program binder
  ⟨passes.registry.recordAll (bound.entries number), passes.binders.set index after⟩

/-- What comes of a first pass, where something may be recorded already, and of any number of further ones. -/
inductive Made (earlier : Registry) : BindingPasses → Prop
  | first : Made earlier (fresh known number program ⟨earlier, []⟩)
  | fresh {passes : BindingPasses} (made : Made earlier passes) : Made earlier (fresh known number program passes)
  | again {passes : BindingPasses} {index : Nat} {binder : Binder} (made : Made earlier passes)
      (there : passes.binders[index]? = some binder) :
      Made earlier (again known number program index binder passes)

end

variable {known : List String} {number : Nat} {program : Program Unit} {earlier : Registry} {passes : BindingPasses}

theorem spent_fresh : Binder.Spent program (Binder.bind known program {}).2 := Binder.spent_bind rfl rfl

theorem Made.spent (made : Made known number program earlier passes) :
    ∀ binder ∈ passes.binders, Binder.Spent program binder := by
  induction made with
  | first =>
    intro binder member
    obtain rfl := List.mem_singleton.mp member
    exact spent_fresh
  | fresh _ ih =>
    intro binder member
    rcases List.mem_append.mp member with there | new
    · exact ih binder there
    · obtain rfl := List.mem_singleton.mp new
      exact spent_fresh
  | again _ there ih =>
    intro binder member
    rcases List.mem_or_eq_of_mem_set member with other | rfl
    · exact ih binder other
    · have spent := ih _ (List.mem_of_getElem? there)
      exact Binder.spent_bind spent.top spent.settled

theorem Made.registry (made : Made known number program earlier passes) :
    passes.registry = earlier.recordAll ((program.bind known).program.entries number) := by
  have same : (earlier.recordAll ((program.bind known).program.entries number)).recordAll _ = _ :=
    Registry.recordAll_again ((program.bind known).program.nodup_entries number)
  induction made with
  | first => rfl
  | fresh _ ih =>
    change Registry.recordAll _ ((program.bind known).program.entries number) = _
    rw [ih, same]
  | again made there ih =>
    have bound := (made.spent _ (List.mem_of_getElem? there)).bind known
    change Registry.recordAll _ (Program.entries number (Binder.bind known program _).1) = _
    rw [bound.1, ih, same]

/-- What passes over a new program leave in the registry, behind all that it had before: a distance for each reference
that has one and for nothing else, in the order in which the bindings are listed. -/
theorem Made.registry_of_new (made : Made known number program earlier passes)
    (new : ∀ entry ∈ earlier, entry.1.program ≠ number) :
    ∃ recorded, passes.registry = earlier ++ recorded ∧
      recorded.map Prod.snd = (program.bind known).program.bindings.map Binding.distance ∧
      ∀ site distance, (site, distance) ∈ recorded ↔ site.program = number ∧ ∃ place part kind token,
        (Node.sequence (program.bind known).program).at? {} site.path = some (place, part) ∧
          part.reference? = some (kind, token, some distance) := by
  refine ⟨(program.bind known).program.entries number, ?_, Program.map_snd_entries _ _, fun _ _ => Program.mem_entries⟩
  rw [made.registry]
  apply Registry.recordAll_of_new ((program.bind known).program.nodup_entries number)
  intro site recorded older
  obtain ⟨⟨_, distance⟩, isEntry, rfl⟩ := List.mem_map.mp recorded
  obtain ⟨entry, member, same⟩ := List.mem_map.mp older
  have belongs : entry.1.program = number := same ▸ (Program.mem_entries.mp isEntry).1
  exact new entry member belongs

end BindingPasses

theorem ScopeFault.message_eq_iff (cause : ScopeFault) :
    cause.message = "Can't read global variable in its own initializer." ↔ cause = .readsGlobalInInitializer := by
  cases cause <;> decide

/-- Binding a program again changes nothing. Whatever was recorded before the first pass, and however many passes
have been made since, by new binders or by ones that have been over the program, what is recorded is what the
first pass has left. A new binder ends as the first one, and so with the same faults. A used one finds all of them
again after those that it has, except for those of reading a global variable in its own initializer. -/
theorem Program.bind_repeatedly {known : List String} {number : Nat} {program : Program Unit} {earlier : Registry}
    {passes : BindingPasses} (made : BindingPasses.Made known number program earlier passes) :
    passes.registry = (BindingPasses.fresh known number program ⟨earlier, []⟩).registry ∧
    (∃ binder, (passes.fresh known number program).binders = passes.binders ++ [binder] ∧
      binder.faults.toList = (program.bind known).faults) ∧
    ∀ index binder, passes.binders[index]? = some binder →
      ∃ after, (passes.again known number program index binder).binders = passes.binders.set index after ∧
        after.faults.toList = binder.faults.toList ++ (program.bind known).faults.filter fun fault =>
          fault.cause.message ≠ "Can't read global variable in its own initializer." := by
  refine ⟨made.registry, ⟨_, rfl, rfl⟩, fun index binder there => ⟨(Binder.bind known program binder).2, rfl, ?_⟩⟩
  have spent := made.spent binder (List.mem_of_getElem? there)
  simp only [ne_eq, ScopeFault.message_eq_iff]
  exact (spent.bind known).2

/-- `return a; var a = a; { var b; print b; }`, by a binder that goes over it twice, and then by a new one. -/
theorem Program.bind_repeatedly_with_faults :
    let name : Token := ⟨.identifier, "a", none, ⟨1, 7⟩⟩
    let inner : Token := ⟨.identifier, "b", none, ⟨1, 28⟩⟩
    let keyword : Token := ⟨.returnWord, "return", none, ⟨1, 0⟩⟩
    let program : Program Unit := [.returnStmt keyword (some (.read name ())), .varDecl name (some (.read name ())),
      .block [.varDecl inner none, .print (.read inner ())]]
    let first := BindingPasses.fresh [] 0 program ⟨[], []⟩
    ∃ binder after, first.binders[0]? = some binder ∧
      (first.again [] 0 program 0 binder).binders = [after] ∧
      after.faults.toList.map Located.cause =
        [.returnOutsideFunction, .readsGlobalInInitializer, .returnOutsideFunction] ∧
      ((first.again [] 0 program 0 binder).fresh [] 0 program).registry = [(⟨0, [2, 0, 1, 0]⟩, 0)] := by
  intro name inner keyword program first
  have made : BindingPasses.Made [] 0 program [] first := .first
  obtain ⟨after, left, found⟩ := (bind_repeatedly made).2.2 0 (Binder.bind [] program {}).2 rfl
  have recorded : first.registry = [(⟨0, [2, 0, 1, 0]⟩, 0)] := by decide +kernel
  refine ⟨_, after, rfl, left, ?_, ?_⟩
  · rw [found]
    decide
  · rw [(bind_repeatedly (.fresh (.again made rfl))).1]
    exact recorded

end Lox

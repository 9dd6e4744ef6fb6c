import Lox.Proofs.Scope.Addresses
import Lox.Proofs.Tree.Nodes

/-!
The bindings that are listed for a bound program, and where they come from: there is one for each reference
that has a lexical address at its place, and none for anything else.
-/
namespace Lox

theorem Expr.mem_bindingsAll {binding : Binding} {exprs : List (Expr Distance)} :
    binding ∈ Expr.bindingsAll exprs ↔ ∃ expr ∈ exprs, binding ∈ expr.bindings := by
  induction exprs with
  | nil => simp [Expr.bindingsAll]
  | cons first rest ih => simp [Expr.bindingsAll, ih]

theorem FunctionDecl.mem_bindingsAll {binding : Binding} {methods : List (FunctionDecl Distance)} :
    binding ∈ FunctionDecl.bindingsAll methods ↔ ∃ method ∈ methods, binding ∈ method.bindings := by
  induction methods with
  | nil => simp [FunctionDecl.bindingsAll]
  | cons first rest ih => simp [FunctionDecl.bindingsAll, ih]

theorem Binding.mem_of {binding : Binding} {kind : ReferenceKind} {token : Token} {note : Distance} :
    binding ∈ Binding.of kind token note ↔
      kind = binding.kind ∧ token = binding.token ∧ note = some binding.distance := by
  obtain ⟨kind', token', distance⟩ := binding
  cases note with
  | none => simp [Binding.of]
  | some count =>
    simp only [Binding.of, Option.toList_some, List.map_cons, List.map_nil, List.mem_singleton,
      Binding.mk.injEq, Option.some.injEq]
    tauto

namespace Node

/-- The bindings at and below a node. -/
def bindings : Node Distance → List Binding
  | .expr inner => inner.bindings
  | .stmt inner => inner.bindings
  | .function declaration => declaration.bindings
  | .sequence body => Stmt.bindingsAll body

/-- The node is itself the reference of a binding. -/
def Refers (node : Node Distance) (binding : Binding) : Prop :=
  node.reference? = some (binding.kind, binding.token, some binding.distance)

variable {binding : Binding}

theorem mem_bindingsAll_iff {body : List (Stmt Distance)} (earlier : List String) :
    binding ∈ Stmt.bindingsAll body ↔ ∃ entry ∈ inOrder earlier body, binding ∈ entry.2.bindings := by
  induction body generalizing earlier with
  | nil => simp [Stmt.bindingsAll, inOrder]
  | cons first rest ih => simp [Stmt.bindingsAll, inOrder, bindings, ih (first.declared ++ earlier)]

theorem mem_exprBindings_iff {expr : Expr Distance} :
    binding ∈ expr.bindings ↔
      (Node.expr expr).Refers binding ∨ ∃ entry ∈ exprParts expr, binding ∈ entry.2.bindings := by
  cases expr <;>
    simp [Expr.bindings, exprParts, Refers, reference?, bindings, Binding.mem_of, Expr.mem_bindingsAll, or_comm]

theorem mem_stmtBindings_iff {stmt : Stmt Distance} :
    binding ∈ stmt.bindings ↔ ∃ entry ∈ stmtParts stmt, binding ∈ entry.2.bindings := by
  cases stmt with
  | varDecl name initial => cases initial <;> simp [Stmt.bindings, stmtParts, optional, Expr.bindingsOption, bindings]
  | returnStmt keyword value =>
    cases value <;> simp [Stmt.bindings, stmtParts, optional, Expr.bindingsOption, bindings]
  | classDecl name superclass methods =>
    cases superclass <;>
      simp [Stmt.bindings, stmtParts, optional, bindings, Expr.bindings, FunctionDecl.mem_bindingsAll]
  | _ => simp [Stmt.bindings, stmtParts, bindings]

/-- The bindings of a node are its own and those of its parts. -/
theorem mem_bindings_iff {node : Node Distance} :
    binding ∈ node.bindings ↔
      node.Refers binding ∨ ∃ entry ∈ node.parts, binding ∈ entry.2.bindings := by
  cases node with
  | expr expr => exact mem_exprBindings_iff
  | stmt stmt => simpa [bindings, parts, Refers, reference?] using mem_stmtBindings_iff
  | function declaration =>
    obtain ⟨name, params, body⟩ := declaration
    simp [bindings, FunctionDecl.bindings, parts, Refers, reference?]
  | sequence body => simpa [bindings, parts, Refers, reference?] using mem_bindingsAll_iff []

/-- A part of a node is reached by one step more. -/
theorem at?_cons {place inner : Place} {node part target : Node Distance} {step : Step} {path : List Nat}
    (member : (step, part) ∈ node.parts) (found : part.at? (place.enter step) path = some (inner, target)) :
    ∃ number, node.at? place (number :: path) = some (inner, target) := by
  obtain ⟨number, selected⟩ := List.mem_iff_getElem?.mp member
  exact ⟨number, by simp only [at?, selected, found]⟩

/-- The bindings of a node are those of the references at and below it. -/
theorem mem_bindings_iff_refers (node : Node Distance) (place : Place) :
    binding ∈ node.bindings ↔ ∃ path inner part, node.at? place path = some (inner, part) ∧ part.Refers binding := by
  induction size : sizeOf node using Nat.strongRecOn generalizing node place with
  | _ count ih =>
    subst size
    rw [mem_bindings_iff]
    constructor
    · rintro (own | ⟨⟨step, part⟩, member, below⟩)
      · exact ⟨[], place, node, rfl, own⟩
      · obtain ⟨path, inner, target, found, refers⟩ :=
          (ih _ (sizeOf_parts node _ member) part (place.enter step) rfl).mp below
        obtain ⟨number, reached⟩ := at?_cons member found
        exact ⟨number :: path, inner, target, reached, refers⟩
    · rintro ⟨path, inner, target, found, refers⟩
      cases path with
      | nil =>
        cases found
        exact .inl refers
      | cons number path =>
        unfold at? at found
        cases selected : node.parts[number]? with
        | none => simp [selected] at found
        | some entry =>
          obtain ⟨step, part⟩ := entry
          have member := List.mem_of_getElem? selected
          simp only [selected] at found
          refine .inr ⟨(step, part), member, ?_⟩
          exact (ih _ (sizeOf_parts node _ member) part (place.enter step) rfl).mpr
            ⟨path, inner, target, found, refers⟩

end Node

/-- Binding keeps the tree and gives every reference its lexical address: the note of a reference at any
place in the program is the number of scopes between the place and the innermost one that declares the name
there, and there is no note if no scope does, nor for a `this` in no class. The bindings that are listed are
those of the references with a note, and no others. -/
theorem Program.bind_lexical (known : List String) (program : Program Unit) :
    Stmt.bareAll (program.bind known).program = program ∧
    (∀ path place part kind token note,
      (Node.sequence (program.bind known).program).at? {} path = some (place, part) →
      part.reference? = some (kind, token, note) →
        if kind = .this ∧ place.inClass = false then note = none else place.Address token.lexeme note) ∧
    ∀ binding, binding ∈ (program.bind known).program.bindings ↔
      ∃ path place part, (Node.sequence (program.bind known).program).at? {} path = some (place, part) ∧
        part.reference? = some (binding.kind, binding.token, some binding.distance) := by
  have walks := Stmt.walksAll known {} {} (by simp [Inside]) program []
  obtain ⟨⟨same, addressed⟩, _⟩ := walks {} List.Forall₂.nil
  refine ⟨same, ?_, fun binding => Node.mem_bindings_iff_refers (.sequence _) {}⟩
  exact Node.Addressed.plain rfl addressed

/-- `{ var a; { a; } }` -/
theorem Program.bind_lexical_in_two_blocks :
    let name : Token := ⟨.identifier, "a", none, ⟨1, 0⟩⟩
    let program : Program Unit := [.block [.varDecl name none, .block [.expression (.read name ())]]]
    let place : Place := ⟨[[], ["a"]], false⟩
    (Node.sequence (program.bind []).program).at? {} [0, 0, 1, 0, 0, 0] =
        some (place, .expr (.read name (some 1))) ∧
      place.Address "a" (some 1) ∧ ⟨.read, name, 1⟩ ∈ (program.bind []).program.bindings := by
  intro name program place
  have reached : (Node.sequence (program.bind []).program).at? {} [0, 0, 1, 0, 0, 0] =
      some (place, .expr (.read name (some 1))) := rfl
  have lexical := bind_lexical [] program
  exact ⟨reached, lexical.2.1 _ _ _ _ _ _ reached rfl, (lexical.2.2 _).mpr ⟨_, _, _, reached, rfl⟩⟩

end Lox

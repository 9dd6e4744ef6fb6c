import Lox.Proofs.Pairing.Sessions
import Lox.Proofs.Scope.Renaming.Trees

/-!
Sessions and the names of local variables. A variable of an accepted program may have another name: the program
is accepted as before, with the same bindings, and runs as before.
-/
namespace Lox

namespace Renaming

variable {naming : Renaming}

section Bindings

/-- Bindings that are the same but for the name. -/
structure Rebinds (naming : Renaming) (binding binding' : Binding) : Prop where
  kind : binding'.kind = binding.kind
  distance : binding'.distance = binding.distance
  token : naming.Same binding.token binding'.token

/-- Binding by binding. -/
abbrev RebindsAll (naming : Renaming) : List Binding → List Binding → Prop := List.Forall₂ naming.Rebinds

theorem rebinds_of (mark : Option Nat) (kind : ReferenceKind) (token : Token) (note : Distance) :
    naming.RebindsAll (Binding.of kind token note) (Binding.of kind (naming.token mark note token) note) := by
  cases note with
  | none => exact .nil
  | some distance => exact .cons ⟨rfl, rfl, same_token mark (some distance) token⟩ .nil

theorem rebinds_keyword (kind : ReferenceKind) (token : Token) (note : Distance) :
    naming.RebindsAll (Binding.of kind token note) (Binding.of kind token note) := by
  cases note with
  | none => exact .nil
  | some distance => exact .cons ⟨rfl, rfl, .inl rfl⟩ .nil

mutual

theorem rebinds_ofExpr (mark : Option Nat) : ∀ expr : Expr Distance,
    naming.RebindsAll expr.bindings (naming.ofExpr mark expr).bindings
  | .literal _ => .nil
  | .grouping inner => rebinds_ofExpr mark inner
  | .unary _ _ operand => rebinds_ofExpr mark operand
  | .binary _ left _ right => List.rel_append (rebinds_ofExpr mark left) (rebinds_ofExpr mark right)
  | .logical _ left _ right => List.rel_append (rebinds_ofExpr mark left) (rebinds_ofExpr mark right)
  | .read name note => rebinds_of mark .read name note
  | .assign name note value => List.rel_append (rebinds_ofExpr mark value) (rebinds_of mark .assign name note)
  | .call callee _ arguments => List.rel_append (rebinds_ofExpr mark callee) (rebinds_ofExprs mark arguments)
  | .get object _ => rebinds_ofExpr mark object
  | .set object _ value => List.rel_append (rebinds_ofExpr mark value) (rebinds_ofExpr mark object)
  | .this keyword note => rebinds_keyword .this keyword note
  | .super keyword note _ => rebinds_keyword .super keyword note

theorem rebinds_ofExprs (mark : Option Nat) : ∀ exprs : List (Expr Distance),
    naming.RebindsAll (Expr.bindingsAll exprs) (Expr.bindingsAll (naming.ofExprs mark exprs))
  | [] => .nil
  | first :: rest => List.rel_append (rebinds_ofExpr mark first) (rebinds_ofExprs mark rest)

end

theorem rebinds_ofOption (mark : Option Nat) (value : Option (Expr Distance)) :
    naming.RebindsAll (Expr.bindingsOption value) (Expr.bindingsOption (value.map (naming.ofExpr mark))) := by
  cases value with
  | none => exact .nil
  | some value => exact rebinds_ofExpr mark value

mutual

theorem OfStmt.rebinds : ∀ {mark : Option Nat} {stmt stmt' : Stmt Distance}, naming.OfStmt mark stmt stmt' →
    naming.RebindsAll stmt.bindings stmt'.bindings
  | mark, _, _, .expression value => rebinds_ofExpr mark value
  | mark, _, _, .print value => rebinds_ofExpr mark value
  | mark, _, _, .varDecl _ initial => rebinds_ofOption mark initial
  | _, _, _, .block _ parts => parts.rebinds
  | mark, _, _, .ifThen condition part => List.rel_append (rebinds_ofExpr mark condition) part.rebinds
  | mark, _, _, .ifElse condition first second =>
    List.rel_append (rebinds_ofExpr mark condition) (List.rel_append first.rebinds second.rebinds)
  | mark, _, _, .whileLoop condition part => List.rel_append (rebinds_ofExpr mark condition) part.rebinds
  | _, _, _, .funDecl part => part.rebinds
  | mark, _, _, .returnStmt _ value => rebinds_ofOption mark value
  | _, _, _, .classDecl _ none parts => parts.rebinds
  | mark, _, _, .classDecl _ (some (parent, note)) parts =>
    List.rel_append (rebinds_of mark .read parent note) parts.rebinds

theorem OfBody.rebinds : ∀ {mark : Option Nat} {body body' : List (Stmt Distance)}, naming.OfBody mark body body' →
    naming.RebindsAll (Stmt.bindingsAll body) (Stmt.bindingsAll body')
  | _, _, _, .nil => .nil
  | _, _, _, .cons head tail => List.rel_append head.rebinds tail.rebinds

theorem OfFunction.rebinds : ∀ {mark : Option Nat} {declaration declaration' : FunctionDecl Distance},
    naming.OfFunction mark declaration declaration' → naming.RebindsAll declaration.bindings declaration'.bindings
  | _, _, _, .mk _ _ parts => parts.rebinds

theorem OfMethods.rebinds : ∀ {mark : Option Nat} {methods methods' : List (FunctionDecl Distance)},
    naming.OfMethods mark methods methods' →
    naming.RebindsAll (FunctionDecl.bindingsAll methods) (FunctionDecl.bindingsAll methods')
  | _, _, _, .nil => .nil
  | _, _, _, .cons head tail => List.rel_append head.rebinds tail.rebinds

end

end Bindings

/-- Halts for the same reason, at tokens that are the same but for the name. -/
inductive Reports (naming : Renaming) : Halt → Halt → Prop
  | fault {cause : RuntimeFault} {token token' : Token} (same : naming.Same token token') :
      Reports naming (.fault ⟨cause, token⟩) (.fault ⟨cause, token'⟩)
  | other (halt : Halt) : Reports naming halt halt

theorem reports_of_alike {halt halt' : Halt} (alike : naming.leaves.pairing.Alike halt halt') :
    naming.Reports halt halt' := by
  obtain rfl | ⟨_, _, _, rfl, rfl, same⟩ := alike.cases
  · exact .other _
  · exact .fault same

/-- Between the runs of a session all frames hold their variables under the names that the programs gave them. -/
theorem hosts (naming : Renaming) (new : naming.new ≠ "this" ∧ naming.new ≠ "super") :
    naming.leaves.pairing.Hosts [] fun _ => True where
  lawful := naming.lawful.pairing
  start := by
    refine ⟨⟨Store.initial.frames, fun _ => .all⟩, ⟨⟨rfl, rfl, rfl, fun _ => rfl, fun frame => ?_, fun _ _ _ => trivial,
      rfl⟩, fun _ => trivial⟩, [], rfl, .nil⟩
    exact (Table.rekey_id _).symm
  matching accepted _ := by
    obtain ⟨source, shaped, clean, rfl⟩ := Session.shaped_of_accepted? accepted
    exact ⟨[], (Renames.bind_eq shaped clean (OfBody.refl _) new).1⟩
  mirror := .inl rfl

end Renaming

namespace Session

/-- The variables of an accepted program, but not those of the top level, can be renamed freely: the program with
the new name is bound without a fault, to the same bindings but for the name, and it ends as the program does,
with the same output. -/
theorem renamed_runs_alike (session : Session) (text : String) (program program' : BoundProgram) (naming : Renaming)
    (reachable : session.Reachable) (accepted : session.accepted? text = some program)
    (new : naming.new ≠ "this" ∧ naming.new ≠ "super") (renames : naming.Renames program program') :
    Program.bind session.globalNames (Stmt.bareAll program') = ⟨program', []⟩ ∧
      naming.RebindsAll program.bindings program'.bindings ∧
      ∀ limits : Limits, ∃ after after' : Machine, after'.output = after.output ∧
        (Run.program .byDistance limits program session.machine = .ok () after ∧
            Run.program .byDistance limits program' session.machine = .ok () after' ∨
          ∃ halt halt', Run.program .byDistance limits program session.machine = .error halt after ∧
            Run.program .byDistance limits program' session.machine = .error halt' after' ∧
            naming.Reports halt halt') := by
  obtain ⟨source, shaped, clean, rfl⟩ := shaped_of_accepted? accepted
  obtain ⟨matching, bound⟩ := renames.bind_eq shaped clean new
  refine ⟨(Program.bind_bare _ program').trans bound, renames.rebinds, fun limits => ?_⟩
  have hosts := naming.hosts new
  have rooted := hosts.rooted (reachable.reachableBy fun _ => trivial)
  obtain ⟨after, agrees, _, ended⟩ := rooted.goes_program hosts.lawful reachable.sound.current matching limits
  refine ⟨after.left, after.right, agrees.output.symm, ?_⟩
  obtain both | ⟨halt, halt', ended, ended', alike⟩ := ended
  · exact .inl both
  · exact .inr ⟨halt, halt', ended, ended', Renaming.reports_of_alike alike⟩

/-- A block with a variable `x`, a function `f` that gives it and a class `B` that inherits from it. -/
def isClosureOverParent : Option BoundProgram → Bool
  | some [.block [.varDecl name none, .funDecl (.mk function [] [.returnStmt _ (some (.read reference (some 1)))]),
      .classDecl owner (some (parent, some 0)) []]] =>
    decide (name.lexeme = "x" ∧ function.lexeme = "f" ∧ reference.lexeme = "x" ∧ owner.lexeme = "B" ∧
      parent.lexeme = "x")
  | _ => false

/-- A variable that a closure keeps and that is no class to inherit from, after a run that has failed. -/
theorem renamed_runs_alike_up_to_fault :
    let first : Session := { reporter := {}, path := "a.lox", interactive := false }
    let session := (first.run "nil();").2
    let text := "{ var x; fun f() { return x; } class B < x {} }"
    ∃ name function keyword reference owner parent : Token,
      let tree (change : Token → Token) : BoundProgram :=
        [.block [.varDecl (change name) none,
          .funDecl (.mk function [] [.returnStmt keyword (some (.read (change reference) (some 1)))]),
          .classDecl owner (some (change parent, some 0)) []]]
      let renamed := tree fun token => { token with lexeme := "y" }
      session.accepted? text = some (tree id) ∧
        Program.bind session.globalNames (Stmt.bareAll renamed) = ⟨renamed, []⟩ ∧
        ∀ limits : Limits, ∃ after after' : Machine, after'.output = after.output ∧
          (Run.program .byDistance limits (tree id) session.machine = .ok () after ∧
              Run.program .byDistance limits renamed session.machine = .ok () after' ∨
            ∃ halt halt', Run.program .byDistance limits (tree id) session.machine = .error halt after ∧
              Run.program .byDistance limits renamed session.machine = .error halt' after' ∧
              Renaming.Reports ⟨"x", "y"⟩ halt halt') := by
  intro first session text
  have opened : start {} "a.lox" false none = .ok first := by rfl
  have passes : isClosureOverParent (session.accepted? text) = true := by decide +kernel
  unfold isClosureOverParent at passes
  split at passes
  · rename_i name function keyword reference owner parent accepted
    obtain ⟨isName, isFunction, isReference, isOwner, isParent⟩ := of_decide_eq_true passes
    let naming : Renaming := ⟨"x", "y"⟩
    have changed {token : Token} (spelled : token.lexeme = "x") (depth : Nat) :
        naming.token (some depth) (some depth) token = { token with lexeme := "y" } := by
      simp [Renaming.token, Renaming.call, Renaming.swap, spelled, naming]
    have reachable : session.Reachable := .run (.start opened) "nil();"
    have alike := renamed_runs_alike session text _ _ naming reachable accepted (by decide) (.cons (.block
      (.here (.inr ⟨name, none, List.mem_cons_self, isName⟩) (by
        simp [Stmt.namesAll, Stmt.names, FunctionDecl.names, FunctionDecl.namesAll, FunctionDecl.name, Expr.namesOption,
          Expr.names, isName, isFunction, isReference, isOwner, isParent, naming]))
      (.cons (.varDecl name none) (.cons
        (.funDecl (.mk function (.further 0) (.cons (.returnStmt keyword (some (.read reference (some 1)))) .nil)))
        (.cons (.classDecl owner (some (parent, some 0)) .nil) .nil)))) .nil)
    simp only [Option.map_some, Option.map_none, Renaming.ofExpr, changed isName, changed isReference, changed isParent,
      List.map_nil] at alike
    obtain ⟨bound, _, runs⟩ := alike
    exact ⟨name, function, keyword, reference, owner, parent, accepted, bound, runs⟩
  · cases passes

end Session

end Lox

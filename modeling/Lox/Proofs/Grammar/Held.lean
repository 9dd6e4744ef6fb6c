import Lox.Proofs.Grammar.Known
import Lox.Proofs.Tree.Nodes
import Mathlib.Data.List.Flatten
import Mathlib.Data.List.Perm.Subperm

/-!
The nodes that reading holds at a time: those that are read and not yet part of another one, the last one first. What
is made out of them is made of nothing else, so that no token that names a reference is used twice.
-/
namespace Lox

/-- Statements that declare a name. No branch of a statement is one. -/
def Stmt.IsDeclaration {ρ : Type} : Stmt ρ → Prop
  | .varDecl _ _ | .funDecl _ | .classDecl _ _ _ => True
  | _ => False

/-- A value that one of the tokens is read as by itself. Only `true` can stand in a tree without a token, for the
condition that a loop leaves out. -/
def Literal.ReadFrom (tokens : List Token) (value : Literal) : Prop :=
  value = .bool true ∨ ∃ token ∈ tokens, Expr.ofToken? token = some (.literal value)

namespace Node

variable {ρ : Type}

/-- What a node looks like by itself: the kinds of the tokens it keeps, that what is run on a condition is no
declaration, and that its value, if it is a literal, is such that `Written` holds of it. -/
def Formed (Written : Literal → Prop) : Node ρ → Prop
  | .expr (.literal value) => Written value
  | .expr (.unary op sign _) => Grammar.Sign sign.kind op
  | .expr (.binary op _ sign _) => ∃ level, Grammar.Operator level sign.kind (.binary op)
  | .expr (.logical op _ sign _) => ∃ level, Grammar.Operator level sign.kind (.logical op)
  | .expr (.read name _) | .expr (.assign name _ _) | .expr (.get _ name) | .expr (.set _ name _) =>
    name.kind = .identifier
  | .expr (.this keyword _) => keyword.kind = .thisWord
  | .expr (.super keyword _ method) => keyword.kind = .superWord ∧ method.kind = .identifier
  | .expr (.call _ paren _) => paren.kind = .rightParen
  | .expr (.grouping _) => True
  | .stmt (.varDecl name _) | .stmt (.classDecl name _ _) => name.kind = .identifier
  | .stmt (.ifThen _ accepted) => ¬ accepted.IsDeclaration
  | .stmt (.ifElse _ accepted rejected) => ¬ accepted.IsDeclaration ∧ ¬ rejected.IsDeclaration
  | .stmt (.whileLoop _ body) => ¬ body.IsDeclaration
  | .stmt (.returnStmt keyword _) => keyword.kind = .returnWord
  | .stmt (.expression _) | .stmt (.print _) | .stmt (.block _) | .stmt (.funDecl _) => True
  | .function (.mk name params _) => name.kind = .identifier ∧ ∀ param ∈ params, param.kind = .identifier
  | .sequence _ => True

/-- A call has no more arguments, and a function no more parameters, than are let pass. -/
def Few : Node ρ → Prop
  | .expr (.call _ _ arguments) => arguments.length ≤ maxArguments
  | .function (.mk _ params _) => params.length ≤ maxArguments
  | _ => True

theorem Formed.mono {Written More : Literal → Prop} {node : Node ρ} (formed : node.Formed Written)
    (implies : ∀ value, Written value → More value) : node.Formed More := by
  cases node with
  | expr expr =>
    cases expr with
    | literal value => exact implies value formed
    | _ => exact formed
  | stmt stmt => cases stmt <;> exact formed
  | function declaration =>
    cases declaration
    exact formed
  | sequence body => exact trivial

end Node

open Node

/-- Nodes read from the tokens taken so far. The references in them are named by tokens that were taken, each by one of
its own. -/
structure Held (nodes : List (Node Unit)) (clean : Bool) (taken : List Token) : Prop where
  formed : ∀ node ∈ nodes, node.All (Formed (Literal.ReadFrom taken))
  few : clean = true → ∀ node ∈ nodes, node.All Few
  named : (nodes.flatMap references).Subperm taken

/-- Nodes stay what they are as reading goes on. -/
abbrev Known.nodes (nodes : List (Node Unit)) : Known where
  Holds := Held nodes
  lasts _ then_ held := by
    refine ⟨fun node member => ?_, fun isClean => held.few (Bool.and_eq_true_iff.mp isClean).1, ?_⟩
    · refine (held.formed node member).mono fun _ formed => formed.mono fun value => Or.imp id ?_
      exact fun ⟨token, found, read⟩ => ⟨token, List.mem_append_left then_ found, read⟩
    · exact held.named.trans (List.sublist_append_left ..).subperm

namespace Held

variable {nodes popped : List (Node Unit)} {node : Node Unit} {clean : Bool} {taken : List Token}

theorem none (clean : Bool) (taken : List Token) : Held [] clean taken :=
  ⟨nofun, nofun, List.nil_subperm⟩

theorem of_subperm (held : Held popped clean taken) (sub : nodes.Subperm popped) : Held nodes clean taken := by
  refine ⟨fun node member => held.formed node (sub.subset member),
    fun isClean node member => held.few isClean node (sub.subset member), ?_⟩
  obtain ⟨same, perm, sublist⟩ := sub
  exact (perm.flatMap_right _).symm.subperm.trans ((sublist.flatMap _).subperm.trans held.named)

/-- The last node is thrown away. -/
theorem tail (held : Held (node :: nodes) clean taken) : Held nodes clean taken :=
  held.of_subperm (List.sublist_cons_self ..).subperm

theorem swap {other : Node Unit} (held : Held (node :: other :: nodes) clean taken) :
    Held (other :: node :: nodes) clean taken :=
  held.of_subperm (List.Perm.swap ..).subperm

/-- A node takes the place of others, among which are all its parts. -/
theorem replace (held : Held (popped ++ nodes) clean taken) (parts : ∀ entry ∈ node.parts, entry.2 ∈ popped)
    (formed : node.Formed (Literal.ReadFrom taken)) (few : clean = true → node.Few)
    (named : node.references.Subperm (popped.flatMap references)) : Held (node :: nodes) clean taken := by
  have whole {P : Node Unit → Prop} (own : P node) (all : ∀ other ∈ popped ++ nodes, other.All P) :
      ∀ other ∈ node :: nodes, other.All P := by
    obtain ⟨below, others⟩ := List.forall_mem_append.mp all
    exact List.forall_mem_cons.mpr ⟨all_iff.mpr ⟨own, fun entry member => below _ (parts entry member)⟩, others⟩
  refine ⟨whole formed held.formed, fun isClean => whole (few isClean) (held.few isClean), ?_⟩
  have all := held.named
  rw [List.flatMap_append] at all
  rw [List.flatMap_cons]
  exact (named.append (List.Subperm.refl _)).trans all

/-- A node is put together from its parts, which are the last ones that were read. -/
theorem build (held : Held ((node.parts.map Prod.snd).reverse ++ nodes) clean taken)
    (formed : node.Formed (Literal.ReadFrom taken)) (few : clean = true → node.Few) (plain : node.ownToken = []) :
    Held (node :: nodes) clean taken := by
  refine held.replace (fun entry member => ?_) formed few ?_
  · rw [List.mem_reverse]
    exact List.mem_map_of_mem member
  · rw [references_eq, plain, List.nil_append]
    exact ((List.reverse_perm _).flatMap_right _).symm.subperm

/-- A node is taken apart. -/
theorem opened (held : Held (node :: nodes) clean taken) :
    Held ((node.parts.map Prod.snd).reverse ++ nodes) clean taken := by
  have inside {P : Node Unit → Prop} (all : ∀ other ∈ node :: nodes, other.All P) :
      ∀ other ∈ (node.parts.map Prod.snd).reverse ++ nodes, other.All P := by
    obtain ⟨first, others⟩ := List.forall_mem_cons.mp all
    refine List.forall_mem_append.mpr ⟨fun part member => ?_, others⟩
    obtain ⟨entry, found, rfl⟩ := List.mem_map.mp (List.mem_reverse.mp member)
    exact (all_iff.mp first).2 entry found
  refine ⟨inside held.formed, fun isClean => inside (held.few isClean), ?_⟩
  have fewer : (((node.parts.map Prod.snd).reverse).flatMap references).Subperm node.references := by
    rw [references_eq]
    exact ((List.reverse_perm _).flatMap_right _).subperm.trans (List.sublist_append_right ..).subperm
  rw [List.flatMap_append]
  exact (fewer.append (List.Subperm.refl _)).trans held.named

/-- A node without parts is made out of a token. -/
theorem leaf {token : Token} (held : ((Known.nodes nodes).past token).Holds clean taken) (bare : node.parts = [])
    (formed : node.Formed (Literal.ReadFrom [token])) (few : node.Few) (own : node.ownToken.Sublist [token]) :
    Held (node :: nodes) clean taken := by
  have others : Held nodes clean taken := Known.of_past held
  obtain ⟨before, after, rfl, earlier⟩ := held
  have alone {P : Node Unit → Prop} (holds : P node) : node.All P := all_iff.mpr ⟨holds, by simp [bare]⟩
  refine ⟨List.forall_mem_cons.mpr ⟨alone (formed.mono ?_), others.formed⟩,
    fun isClean => List.forall_mem_cons.mpr ⟨alone few, others.few isClean⟩, ?_⟩
  · rintro value (rfl | ⟨only, found, read⟩)
    · exact .inl rfl
    · obtain rfl := List.mem_singleton.mp found
      exact .inr ⟨only, by simp, read⟩
  · have named : (node.references ++ nodes.flatMap references).Subperm ([token] ++ before) := by
      rw [references_eq, bare, List.map_nil, List.flatMap_nil, List.append_nil]
      exact own.subperm.append earlier.named
    have within : (before ++ [token]).Sublist (before ++ token :: after) := by simp
    exact named.trans (List.perm_append_comm.subperm.trans within.subperm)

end Held

end Lox

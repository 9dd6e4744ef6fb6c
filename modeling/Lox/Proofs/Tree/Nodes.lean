import Lox.Proofs.Scope.Places
import Mathlib.Data.List.Nodup

/-!
Nodes of a tree. What holds of every node can be shown one step at a time, from the parts to the whole; and where no
token names two references, a reference is told by its token.
-/
namespace Lox.Node

section Sizes

variable {ρ : Type} [SizeOf ρ]

theorem sizeOf_inOrder (earlier : List String) (body : List (Stmt ρ)) :
    ∀ entry ∈ inOrder earlier body, sizeOf entry.2 < sizeOf (Node.sequence body) := by
  induction body generalizing earlier with
  | nil => simp [inOrder]
  | cons first rest ih =>
    simp only [inOrder, List.forall_mem_cons]
    refine ⟨by simp; omega, fun entry member => ?_⟩
    have smaller := ih _ entry member
    simp only [sequence.sizeOf_spec, List.cons.sizeOf_spec] at smaller ⊢
    omega

theorem sizeOf_exprParts (expr : Expr ρ) : ∀ entry ∈ exprParts expr, sizeOf entry.2 < sizeOf (Node.expr expr) := by
  cases expr with
  | call callee paren arguments =>
    simp only [exprParts, List.forall_mem_cons, List.forall_mem_map]
    refine ⟨by simp; omega, fun argument member => ?_⟩
    have smaller := List.sizeOf_lt_of_mem member
    simp
    omega
  | _ =>
    simp [exprParts]
    all_goals omega

theorem sizeOf_stmtParts (stmt : Stmt ρ) : ∀ entry ∈ stmtParts stmt, sizeOf entry.2 < sizeOf (Node.stmt stmt) := by
  cases stmt with
  | varDecl name initial =>
    cases initial <;> simp [stmtParts, optional]
    omega
  | returnStmt keyword value =>
    cases value <;> simp [stmtParts, optional]
    omega
  | classDecl name superclass methods =>
    intro entry member
    rcases List.mem_append.mp member with outside | within
    · obtain _ | ⟨token, note⟩ := superclass <;> simp [optional] at outside
      subst outside
      simp
      omega
    · obtain ⟨method, found, rfl⟩ := List.mem_map.mp within
      have smaller := List.sizeOf_lt_of_mem found
      simp
      omega
  | _ =>
    simp [stmtParts]
    all_goals omega

/-- Parts are smaller than what they are parts of. -/
theorem sizeOf_parts (node : Node ρ) : ∀ entry ∈ node.parts, sizeOf entry.2 < sizeOf node := by
  cases node with
  | expr expr => exact sizeOf_exprParts expr
  | stmt stmt => exact sizeOf_stmtParts stmt
  | function declaration =>
    obtain ⟨name, params, body⟩ := declaration
    intro entry member
    obtain rfl := List.mem_singleton.mp member
    simp only [sequence.sizeOf_spec, function.sizeOf_spec, FunctionDecl.mk.sizeOf_spec]
    omega
  | sequence body => exact sizeOf_inOrder [] body

end Sizes

section Every

variable {ρ : Type} {P Q : Node ρ → Prop} {node part : Node ρ} {place inner : Place} {path : List Nat}

/-- A path leads to the same node whatever the place it starts from. -/
theorem at?_elsewhere (found : node.at? place path = some (inner, part)) (other : Place) :
    ∃ there, node.at? other path = some (there, part) := by
  induction path generalizing node place other with
  | nil =>
    cases found
    exact ⟨other, rfl⟩
  | cons number path ih =>
    unfold at? at found ⊢
    cases selected : node.parts[number]? with
    | none => simp [selected] at found
    | some entry =>
      simp only [selected] at found
      exact ih found _

/-- The path of part numbers leads from one node to the other. -/
def Reaches (node : Node ρ) (path : List Nat) (part : Node ρ) : Prop :=
  ∃ place inner, node.at? place path = some (inner, part)

theorem reaches_nil_iff : node.Reaches [] part ↔ part = node := by
  constructor
  · rintro ⟨place, inner, found⟩
    cases found
    rfl
  · rintro rfl
    exact ⟨{}, {}, rfl⟩

theorem reaches_cons_iff {number : Nat} : node.Reaches (number :: path) part ↔
    ∃ entry, node.parts[number]? = some entry ∧ entry.2.Reaches path part := by
  constructor
  · rintro ⟨place, inner, found⟩
    unfold at? at found
    cases selected : node.parts[number]? with
    | none => simp [selected] at found
    | some entry =>
      simp only [selected] at found
      exact ⟨entry, rfl, _, inner, found⟩
  · rintro ⟨entry, selected, place, inner, found⟩
    obtain ⟨there, reached⟩ := at?_elsewhere found (Place.enter {} entry.1)
    exact ⟨{}, there, by simp only [at?, selected, reached]⟩

/-- All that can be reached from a node is so, the node itself included. -/
def All (P : Node ρ → Prop) (node : Node ρ) : Prop := ∀ path part, node.Reaches path part → P part

theorem All.mono (all : All P node) (implies : ∀ node, P node → Q node) : All Q node :=
  fun path part reached => implies part (all path part reached)

theorem All.self (all : All P node) : P node := all [] node (reaches_nil_iff.mpr rfl)

/-- All nodes are so if the one at hand is, and all in its parts. -/
theorem all_iff : node.All P ↔ P node ∧ ∀ entry ∈ node.parts, entry.2.All P := by
  constructor
  · intro all
    refine ⟨all.self, fun entry member path part reached => ?_⟩
    obtain ⟨number, selected⟩ := List.mem_iff_getElem?.mp member
    exact all (number :: path) part (reaches_cons_iff.mpr ⟨entry, selected, reached⟩)
  · rintro ⟨own, parts⟩ path part reached
    cases path with
    | nil => rwa [reaches_nil_iff.mp reached]
    | cons number path =>
      obtain ⟨entry, selected, below⟩ := reaches_cons_iff.mp reached
      exact parts entry (List.mem_of_getElem? selected) path part below

end Every

section References

variable {ρ : Type} {node : Node ρ} {path : List Nat} {token : Token}

/-- The path leads to a reference that the token names. -/
def RefersAt (node : Node ρ) (path : List Nat) (token : Token) : Prop :=
  ∃ part kind note, node.Reaches path part ∧ part.reference? = some (kind, token, note)

/-- The token of a node that is a reference itself. -/
def ownToken (node : Node ρ) : List Token := (node.reference?.map fun reference => reference.2.1).toList

theorem mem_ownToken : token ∈ node.ownToken ↔ ∃ kind note, node.reference? = some (kind, token, note) := by
  unfold ownToken
  cases node.reference? with
  | none => simp
  | some reference =>
    obtain ⟨kind, named, note⟩ := reference
    simp [eq_comm]

/-- The tokens of all references at and below a node, each as often as it names one. -/
def references (node : Node ρ) : List Token :=
  node.ownToken ++ node.parts.attach.flatMap fun ⟨(_, part), _⟩ => references part
termination_by sizeOf node
decreasing_by exact sizeOf_parts node _ ‹_›

theorem references_eq (node : Node ρ) :
    node.references = node.ownToken ++ (node.parts.map Prod.snd).flatMap references := by
  rw [references, List.flatMap_map]
  congr 1
  conv_rhs => rw [← List.attach_map_subtype_val node.parts, List.flatMap_map]

theorem refersAt_nil_iff : node.RefersAt [] token ↔ token ∈ node.ownToken := by
  simp [RefersAt, reaches_nil_iff, mem_ownToken]

theorem refersAt_cons_iff {number : Nat} : node.RefersAt (number :: path) token ↔
    ∃ entry, node.parts[number]? = some entry ∧ entry.2.RefersAt path token := by
  simp only [RefersAt, reaches_cons_iff]
  tauto

theorem mem_references (refers : node.RefersAt path token) : token ∈ node.references := by
  rw [references_eq]
  induction path generalizing node with
  | nil => exact List.mem_append_left _ (refersAt_nil_iff.mp refers)
  | cons number path ih =>
    obtain ⟨entry, selected, below⟩ := refersAt_cons_iff.mp refers
    refine List.mem_append_right _ (List.mem_flatMap.mpr ⟨entry.2, ?_, ?_⟩)
    · exact List.mem_map_of_mem (List.mem_of_getElem? selected)
    · rw [references_eq]
      exact ih below

/-- No two parts have a token in common, and none has that of the node itself. -/
theorem distinct_parts (distinct : node.references.Nodup) {number : Nat} {entry : Step × Node ρ}
    (selected : node.parts[number]? = some entry) : entry.2.references.Nodup ∧
      (∀ token ∈ entry.2.references, token ∉ node.ownToken) ∧
      ∀ number' entry', node.parts[number']? = some entry' → number ≠ number' →
        ∀ token ∈ entry.2.references, token ∉ entry'.2.references := by
  rw [references_eq, List.nodup_append', List.nodup_flatMap] at distinct
  obtain ⟨-, ⟨within, across⟩, apart⟩ := distinct
  have member : entry.2 ∈ node.parts.map Prod.snd := List.mem_map_of_mem (List.mem_of_getElem? selected)
  refine ⟨within _ member, fun token found own => apart own (List.mem_flatMap.mpr ⟨_, member, found⟩), ?_⟩
  intro number' entry' selected' differ token found found'
  obtain ⟨bound, rfl⟩ := List.getElem?_eq_some_iff.mp selected
  obtain ⟨bound', rfl⟩ := List.getElem?_eq_some_iff.mp selected'
  rw [List.pairwise_map, List.pairwise_iff_getElem] at across
  rcases Nat.lt_or_gt_of_ne differ with before | after
  · exact across number number' bound bound' before found found'
  · exact across number' number bound' bound after found' found

/-- Where no token names two references, the token tells where the reference is. -/
theorem RefersAt.unique {path' : List Nat} (refers : node.RefersAt path token) (refers' : node.RefersAt path' token)
    (distinct : node.references.Nodup) : path = path' := by
  induction path generalizing node path' with
  | nil =>
    cases path' with
    | nil => rfl
    | cons number path' =>
      obtain ⟨entry, selected, below⟩ := refersAt_cons_iff.mp refers'
      have foreign := (distinct_parts distinct selected).2.1 _ (mem_references below)
      exact absurd (refersAt_nil_iff.mp refers) foreign
  | cons number path ih =>
    obtain ⟨entry, selected, below⟩ := refersAt_cons_iff.mp refers
    obtain ⟨inside, foreign, apart⟩ := distinct_parts distinct selected
    cases path' with
    | nil => exact absurd (refersAt_nil_iff.mp refers') (foreign _ (mem_references below))
    | cons number' path' =>
      obtain ⟨entry', selected', below'⟩ := refersAt_cons_iff.mp refers'
      by_cases same : number = number'
      · subst same
        obtain rfl : entry = entry' := Option.some.inj (selected.symm.trans selected')
        rw [ih below below' inside]
      · exact absurd (mem_references below') (apart _ _ selected' same _ (mem_references below))

end References

end Lox.Node

import Lox.Proofs.Scope.Places
import Mathlib.Data.List.Nodup
import Mathlib.Data.List.Perm.Basic

/-!
Nodes where they stand in a program, with all that is around them, and the rules on scopes that a node can
break there. Which rules it breaks is read off its surroundings: the declarations before it in the same
scope, the function and the class nearest around it, and the variable whose initialiser it is in.
-/
namespace Lox

variable {ρ : Type}

/-- A node where it stands: the scopes around it, the names that the top level has got before it, and the
nodes around it, innermost first. -/
structure Spot (ρ : Type) where
  node : Node ρ
  place : Place := {}
  globals : List String := []
  above : List (Node ρ) := []

namespace Around

/-- The variable whose initialiser the spot is in. -/
def initializing? : List (Node ρ) → Option Token
  | .expr _ :: above => initializing? above
  | .stmt (.varDecl name _) :: _ => some name
  | _ => none

/-- The nearest function or method: its declaration, and whether it is a method. -/
def function? : List (Node ρ) → Option (FunctionDecl ρ × Bool)
  | .function declaration :: .stmt (.classDecl _ _ _) :: _ => some (declaration, true)
  | .function declaration :: _ => some (declaration, false)
  | _ :: above => function? above
  | [] => none

/-- Whether the nearest class has a superclass, if there is a class. Only its methods are inside a class. -/
def class? : List (Node ρ) → Option Bool
  | .function _ :: .stmt (.classDecl _ superclass _) :: _ => some superclass.isSome
  | _ :: above => class? above
  | [] => none

end Around

/-- The names of the top level once some more are declared. They count there only where no scope is open. -/
def Place.topLevel (place : Place) (names globals : List String) : List String :=
  if place.scopes = [] then names ++ globals else globals

namespace Spot

/-- One of the parts of a node, where it stands. A variable of the top level is not among the names before
its own initialiser. -/
def enter (spot : Spot ρ) (step : Step) (part : Node ρ) : Spot ρ where
  node := part
  place := spot.place.enter step
  globals := match spot.node with
    | .stmt (.varDecl _ _) => spot.globals
    | _ => spot.place.topLevel step.earlier spot.globals
  above := spot.node :: spot.above

def parts (spot : Spot ρ) : List (Spot ρ) := spot.node.parts.map fun (step, part) => spot.enter step part

/-- The spot that a path of part numbers leads to. -/
def at? (spot : Spot ρ) : List Nat → Option (Spot ρ)
  | [] => some spot
  | number :: path => spot.parts[number]?.bind fun part => part.at? path

/-- The names that the innermost scope has at a spot; none at the top level. -/
def scope (spot : Spot ρ) : List String := spot.place.scopes.headD []

/-- A fault, if there is one. -/
def flag (condition : Prop) [Decidable condition] (cause : ScopeFault) (token : Token) :
    List (Located ScopeFault) :=
  if condition then [⟨cause, token⟩] else []

/-- Parameters that repeat an earlier one. -/
def repeated : List String → List Token → List (Located ScopeFault)
  | _, [] => []
  | earlier, param :: rest =>
    flag (param.lexeme ∈ earlier) .alreadyDeclared param ++ repeated (param.lexeme :: earlier) rest

/-- What is wrong with reading a name where it is read: it is that of the variable being initialised. At the
top level this is wrong only if there is no earlier variable of the name, in the program or before it. -/
def misread (known : List String) (place : Place) (globals : List String) (above : List (Node ρ))
    (name : Token) : List (Located ScopeFault) :=
  match Around.initializing? above with
  | none => []
  | some target =>
    if place.scopes = [] then
      flag (target.lexeme = name.lexeme ∧ name.lexeme ∉ globals ∧ name.lexeme ∉ known)
        .readsGlobalInInitializer name
    else flag (target.lexeme = name.lexeme) .readsLocalInInitializer name

/-- The rules that the node itself breaks where it stands, each with the token at fault. -/
def violations (known : List String) (spot : Spot ρ) : List (Located ScopeFault) :=
  match spot.node with
  | .stmt (.varDecl name _) => flag (name.lexeme ∈ spot.scope) .alreadyDeclared name
  | .stmt (.funDecl declaration) =>
    flag (declaration.name.lexeme ∈ spot.scope) .alreadyDeclared declaration.name
  | .stmt (.classDecl name superclass _) =>
    flag (name.lexeme ∈ spot.scope) .alreadyDeclared name ++
      match superclass with
      | none => []
      | some (parent, _) => flag (parent.lexeme = name.lexeme) .inheritsFromItself parent
  | .stmt (.returnStmt keyword value) =>
    match Around.function? spot.above with
    | none => [⟨.returnOutsideFunction, keyword⟩]
    | some (function, isMethod) =>
      flag (value.isSome ∧ isMethod ∧ function.name.lexeme = initializerName) .returnValueFromInitializer keyword
  | .function (.mk _ params _) => repeated [] params
  | .expr (.read name _) => misread known spot.place spot.globals spot.above name
  | .expr (.this keyword _) => flag (Around.class? spot.above = none) .thisOutsideClass keyword
  | .expr (.super keyword _ _) =>
    match Around.class? spot.above with
    | none => [⟨.superOutsideClass, keyword⟩]
    | some hasSuperclass => flag (hasSuperclass = false) .superWithoutSuperclass keyword
  | _ => []

end Spot

namespace Spot

variable {P : Spot ρ → Prop} {spot : Spot ρ}

/-- Something holds at a spot and at all spots below it. -/
def All (P : Spot ρ → Prop) (spot : Spot ρ) : Prop := ∀ path inner, spot.at? path = some inner → P inner

theorem All.own (all : spot.All P) : P spot := all [] spot rfl

theorem All.part {part : Spot ρ} (all : spot.All P) (member : part ∈ spot.parts) : part.All P := by
  intro path inner found
  obtain ⟨number, selected⟩ := List.mem_iff_getElem?.mp member
  exact all (number :: path) inner (by simp [at?, selected, found])

theorem All.enter {step : Step} {part : Node ρ} (all : spot.All P) (member : (step, part) ∈ spot.node.parts) :
    (spot.enter step part).All P :=
  all.part (List.mem_map_of_mem member)

/-- A spot is at the place of its node. -/
theorem node_at? {path : List Nat} {inner : Spot ρ} (found : spot.at? path = some inner) :
    spot.node.at? spot.place path = some (inner.place, inner.node) := by
  induction path generalizing spot with
  | nil =>
    cases found
    rfl
  | cons number path ih =>
    obtain ⟨part, selected, found⟩ := Option.bind_eq_some_iff.mp found
    simp only [parts, List.getElem?_map, Option.map_eq_some_iff] at selected
    obtain ⟨⟨step, node⟩, selected, rfl⟩ := selected
    simp only [Node.at?, selected]
    exact ih found

end Spot

/-- The spot that a path leads to in a program. -/
def Program.spot? (program : Program ρ) (path : List Nat) : Option (Spot ρ) :=
  Spot.at? { node := .sequence program } path

/-- Some faults are, up to their order, what is wrong at the spots that paths lead to, each path counted
once. -/
def Tallies (known : List String) (spot? : List Nat → Option (Spot ρ)) (faults : List (Located ScopeFault)) :
    Prop :=
  ∃ paths : List (List Nat), paths.Nodup ∧ (∀ path, path ∈ paths ↔ (spot? path).isSome = true) ∧
    faults.Perm (paths.flatMap fun path => (spot? path).elim [] (Spot.violations known))

namespace Tallies

variable {known : List String} {faults more : List (Located ScopeFault)}

/-- The spots below some given ones, which the first number of a path chooses from. -/
def among (spots : List (Spot ρ)) : List Nat → Option (Spot ρ)
  | [] => none
  | number :: path => spots[number]?.bind fun spot => spot.at? path

theorem perm {spot? : List Nat → Option (Spot ρ)} (tallies : Tallies known spot? faults)
    (same : more.Perm faults) : Tallies known spot? more := by
  obtain ⟨paths, once, all, counted⟩ := tallies
  exact ⟨paths, once, all, same.trans counted⟩

theorem nil : Tallies known (among ([] : List (Spot ρ))) [] := by
  refine ⟨[], List.nodup_nil, fun path => ?_, .nil⟩
  cases path <;> simp [among]

/-- One number further on. -/
private def shift : List Nat → List Nat
  | [] => []
  | number :: path => (number + 1) :: path

private theorem shift_injective : Function.Injective shift := by
  rintro (_ | ⟨first, rest⟩) (_ | ⟨first', rest'⟩) same <;> simp_all [shift]

theorem cons {spot : Spot ρ} {rest : List (Spot ρ)} (first : Tallies known spot.at? faults)
    (others : Tallies known (among rest) more) : Tallies known (among (spot :: rest)) (faults ++ more) := by
  obtain ⟨paths, once, all, counted⟩ := first
  obtain ⟨paths', once', all', counted'⟩ := others
  -- None of the other paths is empty, so that all of them go one number further on.
  have shifted (path : List Nat) (member : path ∈ paths') : among (spot :: rest) (shift path) = among rest path := by
    cases path with
    | nil => simpa [among] using (all' []).mp member
    | cons number path => simp [shift, among]
  refine ⟨paths.map (0 :: ·) ++ paths'.map shift, ?_, fun path => ?_, ?_⟩
  · refine List.nodup_append.mpr ⟨List.Nodup.map List.cons_injective once, List.Nodup.map shift_injective once', ?_⟩
    intro left isLeft right isRight same
    obtain ⟨_, _, rfl⟩ := List.mem_map.mp isLeft
    obtain ⟨path, _, rfl⟩ := List.mem_map.mp isRight
    cases path <;> simp [shift] at same
  · rw [List.mem_append, List.mem_map, List.mem_map]
    cases path with
    | nil =>
      refine ⟨?_, by simp [among]⟩
      rintro (⟨_, _, same⟩ | ⟨path, member, same⟩)
      · cases same
      · rw [← same, shifted path member]
        exact (all' path).mp member
    | cons number path =>
      cases number with
      | zero =>
        have other : ∀ path', ¬ (path' ∈ paths' ∧ shift path' = 0 :: path) := by
          rintro (_ | _) ⟨_, same⟩ <;> simp [shift] at same
        simp [among, ← all path, other]
      | succ number =>
        have only : (∃ path', path' ∈ paths' ∧ shift path' = (number + 1) :: path) ↔ number :: path ∈ paths' := by
          constructor
          · rintro ⟨path', member, same⟩
            have equal : path' = number :: path := shift_injective same
            rwa [← equal]
          · exact fun member => ⟨_, member, rfl⟩
        rw [only, all' (number :: path)]
        simp [among]
  · rw [List.flatMap_append, List.flatMap_map, List.flatMap_map]
    refine List.Perm.append counted (counted'.trans (List.Perm.of_eq ?_))
    refine List.flatMap_congr fun path member => ?_
    rw [shifted path member]

/-- What is wrong at a spot and below it. -/
theorem spot {spot : Spot ρ} (below : Tallies known (among spot.parts) faults) :
    Tallies known spot.at? (spot.violations known ++ faults) := by
  obtain ⟨paths, once, all, counted⟩ := below
  have inner (path : List Nat) (member : path ∈ paths) : spot.at? path = among spot.parts path := by
    cases path with
    | nil => simpa [among] using (all []).mp member
    | cons number path => rfl
  have new : [] ∉ paths := fun member => by simpa [among] using (all []).mp member
  refine ⟨[] :: paths, List.nodup_cons.mpr ⟨new, once⟩, fun path => ?_, ?_⟩
  · cases path with
    | nil => simp [Spot.at?]
    | cons number path => simpa [Spot.at?, among] using all (number :: path)
  · rw [List.flatMap_cons]
    refine List.Perm.append (.of_eq rfl) (counted.trans (.of_eq ?_))
    refine List.flatMap_congr fun path member => ?_
    rw [inner path member]

/-- What is wrong at a spot that has no parts. -/
theorem leaf {spot : Spot ρ} (alone : spot.node.parts = []) : Tallies known spot.at? (spot.violations known) := by
  have none : spot.parts = [] := by simp [Spot.parts, alone]
  have below : Tallies known (among spot.parts) [] := by
    rw [none]
    exact nil
  simpa using below.spot

/-- There is nothing wrong if and only if there is nothing wrong at any spot. -/
theorem eq_nil_iff {spot? : List Nat → Option (Spot ρ)} (tallies : Tallies known spot? faults) :
    faults = [] ↔ ∀ path spot, spot? path = some spot → spot.violations known = [] := by
  obtain ⟨paths, _, all, counted⟩ := tallies
  constructor
  · rintro rfl path spot found
    have empty := List.flatMap_eq_nil_iff.mp counted.symm.eq_nil path ((all path).mpr (by simp [found]))
    simpa [found] using empty
  · intro clean
    apply List.Perm.eq_nil
    refine counted.trans (.of_eq (List.flatMap_eq_nil_iff.mpr fun path member => ?_))
    obtain ⟨spot, found⟩ := Option.isSome_iff_exists.mp ((all path).mp member)
    simpa [found] using clean path spot found

end Tallies

end Lox

import Lox.Proofs.Scope.Lexical
import Mathlib.Data.List.Nodup

/-!
Recording the distances of a bound tree. A reference is known by the program that it belongs to and by its path
in it. A new one comes last in the registry, and one that is there already keeps its place, so recording a tree
for the second time changes nothing.
-/
namespace Lox

/-- What tells a reference from all others. -/
structure Site where
  program : Nat
  path : List Nat
  deriving DecidableEq, Repr

/-- The distances recorded so far, in the order in which their references came in. -/
abbrev Registry := List (Site × Nat)

namespace Registry

def record (site : Site) (distance : Nat) : Registry → Registry
  | [] => [(site, distance)]
  | (key, old) :: rest => if key = site then (key, distance) :: rest else (key, old) :: record site distance rest

def recordAll (registry : Registry) (entries : List (Site × Nat)) : Registry :=
  entries.foldl (fun registry entry => registry.record entry.1 entry.2) registry

variable {registry : Registry} {entries : List (Site × Nat)} {site : Site} {distance : Nat}

theorem lookup_cons (key query : Site) :
    List.lookup query ((key, distance) :: registry) = if query = key then some distance else registry.lookup query := by
  rw [List.lookup_cons]
  by_cases same : query = key
  · simp [same]
  · simp [same, beq_eq_false_iff_ne.mpr same]

theorem lookup_record (query : Site) : (registry.record site distance).lookup query =
    if query = site then some distance else registry.lookup query := by
  induction registry with
  | nil => rw [record, lookup_cons]
  | cons entry rest ih =>
    obtain ⟨key, old⟩ := entry
    rw [record, lookup_cons]
    by_cases here : key = site
    · rw [if_pos here, lookup_cons, here]
      by_cases same : query = site <;> simp only [same, if_true, if_false]
    · rw [if_neg here, lookup_cons, ih]
      by_cases same : query = key
      · simp only [same, here, if_true, if_false]
      · simp only [same, if_false]

theorem record_of_lookup (found : registry.lookup site = some distance) : registry.record site distance = registry := by
  induction registry with
  | nil => simp at found
  | cons entry rest ih =>
    obtain ⟨key, old⟩ := entry
    rw [lookup_cons] at found
    by_cases here : key = site
    · rw [if_pos here.symm, Option.some.injEq] at found
      rw [record, if_pos here, found]
    · rw [if_neg (Ne.symm here)] at found
      rw [record, if_neg here, ih found]

theorem lookup_recordAll_of_notMem (absent : site ∉ entries.map Prod.fst) :
    (registry.recordAll entries).lookup site = registry.lookup site := by
  induction entries generalizing registry with
  | nil => rfl
  | cons entry rest ih =>
    simp only [List.map_cons, List.mem_cons, not_or] at absent
    change ((registry.record entry.1 entry.2).recordAll rest).lookup site = _
    rw [ih absent.2, lookup_record, if_neg absent.1]

theorem lookup_recordAll (distinct : (entries.map Prod.fst).Nodup) (member : (site, distance) ∈ entries) :
    (registry.recordAll entries).lookup site = some distance := by
  induction entries generalizing registry with
  | nil => simp at member
  | cons entry rest ih =>
    rw [List.map_cons, List.nodup_cons] at distinct
    change ((registry.record entry.1 entry.2).recordAll rest).lookup site = _
    rcases List.mem_cons.mp member with rfl | later
    · rw [lookup_recordAll_of_notMem distinct.1, lookup_record, if_pos rfl]
    · exact ih distinct.2 later

theorem recordAll_of_lookup (found : ∀ entry ∈ entries, registry.lookup entry.1 = some entry.2) :
    registry.recordAll entries = registry := by
  induction entries with
  | nil => rfl
  | cons entry rest ih =>
    rw [List.forall_mem_cons] at found
    change (registry.record entry.1 entry.2).recordAll rest = registry
    rw [record_of_lookup found.1, ih found.2]

/-- What is recorded once more is there already. -/
theorem recordAll_again (distinct : (entries.map Prod.fst).Nodup) :
    (registry.recordAll entries).recordAll entries = registry.recordAll entries :=
  recordAll_of_lookup fun _ member => lookup_recordAll distinct member

theorem record_of_notMem (absent : site ∉ registry.map Prod.fst) :
    registry.record site distance = registry ++ [(site, distance)] := by
  induction registry with
  | nil => rfl
  | cons entry rest ih =>
    simp only [List.map_cons, List.mem_cons, not_or] at absent
    rw [record, if_neg (Ne.symm absent.1), ih absent.2, List.cons_append]

/-- New references come last, in the order in which they are recorded. -/
theorem recordAll_of_new (distinct : (entries.map Prod.fst).Nodup)
    (new : ∀ site ∈ entries.map Prod.fst, site ∉ registry.map Prod.fst) :
    registry.recordAll entries = registry ++ entries := by
  induction entries generalizing registry with
  | nil => exact (List.append_nil registry).symm
  | cons entry rest ih =>
    rw [List.map_cons, List.nodup_cons] at distinct
    rw [List.map_cons, List.forall_mem_cons] at new
    have later : ∀ site ∈ rest.map Prod.fst, site ∉ (registry ++ [entry]).map Prod.fst := by
      intro site member
      rw [List.map_append, List.mem_append, List.map_singleton, List.mem_singleton, not_or]
      exact ⟨new.2 site member, fun same => distinct.1 (same ▸ member)⟩
    change (registry.record entry.1 entry.2).recordAll rest = _
    rw [record_of_notMem new.1, ih distinct.2 later, List.append_assoc, List.singleton_append]

end Registry

namespace Node

variable {ρ : Type}

/-- The parts of a node with their numbers, in the order in which binding comes to them: where a property is set,
the value comes before the object. -/
def visited : Node ρ → List (Nat × Node ρ)
  | .expr (.set object _ value) => [(1, .expr value), (0, .expr object)]
  | node => node.parts.zipIdx.map fun (entry, number) => (number, entry.2)

theorem mem_zipIdx_parts {node part : Node ρ} {number : Nat} :
    (number, part) ∈ node.parts.zipIdx.map (fun (entry, number) => (number, entry.2)) ↔
      ∃ step, node.parts[number]? = some (step, part) := by
  simp only [List.mem_map, Prod.exists, Prod.mk.injEq, List.mem_zipIdx_iff_getElem?]
  constructor
  · rintro ⟨step, _, _, found, rfl, rfl⟩
    exact ⟨step, found⟩
  · rintro ⟨step, found⟩
    exact ⟨step, part, number, found, rfl, rfl⟩

theorem mem_visited {node part : Node ρ} {number : Nat} :
    (number, part) ∈ node.visited ↔ ∃ step, node.parts[number]? = some (step, part) := by
  unfold visited
  split
  case h_1 object name value =>
    match number with
    | 0 => simp [parts, exprParts, eq_comm]
    | 1 => simp [parts, exprParts, eq_comm]
    | number + 2 => simp [parts, exprParts]
  case h_2 => exact mem_zipIdx_parts

theorem nodup_visited (node : Node ρ) : (node.visited.map Prod.fst).Nodup := by
  unfold visited
  split
  case h_1 => simp
  case h_2 =>
    rw [List.map_map]
    change (node.parts.zipIdx.map Prod.snd).Nodup
    rw [List.zipIdx_map_snd]
    exact List.nodup_range'

theorem sizeOf_visited {node : Node Distance} {entry : Nat × Node Distance} (member : entry ∈ node.visited) :
    sizeOf entry.2 < sizeOf node := by
  obtain ⟨step, found⟩ := mem_visited.mp member
  exact sizeOf_parts node _ (List.mem_of_getElem? found)

/-- The binding of the node itself, if it is a reference that has one. -/
def own (node : Node Distance) : List Binding :=
  match node.reference? with
  | some (kind, token, note) => Binding.of kind token note
  | none => []

theorem mem_own {node : Node Distance} {binding : Binding} : binding ∈ node.own ↔ node.Refers binding := by
  unfold own Refers
  cases node.reference? with
  | none => simp
  | some reference =>
    obtain ⟨kind, token, note⟩ := reference
    simp [Binding.mem_of]

theorem own_length (node : Node Distance) : node.own.length ≤ 1 := by
  unfold own
  split
  · simp [Binding.of, Option.length_toList_le]
  · simp

/-- The bindings at and below a node, each with the path to its reference, in the order in which binding finds
them. -/
def records (node : Node Distance) : List (List Nat × Binding) :=
  (node.visited.attach.flatMap fun ⟨(number, part), _⟩ =>
      (records part).map fun (path, binding) => (number :: path, binding)) ++
    node.own.map fun binding => ([], binding)
termination_by sizeOf node
decreasing_by exact sizeOf_visited ‹_›

theorem records_eq (node : Node Distance) : node.records =
    (node.visited.flatMap fun (number, part) => part.records.map fun (path, binding) => (number :: path, binding)) ++
      node.own.map fun binding => ([], binding) := by
  rw [records]
  congr 1
  conv_rhs => rw [← List.attach_map_subtype_val node.visited, List.flatMap_map]

/-- A part is recorded under its number. -/
theorem mem_records_cons {node : Node Distance} {number : Nat} {path : List Nat} {binding : Binding} :
    (number :: path, binding) ∈ node.records ↔
      ∃ step part, node.parts[number]? = some (step, part) ∧ (path, binding) ∈ part.records := by
  rw [records_eq]
  simp [mem_visited]
  tauto

theorem nil_mem_records {node : Node Distance} {binding : Binding} :
    ([], binding) ∈ node.records ↔ node.Refers binding := by
  rw [records_eq]
  simp [mem_own]

/-- What is recorded for a path is the binding of the reference that the path leads to. -/
theorem mem_records {node : Node Distance} {path : List Nat} {binding : Binding} (place : Place) :
    (path, binding) ∈ node.records ↔
      ∃ inner part, node.at? place path = some (inner, part) ∧ part.Refers binding := by
  induction path generalizing node place with
  | nil => simp [nil_mem_records, at?]
  | cons number path ih =>
    rw [mem_records_cons]
    unfold at?
    cases node.parts[number]? with
    | none => simp
    | some entry =>
      obtain ⟨step, part⟩ := entry
      simp [ih (place.enter step)]

theorem map_fst_records (node : Node Distance) : node.records.map Prod.fst =
    (node.visited.flatMap fun entry => (entry.2.records.map Prod.fst).map (List.cons entry.1)) ++
      node.own.map fun _ => [] := by
  rw [records_eq, List.map_append, List.map_flatMap]
  simp only [List.map_map]
  rfl

/-- No path is recorded twice. -/
theorem nodup_records (node : Node Distance) : (node.records.map Prod.fst).Nodup := by
  induction size : sizeOf node using Nat.strongRecOn generalizing node with
  | _ count ih =>
    subst size
    have below (entry : Nat × Node Distance) (member : entry ∈ node.visited) :
        ((entry.2.records.map Prod.fst).map (List.cons entry.1)).Nodup :=
      (ih _ (sizeOf_visited member) entry.2 rfl).map List.cons_injective
    -- The paths of two parts begin with different numbers.
    have apart : node.visited.Pairwise fun first second =>
        List.Disjoint ((first.2.records.map Prod.fst).map (List.cons first.1))
          ((second.2.records.map Prod.fst).map (List.cons second.1)) := by
      refine (List.pairwise_map.mp node.nodup_visited).imp fun different path inFirst inSecond => ?_
      obtain ⟨_, _, rfl⟩ := List.mem_map.mp inFirst
      obtain ⟨_, _, same⟩ := List.mem_map.mp inSecond
      exact different (List.cons.inj same).1.symm
    have single : (node.own.map fun _ => ([] : List Nat)).Nodup := by
      match own : node.own with
      | [] | [_] => simp
      | _ :: _ :: _ => simpa [own] using node.own_length
    rw [map_fst_records]
    refine List.nodup_append'.mpr ⟨List.nodup_flatMap.mpr ⟨below, apart⟩, single, fun path inParts inOwn => ?_⟩
    obtain ⟨entry, _, deeper⟩ := List.mem_flatMap.mp inParts
    obtain ⟨_, _, rfl⟩ := List.mem_map.mp deeper
    simp at inOwn

theorem flatMap_zipIdx_parts (node : Node Distance) :
    (node.parts.zipIdx.map fun (entry, number) => (number, entry.2)).flatMap (fun entry => entry.2.bindings) =
      node.parts.flatMap fun entry => entry.2.bindings := by
  rw [List.flatMap_map]
  change node.parts.zipIdx.flatMap (fun entry => entry.1.2.bindings) = _
  conv_rhs => rw [← List.zipIdx_map_fst 0 node.parts, List.flatMap_map]

theorem bindingsAll_inOrder (earlier : List String) (body : List (Stmt Distance)) :
    Stmt.bindingsAll body = (inOrder earlier body).flatMap fun entry => entry.2.bindings := by
  induction body generalizing earlier with
  | nil => rfl
  | cons first rest ih =>
    rw [inOrder, List.flatMap_cons, ← ih]
    rfl

theorem bindingsAll_arguments (arguments : List (Expr Distance)) :
    Expr.bindingsAll arguments = arguments.flatMap fun argument => argument.bindings := by
  induction arguments with
  | nil => rfl
  | cons first rest ih => rw [Expr.bindingsAll, List.flatMap_cons, ih]

theorem bindingsAll_methods (methods : List (FunctionDecl Distance)) :
    FunctionDecl.bindingsAll methods = methods.flatMap fun method => method.bindings := by
  induction methods with
  | nil => rfl
  | cons first rest ih => rw [FunctionDecl.bindingsAll, List.flatMap_cons, ih]

/-- A node binds after its parts. -/
theorem bindings_eq (node : Node Distance) :
    node.bindings = (node.visited.flatMap fun entry => entry.2.bindings) ++ node.own := by
  unfold visited
  split
  case h_1 => simp [bindings, Expr.bindings, own, reference?]
  case h_2 other =>
    rw [flatMap_zipIdx_parts]
    cases node with
    | expr expr =>
      cases expr with
      | set object name value => exact absurd rfl (other object name value)
      | call callee paren arguments =>
        simp [bindings, Expr.bindings, parts, exprParts, own, reference?, List.flatMap_map,
          bindingsAll_arguments]
      | _ => simp [bindings, Expr.bindings, parts, exprParts, own, reference?]
    | stmt stmt =>
      cases stmt with
      | varDecl name initial =>
        cases initial <;>
          simp [bindings, Stmt.bindings, Expr.bindingsOption, parts, stmtParts, optional, own, reference?]
      | returnStmt keyword value =>
        cases value <;> simp [bindings, Stmt.bindings, Expr.bindingsOption, parts, stmtParts, optional, own, reference?]
      | classDecl name superclass methods =>
        cases superclass <;>
          simp [bindings, Stmt.bindings, Expr.bindings, parts, stmtParts, optional, own, reference?,
            List.flatMap_map, bindingsAll_methods]
      | _ => simp [bindings, Stmt.bindings, parts, stmtParts, own, reference?]
    | function declaration =>
      obtain ⟨name, params, body⟩ := declaration
      simp [bindings, FunctionDecl.bindings, parts, own, reference?]
    | sequence body => exact (bindingsAll_inOrder [] body).trans (List.append_nil _).symm

/-- The bindings are recorded in the order in which they are listed. -/
theorem map_snd_records (node : Node Distance) : node.records.map Prod.snd = node.bindings := by
  induction size : sizeOf node using Nat.strongRecOn generalizing node with
  | _ count ih =>
    subst size
    rw [records_eq, bindings_eq, List.map_append, List.map_flatMap]
    simp only [List.map_map]
    congr 1
    · exact List.flatMap_congr fun entry member => ih _ (sizeOf_visited member) entry.2 rfl
    · exact List.map_id _

end Node

/-- What binding a program records. -/
def Program.entries (number : Nat) (program : BoundProgram) : List (Site × Nat) :=
  (Node.sequence program).records.map fun (path, binding) => (⟨number, path⟩, binding.distance)

/-- The distances are recorded in the order in which the bindings are listed. -/
theorem Program.map_snd_entries (number : Nat) (program : BoundProgram) :
    (program.entries number).map Prod.snd = program.bindings.map Binding.distance := by
  have listed : (Node.sequence program).records.map Prod.snd = program.bindings := Node.map_snd_records _
  rw [← listed, entries, List.map_map, List.map_map]
  rfl

/-- A distance is recorded for each reference that has one, and for nothing else. -/
theorem Program.mem_entries {number : Nat} {program : BoundProgram} {site : Site} {distance : Nat} :
    (site, distance) ∈ program.entries number ↔ site.program = number ∧ ∃ place part kind token,
      (Node.sequence program).at? {} site.path = some (place, part) ∧
        part.reference? = some (kind, token, some distance) := by
  obtain ⟨home, path⟩ := site
  simp only [entries, List.mem_map, Prod.exists, Prod.mk.injEq, Site.mk.injEq]
  constructor
  · rintro ⟨_, ⟨kind, token, _⟩, recorded, ⟨rfl, rfl⟩, rfl⟩
    obtain ⟨place, part, found, refers⟩ := (Node.mem_records {}).mp recorded
    exact ⟨rfl, place, part, kind, token, found, refers⟩
  · rintro ⟨rfl, place, part, kind, token, found, reference⟩
    exact ⟨path, ⟨kind, token, distance⟩, (Node.mem_records {}).mpr ⟨place, part, found, reference⟩, ⟨rfl, rfl⟩, rfl⟩

theorem Program.nodup_entries (number : Nat) (program : BoundProgram) :
    ((program.entries number).map Prod.fst).Nodup := by
  have distinct := (Node.sequence program).nodup_records
  have apart : Function.Injective fun path => Site.mk number path := fun _ _ same => (Site.mk.inj same).2
  rw [← List.nodup_map_iff apart, List.map_map] at distinct
  rw [entries, List.map_map]
  exact distinct

end Lox

import Lox.Proofs.Run.Confinement
import Lox.Proofs.Run.Endings

/-!
The ground at every moment of a run. A run starts on a store in which frames are nested and nothing leads to what is not
there, and so does whatever is set about in its course.
-/
namespace Lox

/-- Frames are nested, classes come after their superclasses, and nothing leads to what is not there. -/
structure Store.Proper (store : Store) : Prop where
  nested : store.frames.Nested
  lineages : store.Lineages
  linked : ∀ holder object, store.Refers holder object → store.Has object

namespace Machine

/-- An object that a program could get at before, or that has been made since. -/
def Knows (before after : Machine) (object : Object) : Prop := before.Near object ∨ Created before after object

variable {origin machine : Machine}

theorem Underway.proper (underway : Underway origin machine) : machine.Proper :=
  ⟨underway.settled.nested, underway.settled.lineages, underway.settled.linked⟩

/-- On a proper store anything can be started. -/
theorem underway_self (proper : machine.Proper) (present : machine.Has (.frame machine.current)) :
    Underway machine machine where
  settled := by
    refine ⟨proper.nested, proper.lineages, proper.linked, fun holder object refers ground => ?_, fun _ => id⟩
    rcases ground with ⟨root, isRoot, path⟩ | absent
    · exact .inl ⟨root, isRoot, path.tail refers⟩
    · exact absurd refers.has absent
  inside := ⟨.inl ⟨_, .inl rfl, .refl⟩, present⟩

end Machine

open Machine Run

namespace Run

variable {α : Type} {action : Run α} {machine : Machine} {P : α → Machine → Prop}

/-- What an action leaves of the frames, however it ends. The frame at hand is the one from before. Frames that there
were are inside the same frames and have all names that they had. Around each frame is an older one, and outside of all
the global frame. -/
structure Restores (action : Run α) (machine : Machine) : Prop where
  current : (action.last machine).current = machine.current
  chains : ∀ frame < machine.frames.all.size, (action.last machine).frames.chain frame = machine.frames.chain frame
  names : ∀ frame name, (machine.frames.names frame).contains name = true →
    ((action.last machine).frames.names frame).contains name = true
  older : ∀ frame link, (action.last machine).frames.link? frame 1 = some link →
    link < frame ∧ (action.last machine).frames.chain frame = frame :: (action.last machine).frames.chain link
  ends : ∀ frame < (action.last machine).frames.all.size,
    ((action.last machine).frames.chain frame).getLast? = some globalFrame

/-- What an action does to the objects of a machine, however it ends. Frames and instances that could not be got at keep
their bindings and fields. What is bound, stored or referred to anew could be got at before, or is new itself. If the
action ends with a value, that is so for the value as well, and it can be got at afterwards. -/
structure Confines (action : Run α) (machine : Machine) (value? : α → Option Value) : Prop where
  names : ∀ frame, machine.Has (.frame frame) → ¬ machine.Near (.frame frame) →
    (action.last machine).frames.names frame = machine.frames.names frame
  fields : ∀ id, machine.Has (.instance id) → ¬ machine.Near (.instance id) →
    (action.last machine).instances[id]? = machine.instances[id]?
  bound : ∀ frame name value, ((action.last machine).frames.names frame).get? name = some value →
    (machine.frames.names frame).get? name = some value ∨
      ∀ object, value.object? = some object → machine.Knows (action.last machine) object
  stored : ∀ (id : InstanceId) (found : Instance) (name : String) (value : Value),
    (action.last machine).instances[id]? = some found → found.fields.get? name = some value →
    (∃ older : Instance, machine.instances[id]? = some older ∧ older.fields.get? name = some value) ∨
      ∀ object, value.object? = some object → machine.Knows (action.last machine) object
  refers : ∀ holder object, (action.last machine).Refers holder object →
    machine.Refers holder object ∨ machine.Knows (action.last machine) object
  ended : ∀ result after value, action machine = .ok result after → value? result = some value →
    Offers machine after value ∧ ∀ object, value.object? = some object → machine.Knows after object

theorem Stays.last {origin : Machine} (stays : Stays origin action machine P) :
    origin.Passes machine (action.last machine) := by
  unfold Stays at stays
  unfold Run.last
  cases ended : action machine with
  | ok value after =>
    rw [ended] at stays
    exact stays.1
  | error halt after =>
    rw [ended] at stays
    exact stays

theorem Stays.restores {origin : Machine} (stays : Stays origin action machine P) : action.Restores machine := by
  have passes := stays.last
  have nested := passes.underway.settled.nested
  exact ⟨passes.current, passes.confined.frames.chain, passes.confined.frames.names,
    fun _ _ linked => nested.older_of_link? linked, fun _ present => nested.getLast?_chain present⟩

theorem Stays.confines {value? : α → Option Value} (stays : Stays machine action machine P)
    (offers : ∀ result after value, P result after → value? result = some value → Offers machine after value) :
    action.Confines machine value? := by
  have passes := stays.last
  have settled := passes.underway.settled
  have outside {object : Object} (there : machine.Has object) (far : ¬ machine.Near object) : ¬ machine.Ground object :=
    fun ground => ground.elim far fun absent => absent there
  have known {after : Machine} {object : Object} (inside : after.OnGround machine object) :
      machine.Knows after object := inside.1.imp_right fun absent => ⟨absent, inside.2⟩
  -- Of what changes on the ground it is enough to know that nothing there leads away from it.
  have led {holder object : Object} (refers : (action.last machine).Refers holder object)
      (ground : machine.Ground holder) : machine.Knows (action.last machine) object :=
    known ⟨settled.closed holder object refers ground, settled.linked holder object refers⟩
  refine ⟨fun frame there far => passes.confined.names frame (outside there far),
    fun id there far => passes.confined.fields id (outside there far), fun frame name value held => ?_,
    fun id found name value there held => ?_, fun holder object refers => ?_, fun result after value ended is => ?_⟩
  · by_cases ground : machine.Ground (.frame frame)
    · exact .inr fun object is => led (.bound held is) ground
    · exact .inl (by rwa [passes.confined.names frame ground] at held)
  · by_cases ground : machine.Ground (.instance id)
    · exact .inr fun object is => led (.field there held is) ground
    · exact .inl ⟨found, by rwa [passes.confined.fields id ground] at there, held⟩
  · exact (passes.confined.refers holder object refers).imp_right fun ⟨_, inside⟩ => known inside
  · obtain ⟨passes', holds⟩ := stays.of_ok ended
    have offered := offers result after value holds is
    exact ⟨offered, fun object stands => known (passes'.underway.onGround (offered object stands))⟩

end Run

namespace Moment

variable {origin machine : Machine} {rounds room : Nat} {part : Moment}

/-- The values that a task comes with are on the ground. -/
def Given (origin machine : Machine) : Task → Prop
  | .call _ callee arguments => machine.Allows origin callee ∧ ∀ value ∈ arguments, machine.Allows origin value
  | .activate _ function arguments =>
    machine.OnGround origin (.frame function.closure) ∧ ∀ value ∈ arguments, machine.Allows origin value
  | _ => True

/-- A moment in the course of what has started on a machine. -/
structure Underway (origin : Machine) (moment : Moment) : Prop where
  machine : origin.Underway moment.machine
  given : Given origin moment.machine moment.task

theorem underway_of_leaves {α : Type} {action : Run α} {P : α → Machine → Prop} {task? : α → Option Task}
    (stays : Stays origin action machine P) (leaves : action.Leaves machine task? part)
    (given : ∀ value after, origin.Passes machine after → P value after → ∀ task, task? value = some task →
      Given origin after task) : part.Underway origin := by
  obtain ⟨value, ended, isLeft⟩ := leaves
  obtain ⟨passes, holds⟩ := stays.of_ok ended
  exact ⟨passes.underway, given value part.machine passes holds part.task isLeft⟩

/-- A new frame at hand, on the ground and with values on the ground. -/
theorem underway_inside (underway : origin.Underway machine) {enclosing : FrameId} {bindings : List (String × Value)}
    (inside : machine.OnGround origin (.frame enclosing))
    (allowed : ∀ entry ∈ bindings, machine.Allows origin entry.2) : origin.Underway (machine.inside enclosing bindings) := by
  have opens := stays_openFrame underway inside allowed
  unfold Stays at opens
  obtain ⟨passes, created, _⟩ := opens
  exact ⟨passes.underway.settled, .inr created.1, created.2⟩

theorem underway_of_expr {expr : Expr Distance} (underway : origin.Underway machine)
    (leads : OfExpr rounds room machine part expr) : part.Underway origin := by
  have finding := (stays_on_ground origin rounds room).1
  cases expr with
  | literal value => cases leads
  | grouping inner | unary op sign inner | get inner name | read name note | this keyword note
  | super keyword note method =>
    obtain rfl := leads
    exact ⟨underway, trivial⟩
  | binary op left sign right | assign name note value =>
    rcases leads with rfl | leaves
    · exact ⟨underway, trivial⟩
    · refine underway_of_leaves (finding underway) leaves fun _ _ _ _ _ isLeft => ?_
      cases isLeft
      trivial
  | logical op left sign right | set object name value =>
    -- Whether anything is left depends on the first value.
    rcases leads with rfl | leaves
    · exact ⟨underway, trivial⟩
    · refine underway_of_leaves (finding underway) leaves fun _ _ _ _ _ isLeft => ?_
      split at isLeft <;> cases isLeft
      trivial
  | call callee paren arguments =>
    rcases leads with rfl | leaves | leaves
    · exact ⟨underway, trivial⟩
    · refine underway_of_leaves (finding underway) leaves fun _ _ _ _ _ isLeft => ?_
      cases isLeft
      trivial
    · have both : Stays origin (do
          let callee ← eval .byDistance rounds room callee
          return (callee, ← values (eval .byDistance rounds room) arguments)) machine fun results after =>
            after.Allows origin results.1 ∧ ∀ value ∈ results.2, after.Allows origin value := by
        apply Stays.bind (finding underway)
        intro value _ passes offers
        apply Stays.bind (stays_values finding passes.underway)
        intro results _ passes' allowed
        exact Stays.pure passes'.underway ⟨passes'.confined.allows (passes.underway.allows offers), allowed⟩
      refine underway_of_leaves both leaves fun _ _ _ holds _ isLeft => ?_
      cases isLeft
      exact holds

theorem underway_of_stmt {stmt : Stmt Distance} (underway : origin.Underway machine)
    (leads : OfStmt rounds room machine part stmt) : part.Underway origin := by
  have finding := (stays_on_ground origin rounds room).1
  cases stmt with
  | expression value | print value | whileLoop condition body =>
    obtain rfl := leads
    exact ⟨underway, trivial⟩
  | varDecl name initial | returnStmt name initial =>
    cases initial with
    | none => cases leads
    | some value =>
      obtain rfl := leads
      exact ⟨underway, trivial⟩
  | block body =>
    obtain rfl := leads
    exact ⟨underway_inside underway underway.inside (by simp), trivial⟩
  | ifThen condition accepted =>
    rcases leads with rfl | leaves
    · exact ⟨underway, trivial⟩
    · refine underway_of_leaves (finding underway) leaves fun _ _ _ _ _ isLeft => ?_
      split at isLeft <;> cases isLeft
      trivial
  | ifElse condition accepted rejected =>
    rcases leads with rfl | leaves
    · exact ⟨underway, trivial⟩
    · refine underway_of_leaves (finding underway) leaves fun _ _ _ _ _ isLeft => ?_
      cases isLeft
      trivial
  | funDecl declaration => cases leads
  | classDecl name superclass methods =>
    rcases superclass with _ | ⟨parent, note⟩
    · cases leads
    · obtain rfl := leads
      exact ⟨underway, trivial⟩

/-- What one task preserves. -/
theorem Underway.leads {moment : Moment} (underway : moment.Underway origin) (leads : moment.Leads rounds part) :
    part.Underway origin := by
  obtain ⟨task, machine⟩ := moment
  obtain ⟨underway, given⟩ := underway
  cases task with
  | evaluate room expr =>
    cases room with
    | zero => cases leads
    | succ room => exact underway_of_expr underway leads
  | execute room stmt =>
    cases room with
    | zero => cases leads
    | succ room => exact underway_of_stmt underway leads
  | evaluateAll room exprs =>
    cases exprs with
    | nil => cases leads
    | cons first rest =>
      rcases leads with rfl | leaves
      · exact ⟨underway, trivial⟩
      · refine underway_of_leaves ((stays_on_ground origin rounds room).1 underway) leaves fun _ _ _ _ _ isLeft => ?_
        cases isLeft
        trivial
  | executeAll room body =>
    cases body with
    | nil => cases leads
    | cons first rest =>
      rcases leads with rfl | leaves
      · exact ⟨underway, trivial⟩
      · refine underway_of_leaves ((stays_on_ground origin rounds room).2 underway) leaves fun flow _ _ _ _ isLeft => ?_
        cases flow <;> cases isLeft
        trivial
  | loop room left condition body =>
    obtain ⟨finding, keeping⟩ := stays_on_ground origin rounds room
    cases left with
    | zero => cases leads
    | succ left =>
      rcases leads with rfl | leaves | leaves
      · exact ⟨underway, trivial⟩
      · refine underway_of_leaves (finding underway) leaves fun _ _ _ _ _ isLeft => ?_
        split at isLeft <;> cases isLeft
        trivial
      · refine underway_of_leaves (stays_round finding keeping condition body underway) leaves
          fun ending _ _ _ _ isLeft => ?_
        cases ending <;> cases isLeft
        trivial
  | read name note | assign name note value | superAndThis note => cases leads
  | call room callee arguments =>
    obtain ⟨callable, allowed⟩ := given
    cases callee with
    | function id =>
      refine underway_of_leaves (stays_function underway (callable _ rfl)) leads.2
        fun function _ passes closure _ isLeft => ?_
      cases isLeft
      exact ⟨closure, fun value member => passes.confined.allows (allowed value member)⟩
    | «class» id =>
      refine underway_of_leaves (stays_prepare underway (callable _ rfl)) leads.2
        fun prepared _ passes ⟨_, closes⟩ _ isLeft => ?_
      obtain ⟨initializer, found, rfl⟩ := Option.map_eq_some_iff.mp isLeft
      exact ⟨closes initializer found, fun value member => passes.confined.allows (allowed value member)⟩
    | _ => cases leads
  | activate room function arguments =>
    obtain rfl := leads
    exact ⟨underway_inside underway given.1 fun entry member => given.2 _ (List.of_mem_zip member).2, trivial⟩

/-- What a whole run preserves. -/
theorem Underway.run {moment later : Moment} (underway : moment.Underway origin)
    (leads : Relation.ReflTransGen (Leads rounds) moment later) : later.Underway origin := by
  induction leads with
  | refl => exact underway
  | tail _ step ih => exact ih.leads step

end Moment

end Lox

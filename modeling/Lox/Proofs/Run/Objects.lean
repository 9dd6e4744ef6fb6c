import Lox.Machine
import Lox.Proofs.Run.Bonds

/-!
The objects of a running program, and which of them lead to which. What an execution can get at from the frame that it
starts in, or from the global frame, is near; together with what is made in its course that is the ground on which it
works. Each change to the store that keeps to this ground leaves all else as it is.
-/
namespace Lox

/-- What lives in a store. -/
inductive Object where
  | frame (id : FrameId)
  | function (id : FunctionId)
  | class (id : ClassId)
  | instance (id : InstanceId)
  deriving DecidableEq

/-- The object that a value stands for, if there is one. -/
def Value.object? : Value → Option Object
  | .function id => some (.function id)
  | .class id => some (.class id)
  | .instance id => some (.instance id)
  | _ => none

namespace Frames

/-- Frames nest: one is around all others, and each of those is right inside an older one. -/
structure Nested (frames : Frames) : Prop where
  root : frames.chain globalFrame = [globalFrame]
  inside : ∀ frame < frames.all.size, frame ≠ globalFrame →
    ∃ enclosing < frame, frames.chain frame = frame :: frames.chain enclosing

variable {frames : Frames} {frame link : FrameId}

theorem Nested.sized (nested : frames.Nested) : globalFrame < frames.all.size := (lt_size_of_chain nested.root).1

theorem chain_eq_cons (present : frame < frames.all.size) : ∃ outer, frames.chain frame = frame :: outer :=
  ⟨frames.all[frame].outer, by simp [chain, Array.getElem?_eq_getElem present]⟩

theorem link?_one_of_chain {enclosing : FrameId} (present : enclosing < frames.all.size)
    (chain : frames.chain frame = frame :: frames.chain enclosing) : frames.link? frame 1 = some enclosing := by
  obtain ⟨outer, same⟩ := chain_eq_cons present
  rw [link?, chain, same]
  rfl

/-- The frame around another one is older. -/
theorem Nested.older_of_link? (nested : frames.Nested) (linked : frames.link? frame 1 = some link) :
    link < frame ∧ frames.chain frame = frame :: frames.chain link := by
  by_cases present : frame < frames.all.size
  · by_cases isGlobal : frame = globalFrame
    · rw [link?, isGlobal, nested.root] at linked
      cases linked
    · obtain ⟨enclosing, older, chain⟩ := nested.inside frame present isGlobal
      rw [link?_one_of_chain (Nat.lt_trans older present) chain, Option.some.injEq] at linked
      exact linked ▸ ⟨older, chain⟩
  · simp [link?, chain, Array.getElem?_eq_none (Nat.not_lt.mp present)] at linked

/-- Whichever frame one starts from, outward one comes to the global frame. -/
theorem Nested.getLast?_chain (nested : frames.Nested) (present : frame < frames.all.size) :
    (frames.chain frame).getLast? = some globalFrame := by
  induction frame using Nat.strongRecOn with
  | _ frame ih =>
    by_cases isGlobal : frame = globalFrame
    · rw [isGlobal, nested.root]
      rfl
    · obtain ⟨enclosing, older, chain⟩ := nested.inside frame present isGlobal
      have ends := ih enclosing older (Nat.lt_trans older present)
      rw [chain, List.getLast?_cons, ends]
      rfl

end Frames

namespace Store

/-- The object is in the store. -/
def Has (store : Store) : Object → Prop
  | .frame id => id < store.frames.all.size
  | .function id => id < store.functions.size
  | .class id => id < store.classes.size
  | .instance id => id < store.instances.size

/-- One object leads to another: a frame to the one around it and to what it binds, a function to its closure, a class
to its superclass and its methods, an instance to its class and to what its fields hold. -/
inductive Refers (store : Store) : Object → Object → Prop
  | enclosing {frame link : FrameId} (linked : store.frames.link? frame 1 = some link) :
    Refers store (.frame frame) (.frame link)
  | bound {frame : FrameId} {name : String} {value : Value} {object : Object}
    (held : (store.frames.names frame).get? name = some value) (is : value.object? = some object) :
    Refers store (.frame frame) object
  | closure {id : FunctionId} {function : Function} (stored : store.functions[id]? = some function) :
    Refers store (.function id) (.frame function.closure)
  | superclass {id parent : ClassId} (inherits : store.Inherits id parent) : Refers store (.class id) (.class parent)
  | method {id : ClassId} {found : Class} {name : String} {method : FunctionId}
    (stored : store.classes[id]? = some found) (listed : found.methods.get? name = some method) :
    Refers store (.class id) (.function method)
  | owner {id : InstanceId} {found : Instance} (stored : store.instances[id]? = some found) :
    Refers store (.instance id) (.class found.owner)
  | field {id : InstanceId} {found : Instance} {name : String} {value : Value} {object : Object}
    (stored : store.instances[id]? = some found) (held : found.fields.get? name = some value)
    (is : value.object? = some object) : Refers store (.instance id) object

/-- Only what is in the store leads to anything. -/
theorem Refers.has {store : Store} {holder object : Object} (refers : store.Refers holder object) :
    store.Has holder := by
  have frame {id : FrameId} (there : ∃ found, store.frames.all[id]? = some found) : id < store.frames.all.size := by
    obtain ⟨found, held⟩ := there
    exact (Array.getElem?_eq_some_iff.mp held).1
  cases refers with
  | enclosing linked =>
    refine frame (Option.ne_none_iff_exists'.mp fun absent => ?_)
    simp [Frames.link?, Frames.chain, absent] at linked
  | bound held _ =>
    refine frame (Option.ne_none_iff_exists'.mp fun absent => ?_)
    simp [Frames.names, absent] at held
  | superclass inherits =>
    obtain ⟨found, stored, _⟩ := Option.bind_eq_some_iff.mp inherits
    exact (Array.getElem?_eq_some_iff.mp stored).1
  | closure stored | method stored _ | owner stored | field stored _ _ => exact (Array.getElem?_eq_some_iff.mp stored).1

/-- Objects lead on to others. -/
def LeadsTo (store : Store) : Object → Object → Prop := Relation.ReflTransGen store.Refers

variable {store : Store}

/-- If all that is lost are references of one object, and that leads to another object itself, then all that led to
the other object still do. -/
theorem LeadsTo.through {after : Store} {root hub object : Object} (path : store.LeadsTo root object)
    (kept : ∀ holder target, holder ≠ hub → store.Refers holder target → after.Refers holder target)
    (direct : after.LeadsTo hub object) : after.LeadsTo root object := by
  induction path using Relation.ReflTransGen.head_induction_on with
  | refl => exact .refl
  | @head holder target refers _ ih =>
    by_cases isHub : holder = hub
    · exact isHub ▸ direct
    · exact .head (kept holder target isHub refers) ih

/-- A frame leads to those around it. -/
theorem leadsTo_of_mem_chain (nested : store.frames.Nested) {frame link : FrameId}
    (member : link ∈ store.frames.chain frame) : store.LeadsTo (.frame frame) (.frame link) := by
  induction frame using Nat.strongRecOn with
  | _ frame ih =>
    by_cases present : frame < store.frames.all.size
    · by_cases isGlobal : frame = globalFrame
      · rw [isGlobal, nested.root, List.mem_singleton] at member
        rw [isGlobal, member]
        exact .refl
      · obtain ⟨enclosing, older, chain⟩ := nested.inside frame present isGlobal
        rw [chain, List.mem_cons] at member
        rcases member with rfl | further
        · exact .refl
        · have linked := Frames.link?_one_of_chain (Nat.lt_trans older present) chain
          exact .head (.enclosing linked) (ih enclosing older further)
    · simp [Frames.chain, Array.getElem?_eq_none (Nat.not_lt.mp present)] at member

/-- A class leads to the methods that are found for it. -/
theorem leadsTo_of_findMethod? (lineages : store.Lineages) {id : ClassId} {name : String} {method : FunctionId}
    (found : store.findMethod? id name = some method) : store.LeadsTo (.class id) (.function method) := by
  obtain ⟨link, member, listed⟩ := List.exists_of_findSome?_eq_some found
  obtain ⟨definition, stored, entry⟩ := Option.bind_eq_some_iff.mp listed
  have descends := (lineages.descends_of_mem_lineage member).1
  have path : store.LeadsTo (.class id) (.class link) := descends.lift Object.class fun _ _ => .superclass
  exact path.tail (.method stored entry)

end Store

namespace Machine

/-- Where a program starts from when it gets at something: the frame at hand, or the global one. -/
def Root (machine : Machine) (object : Object) : Prop :=
  object = .frame machine.current ∨ object = .frame globalFrame

/-- An object that a program can get at. -/
def Near (machine : Machine) (object : Object) : Prop := ∃ root, machine.Root root ∧ machine.LeadsTo root object

/-- The ground of what starts on a machine: what it can get at there, and all that is not there yet. -/
def Ground (origin : Machine) (object : Object) : Prop := origin.Near object ∨ ¬ origin.Has object

/-- An object that has been made since. -/
def Created (origin machine : Machine) (object : Object) : Prop := ¬ origin.Has object ∧ machine.Has object

/-- An object that can be got at on a later machine, also from what has been made since. -/
def Reached (origin machine : Machine) (object : Object) : Prop :=
  ∃ root, (machine.Root root ∨ Created origin machine root) ∧ machine.LeadsTo root object

/-- A value that stands for an object that can be got at, or for none. -/
def Offers (origin machine : Machine) (value : Value) : Prop :=
  ∀ object, value.object? = some object → Reached origin machine object

end Machine

namespace Store

variable {origin : Machine} {before middle after store : Store}

/-- An object of the store that is on the ground. -/
def OnGround (origin : Machine) (store : Store) (object : Object) : Prop := origin.Ground object ∧ store.Has object

/-- A value that stands for an object on the ground, or for none. -/
def Allows (origin : Machine) (store : Store) (value : Value) : Prop :=
  ∀ object, value.object? = some object → OnGround origin store object

theorem allows_of_none {value : Value} (none : value.object? = none) : Allows origin store value := by
  intro object is
  rw [none] at is
  cases is

/-- The invariant of stores: frames are nested, classes come after their superclasses, nothing leads to what is not
there, and from the ground nothing leads away. -/
structure Settled (origin : Machine) (store : Store) : Prop where
  nested : store.frames.Nested
  lineages : store.Lineages
  linked : ∀ holder object, store.Refers holder object → store.Has object
  closed : ∀ holder object, store.Refers holder object → origin.Ground holder → origin.Ground object
  grown : ∀ object, origin.Has object → store.Has object

/-- What is led to from the ground is on it. -/
theorem Settled.onGround_of_leadsTo (settled : Settled origin store) {root object : Object}
    (inside : OnGround origin store root) (path : store.LeadsTo root object) : OnGround origin store object := by
  induction path with
  | refl => exact inside
  | tail _ refers ih => exact ⟨settled.closed _ _ refers ih.1, settled.linked _ _ refers⟩

theorem Settled.onGround_of_refers (settled : Settled origin store) {holder object : Object}
    (inside : OnGround origin store holder) (refers : store.Refers holder object) : OnGround origin store object :=
  settled.onGround_of_leadsTo inside (.single refers)

/-- From one store to a later one, where the ground is kept to. -/
structure Confined (origin : Machine) (before after : Store) : Prop where
  frames : before.frames.Grow after.frames
  functions : ∀ (id : FunctionId) (function : Function), before.functions[id]? = some function →
    after.functions[id]? = some function
  classes : ∀ (id : ClassId) (found : Class), before.classes[id]? = some found → after.classes[id]? = some found
  instances : before.instances.size ≤ after.instances.size
  nested : ∀ frame < after.frames.all.size, before.frames.all.size ≤ frame →
    ∃ enclosing < frame, after.frames.chain frame = frame :: after.frames.chain enclosing
  lineages : ∀ (id : ClassId) (found : Class), after.classes[id]? = some found → before.classes.size ≤ id →
    found.ancestors = [] ∨ ∃ parent < id, found.ancestors = after.lineage parent
  names : ∀ frame, ¬ origin.Ground (.frame frame) → after.frames.names frame = before.frames.names frame
  fields : ∀ id, ¬ origin.Ground (.instance id) → after.instances[id]? = before.instances[id]?
  refers : ∀ holder object, after.Refers holder object → before.Refers holder object ∨
    (origin.Ground holder ∧ OnGround origin after object)

/-- What keeps all entries does not get shorter. -/
theorem size_le_of_kept {α : Type} {entries later : Array α}
    (kept : ∀ (id : Nat) (entry : α), entries[id]? = some entry → later[id]? = some entry) :
    entries.size ≤ later.size := by
  by_contra shorter
  have present : later.size < entries.size := Nat.lt_of_not_le shorter
  have there := (Array.getElem?_eq_some_iff.mp (kept _ _ (Array.getElem?_eq_getElem present))).1
  exact Nat.lt_irrefl _ there

namespace Confined

theorem has (confined : Confined origin before after) {object : Object} (present : before.Has object) :
    after.Has object := by
  cases object with
  | frame id => exact Nat.lt_of_lt_of_le present confined.frames.size
  | function id => exact Nat.lt_of_lt_of_le present (size_le_of_kept confined.functions)
  | «class» id => exact Nat.lt_of_lt_of_le present (size_le_of_kept confined.classes)
  | «instance» id => exact Nat.lt_of_lt_of_le present confined.instances

theorem onGround (confined : Confined origin before after) {object : Object} (inside : OnGround origin before object) :
    OnGround origin after object := ⟨inside.1, confined.has inside.2⟩

theorem allows (confined : Confined origin before after) {value : Value} (allowed : Allows origin before value) :
    Allows origin after value := fun object is => confined.onGround (allowed object is)

theorem lineage (confined : Confined origin before after) {id : ClassId} (present : id < before.classes.size) :
    after.lineage id = before.lineage id := by
  have stored : before.classes[id]? = some before.classes[id] := Array.getElem?_eq_getElem present
  rw [lineage_eq stored, lineage_eq (confined.classes id _ stored)]

theorem refl (origin : Machine) (store : Store) : Confined origin store store where
  frames := .refl _
  functions _ _ := id
  classes _ _ := id
  instances := Nat.le_refl _
  nested _ present new := absurd present (Nat.not_lt.mpr new)
  lineages _ _ stored new := absurd (Array.getElem?_eq_some_iff.mp stored).1 (Nat.not_lt.mpr new)
  names _ _ := rfl
  fields _ _ := rfl
  refers _ _ := .inl

theorem trans (first : Confined origin before middle) (second : Confined origin middle after) :
    Confined origin before after where
  frames := first.frames.trans second.frames
  functions id function stored := second.functions id function (first.functions id function stored)
  classes id found stored := second.classes id found (first.classes id found stored)
  instances := Nat.le_trans first.instances second.instances
  nested frame present new := by
    by_cases older : frame < middle.frames.all.size
    · obtain ⟨enclosing, inside, chain⟩ := first.nested frame older new
      refine ⟨enclosing, inside, ?_⟩
      rw [second.frames.chain frame older, second.frames.chain enclosing (Nat.lt_trans inside older), chain]
    · exact second.nested frame present (Nat.not_lt.mp older)
  lineages id found stored new := by
    by_cases older : id < middle.classes.size
    · have kept : middle.classes[id]? = some found := by
        rw [← stored, Array.getElem?_eq_getElem older, second.classes id _ (Array.getElem?_eq_getElem older)]
      rcases first.lineages id found kept new with none | ⟨parent, earlier, same⟩
      · exact .inl none
      · exact .inr ⟨parent, earlier, by rw [second.lineage (Nat.lt_trans earlier older), same]⟩
    · exact second.lineages id found stored (Nat.not_lt.mp older)
  names frame outside := (second.names frame outside).trans (first.names frame outside)
  fields id outside := (second.fields id outside).trans (first.fields id outside)
  refers holder object refers := by
    rcases second.refers holder object refers with older | ground
    · rcases first.refers holder object older with oldest | ⟨holds, ground⟩
      · exact .inl oldest
      · exact .inr ⟨holds, second.onGround ground⟩
    · exact .inr ground

/-- What keeps to the ground keeps the invariant. -/
theorem settled (confined : Confined origin before after) (settled : Settled origin before) :
    Settled origin after where
  nested := by
    refine ⟨(confined.frames.chain _ settled.nested.sized).trans settled.nested.root, fun frame present inner => ?_⟩
    by_cases older : frame < before.frames.all.size
    · obtain ⟨enclosing, inside, chain⟩ := settled.nested.inside frame older inner
      refine ⟨enclosing, inside, ?_⟩
      rw [confined.frames.chain frame older, confined.frames.chain enclosing (Nat.lt_trans inside older), chain]
    · exact confined.nested frame present (Nat.not_lt.mp older)
  lineages id found stored := by
    by_cases older : id < before.classes.size
    · have kept : before.classes[id]? = some found := by
        rw [← stored, Array.getElem?_eq_getElem older, confined.classes id _ (Array.getElem?_eq_getElem older)]
      rcases settled.lineages id found kept with none | ⟨parent, earlier, same⟩
      · exact .inl none
      · exact .inr ⟨parent, earlier, by rw [confined.lineage (Nat.lt_trans earlier older), same]⟩
    · exact confined.lineages id found stored (Nat.not_lt.mp older)
  linked holder object refers := by
    rcases confined.refers holder object refers with older | ⟨_, _, present⟩
    · exact confined.has (settled.linked holder object older)
    · exact present
  closed holder object refers ground := by
    rcases confined.refers holder object refers with older | ⟨_, reached, _⟩
    · exact settled.closed holder object older ground
    · exact reached
  grown object present := confined.has (settled.grown object present)

end Confined

section Changes

/-- What is not in the store yet is on the ground. -/
theorem Settled.ground_of_new (settled : Settled origin store) {object : Object} (new : ¬ store.Has object) :
    origin.Ground object :=
  .inr fun old => new (settled.grown object old)

theorem Has.withFrames {frames : Frames} {object : Object} (present : store.Has object)
    (size : store.frames.all.size ≤ frames.all.size) : Has { store with frames } object := by
  cases object with
  | frame id => exact Nat.lt_of_lt_of_le present size
  | _ => exact present

theorem Has.withInstances {instances : Array Instance} {object : Object} (present : store.Has object)
    (size : store.instances.size ≤ instances.size) : Has { store with instances } object := by
  cases object with
  | «instance» id => exact Nat.lt_of_lt_of_le present size
  | _ => exact present

/-- A change to the frames alone. -/
theorem Confined.withFrames {frames : Frames} (grow : store.frames.Grow frames)
    (nested : ∀ frame < frames.all.size, store.frames.all.size ≤ frame →
      ∃ enclosing < frame, frames.chain frame = frame :: frames.chain enclosing)
    (names : ∀ frame, ¬ origin.Ground (.frame frame) → frames.names frame = store.frames.names frame)
    (refers : ∀ frame object, Refers { store with frames } (.frame frame) object → store.Refers (.frame frame) object ∨
      (origin.Ground (.frame frame) ∧ OnGround origin store object)) :
    Confined origin store { store with frames } where
  frames := grow
  functions _ _ := id
  classes _ _ := id
  instances := Nat.le_refl _
  nested := nested
  lineages := (refl origin store).lineages
  names := names
  fields _ _ := rfl
  refers holder object step := by
    have made {frame : FrameId} (step : Refers { store with frames } (.frame frame) object) :=
      (refers frame object step).imp_right fun ⟨holds, ground, present⟩ =>
        And.intro holds (And.intro ground (present.withFrames grow.size))
    cases step with
    | enclosing linked => exact made (.enclosing linked)
    | bound held is => exact made (.bound held is)
    | closure stored => exact .inl (.closure stored)
    | superclass inherits => exact .inl (.superclass inherits)
    | method stored listed => exact .inl (.method stored listed)
    | owner stored => exact .inl (.owner stored)
    | field stored held is => exact .inl (.field stored held is)

variable {frame : FrameId} {name : String} {value : Value}

/-- A value on the ground is bound in a frame there. -/
theorem confined_define (ground : origin.Ground (.frame frame)) (allowed : Allows origin store value) :
    Confined origin store { store with frames := store.frames.define frame name value } := by
  refine .withFrames (Frames.grow_define _ _ _ _) (fun other present new => ?_) (fun other outside => ?_) ?_
  · simp only [Frames.define, Array.size_modify] at present
    exact absurd present (Nat.not_lt.mpr new)
  · exact Frames.names_define_of_ne _ (by rintro rfl; exact outside ground) name value
  · intro other object step
    cases step with
    | enclosing linked =>
      rw [Frames.link?, Frames.chain_define] at linked
      exact .inl (.enclosing linked)
    | @bound _ query found _ held is =>
      rcases Frames.bound_of_define held with ⟨rfl, _, rfl⟩ | held
      · exact .inr ⟨ground, allowed object is⟩
      · exact .inl (.bound held is)

theorem confined_defineAll (ground : origin.Ground (.frame frame)) {bindings : List (String × Value)}
    (allowed : ∀ entry ∈ bindings, Allows origin store entry.2) :
    Confined origin store { store with frames := store.frames.defineAll frame bindings } := by
  induction bindings generalizing store with
  | nil => exact .refl _ _
  | cons first rest ih =>
    have binds : Confined origin store { store with frames := store.frames.define frame first.1 first.2 } :=
      confined_define ground (allowed first List.mem_cons_self)
    refine binds.trans (ih fun entry member => ?_)
    exact binds.allows (allowed entry (List.mem_cons_of_mem _ member))

/-- A new frame inside one that is on the ground. -/
theorem confined_create (settled : Settled origin store) {enclosing : FrameId}
    (inside : OnGround origin store (.frame enclosing)) :
    Confined origin store { store with frames := (store.frames.create (some enclosing)).2 } := by
  obtain ⟨ground, present⟩ := inside
  have grow := Frames.grow_create store.frames enclosing
  have chain := Frames.chain_create_self store.frames enclosing
  have new : origin.Ground (.frame store.frames.all.size) := settled.ground_of_new (Nat.lt_irrefl _)
  have nests : (store.frames.create (some enclosing)).2.chain store.frames.all.size =
      store.frames.all.size :: (store.frames.create (some enclosing)).2.chain enclosing := by
    rw [grow.chain enclosing present]
    exact chain
  have sized : (store.frames.create (some enclosing)).2.all.size = store.frames.all.size + 1 := by simp [Frames.create]
  refine .withFrames grow (fun frame below above => ?_) (fun frame _ => Frames.names_create _ _) ?_
  · obtain rfl : frame = store.frames.all.size := by omega
    exact ⟨enclosing, present, nests⟩
  · intro frame object step
    cases step with
    | @enclosing _ link linked =>
      by_cases older : frame < store.frames.all.size
      · rw [Frames.link?, grow.chain frame older] at linked
        exact .inl (.enclosing linked)
      · by_cases isNew : frame = store.frames.all.size
        · subst isNew
          have there : enclosing < (store.frames.create (some enclosing)).2.all.size :=
            Nat.lt_of_lt_of_le present grow.size
          have outer := Frames.link?_one_of_chain there nests
          obtain rfl : enclosing = link := Option.some.inj (outer.symm.trans linked)
          exact .inr ⟨new, ground, present⟩
        · have beyond : (store.frames.create (some enclosing)).2.all.size ≤ frame := by
            rw [sized]
            exact Nat.lt_of_le_of_ne (Nat.not_lt.mp older) (Ne.symm isNew)
          simp [Frames.link?, Frames.chain, Array.getElem?_eq_none beyond] at linked
    | bound held is =>
      rw [Frames.names_create] at held
      exact .inl (.bound held is)

/-- A new frame that binds values on the ground. -/
theorem confined_openFrame (settled : Settled origin store) {enclosing : FrameId}
    (inside : OnGround origin store (.frame enclosing)) {bindings : List (String × Value)}
    (allowed : ∀ entry ∈ bindings, Allows origin store entry.2) :
    Confined origin store { store with frames := (store.frames.openFrame enclosing bindings).2 } := by
  have creates := confined_create settled inside
  have new : origin.Ground (.frame (store.frames.create (some enclosing)).1) :=
    settled.ground_of_new (Nat.lt_irrefl store.frames.all.size)
  exact creates.trans (confined_defineAll new fun entry member => creates.allows (allowed entry member))

/-- A new function that is closed over a frame on the ground. -/
theorem confined_addFunction (settled : Settled origin store) {function : Function}
    (inside : OnGround origin store (.frame function.closure)) :
    Confined origin store (store.addFunction function).2 where
  frames := .refl _
  functions := (extends_addFunction store function).functions
  classes _ _ := id
  instances := Nat.le_refl _
  nested := (Confined.refl origin store).nested
  lineages := (Confined.refl origin store).lineages
  names _ _ := rfl
  fields _ _ := rfl
  refers holder object step := by
    cases step with
    | enclosing linked => exact .inl (.enclosing linked)
    | bound held is => exact .inl (.bound held is)
    | @closure id found stored =>
      simp only [addFunction, Array.getElem?_push] at stored
      split at stored
      · rename_i isNew
        cases stored
        exact .inr ⟨settled.ground_of_new fun old => absurd isNew (Nat.ne_of_lt old), inside⟩
      · exact .inl (.closure stored)
    | superclass inherits => exact .inl (.superclass inherits)
    | method stored listed => exact .inl (.method stored listed)
    | owner stored => exact .inl (.owner stored)
    | field stored held is => exact .inl (.field stored held is)

/-- A method on the ground gets bound to an instance there. -/
theorem confined_bindMethod (settled : Settled origin store) {method : Function} {receiver : InstanceId}
    (closure : OnGround origin store (.frame method.closure)) (inside : OnGround origin store (.instance receiver)) :
    Confined origin store (store.bindMethod method receiver).2 := by
  let bindings : List (String × Value) := [("this", .instance receiver)]
  let opened : FrameId × Frames := store.frames.openFrame method.closure bindings
  have opens : Confined origin store { store with frames := opened.2 } := by
    refine confined_openFrame settled closure fun entry member object is => ?_
    rw [List.mem_singleton.mp member] at is
    cases is
    exact inside
  have chain : opened.2.chain opened.1 = opened.1 :: _ := Frames.chain_openFrame store.frames method.closure bindings
  have made : OnGround origin { store with frames := opened.2 } (.frame opened.1) :=
    ⟨settled.ground_of_new (Nat.lt_irrefl _), (Frames.lt_size_of_chain chain).1⟩
  have adds : Confined origin { store with frames := opened.2 }
      (Store.addFunction { store with frames := opened.2 } { method with closure := opened.1 }).2 :=
    confined_addFunction (opens.settled settled) made
  exact opens.trans adds

/-- A new class with a superclass and methods on the ground. -/
theorem confined_addClass (settled : Settled origin store) {parent : Option ClassId} {table : Table FunctionId}
    (above : ∀ id, parent = some id → OnGround origin store (.class id))
    (methods : ∀ query method, table.get? query = some method → OnGround origin store (.function method)) :
    Confined origin store (store.addClass ⟨name, (parent.map store.lineage).getD [], table⟩).2 := by
  let definition : Class := ⟨name, (parent.map store.lineage).getD [], table⟩
  let after : Store := (store.addClass definition).2
  have new : origin.Ground (.class store.classes.size) := settled.ground_of_new (Nat.lt_irrefl _)
  have classes (id : ClassId) (found : Class) (stored : store.classes[id]? = some found) :
      after.classes[id]? = some found := (keeps_addClass store definition).classes id found stored
  have cases {id : ClassId} {found : Class} (stored : after.classes[id]? = some found) :
      store.classes[id]? = some found ∨ id = store.classes.size ∧ found = definition := by
    simp only [after, addClass, Array.getElem?_push] at stored
    split at stored
    · exact .inr ⟨‹_›, (Option.some.inj stored).symm⟩
    · exact .inl stored
  have kept {id : ClassId} (present : id < store.classes.size) : after.lineage id = store.lineage id := by
    have stored : store.classes[id]? = some store.classes[id] := Array.getElem?_eq_getElem present
    rw [lineage_eq stored, lineage_eq (classes id _ stored)]
  refine ⟨.refl _, fun _ _ => id, classes, Nat.le_refl _, (Confined.refl origin store).nested,
    fun id found stored isNew => ?_, fun _ _ => rfl, fun _ _ => rfl, fun holder object step => ?_⟩
  · rcases cases stored with older | ⟨rfl, rfl⟩
    · exact absurd (Array.getElem?_eq_some_iff.mp older).1 (Nat.not_lt.mpr isNew)
    · cases parent with
      | none => exact .inl rfl
      | some id =>
        have present : id < store.classes.size := (above id rfl).2
        exact .inr ⟨id, present, (kept present).symm⟩
  · cases step with
    | enclosing linked => exact .inl (.enclosing linked)
    | bound held is => exact .inl (.bound held is)
    | closure stored => exact .inl (.closure stored)
    | @superclass id link inherits =>
      obtain ⟨found, stored, first⟩ := Option.bind_eq_some_iff.mp inherits
      rcases cases stored with older | ⟨rfl, rfl⟩
      · exact .inl (.superclass (Option.bind_eq_some_iff.mpr ⟨found, older, first⟩))
      · cases parent with
        | none => cases first
        | some parent =>
          obtain ⟨ground, present⟩ := above parent rfl
          have stored : store.classes[parent]? = some store.classes[parent] := Array.getElem?_eq_getElem present
          simp only [definition, Option.map_some, Option.getD_some, lineage_eq stored, List.head?_cons,
            Option.some.injEq] at first
          subst first
          exact .inr ⟨new, ground, Nat.lt_of_lt_of_le present (size_le_of_kept classes)⟩
    | @method id found query method stored listed =>
      rcases cases stored with older | ⟨rfl, rfl⟩
      · exact .inl (.method older listed)
      · exact .inr ⟨new, methods query method listed⟩
    | owner stored => exact .inl (.owner stored)
    | field stored held is => exact .inl (.field stored held is)

/-- A change to the instances alone. -/
theorem Confined.withInstances {instances : Array Instance} (size : store.instances.size ≤ instances.size)
    (fields : ∀ (id : InstanceId), ¬ origin.Ground (.instance id) → instances[id]? = store.instances[id]?)
    (refers : ∀ id object, Refers { store with instances } (.instance id) object → store.Refers (.instance id) object ∨
      (origin.Ground (.instance id) ∧ OnGround origin store object)) :
    Confined origin store { store with instances } where
  frames := .refl _
  functions _ _ := id
  classes _ _ := id
  instances := size
  nested := (refl origin store).nested
  lineages := (refl origin store).lineages
  names _ _ := rfl
  fields := fields
  refers holder object step := by
    have made {id : InstanceId} (step : Refers { store with instances } (.instance id) object) :=
      (refers id object step).imp_right fun ⟨holds, ground, present⟩ =>
        And.intro holds (And.intro ground (present.withInstances size))
    cases step with
    | enclosing linked => exact .inl (.enclosing linked)
    | bound held is => exact .inl (.bound held is)
    | closure stored => exact .inl (.closure stored)
    | superclass inherits => exact .inl (.superclass inherits)
    | method stored listed => exact .inl (.method stored listed)
    | owner stored => exact made (.owner stored)
    | field stored held is => exact made (.field stored held is)

/-- A new instance of a class on the ground. -/
theorem confined_addInstance (settled : Settled origin store) {owner : ClassId}
    (inside : OnGround origin store (.class owner)) : Confined origin store (store.addInstance owner).2 := by
  have new : origin.Ground (.instance store.instances.size) := settled.ground_of_new (Nat.lt_irrefl _)
  refine .withInstances (by simp) (fun id outside => ?_) fun id object step => ?_
  · have other : id ≠ store.instances.size := fun same => outside (same ▸ new)
    rw [Array.getElem?_push, if_neg other]
  · cases step with
    | owner stored =>
      simp only [Array.getElem?_push] at stored
      split at stored
      · cases stored
        exact .inr ⟨‹id = _› ▸ new, inside⟩
      · exact .inl (.owner stored)
    | field stored held is =>
      simp only [Array.getElem?_push] at stored
      split at stored
      · cases stored
        cases held
      · exact .inl (.field stored held is)

/-- A value on the ground is stored in an instance there. -/
theorem confined_setField {id : InstanceId} (ground : origin.Ground (.instance id))
    (allowed : Allows origin store value) : Confined origin store (store.setField id name value) := by
  refine .withInstances (by simp) (fun other outside => ?_) fun other object step => ?_
  · rw [Array.getElem?_modify, if_neg (by rintro rfl; exact outside ground)]
  · cases step with
    | owner stored =>
      rw [Array.getElem?_modify] at stored
      split at stored
      · obtain ⟨found, older, rfl⟩ := Option.map_eq_some_iff.mp stored
        have owned : store.Refers (.instance other) (.class found.owner) := .owner older
        exact .inl owned
      · exact .inl (.owner stored)
    | @field _ _ query _ _ stored held is =>
      rcases Store.held_of_setField stored held with ⟨rfl, _, rfl⟩ | ⟨earlier, older, held⟩
      · exact .inr ⟨ground, allowed object is⟩
      · exact .inl (.field older held is)

/-- Setting a field of one instance leaves what all other objects lead to. -/
theorem refers_setField_of_ne {id : InstanceId} {holder object : Object} (other : holder ≠ .instance id)
    (refers : store.Refers holder object) : (store.setField id name value).Refers holder object := by
  have same {link : InstanceId} (apart : Object.instance link ≠ .instance id) :
      (store.setField id name value).instances[link]? = store.instances[link]? := by
    rw [setField, Array.getElem?_modify, if_neg fun same => apart (congrArg _ same.symm)]
  cases refers with
  | enclosing linked => exact .enclosing linked
  | bound held is => exact .bound held is
  | closure stored => exact .closure stored
  | superclass inherits => exact .superclass inherits
  | method stored listed => exact .method stored listed
  | owner stored => exact .owner ((same other).trans stored)
  | field stored held is => exact .field ((same other).trans stored) held is

theorem refers_setField_self {id : InstanceId} {object : Object} (present : store.Has (.instance id))
    (is : value.object? = some object) : (store.setField id name value).Refers (.instance id) object := by
  have there : id < store.instances.size := present
  have stored : (store.setField id name value).instances[id]? =
      some ⟨store.instances[id].owner, store.instances[id].fields.set name value⟩ := by
    rw [setField, Array.getElem?_modify, if_pos rfl, Array.getElem?_eq_getElem there]
    rfl
  exact .field stored (Table.get?_set_self ..) is

end Changes

end Store

end Lox

import Lox.Proofs.Pairing.Diagonal
import Lox.Proofs.Pairing.Frames

/-!
Pairings that follow a plan for the names of the frames. They differ in what references correspond and in how
the second run looks names up.
-/
namespace Lox

namespace Access

variable {frame : Machine → FrameId} {name : Token} {machine : Machine} {value : Value}

theorem readFrom_apply : readFrom frame name machine = match machine.frames.lookup? (frame machine) name.lexeme with
    | some value => .ok value machine
    | none => .error (.fault ⟨.undefinedVariable name.lexeme, name⟩) machine := by
  simp only [readFrom, Run.reading, Bind.bind, EStateM.bind]
  cases machine.frames.lookup? (frame machine) name.lexeme <;> rfl

theorem assignFrom_apply : assignFrom frame name value machine =
    match machine.frames.holder? (frame machine) name.lexeme with
    | some holder => .ok () { machine with frames := machine.frames.define holder name.lexeme value }
    | none => .error (.fault ⟨.undefinedVariable name.lexeme, name⟩) machine := by
  simp only [assignFrom, Run.reading, Bind.bind, EStateM.bind]
  cases machine.frames.holder? (frame machine) name.lexeme <;> rfl

theorem readAt_apply {distance : Nat} {name : String} : readAt distance name machine =
    match machine.frames.getAt machine.current distance name with
    | .ok value => .ok value machine
    | .error cause => .error (.defect (.missing cause)) machine := by
  simp only [readAt, Run.reading, Bind.bind, EStateM.bind]
  cases machine.frames.getAt machine.current distance name <;> rfl

theorem assignAt_apply {distance : Nat} {name : String} : assignAt distance name value machine =
    match machine.frames.link? machine.current distance with
    | some frame => .ok () { machine with frames := machine.frames.define frame name value }
    | none => .error (.defect (.missing .frame)) machine := by
  simp only [assignAt, Run.reading, Bind.bind, EStateM.bind]
  cases machine.frames.link? machine.current distance <;> rfl

/-- `super` and `this`, one after the other. -/
theorem superAndThis_apply {keyword : Token} {distance : Nat} :
    byDistance.superAndThis keyword (some distance) machine =
      match machine.frames.getAt machine.current distance "super" with
      | .error cause => .error (.defect (.missing cause)) machine
      | .ok parent =>
        match machine.frames.getAt machine.current (distance - 1) "this" with
        | .error cause => .error (.defect (.missing cause)) machine
        | .ok receiver => .ok (parent, receiver) machine := by
  simp only [byDistance, Bind.bind, EStateM.bind, readAt_apply]
  cases machine.frames.getAt machine.current distance "super" with
  | error cause => rfl
  | ok parent =>
    simp only
    cases machine.frames.getAt machine.current (distance - 1) "this" <;> rfl

end Access

theorem Frames.held_of_getAt {frames : Frames} {frame : FrameId} {distance : Nat} {name : String} {value : Value}
    (found : frames.getAt frame distance name = .ok value) :
    ∃ link ∈ frames.chain frame, (frames.names link).get? name = some value := by
  unfold Frames.getAt at found
  split at found
  · cases found
  · rename_i link linked
    split at found
    · cases found
    · rename_i value' bound
      cases found
      exact ⟨link, List.mem_of_getElem? linked, bound⟩

/-- Two reads that find the same, or nothing. -/
theorem Pairing.reads_of_lookup {pairing : Pairing} {scene : pairing.Scene} {frame frame' : Machine → FrameId}
    {name name' : Token} (same : pairing.Same name name') (spelled : name'.lexeme = name.lexeme)
    (equal : scene.right.frames.lookup? (frame' scene.right) name.lexeme =
      scene.left.frames.lookup? (frame scene.left) name.lexeme) :
    (∃ value, scene.Held value ∧ Gives (Access.readFrom frame name) (Access.readFrom frame' name') scene value) ∨
      Halts (Access.readFrom frame name) (Access.readFrom frame' name') scene := by
  simp only [Gives, Halts, Access.readFrom_apply, spelled, equal]
  cases found : scene.left.frames.lookup? (frame scene.left) name.lexeme with
  | some value =>
    obtain ⟨holder, _, held⟩ := Option.bind_eq_some_iff.mp found
    exact .inl ⟨value, ⟨holder, _, held⟩, rfl, rfl⟩
  | none => exact .inr ⟨_, _, rfl, rfl, rfl, same⟩

/-- What a planned pairing leaves open. -/
structure Leaves where
  right : Access
  /-- The sorts of frames there are. -/
  Fair : Keys → Prop
  Same : Token → Token → Prop
  Reads : List Layer → Token × Distance → Token × Distance → Prop
  Assigns : List Layer → Token × Distance → Token × Distance → Prop
  Supers : List Layer → (Token × Distance) × Token → (Token × Distance) × Token → Prop

/-- The pairing of a plan. -/
def Leaves.pairing (leaves : Leaves) : Pairing where
  Around := List Layer
  Same := leaves.Same
  Reads := leaves.Reads
  Assigns := leaves.Assigns
  Supers := leaves.Supers
  Declares layers name name' after := leaves.Same name name' ∧ Layer.Declares layers name.lexeme name'.lexeme after
  Opens layers params params' inside := List.Forall₂ leaves.Same params params' ∧ ∃ keys : Keys, leaves.Fair keys ∧
    (∀ param ∈ params, keys.may param.lexeme) ∧
    params'.map Token.lexeme = (params.map Token.lexeme).map keys.other ∧
    inside = ⟨keys, params.map Token.lexeme⟩ :: layers
  Inherits layers hasSuperclass inside := inside = Layer.inherited hasSuperclass layers
  Binds layers _ _ inside := inside = .ofThis :: layers
  right := leaves.right
  World := Plan
  Later := Plan.Later
  State plan store store' := plan.Holds store.frames store'.frames ∧ ∀ frame, leaves.Fair (plan.keys frame)
  Stands := Plan.Stands
  Serves _ _ _ := True
  Closes _ _ _ := True

namespace Leaves

variable {leaves : Leaves}

/-- What is left to show of the references. -/
structure Lawful (leaves : Leaves) : Prop where
  fair : ∀ may, leaves.Fair (.only may)
  read : ∀ {scene : leaves.pairing.Scene} {layers reference reference'}, scene.Agrees → scene.At layers →
    leaves.Reads layers reference reference' →
    let action := Access.byDistance.read reference.1 reference.2
    let action' := leaves.right.read reference'.1 reference'.2
    (∃ value, scene.Held value ∧ Pairing.Gives action action' scene value) ∨ Pairing.Halts action action' scene
  superAndThis : ∀ {scene : leaves.pairing.Scene} {layers reference reference'}, scene.Agrees → scene.At layers →
    leaves.Supers layers reference reference' →
    let action := Access.byDistance.superAndThis reference.1.1 reference.1.2
    let action' := leaves.right.superAndThis reference'.1.1 reference'.1.2
    (∃ pair, scene.Held pair.2 ∧ Pairing.Gives action action' scene pair) ∨ Pairing.Halts action action' scene
  /-- An assignment is made in a frame that may have the name. -/
  assign : ∀ {scene : leaves.pairing.Scene} {layers reference reference'} (value : Value), scene.Agrees →
    scene.At layers → leaves.Assigns layers reference reference' →
    let action := Access.byDistance.assign reference.1 reference.2 value
    let action' := leaves.right.assign reference'.1 reference'.2 value
    (∃ frame, frame < scene.left.frames.all.size ∧ (scene.world.keys frame).may reference.1.lexeme ∧
      reference'.1.lexeme = (scene.world.keys frame).other reference.1.lexeme ∧
      action scene.left =
        .ok () { scene.left with frames := scene.left.frames.define frame reference.1.lexeme value } ∧
      action' scene.right =
        .ok () { scene.right with frames := scene.right.frames.define frame reference'.1.lexeme value }) ∨
    Pairing.Halts action action' scene

/-- Two assignments that find the global frame, or nothing. -/
theorem assigns_of_holder {scene : leaves.pairing.Scene} (agrees : scene.Agrees) {frame' : Machine → FrameId}
    {name name' : Token} (value : Value) (same : leaves.Same name name') (spelled : name'.lexeme = name.lexeme)
    (equal : scene.right.frames.holder? (frame' scene.right) name.lexeme =
      scene.left.frames.holder? globalFrame name.lexeme) :
    let action := Access.assignFrom (fun _ => globalFrame) name value
    let action' := Access.assignFrom frame' name' value
    (∃ frame, frame < scene.left.frames.all.size ∧ (scene.world.keys frame).may name.lexeme ∧
      name'.lexeme = (scene.world.keys frame).other name.lexeme ∧
      action scene.left = .ok () { scene.left with frames := scene.left.frames.define frame name.lexeme value } ∧
      action' scene.right = .ok () { scene.right with frames := scene.right.frames.define frame name'.lexeme value }) ∨
    Pairing.Halts action action' scene := by
  obtain ⟨holds, _⟩ := agrees.state
  simp only [Pairing.Halts, Access.assignFrom_apply, spelled, equal]
  cases found : scene.left.frames.holder? globalFrame name.lexeme with
  | some frame =>
    have member := List.mem_of_find?_eq_some found
    rw [holds.root] at member
    obtain rfl := List.mem_singleton.mp member
    have keys : scene.world.keys globalFrame = .all := holds.global
    refine .inl ⟨globalFrame, (Frames.lt_size_of_chain holds.root).1, ?_, ?_, rfl, rfl⟩
    · rw [keys]
      trivial
    · rw [keys]
      rfl
  | none => exact .inr ⟨_, _, rfl, rfl, rfl, same⟩

/-- A new frame with some names. -/
theorem openFrame {plan : Plan} {store store' : Store} {layers : List Layer} {frame : FrameId} {keys : Keys}
    {names : List String} {values : List Value} (holds : plan.Holds store.frames store'.frames)
    (fair : ∀ frame, leaves.Fair (plan.keys frame)) (stands : plan.Stands layers frame) (fairKeys : leaves.Fair keys)
    (may : ∀ name ∈ names, keys.may name) (enough : names.length = values.length) :
    ∃ later : Plan, plan.Later later ∧ later.Stands (⟨keys, names⟩ :: layers) store.frames.all.size ∧
      later.Holds (store.frames.openFrame frame (names.zip values)).2
        (store'.frames.openFrame frame ((names.map keys.other).zip values)).2 ∧
      ∀ frame, leaves.Fair (later.keys frame) := by
  have same := holds.same
  have root : plan.frames.chain globalFrame = [globalFrame] := same ▸ holds.root
  refine ⟨plan.opened frame keys names values, plan.later_opened _ _ _ _, ?_, holds.openFrame may values, fun other => ?_⟩
  · rw [← same]
    exact stands.openFrame root keys enough
  · simp only [Plan.opened, Plan.extend]
    split
    · exact fairKeys
    · exact fair other

theorem Lawful.pairing (lawful : leaves.Lawful) : leaves.pairing.Lawful where
  refl := Plan.Later.refl
  trans := Plan.Later.trans
  stands later stands := stands.mono later
  serves _ _ := trivial
  closes _ _ := trivial
  present := by
    rintro plan store store' layers frame ⟨holds, _⟩ stands
    exact holds.same ▸ stands.present
  read := lawful.read
  superAndThis agrees at_ supers := by
    obtain ⟨pair, held, gives⟩ | halts := lawful.superAndThis agrees at_ supers
    · exact .inl ⟨pair, held, gives, fun _ _ _ => trivial⟩
    · exact .inr halts
  assign := by
    intro scene layers reference reference' value agrees at_ assigns
    obtain ⟨frame, present, may, spelled, ended, ended'⟩ | halts := lawful.assign value agrees at_ assigns
    · refine .inl ⟨⟨scene.left.frames.define frame reference.1.lexeme value, scene.world.keys⟩, frame, ?_,
        ⟨?_, agrees.state.2⟩, ended, ended'⟩
      · have later := scene.world.later_define frame reference.1.lexeme value
        rwa [agrees.state.1.same] at later
      · have bound := agrees.state.1.define present may value
        rwa [← spelled] at bound
    · exact .inr halts
  declare := by
    rintro plan store store' layers after name name' frame value ⟨holds, fair⟩ stands ⟨_, declares⟩
    obtain ⟨bound, standing⟩ := holds.declare stands declares value
    refine ⟨_, ?_, standing, bound, fair⟩
    have later := plan.later_define frame name.lexeme value
    rwa [holds.same] at later
  declared := by
    rintro plan layers after name name' frame ⟨_, declares⟩ stands
    cases layers with
    | nil =>
      obtain ⟨_, rfl⟩ := declares
      exact stands
    | cons layer outer =>
      obtain ⟨_, _, rfl⟩ := declares
      exact stands.weaken fun query member => List.mem_cons_of_mem _ member
  params := by
    rintro layers params params' inside ⟨same, _⟩
    exact same.length_eq
  opens := by
    rintro plan store store' layers params params' inside frame values ⟨holds, fair⟩ stands
      ⟨_, keys, fairKeys, may, spelled, rfl⟩ enough
    have may' : ∀ query ∈ params.map Token.lexeme, keys.may query := by simpa using may
    have enough' : (params.map Token.lexeme).length = values.length := by simpa using enough
    have opened := openFrame holds fair stands fairKeys may' enough'
    rwa [← spelled] at opened
  plain := by
    rintro plan store store' layers inside frame _ stands rfl
    exact ⟨stands, trivial⟩
  inherits := by
    rintro plan store store' layers inside frame parent ⟨holds, fair⟩ stands rfl _
    have may : ∀ name ∈ ["super"], (Keys.only (· = "super")).may name := by simp [Keys.only]
    have enough : ["super"].length = [Value.class parent].length := rfl
    obtain ⟨later, moved, standing, state⟩ := openFrame holds fair stands (lawful.fair _) may enough
    exact ⟨later, moved, standing, trivial, state⟩
  addFunction state _ _ := ⟨_, .refl _, state⟩
  addClass _ state _ _ _ _ := ⟨_, .refl _, state⟩
  addInstance state _ _ := ⟨_, .refl _, trivial, state⟩
  setField _ _ _ state := ⟨_, .refl _, state⟩
  owner _ _ := trivial
  lineage _ _ _ := trivial
  bindMethod := by
    rintro plan store store' layers inside id found name method function function' receiver ⟨holds, fair⟩
      _ _ _ _ ⟨closed, _⟩ _ _ stands rfl
    have may : ∀ name ∈ ["this"], (Keys.only (· = "this")).may name := by simp [Keys.only]
    have enough : ["this"].length = [Value.instance receiver].length := rfl
    obtain ⟨later, moved, standing, state⟩ := openFrame holds fair stands (lawful.fair _) may enough
    obtain ⟨declaration', closure', isInitializer'⟩ := function'
    simp only at closed
    subst closed
    exact ⟨later, moved, standing, state⟩
  this := by
    rintro plan store store' ⟨holds, _⟩ frame
    simp only [Frames.getAt, holds.link?, holds.keyword (.inl rfl)]

end Leaves

end Lox

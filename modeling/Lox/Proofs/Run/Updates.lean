import Lox.Proofs.Pairing.Moments
import Lox.Proofs.Run.Receivers

/-!
Runs beside themselves, with an eye on the names that the frames around have got. At a place in a tree the names
that are ready there are known, scope by scope, and the frames that the place is reached in have them. A variable is
not ready in its own initialiser, although binding finds its scope there.
-/
namespace Lox

namespace Updates

/-- An assignment to a name that is ready in the scope at its distance, if it has one, or one of those that are
left out. -/
def Meets (excused : Token × Distance → Prop) (scopes : List (List String)) (reference : Token × Distance) : Prop :=
  Reaches scopes reference.1.lexeme reference.2 ∨ excused reference

/-- Both runs are the same. -/
def pairing (excused : Token × Distance → Prop) : Pairing where
  Around := List (List String)
  Same token token' := token' = token
  Reads _ reference reference' := reference' = reference
  Assigns scopes reference reference' := reference' = reference ∧ Meets excused scopes reference
  Supers _ reference reference' := reference' = reference
  Declares scopes name name' after := name' = name ∧ after = Place.declare [name.lexeme] scopes
  Opens scopes params params' inside := params' = params ∧ inside = params.map Token.lexeme :: scopes
  Inherits scopes hasSuperclass inside := inside = Run.superScopes hasSuperclass ++ scopes
  Binds scopes declaration declaration' inside := declaration' = declaration ∧ inside = ["this"] :: scopes
  right := .byDistance
  World := Frames
  Later := Frames.Grow
  State frames store store' := frames = store.frames ∧ frames = store'.frames ∧ globalFrame < frames.all.size
  Stands frames scopes frame := frames.Models scopes frame
  Serves _ _ _ := True
  Closes _ _ _ := True

variable {excused : Token × Distance → Prop}

theorem diagonal : (pairing excused).Diagonal where
  same same := same
  reads same := same
  assigns assigns := assigns.1
  supers same := same
  declares declares := declares.1
  opens opens := opens.1

theorem mirror {scene : (pairing excused).Scene} (agrees : scene.Agrees) : scene.left = scene.right :=
  agrees.mirror diagonal (agrees.state.1.symm.trans agrees.state.2.1)

/-- Every halt is like itself. -/
theorem alike_refl (halt : Halt) : (pairing excused).Alike halt halt := by
  cases halt <;> simp [Pairing.Alike, pairing]

/-- What `super` and `this` stand for is what some frames hold. -/
theorem superAndThis_cases (keyword : Token) (note : Distance) (machine : Machine) :
    (∃ pair frame query, (machine.frames.names frame).get? query = some pair.2 ∧
        Access.byDistance.superAndThis keyword note machine = .ok pair machine) ∨
      ∃ halt, Access.byDistance.superAndThis keyword note machine = .error halt machine := by
  cases note with
  | none => exact .inr ⟨_, rfl⟩
  | some distance =>
    rw [Access.superAndThis_apply]
    cases machine.frames.getAt machine.current distance "super" with
    | error cause => exact .inr ⟨_, rfl⟩
    | ok parent =>
      cases found : machine.frames.getAt machine.current (distance - 1) "this" with
      | error cause => exact .inr ⟨.defect (.missing cause), by simp only⟩
      | ok receiver =>
        obtain ⟨link, _, held⟩ := Frames.held_of_getAt found
        exact .inl ⟨(parent, receiver), link, _, held, by simp only⟩

/-- A frame that is opened grows the frames, and stands one scope further inside. -/
theorem opens {frames : Frames} {scopes : List (List String)} {frame : FrameId} (sized : globalFrame < frames.all.size)
    (models : frames.Models scopes frame) (bindings : List (String × Value)) :
    frames.Grow (frames.openFrame frame bindings).2 ∧
      (frames.openFrame frame bindings).2.Models (bindings.map Prod.fst :: scopes) frames.all.size ∧
      globalFrame < (frames.openFrame frame bindings).2.all.size := by
  have grow := Frames.grow_openFrame frames frame bindings
  exact ⟨grow, models.openFrame sized bindings, Nat.lt_of_lt_of_le sized grow.size⟩

theorem lawful : (pairing excused).Lawful where
  refl := Frames.Grow.refl
  trans := Frames.Grow.trans
  stands grow models := models.mono grow
  serves _ _ := trivial
  closes _ _ := trivial
  present := by
    rintro frames store _ scopes frame ⟨rfl, _⟩ models
    exact models.lt_size
  read := by
    rintro ⟨world, machine, machine'⟩ scopes ⟨name, note⟩ _ agrees _ rfl
    obtain rfl : machine = machine' := mirror agrees
    rcases Receivers.read_cases name note machine with ⟨value, frame, query, held, ended⟩ | ⟨halt, ended⟩
    · exact .inl ⟨value, ⟨frame, query, held⟩, ended, ended⟩
    · exact .inr ⟨halt, halt, ended, ended, alike_refl halt⟩
  superAndThis := by
    rintro ⟨world, machine, machine'⟩ scopes ⟨⟨keyword, note⟩, method⟩ _ agrees _ rfl
    obtain rfl : machine = machine' := mirror agrees
    rcases superAndThis_cases keyword note machine with ⟨pair, frame, query, held, ended⟩ | ⟨halt, ended⟩
    · exact .inl ⟨pair, ⟨frame, query, held⟩, ⟨ended, ended⟩, fun _ _ _ => trivial⟩
    · exact .inr ⟨halt, halt, ended, ended, alike_refl halt⟩
  assign := by
    rintro ⟨world, machine, machine'⟩ scopes ⟨name, note⟩ _ value agrees _ ⟨rfl, _⟩
    obtain rfl : machine = machine' := mirror agrees
    obtain ⟨same, _, sized⟩ := agrees.state
    have same : world = machine.frames := same
    subst same
    rcases Receivers.assign_cases name note value machine with ⟨frame, ended⟩ | ⟨halt, ended⟩
    · have grow := Frames.grow_define machine.frames frame name.lexeme value
      exact .inl ⟨_, frame, grow, ⟨rfl, rfl, Nat.lt_of_lt_of_le sized grow.size⟩, ended, ended⟩
    · exact .inr ⟨halt, halt, ended, ended, alike_refl halt⟩
  declare := by
    rintro frames store _ scopes _ _ name frame value ⟨rfl, same, sized⟩ models ⟨rfl, rfl⟩
    have grow := Frames.grow_define store.frames frame name.lexeme value
    refine ⟨_, grow, models.define name.lexeme value, rfl, ?_, Nat.lt_of_lt_of_le sized grow.size⟩
    simp only [same]
  declared := by
    rintro frames scopes _ _ name frame ⟨rfl, rfl⟩ models
    cases scopes with
    | nil => exact models
    | cons scope outer => exact models.weaken fun query member => List.mem_cons_of_mem _ member
  params opens := congrArg List.length opens.1.symm
  opens := by
    rintro frames store _ scopes _ params _ frame values ⟨rfl, same, sized⟩ models ⟨rfl, rfl⟩ enough
    obtain ⟨grow, standing, sized'⟩ := opens sized models ((params.map Token.lexeme).zip values)
    have names : ((params.map Token.lexeme).zip values).map Prod.fst = params.map Token.lexeme :=
      List.map_fst_zip (by simp [enough])
    rw [names] at standing
    exact ⟨_, grow, standing, rfl, by simp only [same], sized'⟩
  plain := by
    rintro frames store _ scopes _ frame _ models rfl
    exact ⟨models, trivial⟩
  inherits := by
    rintro frames store _ scopes _ frame parent ⟨rfl, same, sized⟩ models rfl _
    obtain ⟨grow, standing, sized'⟩ := opens sized models [("super", .class parent)]
    exact ⟨_, grow, standing, trivial, rfl, by simp only [same], sized'⟩
  addFunction state _ _ := ⟨_, .refl _, state⟩
  addClass _ state _ _ _ _ := ⟨_, .refl _, state⟩
  addInstance state _ _ := ⟨_, .refl _, trivial, state⟩
  setField _ _ _ state := ⟨_, .refl _, state⟩
  owner _ _ := trivial
  lineage _ _ _ := trivial
  bindMethod := by
    rintro frames store _ scopes _ id found name method function function' receiver ⟨rfl, same, sized⟩ _ _ _ _ alike
      _ _ models ⟨_, rfl⟩
    obtain rfl : function' = function := alike.eq diagonal
    obtain ⟨grow, standing, sized'⟩ := opens sized models [("this", .instance receiver)]
    refine ⟨_, grow, standing, rfl, ?_, sized'⟩
    simp only [Store.bindMethod, same]
    rfl
  this := by
    rintro frames store store' ⟨rfl, same, _⟩ frame
    rw [same]

end Updates

section Names

variable {frames : Frames} {frame : FrameId} {name : String} {machine : Machine} {rounds : Nat}

/-- No frame gets a name that it does not have. -/
def Frames.SameNames (before after : Frames) : Prop :=
  ∀ frame name, (after.names frame).contains name = (before.names frame).contains name

/-- A name that is bound already is only given another value. -/
theorem Frames.sameNames_define (bound : (frames.names frame).contains name = true) (value : Value) :
    frames.SameNames (frames.define frame name value) := by
  intro other query
  rw [Bool.eq_iff_iff, contains_define]
  constructor
  · rintro (older | ⟨rfl, _, rfl⟩)
    · exact older
    · exact bound
  · exact .inl

/-- An assignment without a distance finds its name in the global frame, or it fails. -/
theorem Access.sameNames_assignFrom (name : Token) (value : Value) :
    machine.frames.SameNames ((assignFrom (fun _ => globalFrame) name value).last machine).frames := by
  have applied : assignFrom (fun _ => globalFrame) name value machine = _ := assignFrom_apply
  cases found : machine.frames.holder? globalFrame name.lexeme with
  | none =>
    simp only [found] at applied
    rw [Run.last_of_error applied]
    exact fun _ _ => rfl
  | some holder =>
    simp only [found] at applied
    rw [Run.last_of_ok applied]
    have bound : (machine.frames.names holder).contains name.lexeme = true := by
      simpa using List.find?_some found
    exact Frames.sameNames_define bound value

/-- An assignment with a distance changes the frame there, if that has the name. -/
theorem Access.sameNames_assignAt {distance : Nat} {name : String} {value : Value}
    (linked : machine.frames.link? machine.current distance = some frame)
    (bound : (machine.frames.names frame).contains name = true) :
    machine.frames.SameNames ((assignAt distance name value).last machine).frames := by
  have applied : assignAt distance name value machine = _ := assignAt_apply
  simp only [linked] at applied
  rw [Run.last_of_ok applied]
  exact Frames.sameNames_define bound value

end Names

/-- An assignment that is not left out finds its name where it looks for it, and creates none. -/
theorem Updates.found_of_ready {excused : Token × Distance → Prop} {moment : Moment} {name : Token} {note : Distance}
    {value : Value} (ready : (pairing excused).Ready moment) (assigns : moment.task = .assign name note value)
    (rounds : Nat) : excused (name, note) ∨
      (∀ distance, note = some distance → ∃ frame,
        moment.machine.frames.link? moment.machine.current distance = some frame ∧
        (moment.machine.frames.names frame).contains name.lexeme = true) ∧
      moment.machine.frames.SameNames (moment.last rounds).frames := by
  obtain ⟨task, machine⟩ := moment
  cases assigns
  obtain ⟨⟨frames, _, _⟩, rfl, agrees, scopes, _, models, ⟨_, meets⟩, _⟩ := ready
  have models : frames.Models scopes _ := models
  rw [show frames = _ from agrees.state.1] at models
  rcases meets with reaches | leftOut
  · right
    cases note with
    | none => exact ⟨nofun, Access.sameNames_assignFrom name value⟩
    | some distance =>
      have declares := reaches distance rfl
      obtain ⟨frame, linked, _, _, bound⟩ := models.link declares.lt_length
      refine ⟨?_, Access.sameNames_assignAt linked (bound _ declares)⟩
      rintro _ ⟨⟩
      exact ⟨frame, linked, bound _ declares⟩
  · exact .inl leftOut

end Lox

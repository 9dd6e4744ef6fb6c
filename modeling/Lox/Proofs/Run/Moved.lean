import Lox.Proofs.Pairing.Planned
import Lox.Proofs.Tree.Moved

/-!
Running does not look at places. Two trees that differ only in where their tokens stand run alike, over frames that
are the same at all times; a fault is reported at the token that has moved.
-/
namespace Lox

theorem Scheme.MatchFunction.same {scheme : Scheme} {around : scheme.Around}
    {declaration declaration' : FunctionDecl Distance} (matching : scheme.MatchFunction around declaration declaration') :
    scheme.Same declaration.name declaration'.name := by
  cases matching with
  | mk same _ _ _ => exact same

namespace Places

variable {Moves : Token → Token → Prop}

/-- Trees correspond if their tokens have moved. -/
def scheme (Moves : Token → Token → Prop) : Scheme where
  Around := Unit
  Same := Moves
  Reads _ reference reference' := Moves reference.1 reference'.1 ∧ reference'.2 = reference.2
  Assigns _ reference reference' := Moves reference.1 reference'.1 ∧ reference'.2 = reference.2
  Supers _ reference reference' := reference'.1.2 = reference.1.2
  Declares _ name name' _ := Moves name name'
  Opens _ params params' _ := List.Forall₂ Moves params params'
  Inherits _ _ _ := True
  Binds _ _ _ _ := True

/-- The frames of both runs are the same. All that is to be known of them is how many there are. -/
def pairing (Moves : Token → Token → Prop) : Pairing where
  toScheme := scheme Moves
  right := .byDistance
  World := Nat
  Later earlier later := earlier ≤ later
  State count store store' := store'.frames = store.frames ∧ store.frames.all.size = count
  Stands count _ frame := frame < count
  Serves _ _ _ := True
  Closes _ _ _ := True

section Lookups

variable {name name' : Token} {note : Distance} {machine machine' : Machine} {value : Value}

/-- Reading a name from the same frames finds the same, or halts for the same reason. -/
theorem read_moved (spelled : name'.lexeme = name.lexeme) (frames : machine'.frames = machine.frames)
    (current : machine'.current = machine.current) :
    (∃ value frame, (machine.frames.names frame).get? name.lexeme = some value ∧
      Access.byDistance.read name note machine = .ok value machine ∧
      Access.byDistance.read name' note machine' = .ok value machine') ∨
    (∃ cause, Access.byDistance.read name note machine = .error (.defect cause) machine ∧
      Access.byDistance.read name' note machine' = .error (.defect cause) machine') ∨
    Access.byDistance.read name note machine = .error (.fault ⟨.undefinedVariable name.lexeme, name⟩) machine ∧
      Access.byDistance.read name' note machine' = .error (.fault ⟨.undefinedVariable name.lexeme, name'⟩) machine' := by
  cases note with
  | some distance =>
    have first : Access.byDistance.read name (some distance) machine = _ := Access.readAt_apply
    have second : Access.byDistance.read name' (some distance) machine' = _ := Access.readAt_apply
    rw [frames, current, spelled] at second
    rw [first, second]
    cases found : machine.frames.getAt machine.current distance name.lexeme with
    | ok value =>
      obtain ⟨frame, _, held⟩ := Frames.held_of_getAt found
      exact .inl ⟨value, frame, held, rfl, rfl⟩
    | error cause => exact .inr (.inl ⟨_, rfl, rfl⟩)
  | none =>
    have first : Access.byDistance.read name none machine = _ := Access.readFrom_apply
    have second : Access.byDistance.read name' none machine' = _ := Access.readFrom_apply
    rw [frames, spelled] at second
    rw [first, second]
    cases found : machine.frames.lookup? globalFrame name.lexeme with
    | some value =>
      obtain ⟨frame, _, held⟩ := Option.bind_eq_some_iff.mp found
      exact .inl ⟨value, frame, held, rfl, rfl⟩
    | none => exact .inr (.inr ⟨rfl, rfl⟩)

theorem assign_moved (spelled : name'.lexeme = name.lexeme) (frames : machine'.frames = machine.frames)
    (current : machine'.current = machine.current) :
    (∃ frame, Access.byDistance.assign name note value machine =
        .ok () { machine with frames := machine.frames.define frame name.lexeme value } ∧
      Access.byDistance.assign name' note value machine' =
        .ok () { machine' with frames := machine'.frames.define frame name'.lexeme value }) ∨
    (∃ cause, Access.byDistance.assign name note value machine = .error (.defect cause) machine ∧
      Access.byDistance.assign name' note value machine' = .error (.defect cause) machine') ∨
    Access.byDistance.assign name note value machine = .error (.fault ⟨.undefinedVariable name.lexeme, name⟩) machine ∧
      Access.byDistance.assign name' note value machine' =
        .error (.fault ⟨.undefinedVariable name.lexeme, name'⟩) machine' := by
  cases note with
  | some distance =>
    have first : Access.byDistance.assign name (some distance) value machine = _ := Access.assignAt_apply
    have second : Access.byDistance.assign name' (some distance) value machine' = _ := Access.assignAt_apply
    have link : machine'.frames.link? machine'.current distance = machine.frames.link? machine.current distance := by
      rw [frames, current]
    rw [first, second, link]
    cases machine.frames.link? machine.current distance with
    | some frame => exact .inl ⟨frame, rfl, rfl⟩
    | none => exact .inr (.inl ⟨_, rfl, rfl⟩)
  | none =>
    have first : Access.byDistance.assign name none value machine = _ := Access.assignFrom_apply
    have second : Access.byDistance.assign name' none value machine' = _ := Access.assignFrom_apply
    have holder : machine'.frames.holder? globalFrame name'.lexeme = machine.frames.holder? globalFrame name.lexeme := by
      rw [frames, spelled]
    rw [first, second, holder, spelled]
    cases machine.frames.holder? globalFrame name.lexeme with
    | some frame => exact .inl ⟨frame, rfl, rfl⟩
    | none => exact .inr (.inr ⟨rfl, rfl⟩)

end Lookups

theorem map_lexeme (places : Relocates Moves) {params params' : List Token}
    (moved : List.Forall₂ Moves params params') : params'.map Token.lexeme = params.map Token.lexeme := by
  induction moved with
  | nil => rfl
  | cons head _ ih => rw [List.map_cons, List.map_cons, ih, (places head).lexeme]

theorem size_define (frames : Frames) (frame : FrameId) (name : String) (value : Value) :
    (frames.define frame name value).all.size = frames.all.size := by
  simp [Frames.define]

theorem lawful (places : Relocates Moves) : (pairing Moves).Lawful where
  refl count := Nat.le_refl count
  trans first second := Nat.le_trans first second
  stands later present := Nat.lt_of_lt_of_le present later
  serves _ _ := trivial
  closes _ _ := trivial
  present := by
    rintro count store store' _ frame ⟨_, rfl⟩ stands
    exact stands
  read := by
    rintro ⟨count, machine, machine'⟩ _ ⟨name, note⟩ ⟨name', _⟩ agrees _ ⟨moved, rfl⟩
    rcases read_moved (places moved).lexeme agrees.state.1 agrees.current.symm with
      ⟨value, frame, held, ended, ended'⟩ | ⟨cause, ended, ended'⟩ | ⟨ended, ended'⟩
    · exact .inl ⟨value, ⟨frame, _, held⟩, ended, ended'⟩
    · exact .inr ⟨_, _, ended, ended', rfl⟩
    · exact .inr ⟨_, _, ended, ended', rfl, moved⟩
  superAndThis := by
    rintro ⟨count, machine, machine'⟩ _ ⟨⟨keyword, note⟩, method⟩ ⟨⟨keyword', note'⟩, method'⟩ agrees _
      (rfl : note' = note)
    have frames : machine'.frames = machine.frames := agrees.state.1
    have current : machine.current = machine'.current := agrees.current
    cases note' with
    | none => exact .inr ⟨_, _, rfl, rfl, rfl⟩
    | some distance =>
      have first : Access.byDistance.superAndThis keyword (some distance) machine = _ := Access.superAndThis_apply
      have second : Access.byDistance.superAndThis keyword' (some distance) machine' = _ := Access.superAndThis_apply
      rw [frames, ← current] at second
      cases above : machine.frames.getAt machine.current distance "super" with
      | error cause =>
        rw [above] at first second
        exact .inr ⟨_, _, first, second, rfl⟩
      | ok parent =>
        rw [above] at first second
        cases found : machine.frames.getAt machine.current (distance - 1) "this" with
        | error cause =>
          simp only [found] at first second
          exact .inr ⟨_, _, first, second, rfl⟩
        | ok receiver =>
          simp only [found] at first second
          obtain ⟨frame, _, held⟩ := Frames.held_of_getAt found
          exact .inl ⟨(parent, receiver), ⟨frame, _, held⟩, ⟨first, second⟩, fun _ _ _ => trivial⟩
  assign := by
    rintro ⟨count, machine, machine'⟩ _ ⟨name, note⟩ ⟨name', _⟩ value agrees _ ⟨moved, rfl⟩
    obtain ⟨frames, size⟩ := agrees.state
    have spelled := (places moved).lexeme
    rcases assign_moved spelled frames agrees.current.symm with
      ⟨frame, ended, ended'⟩ | ⟨cause, ended, ended'⟩ | ⟨ended, ended'⟩
    · refine .inl ⟨count, frame, Nat.le_refl _, ⟨?_, ?_⟩, ended, ended'⟩
      · simp only at frames spelled ⊢
        rw [frames, spelled]
      · exact (size_define _ _ _ _).trans size
    · exact .inr ⟨_, _, ended, ended', rfl⟩
    · exact .inr ⟨_, _, ended, ended', rfl, moved⟩
  declare := by
    rintro count store store' _ _ name name' frame value ⟨frames, size⟩ stands moved
    refine ⟨count, Nat.le_refl _, stands, ?_, (size_define _ _ _ _).trans size⟩
    simp only [frames, (places moved).lexeme]
  declared _ stands := stands
  params moved := List.Forall₂.length_eq moved
  opens := by
    rintro count store store' _ params params' _ frame values ⟨frames, rfl⟩ _ moved _
    refine ⟨store.frames.all.size + 1, Nat.le_succ _, Nat.lt_succ_self _, ?_, Pairing.size_openFrame _ _ _⟩
    simp only [frames, map_lexeme places moved]
  plain _ stands _ := ⟨stands, trivial⟩
  inherits := by
    rintro count store store' _ _ frame parent ⟨frames, rfl⟩ _ _ _
    refine ⟨store.frames.all.size + 1, Nat.le_succ _, Nat.lt_succ_self _, trivial, ?_, Pairing.size_openFrame _ _ _⟩
    simp only [frames]
  addFunction state _ _ := ⟨_, Nat.le_refl _, state⟩
  addClass _ state _ _ _ _ := ⟨_, Nat.le_refl _, state⟩
  addInstance state _ _ := ⟨_, Nat.le_refl _, trivial, state⟩
  setField _ _ _ state := ⟨_, Nat.le_refl _, state⟩
  owner _ _ := trivial
  lineage _ _ _ := trivial
  bindMethod := by
    rintro count store store' _ _ id found name method function function' receiver ⟨frames, rfl⟩ _ _ _ _ ⟨closed, _⟩
      _ _ _ _
    have made (store : Store) (function : Function) : (store.bindMethod function receiver).2.frames =
        (store.frames.openFrame function.closure [("this", .instance receiver)]).2 := rfl
    refine ⟨store.frames.all.size + 1, Nat.le_succ _, Nat.lt_succ_self _, ?_, ?_⟩
    · rw [made, made, frames, closed]
    · rw [made]
      exact Pairing.size_openFrame _ _ _
  this := by
    rintro count store store' ⟨frames, _⟩ frame
    rw [frames]

end Places

end Lox

import Lox.Proofs.Pairing.Sessions
import Lox.Proofs.Run.Keywords
import Lox.Proofs.Scope.Receivers

/-!
What `this` and `super` stand for over whole sessions. Sessions keep the frames, functions and classes that there
are, so a method that was bound to an instance in some run stays bound to it in all runs that follow.
-/
namespace Lox

/-- A frame has an instance for `this`. -/
def Store.HasThis (store : Store) (frame : FrameId) (receiver : InstanceId) : Prop :=
  (store.frames.names frame).get? "this" = some (.instance receiver)

/-- What a frame has for `this` stays. -/
theorem Store.Keeps.hasThis_iff {store after : Store} {frame : FrameId} {receiver : InstanceId}
    (keeps : store.Keeps after) (present : frame < store.frames.all.size) :
    after.HasThis frame receiver ↔ store.HasThis frame receiver := by
  unfold HasThis
  rw [keeps.frames.keyword frame present "this" (.inl rfl)]

namespace Receivers

/-- Between the runs of a session all bound methods are copies of methods, and the global frame has no keywords. -/
theorem hosts : pairing.Hosts .plain fun _ => True where
  lawful := lawful
  start := by
    have present : globalFrame < Store.initial.frames.all.size := by decide
    have bare : Store.initial.frames.Bare globalFrame := by
      rintro _ (rfl | rfl) <;> decide
    refine ⟨Store.initial, ⟨rfl, rfl, ?_⟩, present, fun _ => bare, nofun⟩
    constructor <;> simp [Store.initial]
  matching accepted _ := by
    obtain ⟨source, shaped, clean, rfl⟩ := Session.shaped_of_accepted? accepted
    exact ⟨.plain, matchProgram shaped clean⟩
  mirror := .inl rfl

end Receivers

namespace Session

/-- The sessions that come about from a session by running further texts, at any times. -/
inductive Follows (session : Session) : Session → Prop
  | refl : Follows session session
  | atTime {later : Session} (earlier : Follows session later) (now : Float) : Follows session (later.atTime now)
  | run {later : Session} (earlier : Follows session later) (text : String) : Follows session (later.run text).2

/-- The moments of the run of a program in a session. -/
def Comes (session : Session) (limits : Limits) (program : BoundProgram) : Moment → Prop :=
  Relation.ReflTransGen (Moment.Leads limits.rounds) ⟨.executeAll limits.room program, session.machine⟩

variable {session later : Session} {text : String} {program : BoundProgram} {limits : Limits} {moment : Moment}

theorem Follows.reachable (follows : session.Follows later) (reachable : session.Reachable) : later.Reachable := by
  induction follows with
  | refl => exact reachable
  | atTime _ now ih => exact ih.atTime now
  | run _ text ih => exact ih.run text

/-- A text that is accepted is prepared for. -/
theorem Reachable.ready (reachable : session.Reachable) (accepted : session.accepted? text = some program)
    (limits : Limits) : Receivers.pairing.Ready ⟨.executeAll limits.room program, session.machine⟩ := by
  obtain ⟨world, agrees, stands⟩ := Receivers.hosts.rooted (reachable.reachableBy fun _ => trivial)
  obtain ⟨next, matching⟩ := Receivers.hosts.matching accepted trivial
  have at_ : Receivers.pairing.Stands world .plain session.machine.current := by
    rw [reachable.sound.current]
    exact stands
  exact ⟨_, rfl, agrees, .plain, next, program, at_, matching⟩

/-- The execution of a program ends where its statements do. -/
theorem last_program (limits : Limits) (program : BoundProgram) (machine : Machine) :
    (Run.program .byDistance limits program).last machine =
      Moment.last limits.rounds ⟨.executeAll limits.room program, machine⟩ :=
  Run.last_bind_of_still fun flow _ => by cases flow <;> rfl

/-- What the execution of a program leaves is what its statements leave. -/
theorem toStore_execute (session : Session) (program : BoundProgram) : (session.execute program).2.machine.toStore =
    (Moment.last runLimits.rounds ⟨.executeAll runLimits.room program, session.machine⟩).toStore := by
  rw [← last_program]
  unfold execute Run.last
  split <;> simp_all

/-- The run of a text ends where its statements do. -/
theorem toStore_run (executes : session.dump = none) (accepted : session.accepted? text = some program) :
    (session.run text).2.machine.toStore =
      (Moment.last runLimits.rounds ⟨.executeAll runLimits.room program, session.machine⟩).toStore := by
  rw [run_of_accepted? executes accepted, toStore_execute]
  rfl

/-- A run keeps what there is. -/
theorem Reachable.keeps_run (reachable : session.Reachable) (text : String) :
    session.machine.toStore.Keeps (session.run text).2.machine.toStore := by
  rcases session.run_cases text with same | ⟨program, dump, accepted⟩
  · rw [same]
    exact .refl _
  · rw [toStore_run dump accepted]
    exact Receivers.keeps_of_ready (reachable.ready accepted runLimits)

theorem Follows.keeps (follows : session.Follows later) (reachable : session.Reachable) :
    session.machine.toStore.Keeps later.machine.toStore := by
  induction follows with
  | refl => exact .refl _
  | atTime _ _ ih => exact ih
  | run earlier text ih => exact ih.trans ((earlier.reachable reachable).keeps_run text)

/-- Whatever a run comes by is prepared for, and kept up to its end. -/
theorem Comes.ready (comes : session.Comes limits program moment) (reachable : session.Reachable)
    (accepted : session.accepted? text = some program) : Receivers.pairing.Ready moment ∧
      (moment.last limits.rounds).toStore.Keeps
        (Moment.last limits.rounds ⟨.executeAll limits.room program, session.machine⟩).toStore := by
  obtain ⟨ready, becomes⟩ := (reachable.ready accepted limits).run Receivers.lawful comes
  exact ⟨ready, Receivers.keeps_of_becomes becomes⟩

/-- What a session has at the end of a run it has in all that follow, at each moment of their runs at which there is
the frame. -/
theorem Follows.hasThis (follows : session.Follows later) (reachable : session.Reachable) {frame : FrameId}
    {receiver : InstanceId} (present : frame < session.machine.frames.all.size)
    (this : session.machine.HasThis frame receiver) : later.machine.HasThis frame receiver ∧
      ∀ text program limits other, later.accepted? text = some program → later.Comes limits program other →
        frame < other.machine.frames.all.size → other.machine.HasThis frame receiver := by
  have keeps := follows.keeps reachable
  have this' := (keeps.hasThis_iff present).mpr this
  refine ⟨this', fun text program limits other accepted comes present' => ?_⟩
  have reachable' := follows.reachable reachable
  obtain ⟨ready, kept⟩ := comes.ready reachable' accepted
  have ends : later.machine.Keeps (Moment.last limits.rounds ⟨.executeAll limits.room program, later.machine⟩).toStore :=
    Receivers.keeps_of_ready (reachable'.ready accepted limits)
  rw [← ((Receivers.keeps_of_ready ready).trans kept).hasThis_iff present']
  exact (ends.hasThis_iff (Nat.lt_of_lt_of_le present keeps.frames.size)).mpr this'

/-- What `this` and `super` mean at every moment of every run. All bound methods are copies of methods of a class that
the class of the instance descends from; `super` and the calls of initialisers are faithful; and when a method gets
bound, the frame that is made for it has the instance at all times of the run and of all runs that follow. -/
theorem receivers_keep_meaning (session : Session) (text : String) (program : BoundProgram) (limits : Limits)
    (moment : Moment) (reachable : session.Reachable) (accepted : session.accepted? text = some program)
    (comes : session.Comes limits program moment) :
    moment.machine.Bonded ∧ moment.Faithful limits.rounds ∧
      ∀ store owner method receiver, moment.Attaches limits.rounds store owner method receiver →
        store.Serves owner receiver ∧ (moment.last limits.rounds).HasThis store.frames.all.size receiver ∧
        (∀ other, session.Comes limits program other → store.frames.all.size < other.machine.frames.all.size →
          other.machine.HasThis store.frames.all.size receiver) ∧
        (limits = runLimits → session.dump = none → ∀ later, (session.run text).2.Follows later →
          later.machine.HasThis store.frames.all.size receiver ∧
          ∀ text' program' limits' other, later.accepted? text' = some program' → later.Comes limits' program' other →
            store.frames.all.size < other.machine.frames.all.size →
            other.machine.HasThis store.frames.all.size receiver) := by
  obtain ⟨ready, kept⟩ := comes.ready reachable accepted
  have bonded : moment.machine.Bonded := by
    obtain ⟨scene, same, agrees, _⟩ := ready
    exact same ▸ Receivers.bonded_of_agrees agrees
  have secure (part : Moment) (leads : Moment.Leads limits.rounds moment part) : part.Secure := by
    have sound := reachable.sound
    have first : Moment.Ready ⟨.executeAll limits.room program, session.machine⟩ :=
      ⟨sound.store, [], false, sound.models, safe_of_accepted? accepted⟩
    exact (first.run (comes.tail leads)).secure
  refine ⟨bonded, Receivers.faithful_of_ready ready secure, fun store owner method receiver attaches => ?_⟩
  -- The frame and what it has, at the end of the task and at that of the run.
  have bound := Receivers.keeps_of_attaches ready attaches
  obtain ⟨made, this⟩ := store.this_bindMethod method receiver
  have this' := (bound.hasThis_iff made).mpr this
  have ends := (bound.trans kept)
  have present := Nat.lt_of_lt_of_le made ends.frames.size
  have last := (ends.hasThis_iff made).mpr this
  refine ⟨Receivers.serves_of_attaches ready attaches, this', fun other comes' present' => ?_, ?_⟩
  · obtain ⟨ready', kept'⟩ := comes'.ready reachable accepted
    exact (((Receivers.keeps_of_ready ready').trans kept').hasThis_iff present').mp last
  · rintro rfl executes later follows
    rw [← toStore_run executes accepted] at last present
    exact follows.hasThis (reachable.run text) present last

/-- A program that calls a global without arguments. -/
def isCallOf (name : String) : Option BoundProgram → Bool
  | some [.expression (.call (.read token none) _ [])] => decide (token.lexeme = name)
  | _ => false

/-- The value of a class. -/
def isClass (id : ClassId) : Option Value → Bool
  | some (.class found) => decide (found = id)
  | _ => false

/-- An instance of a class that inherits its initialiser is made, in the run after the one that declares the class. -/
theorem receivers_keep_meaning_of_inherited :
    let first : Session := { reporter := {}, path := "a.lox", interactive := false }
    let session := (first.run "class A { init() {} } class B < A { init() { super.init(); } } class C < B {}").2
    ∃ program moment store method, session.accepted? "C();" = some program ∧
      session.Comes runLimits program moment ∧ moment.Attaches runLimits.rounds store 1 method 0 ∧
      store.Serves 1 0 ∧ ∀ later, (session.run "C();").2.Follows later →
        later.machine.HasThis store.frames.all.size 0 := by
  intro first session
  have opened : start {} "a.lox" false none = .ok first := by rfl
  have reachable : session.Reachable := .run (.start opened) _
  have passes : isCallOf "C" (session.accepted? "C();") = true := by decide +kernel
  have named : isClass 2 (session.machine.frames.lookup? globalFrame "C") = true := by decide +kernel
  have inherited : session.machine.lineage 2 = [2, 1, 0] ∧ session.machine.ownMethod? 2 "init" = none ∧
      session.machine.ownMethod? 1 "init" = some 1 ∧ session.machine.classArity 2 = 0 ∧
      session.machine.functions.size = 2 ∧ session.machine.instances.size = 0 := by decide +kernel
  obtain ⟨lineage, none, own, arity, functions, instances⟩ := inherited
  have dump : session.dump = .none := by decide +kernel
  have stored : session.machine.functions[1]? = some session.machine.functions[1] := Array.getElem?_eq_getElem _
  unfold isCallOf at passes
  split at passes
  · rename_i name paren accepted
    have spelled := of_decide_eq_true passes
    unfold isClass at named
    split at named
    · rename_i id found
      obtain rfl := of_decide_eq_true named
      let tree : Expr Distance := .call (.read name .none) paren []
      have reads : Run.eval .byDistance runLimits.rounds 9998 (.read name .none) session.machine =
          .ok (.class 2) session.machine := by
        change Access.readFrom (fun _ => globalFrame) name session.machine = _
        rw [Access.readFrom_apply, spelled, found]
      have executes : Moment.Leads runLimits.rounds ⟨.executeAll 10000 [.expression tree], session.machine⟩
          ⟨.execute 10000 (.expression tree), session.machine⟩ := .inl rfl
      have evaluates : Moment.Leads runLimits.rounds ⟨.execute 10000 (.expression tree), session.machine⟩
          ⟨.evaluate 9999 tree, session.machine⟩ := rfl
      have calls : Moment.Leads runLimits.rounds ⟨.evaluate 9999 tree, session.machine⟩
          ⟨.call 9998 (.class 2) [], session.machine⟩ := by
        refine .inr (.inr ⟨(.class 2, []), ?_, rfl⟩)
        simp only [Bind.bind, EStateM.bind, reads]
        rfl
      have comes : session.Comes runLimits [.expression tree] ⟨.call 9998 (.class 2) [], session.machine⟩ :=
        ((Relation.ReflTransGen.single executes).tail evaluates).tail calls
      have attaches : Moment.Attaches runLimits.rounds (session.machine.addInstance 2).2 1 session.machine.functions[1] 0
          ⟨.call 9998 (.class 2) [], session.machine⟩ := by
        refine ⟨arity.symm, ?_, [2], [0], 1, lineage, ?_, own, stored⟩
        · rw [← instances]
          rfl
        · rintro link member
          obtain rfl := List.mem_singleton.mp member
          exact none
      obtain ⟨_, _, meaning⟩ :=
        receivers_keep_meaning session "C();" _ runLimits _ reachable accepted comes
      obtain ⟨serves, _, _, follow⟩ := meaning _ _ _ _ attaches
      exact ⟨_, _, _, _, accepted, comes, attaches, serves, fun later follows => (follow rfl dump later follows).1⟩
    · cases named
  · cases passes

end Session

end Lox

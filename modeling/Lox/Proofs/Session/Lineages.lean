import Lox.Proofs.Run.Declared
import Lox.Proofs.Session.Confinement

/-!
Classes over whole sessions. However often a name is given to another class, superclass links only lead to classes that
were made before, and all that a class has it has from its declaration, for good.
-/
namespace Lox

namespace Store

/-- What the classes of a store are like. Superclass links come to an end and never come back, classes are what
declarations say, and methods are looked for along the links. -/
structure Ordered (declared : ClassDecl → Prop) (store : Store) : Prop where
  present : ∀ holder id, store.Refers holder (.class id) → id < store.classes.size
  onward : ∀ id, ¬ Relation.TransGen store.Inherits id id
  ends : ∀ id < store.classes.size, ∃ links, store.Chain id links ∧ links.Nodup
  made : ∀ id < store.classes.size, ∃ declaration, declared declaration ∧ store.Made id declaration
  looks : ∀ id name, store.findMethod? id name =
    (store.ownMethod? id name).or ((store.superclass? id).bind (store.findMethod? · name))
  finds : ∀ id links name, store.Chain id links → store.Finds id name links

/-- A class is the same in two stores. -/
structure SameClass (before after : Store) (id : ClassId) : Prop where
  entry : after.classes[id]? = before.classes[id]?
  methods : ∀ name entry, before.ownMethod? id name = some entry → after.functions[entry]? = before.functions[entry]?
  superclass : after.superclass? id = before.superclass? id
  finds : ∀ name, after.findMethod? id name = before.findMethod? id name

variable {declared : ClassDecl → Prop} {store before after last : Store} {id : ClassId}

theorem Lineages.findMethod?_eq (lineages : store.Lineages) (id : ClassId) (name : String) :
    store.findMethod? id name =
      (store.ownMethod? id name).or ((store.superclass? id).bind (store.findMethod? · name)) := by
  cases held : store.classes[id]? with
  | none => simp [findMethod?, lineage, ownMethod?, superclass?, held]
  | some found =>
    have looked : store.findMethod? id name =
        (store.ownMethod? id name).or (found.ancestors.findSome? (store.ownMethod? · name)) := by
      change (store.lineage id).findSome? (store.ownMethod? · name) = _
      rw [lineage_eq held, List.findSome?_cons]
      cases store.ownMethod? id name <;> rfl
    rw [looked]
    rcases lineages.inherits held with none | ⟨parent, _, inherits, same⟩
    · rw [superclass?_eq held, none]
      rfl
    · rw [Inherits] at inherits
      rw [inherits, same]
      rfl

theorem ordered_of (proper : store.Proper) (holds : store.Declared declared) : store.Ordered declared where
  present holder id refers := proper.linked holder _ refers
  onward id above := Nat.lt_irrefl id (proper.lineages.lt_of_above above)
  ends id present := ⟨_, proper.lineages.chain present, (proper.lineages.chain present).nodup proper.lineages⟩
  made := holds.classes
  looks := proper.lineages.findMethod?_eq
  finds id links name chain := by
    refine proper.lineages.finds (fun id present => ?_) chain name
    obtain ⟨declaration, _, made⟩ := holds.classes id present
    exact ⟨declaration, made⟩

/-- What declares the classes of a later store declares those of an earlier one. -/
theorem Declared.of_keeps (holds : after.Declared declared) (bonded : store.Bonded) (keeps : store.Keeps after) :
    store.Declared declared where
  bodies id function stored := holds.bodies id function (keeps.functions id function stored)
  classes id present := by
    have held : store.classes[id]? = some store.classes[id] := Array.getElem?_eq_getElem present
    have present' := (Array.getElem?_eq_some_iff.mp (keeps.classes id _ held)).1
    obtain ⟨declaration, isDeclared, made⟩ := holds.classes id present'
    exact ⟨declaration, isDeclared, made.of_keeps bonded keeps present⟩

/-- Classes stay the same. -/
theorem Bonded.sameClass (bonded : store.Bonded) (keeps : store.Keeps after) (present : id < store.classes.size) :
    store.SameClass after id := by
  have held : store.classes[id]? = some store.classes[id] := Array.getElem?_eq_getElem present
  have own {link : ClassId} (present : link < store.classes.size) (name : String) :
      after.ownMethod? link name = store.ownMethod? link name := by
    have held : store.classes[link]? = some store.classes[link] := Array.getElem?_eq_getElem present
    rw [ownMethod?_eq held, ownMethod?_eq (keeps.classes link _ held)]
  refine ⟨(keeps.classes id _ held).trans held.symm, fun name entry listed => ?_, keeps.superclass? held,
    fun name => ?_⟩
  · rw [ownMethod?_eq held] at listed
    obtain ⟨function, stored, _⟩ := bonded.methods id _ name entry held listed
    rw [stored, keeps.functions entry function stored]
  · change (after.lineage id).findSome? (after.ownMethod? · name) =
      (store.lineage id).findSome? (store.ownMethod? · name)
    rw [keeps.lineage held]
    have chain := bonded.lineages.chain present
    have there (link : ClassId) (member : link ∈ store.lineage id) : link < store.classes.size :=
      (chain.le_of_mem bonded.lineages member).2
    generalize store.lineage id = links at there
    induction links with
    | nil => rfl
    | cons link rest ih =>
      rw [List.forall_mem_cons] at there
      rw [List.findSome?_cons, List.findSome?_cons, own there.1, ih there.2]

/-- Two stores that become one have the same classes. -/
theorem SameClass.meet (first : before.SameClass last id) (second : after.SameClass last id) :
    before.SameClass after id where
  entry := second.entry.symm.trans first.entry
  methods name entry listed := by
    have same : before.ownMethod? id name = after.ownMethod? id name := by
      unfold ownMethod?
      rw [← first.entry, ← second.entry]
    rw [← second.methods name entry (same ▸ listed), first.methods name entry listed]
  superclass := second.superclass.symm.trans first.superclass
  finds name := (second.finds name).symm.trans (first.finds name)

end Store

/-- A class declaration that is in some program. -/
def Program.Declares (programs : List BoundProgram) (declaration : ClassDecl) : Prop :=
  ∃ program ∈ programs, declaration ∈ Stmt.classesAll program

theorem Program.Declares.widen {programs more : List BoundProgram} {declaration : ClassDecl}
    (declares : Declares programs declaration) : Declares (more ++ programs) declaration := by
  obtain ⟨program, member, inside⟩ := declares
  exact ⟨program, List.mem_append_right _ member, inside⟩

namespace Session

open Run

variable {programs : List BoundProgram} {session later : Session} {text : String} {program : BoundProgram}
  {limits : Limits} {moment other : Moment} {id : ClassId}

/-- The statements of a program make classes of its own and of earlier ones. -/
theorem declared_last (holds : session.machine.toStore.Declared (Program.Declares programs)) (limits : Limits)
    (program : BoundProgram) :
    (Moment.last limits.rounds ⟨.executeAll limits.room program, session.machine⟩).toStore.Declared
      (Program.Declares (program :: programs)) := by
  have inside : ∀ declaration ∈ Stmt.classesAll program, Program.Declares (program :: programs) declaration :=
    fun declaration member => ⟨program, List.mem_cons_self, member⟩
  have wider : session.machine.toStore.Declared (Program.Declares ([program] ++ programs)) :=
    holds.widen fun _ declares => declares.widen
  exact upholds_sequence (upholds_run limits.rounds limits.room).2 inside session.machine wider

/-- All classes of a session are made by the programs that it has run. -/
theorem History.declared (history : session.History programs) :
    session.machine.toStore.Declared (Program.Declares programs) := by
  induction history with
  | start opened =>
    rw [machine_of_start opened]
    exact ⟨by simp [Machine.initial, Store.initial], by simp [Machine.initial, Store.initial]⟩
  | atTime _ _ ih => exact ih
  | @run programs session _ text ih =>
    rcases session.run_cases text with same | ⟨program, dump, accepted⟩
    · rw [same]
      exact ih.widen fun _ declares => declares.widen
    · rw [toStore_run dump accepted, accepted]
      exact declared_last ih runLimits program

/-- What there is at some moment of a run there is at its end. -/
theorem Comes.bonded_and_keeps (comes : session.Comes limits program moment) (reachable : session.Reachable)
    (accepted : session.accepted? text = some program) : moment.machine.Bonded ∧ moment.machine.toStore.Keeps
      (Moment.last limits.rounds ⟨.executeAll limits.room program, session.machine⟩).toStore := by
  obtain ⟨ready, keeps⟩ := comes.ready reachable accepted
  have kept := (Receivers.keeps_of_ready ready).trans keeps
  obtain ⟨scene, same, agrees, _⟩ := ready
  exact ⟨same ▸ Receivers.bonded_of_agrees agrees, kept⟩

/-- At every moment, all classes are made by these programs or by the one that is run. -/
theorem Comes.ordered (comes : session.Comes limits program moment) (history : session.History programs)
    (accepted : session.accepted? text = some program) :
    moment.machine.Ordered (Program.Declares (program :: programs)) := by
  obtain ⟨bonded, keeps⟩ := comes.bonded_and_keeps history.reachable accepted
  exact Store.ordered_of (comes.underway history.reachable).proper
    ((declared_last history.declared limits program).of_keeps bonded keeps)

/-- A class is the same at all moments of a run at which it is there. -/
theorem Comes.sameClass (comes : session.Comes limits program moment) (reachable : session.Reachable)
    (accepted : session.accepted? text = some program) (present : id < moment.machine.classes.size)
    (comes' : session.Comes limits program other) (present' : id < other.machine.classes.size) :
    moment.machine.SameClass other.machine.toStore id := by
  obtain ⟨bonded, keeps⟩ := comes.bonded_and_keeps reachable accepted
  obtain ⟨bonded', keeps'⟩ := comes'.bonded_and_keeps reachable accepted
  exact (bonded.sameClass keeps present).meet (bonded'.sameClass keeps' present')

/-- A class of some store stays the same in all sessions that keep the store, and at all moments of their runs. -/
theorem Follows.sameClass {store : Store} (bonded : store.Bonded) (present : id < store.classes.size)
    (keeps : store.Keeps session.machine.toStore) (reachable : session.Reachable) (follows : session.Follows later) :
    store.SameClass later.machine.toStore id ∧ ∀ text program limits other, later.accepted? text = some program →
      later.Comes limits program other → store.SameClass other.machine.toStore id := by
  have kept := keeps.trans (follows.keeps reachable)
  refine ⟨bonded.sameClass kept present, fun text program limits other accepted comes => ?_⟩
  have reachable' := follows.reachable reachable
  have ends : later.machine.Keeps
      (Moment.last limits.rounds ⟨.executeAll limits.room program, later.machine⟩).toStore :=
    Receivers.keeps_of_ready (reachable'.ready accepted limits)
  obtain ⟨bonded', keeps'⟩ := comes.bonded_and_keeps reachable' accepted
  have there : later.machine.Has (.class id) :=
    (Array.getElem?_eq_some_iff.mp (kept.classes id _ (Array.getElem?_eq_getElem present))).1
  have there' : other.machine.Has (.class id) := (comes.underway_start reachable').settled.grown _ there
  exact (bonded.sameClass (kept.trans ends) present).meet (bonded'.sameClass keeps' there')

/-- Classes and their methods, between the runs of a session and at every moment of each. Superclass links never come
back to a class and come to an end; a method is found in the first class along them whose declaration has one of that
name, the last one if there are several, and none is found if there is no such class. A class declaration makes a class
that is what it says, and that stays the same from then on. -/
theorem methods_found_along_lineages (session : Session) (programs : List BoundProgram) (text : String)
    (program : BoundProgram) (limits : Limits) (moment : Moment) (history : session.History programs)
    (accepted : session.accepted? text = some program) (comes : session.Comes limits program moment) :
    session.machine.Ordered (Program.Declares programs) ∧
      moment.machine.Ordered (Program.Declares (program :: programs)) ∧
      (∀ room name superclass methods flow after,
        moment.task = .execute room (.classDecl name superclass methods) →
        exec .byDistance limits.rounds room (.classDecl name superclass methods) moment.machine = .ok flow after →
        after.toStore.Made moment.machine.classes.size ⟨name, superclass, methods⟩) ∧
      ∀ id < moment.machine.classes.size,
        (∀ other, session.Comes limits program other → id < other.machine.classes.size →
          moment.machine.SameClass other.machine.toStore id) ∧
        (limits = runLimits → session.dump = none → ∀ later, (session.run text).2.Follows later →
          moment.machine.SameClass later.machine.toStore id ∧
          ∀ text' program' limits' other, later.accepted? text' = some program' → later.Comes limits' program' other →
            moment.machine.SameClass other.machine.toStore id) := by
  have reachable := history.reachable
  refine ⟨Store.ordered_of reachable.proper history.declared, comes.ordered history accepted, ?_,
    fun id present => ⟨?_, ?_⟩⟩
  · intro room name superclass methods flow after _ ended
    exact made_exec ended
  · intro other comes' present'
    exact comes.sameClass reachable accepted present comes' present'
  · rintro rfl executes later follows
    obtain ⟨bonded, keeps⟩ := comes.bonded_and_keeps reachable accepted
    rw [← toStore_run executes accepted] at keeps
    exact follows.sameClass bonded present keeps (reachable.run text)

/-- A class that inherits from one with two methods of a name, and goes on to do so when the name of the superclass is
given to another class. -/
theorem methods_found_along_lineages_of_redeclared :
    let first : Session := { reporter := {}, path := "a.lox", interactive := false }
    let session := (first.run "class A { m() { return 1; } m() { return 2; } } class B < A {}").2
    let text := "class A {}"
    ∃ programs program, session.History programs ∧ session.accepted? text = some program ∧
      session.Comes runLimits program ⟨.executeAll runLimits.room program, session.machine⟩ ∧
      session.machine.Ordered (Program.Declares programs) ∧ session.machine.Chain 1 [1, 0] ∧
      session.machine.Finds 1 "m" [1, 0] ∧ session.machine.findMethod? 1 "m" = some 1 ∧
      ∀ later, (session.run text).2.Follows later → later.machine.findMethod? 1 "m" = some 1 := by
  intro first session text
  have opened : start {} "a.lox" false none = .ok first := by rfl
  have history := (History.start opened).run "class A { m() { return 1; } m() { return 2; } } class B < A {}"
  have passes : (session.accepted? text).isSome = true := by decide +kernel
  obtain ⟨program, accepted⟩ := Option.isSome_iff_exists.mp passes
  have dump : session.dump = none := by decide +kernel
  have linked : session.machine.superclass? 1 = some 0 ∧ session.machine.superclass? 0 = none ∧
      session.machine.classes.size = 2 ∧ session.machine.findMethod? 1 "m" = some 1 := by decide +kernel
  obtain ⟨inherits, top, size, found⟩ := linked
  have present : 0 < session.machine.classes.size ∧ 1 < session.machine.classes.size := by
    rw [size]
    decide
  have chain : session.machine.Chain 1 [1, 0] := .link inherits (.last present.1 top)
  obtain ⟨ordered, _, _, same⟩ :=
    methods_found_along_lineages session _ text program runLimits _ history accepted .refl
  refine ⟨_, program, history, accepted, .refl, ordered, chain, ordered.finds 1 _ "m" chain, found, ?_⟩
  intro later follows
  have stays := ((same 1 present.2).2 rfl dump later follows).1
  rw [stays.finds, found]

end Session

end Lox

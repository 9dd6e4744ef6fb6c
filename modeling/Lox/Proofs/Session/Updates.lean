import Lox.Proofs.Scope.Updates
import Lox.Proofs.Session.Receivers

/-!
What assignments change over whole sessions. They give new values to names that are bound already, with one
exception: in the initialiser of a local variable an assignment to that variable binds it before its declaration does.
-/
namespace Lox

namespace Updates

/-- A session whose programs assign variables in their own initialisers only where that is left out. -/
theorem hosts (excused : Token × Distance → Prop) :
    (pairing excused).Hosts [] fun program => ∀ name, program.AssignsOwn name → excused (name, some 0) where
  lawful := lawful
  start := ⟨Store.initial.frames, ⟨rfl, rfl, by decide⟩, [], rfl, .nil⟩
  matching accepted leftOut := by
    obtain ⟨source, shaped, clean, rfl⟩ := Session.shaped_of_accepted? accepted
    exact matchProgram shaped clean leftOut
  mirror := .inl rfl

end Updates

namespace Session

variable {programs : List BoundProgram} {session : Session} {text : String} {program : BoundProgram} {limits : Limits}
  {moment : Moment} {name : Token} {note : Distance} {value : Value}

/-- Whatever a run comes by finds the names that are ready. -/
theorem Comes.finds {excused : Token × Distance → Prop} (comes : session.Comes limits program moment)
    (history : session.History programs) (accepted : session.accepted? text = some program)
    (leftOut : ∀ other ∈ program :: programs, ∀ name, other.AssignsOwn name → excused (name, some 0)) :
    (Updates.pairing excused).Ready moment := by
  rw [List.forall_mem_cons] at leftOut
  have hosts := Updates.hosts excused
  obtain ⟨world, agrees, stands⟩ := hosts.rooted (history.reachableBy leftOut.2)
  obtain ⟨next, matching⟩ := hosts.matching accepted leftOut.1
  have at_ : (Updates.pairing excused).Stands world [] session.machine.current := by
    rw [history.reachable.sound.current]
    exact stands
  have ready : (Updates.pairing excused).Ready ⟨.executeAll limits.room program, session.machine⟩ :=
    ⟨_, rfl, agrees, [], next, program, at_, matching⟩
  exact (ready.run Updates.lawful comes).1

/-- At every moment of every run an assignment finds its name bound where its distance leads, and no frame gets a new
name from it; one without a distance finds its name in the global frame or fails. Left out are only assignments to
local variables in their own initialisers, in this program or in one that the session has run before. -/
theorem assignments_update_bindings (history : session.History programs)
    (accepted : session.accepted? text = some program) (comes : session.Comes limits program moment)
    (assigns : moment.task = .assign name note value) :
    (note = some 0 ∧ ∃ other ∈ program :: programs, other.AssignsOwn name) ∨
      (∀ distance, note = some distance →
        ∃ frame, moment.machine.frames.link? moment.machine.current distance = some frame ∧
          (moment.machine.frames.names frame).contains name.lexeme = true) ∧
      moment.machine.frames.SameNames (moment.last limits.rounds).frames := by
  let excused (reference : Token × Distance) : Prop :=
    reference.2 = some 0 ∧ ∃ other ∈ program :: programs, other.AssignsOwn reference.1
  have ready : (Updates.pairing excused).Ready moment :=
    comes.finds history accepted fun other member name own => ⟨rfl, other, member, own⟩
  exact Updates.found_of_ready ready assigns limits.rounds

/-- `{ var a; { a = nil; } }` -/
def assignsOutward : Option BoundProgram → Bool
  | some [.block [.varDecl _ none, .block [.expression (.assign name (some 1) (.literal .nil))]]] =>
    decide (name.lexeme = "a")
  | _ => false

theorem assignments_update_bindings_of_outer :
    let session : Session := { reporter := {}, path := "a.lox", interactive := false }
    ∃ program moment name frame, session.accepted? "{ var a; { a = nil; } }" = some program ∧
      session.Comes runLimits program moment ∧ moment.task = .assign name (some 1) .nil ∧
      moment.machine.frames.link? moment.machine.current 1 = some frame ∧
      (moment.machine.frames.names frame).contains name.lexeme = true ∧
      moment.machine.frames.SameNames (moment.last runLimits.rounds).frames := by
  intro session
  have opened : start {} "a.lox" false none = .ok session := by rfl
  have passes : assignsOutward (session.accepted? "{ var a; { a = nil; } }") = true := by decide +kernel
  unfold assignsOutward at passes
  split at passes
  · rename_i target name accepted
    let tree : Expr Distance := .assign name (some 1) (.literal .nil)
    let outer := session.machine.inside session.machine.current []
    let declared := { outer with frames := outer.frames.define outer.current target.lexeme .nil }
    let inner := declared.inside declared.current []
    let blocks : BoundProgram := [.block [.varDecl target none, .block [.expression tree]]]
    have enters : session.Comes runLimits blocks ⟨.execute 10000 _, session.machine⟩ :=
      .tail (.refl : session.Comes runLimits blocks ⟨.executeAll 10000 blocks, session.machine⟩) (.inl rfl)
    have declares : session.Comes runLimits blocks ⟨.executeAll 9999 _, outer⟩ := enters.tail rfl
    have follows : session.Comes runLimits blocks ⟨.executeAll 9999 [.block [.expression tree]], declared⟩ :=
      declares.tail (.inr ⟨.next, rfl, rfl⟩)
    have nests : session.Comes runLimits blocks ⟨.execute 9999 (.block [.expression tree]), declared⟩ :=
      follows.tail (.inl rfl)
    have opens : session.Comes runLimits blocks ⟨.executeAll 9998 [.expression tree], inner⟩ := nests.tail rfl
    have executes : session.Comes runLimits blocks ⟨.execute 9998 (.expression tree), inner⟩ := opens.tail (.inl rfl)
    have evaluates : session.Comes runLimits blocks ⟨.evaluate 9997 tree, inner⟩ := executes.tail rfl
    have comes : session.Comes runLimits blocks ⟨.assign name (some 1) .nil, inner⟩ :=
      evaluates.tail (.inr ⟨.nil, rfl, rfl⟩)
    obtain ⟨outside, _⟩ | ⟨finds, same⟩ := assignments_update_bindings (.start opened) accepted comes rfl
    · cases outside
    · obtain ⟨frame, linked, bound⟩ := finds 1 rfl
      exact ⟨_, _, name, frame, accepted, comes, rfl, linked, bound, same⟩
  · cases passes

/-- `{ var a = a = nil; }` -/
def assignsItsOwn : Option BoundProgram → Bool
  | some [.block [.varDecl _ (some (.assign name (some 0) (.literal .nil)))]] => decide (name.lexeme = "a")
  | _ => false

/-- Assignments that lead to a scope do not only give new values to names that are bound already: this one is made in a
frame that does not have its name, and gives it the name. -/
theorem assignment_creates_binding :
    ∃ (session : Session) (program : BoundProgram) (moment : Moment) (name : Token) (frame : FrameId),
      session.Reachable ∧ session.accepted? "{ var a = a = nil; }" = some program ∧
      session.Comes runLimits program moment ∧ moment.task = .assign name (some 0) .nil ∧
      moment.machine.frames.link? moment.machine.current 0 = some frame ∧
      (moment.machine.frames.names frame).contains name.lexeme = false ∧
      ((moment.last runLimits.rounds).frames.names frame).contains name.lexeme = true := by
  let session : Session := { reporter := {}, path := "a.lox", interactive := false }
  have opened : start {} "a.lox" false none = .ok session := by rfl
  have passes : assignsItsOwn (session.accepted? "{ var a = a = nil; }") = true := by decide +kernel
  unfold assignsItsOwn at passes
  split at passes
  · rename_i target name accepted
    have spelled := of_decide_eq_true passes
    let tree : Expr Distance := .assign name (some 0) (.literal .nil)
    let outer := session.machine.inside session.machine.current []
    let block : BoundProgram := [.block [.varDecl target (some tree)]]
    have enters : session.Comes runLimits block ⟨.execute 10000 _, session.machine⟩ :=
      .tail (.refl : session.Comes runLimits block ⟨.executeAll 10000 block, session.machine⟩) (.inl rfl)
    have opens : session.Comes runLimits block ⟨.executeAll 9999 _, outer⟩ := enters.tail rfl
    have declares : session.Comes runLimits block ⟨.execute 9999 (.varDecl target (some tree)), outer⟩ :=
      opens.tail (.inl rfl)
    have evaluates : session.Comes runLimits block ⟨.evaluate 9998 tree, outer⟩ := declares.tail rfl
    have comes : session.Comes runLimits block ⟨.assign name (some 0) .nil, outer⟩ :=
      evaluates.tail (.inr ⟨.nil, rfl, rfl⟩)
    have linked : outer.frames.link? outer.current 0 = some 1 := by decide +kernel
    have unbound : (outer.frames.names 1).contains "a" = false := by decide +kernel
    refine ⟨session, _, _, name, 1, .start opened, accepted, comes, rfl, linked, ?_, ?_⟩
    · rw [spelled]
      exact unbound
    · have applied : Access.assignAt 0 name.lexeme .nil outer = _ := Access.assignAt_apply
      simp only [linked] at applied
      have last : Moment.last runLimits.rounds ⟨.assign name (some 0) .nil, outer⟩ = _ := Run.last_of_ok applied
      rw [last]
      exact (Frames.contains_define _ _ _ _).mpr (.inr ⟨rfl, by decide +kernel, rfl⟩)
  · cases passes

end Session

end Lox

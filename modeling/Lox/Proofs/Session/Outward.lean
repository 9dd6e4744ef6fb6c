import Lox.Proofs.Pairing.Sessions
import Lox.Proofs.Scope.Clear

/-!
Sessions whose programs hide no name from its references. There the distances that binding finds may as well be
thrown away.
-/
namespace Lox

namespace Outward

/-- The frame of the native functions. -/
theorem start : ∃ plan, leaves.pairing.State plan .initial .initial ∧ leaves.pairing.Stands plan [] globalFrame := by
  refine ⟨⟨Store.initial.frames, fun _ => .all⟩, ⟨⟨rfl, rfl, rfl, fun _ => rfl, fun frame => ?_, fun _ _ _ => trivial, rfl⟩,
    fun _ => rfl⟩, [], rfl, .nil⟩
  exact (Table.rekey_id _).symm

theorem hosts : leaves.pairing.Hosts [] BoundProgram.Clear where
  lawful := lawful.pairing
  start := start
  matching accepted clear := by
    obtain ⟨source, shaped, clean, rfl⟩ := Session.shaped_of_accepted? accepted
    exact ⟨[], matchProgram shaped clean clear⟩
  mirror := .inr mirror

end Outward

namespace Session

/-- Looking for every name outward from the frame at hand comes to the same as going by distances: a program in
which nothing stands between the references and what they refer to ends with the same result or the same halt,
on the same machine and with the same output, provided that the programs before it were of that kind too. -/
theorem search_outward_eq_distances (session : Session) (text : String) (program : BoundProgram) (limits : Limits)
    (reached : session.ReachableBy BoundProgram.Clear) (accepted : session.accepted? text = some program)
    (clear : program.Clear) :
    Run.program .byChain limits program session.machine = Run.program .byDistance limits program session.machine := by
  have hosts := Outward.hosts
  obtain ⟨next, matching⟩ := hosts.matching accepted clear
  have current := reached.reachable.sound.current
  obtain ⟨after, _, ended⟩ := hosts.runs (hosts.rooted reached) current matching limits
  obtain ⟨ended, ended'⟩ | ⟨halt, halt', ended, ended', alike⟩ := ended
  · rw [ended]
    exact ended'
  · rw [ended, ← alike.eq Outward.diagonal]
    exact ended'

/-- A counter that keeps its variable, and a method that calls the one it overrides, after a run that has
failed. -/
theorem search_outward_eq_distances_for_closures :
    let first : Session := { reporter := {}, path := "a.lox", interactive := false }
    let session := (first.run "nil();").2
    let text := "fun counter() { var n = 0; fun next() { n = n + 1; return n; } return next; }" ++
      "class A { m(k) { return k; } } class B < A { m(k) { return super.m(k) + this.d; } }" ++
      "{ var next = counter(); next(); var b = B(); b.d = next(); print b.m(next()); }"
    ∃ program, session.accepted? text = some program ∧ program.Clear ∧ ∀ limits : Limits,
      Run.program .byChain limits program session.machine = Run.program .byDistance limits program session.machine := by
  intro first session text
  have opened : start {} "a.lox" false none = .ok first := by rfl
  have earlier : (first.accepted? "nil();").all (decide ·.Clear) = true := by decide +kernel
  have passes : (session.accepted? text).any (decide ·.Clear) = true := by decide +kernel
  have reached : session.ReachableBy BoundProgram.Clear := by
    refine .run (.start opened) "nil();" fun program accepted => ?_
    rw [accepted] at earlier
    exact of_decide_eq_true earlier
  cases accepted : session.accepted? text with
  | none =>
    rw [accepted] at passes
    cases passes
  | some program =>
    rw [accepted] at passes
    have clear : program.Clear := of_decide_eq_true passes
    exact ⟨program, rfl, clear, fun limits =>
      search_outward_eq_distances session text program limits reached accepted clear⟩

end Session

end Lox

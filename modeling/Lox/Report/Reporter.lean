import Lox.Report

/-!
The reporter writes about problems and decides what a failure means for what goes on around it. A fatal
reporter ends the program, any other one lets it go on.
-/
namespace Lox.Report

open Text

structure Reporter where
  fatal : Bool := true
  ink : Ink := .plain
  sources : Sources := .empty

/-- What made an action fail. -/
inductive Failure where
  | interrupted
  | exit
  | tooDeep
  | problem (problem : Problem)
  | unknown (name text : String)

/-- What follows from a failure: it is dealt with, the program ends, or the failure goes on outward. -/
inductive Verdict where
  | settled
  | exit (status : Nat)
  | passedOn
  deriving DecidableEq, Repr

/-- What is written about a failure, and what follows from it. -/
structure Settlement where
  problem : Option Problem
  report : String
  verdict : Verdict

namespace Reporter

/-- The report on an error. -/
def report (reporter : Reporter) (problem : Problem) : String :=
  (describe reporter.sources .error problem.label problem).render reporter.ink ++ "\n"

/-- The report on something that is no error. -/
def warn (reporter : Reporter) (problem : Problem) : String :=
  (describe reporter.sources .warning "warning" problem).render reporter.ink ++ "\n"

/-- Reports a problem and ends the program if the reporter is fatal. -/
def raise (reporter : Reporter) (problem : Problem) (status : Nat) : Settlement where
  problem := some problem
  report := reporter.report problem
  verdict := if reporter.fatal then .exit status else .settled

/-- Deals with a failure. Leaving the program is passed on in silence; a failure of unknown origin is
reported as internal, and passed on if the program does not end with it. -/
def settle (reporter : Reporter) : Failure → Settlement
  | .interrupted => reporter.raise { message := [.plain "keyboard interrupt"], diagnosis := false } 130
  | .exit => ⟨none, "", .passedOn⟩
  | .tooDeep =>
    reporter.raise { message := [.plain "maximum recursion depth exceeded"], diagnosis := false } 70
  | .problem problem => reporter.raise problem 1
  | .unknown name text =>
    let raised := reporter.raise { message := [.plain s!"unknown error: '{name}: {text}'"], internal := true } 1
    match raised.verdict with
    | .settled => { raised with verdict := .passedOn }
    | _ => raised

end Reporter

end Lox.Report

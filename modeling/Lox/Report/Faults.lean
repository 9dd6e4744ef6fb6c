import Lox.Machine
import Lox.Parse.Reader
import Lox.Report.Problem
import Lox.Token.Scan

/-!
The faults of all stages of a program as problems that can be reported.
-/
namespace Lox

open Report

/-- A stretch of text that is no token is shown where it is, but not told in words. -/
def ScanFault.problem (fault : Located ScanFault) : Problem :=
  { message := [.plain fault.cause.message], site := some (.make .grammar (some fault.token) none (some "")) }

def SyntaxFault.problem (fault : Located SyntaxFault) : Problem :=
  .atToken .grammar fault.token [.plain fault.cause.message]

def ScopeFault.problem (fault : Located ScopeFault) : Problem :=
  .atToken .scope fault.token [.plain fault.cause.message]

def RuntimeFault.problem (fault : Located RuntimeFault) : Problem :=
  .atToken .runtime fault.token fault.cause.message

end Lox

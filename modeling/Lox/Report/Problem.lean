import Lox.Report.Template
import Lox.Token

/-!
Problems as they are reported: a message, and possibly the place in a program that it is about.
-/
namespace Lox.Report

open Text

/-- What sort of problem a place in a program has. -/
inductive Category where
  | general
  | grammar
  | scope
  | runtime
  deriving DecidableEq, Repr

def Category.label : Category → String
  | general | scope => "error"
  | grammar => "syntax error"
  | runtime => "runtime error"

/-- A place in a program. `place` is how a reader is told about it. -/
structure Site where
  category : Category
  token : Option Token
  line : Option Int
  place : String
  deriving Repr

namespace Site

/-- How a reader is told where a token is. -/
def placeOf : Option Token → String
  | none => ""
  | some token => if token.lexeme.isEmpty then "at end" else "at '" ++ token.lexeme ++ "'"

/-- The line is that of the token and the place is told after the token, unless they are given. -/
def make (category : Category) (token : Option Token) (line : Option Int) (place : Option String) : Site where
  category
  token
  line := line <|> token.map Token.line
  place := place.getD (placeOf token)

end Site

/-- A problem. `diagnosis` asks for the line of the program to be shown, and `internal` tells that the
problem is none of the program's. -/
structure Problem where
  message : Styled
  diagnosis : Bool := true
  internal : Bool := false
  site : Option Site := none
  deriving Repr

namespace Problem

/-- A problem at a token. -/
def atToken (category : Category) (token : Token) (message : Styled) : Problem :=
  { message, site := some (.make category (some token) none none) }

def line? (problem : Problem) : Option Int := problem.site.bind Site.line

def token? (problem : Problem) : Option Token := problem.site.bind Site.token

/-- What a report calls the problem. -/
def label (problem : Problem) : String :=
  match problem.site with
  | none => Category.general.label
  | some site => site.category.label

/-- How a reader is told where the problem is; empty if there is nothing to tell. -/
def place (problem : Problem) : String :=
  match problem.site with
  | none => ""
  | some site => site.place

end Problem

end Lox.Report

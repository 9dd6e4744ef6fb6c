/-!
Text in which some stretches stand out. The same text can be written plain, or for a terminal with the
escape sequences that switch a style on before a stretch and off after it. What those sequences are is taken
for granted: a program says which style it wants, and `Span.forTerminal` is what it is assumed to get for that.
-/
namespace Lox.Text

inductive Colour where
  | red
  | magenta
  deriving DecidableEq, Repr

/-- The terminal's number for a colour. -/
def Colour.code : Colour → Nat
  | red => 31
  | magenta => 35

/-- A stretch of text in one style. Coloured text is bold too. -/
inductive Span where
  | plain (text : String)
  | bold (text : String)
  | coloured (colour : Colour) (text : String)
  deriving DecidableEq, Repr

abbrev Styled := List Span

/-- A terminal's escape sequence for a style. -/
def escapeSequence (code : Nat) : String := s!"\x1b[{code}m"

namespace Span

def text : Span → String
  | plain text | bold text | coloured _ text => text

/-- A stretch for a terminal. A style is switched on and off even around no text at all. -/
def forTerminal : Span → String
  | plain text => text
  | bold text => escapeSequence 1 ++ text ++ escapeSequence 0
  | coloured colour text => escapeSequence 1 ++ escapeSequence colour.code ++ text ++ escapeSequence 0

end Span

/-- Whether styles are written. -/
inductive Ink where
  | plain
  | colour
  deriving DecidableEq, Repr

namespace Styled

/-- The text without its styles. -/
def text (styled : Styled) : String := String.join (styled.map Span.text)

/-- The text for a terminal. -/
def forTerminal (styled : Styled) : String := String.join (styled.map Span.forTerminal)

def render (ink : Ink) (styled : Styled) : String :=
  match ink with
  | .plain => text styled
  | .colour => forTerminal styled

end Styled

end Lox.Text

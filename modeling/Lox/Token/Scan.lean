import Lox.Token

/-!
Cutting a text into tokens. Every text is a sequence of pieces: tokens, faulty stretches, and gaps (single
blanks and comments). A piece is found by its first character and the number of characters it takes after
that, so that nothing of the text is lost, and its place follows from the pieces before it. A fault ends
nothing: the next piece starts right after it.
-/
namespace Lox

/-- What can be wrong with a stretch of text. -/
inductive ScanFault where
  | unexpectedCharacter
  | unterminatedString
  deriving DecidableEq, Repr

def ScanFault.message : ScanFault → String
  | unexpectedCharacter => "Unexpected character."
  | unterminatedString => "Unterminated string."

/-- What a piece of text is. -/
inductive Role where
  | token (kind : TokenKind) (literal : Option Literal)
  | fault (cause : ScanFault)
  | gap
  deriving Repr

structure Piece where
  text : List Char
  role : Role
  deriving Repr

namespace Scan

/-- A letter or underscore of ASCII, as names start with. -/
def isLetter (char : Char) : Bool :=
  ('a' ≤ char && char ≤ 'z') || ('A' ≤ char && char ≤ 'Z') || char == '_'

/-- A character that continues a name. -/
def isWord (char : Char) : Bool := isLetter char || Number.isDigit char

/-- Signs that stand alone whatever follows. -/
def single? : Char → Option TokenKind
  | '(' => some .leftParen
  | ')' => some .rightParen
  | '{' => some .leftBrace
  | '}' => some .rightBrace
  | ',' => some .comma
  | '.' => some .dot
  | '-' => some .minus
  | '+' => some .plus
  | ';' => some .semicolon
  | '*' => some .star
  | _ => none

/-- Signs that may take an equals sign: their kinds without and with it. -/
def double? : Char → Option (TokenKind × TokenKind)
  | '!' => some (.bang, .bangEqual)
  | '=' => some (.equal, .equalEqual)
  | '<' => some (.less, .lessEqual)
  | '>' => some (.greater, .greaterEqual)
  | _ => none

/-- Characters between tokens. -/
def isGap (char : Char) : Bool := char == ' ' || char == '\r' || char == '\t' || char == '\n'

/-- A string reaches to the next quote, across lines. Without one, the rest of the text is faulty. -/
def stringRole (rest : List Char) : Role × Nat :=
  let body := rest.takeWhile (· != '"')
  if body.length < rest.length then (.token .string (some (.string (String.ofList body))), body.length + 1)
  else (.fault .unterminatedString, rest.length)

/-- Number of characters that continue a number: digits, then possibly a point with digits after it. A
point without digits belongs to the next token. -/
def numberExtent (rest : List Char) : Nat :=
  let whole := (rest.takeWhile Number.isDigit).length
  match rest.drop whole with
  | '.' :: places =>
    let fraction := (places.takeWhile Number.isDigit).length
    if fraction = 0 then whole else whole + 1 + fraction
  | _ => whole

/-- What the text `first :: rest` starts with, and how many characters of `rest` belong to it. -/
def classify (first : Char) (rest : List Char) : Role × Nat :=
  if let some kind := single? first then (.token kind none, 0)
  else if let some (plain, withEqual) := double? first then
    if rest.head? = some '=' then (.token withEqual none, 1) else (.token plain none, 0)
  else if first = '/' then
    if rest.head? = some '/' then (.gap, (rest.takeWhile (· != '\n')).length) else (.token .slash none, 0)
  else if isGap first then (.gap, 0)
  else if first = '"' then stringRole rest
  else if Number.isDigit first then
    let extent := numberExtent rest
    (.token .number (some (.number (Number.read (first :: rest.take extent)))), extent)
  else if isLetter first then
    let word := rest.takeWhile isWord
    (.token (.ofWord (String.ofList (first :: word))) none, word.length)
  else (.fault .unexpectedCharacter, 0)

/-- The pieces of a text, in order. -/
def pieces : List Char → List Piece
  | [] => []
  | first :: rest =>
    let (role, extent) := classify first rest
    ⟨first :: rest.take extent, role⟩ :: pieces (rest.drop extent)
  termination_by text => text.length
  decreasing_by
    simp only [List.length_drop, List.length_cons]
    omega

/-- Nothing of the text is lost, and nothing is added. -/
theorem flatMap_text_pieces (text : List Char) : (pieces text).flatMap Piece.text = text := by
  fun_induction pieces text with
  | case1 => rfl
  | case2 first rest role extent classified ih => simp [ih]

/-- The pieces with the places they start at, the first one at `position`. -/
def locate (position : Position) : List Piece → List (Position × Piece)
  | [] => []
  | piece :: rest => (position, piece) :: locate (position.after piece.text) rest

/-- The token that a piece is, if it is one. -/
def token? : Position × Piece → Option Token
  | (position, ⟨text, .token kind literal⟩) => some ⟨kind, String.ofList text, literal, position⟩
  | _ => none

/-- The fault that a piece is, if it is one. The faulty text stands in the place of a token. -/
def fault? : Position × Piece → Option (Located ScanFault)
  | (position, ⟨text, .fault cause⟩) => some ⟨cause, ⟨.eof, String.ofList text, none, position⟩⟩
  | _ => none

end Scan

/-- Tokens and faults of a text, each in order of their places. `finish` marks the end of the text. -/
structure Scan where
  tokens : List Token
  finish : Token
  faults : List (Located ScanFault)
  deriving Repr

namespace Scan

/-- Scans a text whose first line has the number `line`. -/
def ofText (text : List Char) (line : Int) : Scan :=
  let start : Position := ⟨line, 0⟩
  let placed := locate start (pieces text)
  { tokens := placed.filterMap token?
    finish := ⟨.eof, "", none, start.after text⟩
    faults := placed.filterMap fault? }

/-- The tokens with the end mark after them. -/
def all (scan : Scan) : List Token := scan.tokens ++ [scan.finish]

end Scan

end Lox

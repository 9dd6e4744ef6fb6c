import Lox.Number
import Lox.Text.Quoted

/-!
Tokens: the words and signs of a program, each with its spelling, the value it denotes and the place
where it starts.
-/
namespace Lox

/-- What a token is, apart from its spelling. -/
inductive TokenKind where
  | leftParen | rightParen | leftBrace | rightBrace | comma | dot | minus | plus | semicolon | slash | star
  | bang | bangEqual | equal | equalEqual | greater | greaterEqual | less | lessEqual
  | identifier | string | number
  | andWord | classWord | elseWord | falseWord | funWord | forWord | ifWord | nilWord | orWord | printWord
  | returnWord | superWord | thisWord | trueWord | varWord | whileWord
  | eof
  deriving DecidableEq, Repr, Inhabited

namespace TokenKind

/-- The name under which a listing of tokens shows the kind. -/
def name : TokenKind → String
  | leftParen => "LEFT_PAREN"
  | rightParen => "RIGHT_PAREN"
  | leftBrace => "LEFT_BRACE"
  | rightBrace => "RIGHT_BRACE"
  | comma => "COMMA"
  | dot => "DOT"
  | minus => "MINUS"
  | plus => "PLUS"
  | semicolon => "SEMICOLON"
  | slash => "SLASH"
  | star => "STAR"
  | bang => "BANG"
  | bangEqual => "BANG_EQUAL"
  | equal => "EQUAL"
  | equalEqual => "EQUAL_EQUAL"
  | greater => "GREATER"
  | greaterEqual => "GREATER_EQUAL"
  | less => "LESS"
  | lessEqual => "LESS_EQUAL"
  | identifier => "IDENTIFIER"
  | string => "STRING"
  | number => "NUMBER"
  | andWord => "AND"
  | classWord => "CLASS"
  | elseWord => "ELSE"
  | falseWord => "FALSE"
  | funWord => "FUN"
  | forWord => "FOR"
  | ifWord => "IF"
  | nilWord => "NIL"
  | orWord => "OR"
  | printWord => "PRINT"
  | returnWord => "RETURN"
  | superWord => "SUPER"
  | thisWord => "THIS"
  | trueWord => "TRUE"
  | varWord => "VAR"
  | whileWord => "WHILE"
  | eof => "EOF"

/-- The reserved words. -/
def keywords : List (String × TokenKind) :=
  [("and", andWord), ("class", classWord), ("else", elseWord), ("false", falseWord), ("for", forWord),
   ("fun", funWord), ("if", ifWord), ("nil", nilWord), ("or", orWord), ("print", printWord),
   ("return", returnWord), ("super", superWord), ("this", thisWord), ("true", trueWord), ("var", varWord),
   ("while", whileWord)]

/-- The kind of a word: reserved, or a name. -/
def ofWord (word : String) : TokenKind := (keywords.lookup word).getD identifier

end TokenKind

/-- A value that can be written down in a program. -/
inductive Literal where
  | nil
  | bool (value : Bool)
  | number (value : Float)
  | string (text : String)
  deriving Repr, Inhabited

namespace Literal

/-- A literal in the listing of a token: numbers in exact form, strings as they are. -/
def listed : Literal → String
  | nil => "nil"
  | bool value => if value then "true" else "false"
  | number value => Number.exact value
  | string text => text

/-- A literal in the text of a tree. -/
def inTree : Literal → String
  | nil => "nil"
  | bool value => if value then "true" else "false"
  | number value => Number.inTree value
  | string text => "\"" ++ text ++ "\""

end Literal

/-- A place in a program. Lines are counted from the number the program starts at, columns from zero. -/
structure Position where
  line : Int
  col : Nat
  deriving DecidableEq, Repr, Inhabited

namespace Position

/-- The place after a character. Only a line feed starts a new line. -/
def advance (position : Position) (char : Char) : Position :=
  if char = '\n' then ⟨position.line + 1, 0⟩ else ⟨position.line, position.col + 1⟩

/-- The place after a text. -/
def after (position : Position) (text : List Char) : Position := text.foldl advance position

@[simp]
theorem after_nil (position : Position) : position.after [] = position := rfl

theorem after_append (position : Position) (first second : List Char) :
    position.after (first ++ second) = (position.after first).after second :=
  List.foldl_append ..

/-- Lines are counted by line feeds. -/
theorem line_after (position : Position) (text : List Char) :
    (position.after text).line = position.line + text.count '\n' := by
  induction text generalizing position with
  | nil => simp
  | cons char rest ih =>
    have step : position.after (char :: rest) = (position.advance char).after rest := rfl
    rw [step, ih]
    by_cases feed : char = '\n'
    · simp only [advance, feed, if_true, List.count_cons_self]
      omega
    · simp [advance, feed, List.count_cons_of_ne feed]

end Position

structure Token where
  kind : TokenKind
  lexeme : String
  literal : Option Literal := none
  position : Position
  deriving Repr, Inhabited

namespace Token

def line (token : Token) : Int := token.position.line

def col (token : Token) : Nat := token.position.col

/-- Kind, spelling and value of a token. -/
def describe (token : Token) : String :=
  let value := match token.literal with
    | none => ""
    | some literal => " " ++ literal.listed
  token.kind.name ++ " " ++ Text.quoted token.lexeme ++ value

/-- A token with the place it starts at. -/
def describePlaced (token : Token) : String :=
  s!"<{token.line}:{token.col} {token.describe}>"

/-- One line of a token listing: the line number, four characters wide at least, and the token. -/
def listed (token : Token) : String :=
  let number := toString token.line
  String.ofList (List.replicate (4 - number.length) ' ') ++ number ++ " " ++ token.describe

end Token

/-- Something found at a token. -/
structure Located (Cause : Type) where
  cause : Cause
  token : Token
  deriving Repr

end Lox

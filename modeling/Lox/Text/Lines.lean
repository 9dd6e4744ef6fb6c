/-!
Two ways to cut a text into lines. A registered file is cut at every line boundary that Unicode knows;
a line feed alone counts where the lines must agree with token positions.
-/
namespace Lox.Text

/-- Characters that end a line; a carriage return takes a following line feed with it. -/
def endsLine (char : Char) : Bool :=
  let code := char.toNat
  (0x0A ≤ code && code ≤ 0x0D) || (0x1C ≤ code && code ≤ 0x1E) || code == 0x85 ||
    code == 0x2028 || code == 0x2029

/-- Lines of a text whose current line already holds `line`, last character first. A final line end opens
no further line. -/
def linesFrom (line : List Char) : List Char → List String
  | [] => if line.isEmpty then [] else [String.ofList line.reverse]
  | '\r' :: '\n' :: rest => String.ofList line.reverse :: linesFrom [] rest
  | char :: rest =>
    if endsLine char then String.ofList line.reverse :: linesFrom [] rest
    else linesFrom (char :: line) rest

/-- The lines of a text, cut at every line boundary. -/
def lines (text : String) : List String := linesFrom [] text.toList

/-- Pieces of a text between line feeds, the current piece already holding `piece`, last character
first. There is always at least one piece. -/
def feedsFrom (piece : List Char) : List Char → List String
  | [] => [String.ofList piece.reverse]
  | '\n' :: rest => String.ofList piece.reverse :: feedsFrom [] rest
  | char :: rest => feedsFrom (char :: piece) rest

/-- The pieces of a text between its line feeds. -/
def splitAtFeeds (text : String) : List String := feedsFrom [] text.toList

/-- Writes every line end of a file as one line feed: a carriage return stands for one, with or without a
line feed after it. -/
def unifyLineEnds : List Char → List Char
  | [] => []
  | '\r' :: '\n' :: rest => '\n' :: unifyLineEnds rest
  | '\r' :: rest => '\n' :: unifyLineEnds rest
  | char :: rest => char :: unifyLineEnds rest

end Lox.Text

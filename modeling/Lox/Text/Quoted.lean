import Lox.Text.Invisible

/-!
A text between quotes, on one line and with every invisible character spelled out.
-/
namespace Lox.Text

/-- A code point in lower-case hexadecimal, filled up with zeros to `width`. -/
def hex (width code : Nat) : List Char :=
  let digits := Nat.toDigits 16 code
  List.replicate (width - digits.length) '0' ++ digits

/-- An invisible character: line feed, carriage return and tab by letter, all others by code point. -/
def escape (char : Char) : List Char :=
  if char = '\n' then ['\\', 'n']
  else if char = '\r' then ['\\', 'r']
  else if char = '\t' then ['\\', 't']
  else if char.toNat < 0x100 then '\\' :: 'x' :: hex 2 char.toNat
  else if char.toNat < 0x10000 then '\\' :: 'u' :: hex 4 char.toNat
  else '\\' :: 'U' :: hex 8 char.toNat

/-- Apostrophes are used unless the text has some and no double quotes. -/
def quoteFor (text : List Char) : Char :=
  if text.contains '\'' && !text.contains '"' then '"' else '\''

/-- The text between quotes; the quote in use and the backslash take a backslash. -/
def quoted (text : String) : String :=
  let quote := quoteFor text.toList
  let body := text.toList.flatMap fun char =>
    if char = quote || char = '\\' then ['\\', char]
    else if isInvisible char then escape char
    else [char]
  String.ofList (quote :: body ++ [quote])

/-- A list of texts, each between quotes. -/
def quotedList (texts : List String) : String :=
  "[" ++ ", ".intercalate (texts.map quoted) ++ "]"

end Lox.Text

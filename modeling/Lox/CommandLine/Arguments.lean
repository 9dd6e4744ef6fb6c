import Lox.Session
import Lox.Text.Digit

/-!
The arguments of the command line: one optional file and a few flags. The word of a flag may be shortened as
long as it is clear which one is meant, and a double hyphen ends the flags.
-/
namespace Lox.CommandLine

inductive Flag where
  | help
  | tokens
  | tree
  deriving DecidableEq, Repr

namespace Flag

/-- The flags by their words. -/
def words : List (String × Flag) := [("--help", help), ("--tokens", tokens), ("--ast", tree)]

/-- The one flag that has a letter too. -/
def helpLetter : Char := 'h'

/-- The name of a flag in a complaint. -/
def title : Flag → String
  | help => "-h/--help"
  | tokens => "--tokens"
  | tree => "--ast"

/-- What a flag asks to be printed; `help` asks for something else. -/
def dump? : Flag → Option Dump
  | help => none
  | tokens => some .tokens
  | tree => some .tree

def ofDump : Dump → Flag
  | .tokens => tokens
  | .tree => tree

end Flag

/-- What the arguments ask for. -/
inductive Order where
  | help
  | misuse (complaint : String)
  | start (file : Option String) (dump : Option Dump)
  deriving DecidableEq, Repr

/-- What an argument is, taken alone: a plain one, the mark after which all are plain, the word of a flag
with the value after its equals sign, the letter of `help` with what follows it, something that looks like
a flag but is none, or the beginning of several flags. -/
inductive Argument where
  | plain (text : String)
  | separator
  | word (flag : Flag) (value : Option (List Char))
  | helpLetter (after : List Char)
  | unknown (text : String)
  | ambiguous (text : String) (candidates : List String)
  deriving DecidableEq, Repr

namespace Argument

/-- Cuts a text at its first equals sign. -/
def atEqual (text : List Char) : List Char × Option (List Char) :=
  match text.dropWhile (· != '=') with
  | [] => (text, none)
  | _ :: value => (text.takeWhile (· != '='), some value)

/-- Digits of any script, with or without a point among them. A digit has to come last. -/
def isUnsignedNumber (text : List Char) : Bool :=
  match text.dropWhile Text.isDecimalDigit with
  | [] => !text.isEmpty
  | '.' :: places => !places.isEmpty && places.all Text.isDecimalDigit
  | _ => false

/-- Leaves out one line feed at the end. -/
def dropFinalFeed (text : List Char) : List Char :=
  if text.getLast? = some '\n' then text.dropLast else text

/-- A hyphen before a number; a line feed may end it. -/
def isNegativeNumber : List Char → Bool
  | '-' :: number => isUnsignedNumber (dropFinalFeed number)
  | _ => false

/-- What starts with a hyphen and is no flag: negative numbers, and all that has a space in it, are plain
arguments. -/
def noFlag (text : String) : Argument :=
  if isNegativeNumber text.toList || text.toList.contains ' ' then .plain text else .unknown text

/-- What an argument with two hyphens is. -/
def ofWord (text : String) : Argument :=
  let (stem, value) := atEqual text.toList
  match Flag.words.filter fun (spelling, _) => stem.isPrefixOf spelling.toList with
  | [] => noFlag text
  | [(_, flag)] => .word flag value
  | several => .ambiguous text (several.map Prod.fst)

def classify (text : String) : Argument :=
  match text.toList with
  | ['-', '-'] => .separator
  | '-' :: '-' :: _ => ofWord text
  | '-' :: letter :: rest => if letter = Flag.helpLetter then .helpLetter rest else noFlag text
  | _ => .plain text

end Argument

/-- The arguments with what each of them is. After a double hyphen nothing is a flag any more. -/
def classifyAll : List String → List Argument
  | [] => []
  | text :: rest =>
    match Argument.classify text with
    | .separator => .separator :: rest.map .plain
    | argument => argument :: classifyAll rest

/-- How far the arguments have been taken in: the file, once one has been found, whether a separator at this
point still belongs to it, what is to be printed, and what nobody asked for. -/
structure Intake where
  file : Option String := none
  adjoining : Bool := true
  dumps : List Dump := []
  extras : List String := []

namespace Intake

def extra (intake : Intake) (text : String) : Intake :=
  { intake with extras := intake.extras ++ [text], adjoining := intake.file.isNone }

/-- Takes an argument that is no flag. The first one is the file. -/
def takePlain (intake : Intake) (text : String) : Intake :=
  match intake.file with
  | none => { intake with file := some text, adjoining := true }
  | some _ => intake.extra text

/-- Takes a separator. It is expected before the file and right after it. -/
def takeSeparator (intake : Intake) : Intake := if intake.adjoining then intake else intake.extra "--"

/-- Takes a flag that chooses what to print. Two different ones exclude each other. -/
def takeDump (intake : Intake) (dump : Dump) : Except String Intake :=
  match intake.dumps.find? (· ≠ dump) with
  | some other =>
    .error s!"argument {(Flag.ofDump dump).title}: not allowed with argument {(Flag.ofDump other).title}"
  | none => .ok { intake with dumps := dump :: intake.dumps, adjoining := intake.file.isNone }

/-- What the arguments ask for, once all of them are taken in. -/
def order (intake : Intake) : Order :=
  if intake.extras.isEmpty then .start intake.file intake.dumps.head?
  else .misuse ("unrecognized arguments: " ++ " ".intercalate intake.extras)

end Intake

/-- The complaint about a value that a flag does not take. -/
def ignoredValue (flag : Flag) (value : List Char) : String :=
  s!"argument {flag.title}: ignored explicit argument {Text.quoted (String.ofList value)}"

/-- What is left of letters once those of `help` are taken from the front, if anything is. -/
def strayLetters (letters : List Char) : Option (List Char) :=
  match letters.dropWhile (· = Flag.helpLetter) with
  | [] => none
  | stray => some stray

/-- The value that comes with the letter of `help`, if it takes none of it: what follows is read as more
letters, also after an equals sign, and one that is no flag's makes a value of the rest. An equals sign with
nothing after it gives an empty value. -/
def valueAfterLetter : List Char → Option (List Char)
  | ['='] => some []
  | '=' :: letters => strayLetters letters
  | letters => strayLetters letters

/-- What the letter of `help` asks for together with what follows it. -/
def obeyLetter (rest : List Char) : Order :=
  match valueAfterLetter rest with
  | some value => .misuse (ignoredValue .help value)
  | none => .help

/-- Takes the arguments in, one by one; the first thing that ends the program decides. -/
def obey (intake : Intake) : List Argument → Order
  | [] => intake.order
  | .plain text :: rest => obey (intake.takePlain text) rest
  | .separator :: rest => obey intake.takeSeparator rest
  | .unknown text :: rest | .ambiguous text _ :: rest => obey (intake.extra text) rest
  | .helpLetter after :: _ => obeyLetter after
  | .word flag (some value) :: _ => .misuse (ignoredValue flag value)
  | .word flag none :: rest =>
    match flag.dump? with
    | none => .help
    | some dump =>
      match intake.takeDump dump with
      | .error complaint => .misuse complaint
      | .ok intake => obey intake rest

/-- The complaint about the first argument that is not clear, if there is one. -/
def ambiguity? (arguments : List Argument) : Option String :=
  arguments.findSome? fun
    | .ambiguous text candidates =>
      some ("ambiguous option: " ++ text ++ " could match " ++ ", ".intercalate candidates)
    | _ => none

/-- What the arguments of the command line ask for. All of them have to be clear before any is obeyed. -/
def Order.ofArguments (arguments : List String) : Order :=
  let arguments := classifyAll arguments
  match ambiguity? arguments with
  | some complaint => .misuse complaint
  | none => obey {} arguments

end Lox.CommandLine

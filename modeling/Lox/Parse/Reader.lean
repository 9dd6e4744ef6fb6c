import Lox.Tree

/-!
Reading a list of tokens from left to right. The end mark is kept apart from the tokens, so it is never
taken, and looking past the end shows it again and again. A fault is recorded where it is seen; some faults
also stop the construct being read, up to the nearest place that can recover.
-/
namespace Lox

/-- What can be wrong with a sequence of tokens. -/
inductive SyntaxFault where
  | expected (what : String)
  | invalidTarget
  | tooManyParameters
  | tooManyArguments
  deriving DecidableEq, Repr

/-- The largest number of parameters of a function, and of arguments of a call. -/
def maxArguments : Nat := 255

def SyntaxFault.message : SyntaxFault → String
  | expected what => "Expect " ++ what ++ "."
  | invalidTarget => "Invalid assignment target."
  | tooManyParameters => s!"Can't have more than {maxArguments} parameters."
  | tooManyArguments => s!"Can't have more than {maxArguments} arguments."

/-- The tokens still to be read and the faults seen so far. -/
structure Reader where
  upcoming : List Token
  finish : Token
  faults : Array (Located SyntaxFault) := #[]

/-- Why the reading of a construct stopped: a recorded fault, or nesting beyond the room that was given. -/
inductive Stop where
  | fault
  | tooDeep
  deriving DecidableEq, Repr

abbrev Parse := EStateM Stop Reader

namespace Reader

/-- The token at hand. -/
def current (reader : Reader) : Token := reader.upcoming.head?.getD reader.finish

/-- Moves past the token at hand, except past the end. -/
def advance (reader : Reader) : Reader := { reader with upcoming := reader.upcoming.tail }

def record (reader : Reader) (token : Token) (cause : SyntaxFault) : Reader :=
  { reader with faults := reader.faults.push ⟨cause, token⟩ }

end Reader

/-- Keywords that start a statement. -/
def TokenKind.startsStatement : TokenKind → Bool
  | .classWord | .funWord | .varWord | .forWord | .ifWord | .whileWord | .printWord | .returnWord => true
  | _ => false

/-- Drops tokens up to a place where a statement may start: past a semicolon, or at a keyword. The first
argument is the token dropped last. -/
def skipToBoundary : Token → List Token → List Token
  | _, [] => []
  | dropped, next :: rest =>
    if dropped.kind = .semicolon || next.kind.startsStatement then next :: rest
    else skipToBoundary next rest

/-- After a fault: drops the token at hand, whatever it is, and all up to the next place where a statement
may start. -/
def Reader.synchronize (reader : Reader) : Reader :=
  match reader.upcoming with
  | [] => reader
  | first :: rest => { reader with upcoming := skipToBoundary first rest }

namespace Parse

variable {α : Type}

/-- Takes the token at hand if `select` has a use for it. -/
def acceptWhere (select : TokenKind → Option α) : Parse (Option (α × Token)) := fun reader =>
  match reader.upcoming with
  | [] => .ok none reader
  | token :: rest =>
    match select token.kind with
    | none => .ok none reader
    | some use => .ok (some (use, token)) { reader with upcoming := rest }

/-- Takes the token at hand if it is of the given kind. -/
def accept (kind : TokenKind) : Parse (Option Token) := fun reader =>
  match reader.upcoming with
  | [] => .ok none reader
  | token :: rest =>
    if token.kind = kind then .ok (some token) { reader with upcoming := rest } else .ok none reader

/-- Whether the token at hand is of the given kind. -/
def sees (kind : TokenKind) : Parse Bool := fun reader =>
  match reader.upcoming with
  | [] => .ok false reader
  | token :: _ => .ok (token.kind = kind) reader

def atEnd : Parse Bool := fun reader => .ok reader.upcoming.isEmpty reader

/-- Records a fault at a token and goes on. -/
def complain (token : Token) (cause : SyntaxFault) : Parse Unit := fun reader =>
  .ok () (reader.record token cause)

/-- Records a fault at the token at hand and goes on. -/
def complainHere (cause : SyntaxFault) : Parse Unit := fun reader =>
  .ok () (reader.record reader.current cause)

/-- Records a fault at the token at hand and stops. -/
def refuse (cause : SyntaxFault) : Parse α := fun reader =>
  .error .fault (reader.record reader.current cause)

def tooDeep : Parse α := fun reader => .error .tooDeep reader

/-- Takes a token of the given kind; anything else is a fault. -/
def expect (kind : TokenKind) (what : String) : Parse Token := do
  match ← accept kind with
  | some token => return token
  | none => refuse (.expected what)

/-- Runs `step` until it has nothing more to give, with at most one round for each of the given tokens. -/
def rounds (step : α → Parse (Option α)) : List Token → α → Parse α
  | [], value => pure value
  | _ :: bound, value => do
    match ← step value with
    | none => return value
    | some next => rounds step bound next

/-- Runs `step` until it has nothing more to give. Whenever `step` gives something it has taken a token, so
that the tokens left bound the rounds. -/
def repeating (start : α) (step : α → Parse (Option α)) : Parse α := fun reader =>
  rounds step reader.upcoming start reader

/-- One item or more with commas between them, up to `maxArguments` without complaint. -/
def commaSeparated (item : Parse α) (tooMany : SyntaxFault) : Parse (List α) := do
  let first ← item
  let items ← repeating [first] fun items => do
    match ← accept .comma with
    | none => return none
    | some _ =>
      if maxArguments ≤ items.length then complainHere tooMany
      return some ((← item) :: items)
  return items.reverse

/-- Items between parentheses, of which the opening one is already taken; with the closing one. -/
def parenthesized (item : Parse α) (tooMany : SyntaxFault) (close : String) :
    Parse (List α × Token) := do
  let items ← if ← sees .rightParen then pure [] else commaSeparated item tooMany
  let paren ← expect .rightParen close
  return (items, paren)

/-- Reads `item` again and again until `done` holds; an item may come to nothing. -/
def collect (done : Parse Bool) (item : Parse (Option α)) : Parse (List α) := do
  let items ← repeating [] fun items => do
    if ← done then return none
    match ← item with
    | none => return some items
    | some value => return some (value :: items)
  return items.reverse

/-- Reads `item` again and again up to a closing brace or the end. -/
def untilBrace (item : Parse (Option α)) : Parse (List α) :=
  collect (return (← sees .rightBrace) || (← atEnd)) item

/-- Runs an action; where it stops at a fault, nothing is read and reading resumes at the next place where
a statement may start. -/
def recovering (action : Parse α) : Parse (Option α) := fun reader =>
  match action reader with
  | .ok value reader => .ok (some value) reader
  | .error .fault reader => .ok none reader.synchronize
  | .error .tooDeep reader => .error .tooDeep reader

end Parse

end Lox

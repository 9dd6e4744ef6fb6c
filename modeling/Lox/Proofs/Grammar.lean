import Lox.Parse.Program

/-!
The grammar of programs, as rules over token lists. A rule relates the tokens it covers, all of them and
in order, to the tree it builds. The rules know nothing of readers, of lookahead or of nesting bounds.

Repetitions are written as they stand in the grammar, `<item>*`, `<item> ( "," <item> )*` and
`<operand> ( operator <operand> )*`, each as an inductive relation of its own over the rule for an item.
-/
namespace Lox.Grammar

variable {α : Type}

/-- `<item>*` -/
inductive Many (Item : List Token → α → Prop) : List Token → List α → Prop
  | nil : Many Item [] []
  | cons {first rest : List Token} {item : α} {items : List α}
      (head : Item first item) (tail : Many Item rest items) :
      Many Item (first ++ rest) (item :: items)

/-- `<item> ( "," <item> )*` -/
inductive Separated (Item : List Token → α → Prop) : List Token → List α → Prop
  | one {tokens : List Token} {item : α} (only : Item tokens item) : Separated Item tokens [item]
  | more {first rest : List Token} {comma : Token} {item : α} {items : List α}
      (head : Item first item) (sign : comma.kind = .comma) (tail : Separated Item rest items) :
      Separated Item (first ++ comma :: rest) (item :: items)

/-- What may stand between the parentheses of a call or of a function: nothing, or items up to the largest
number allowed. -/
inductive Listing (Item : List Token → α → Prop) : List Token → List α → Prop
  | none : Listing Item [] []
  | some {tokens : List Token} {items : List α} (separated : Separated Item tokens items)
      (few : items.length ≤ maxArguments) : Listing Item tokens items

/-- The signs of each tier of binary operators, with what they build. -/
inductive Operator : Tier → TokenKind → Joiner → Prop
  | or : Operator .or .orWord (.logical .or)
  | and : Operator .and .andWord (.logical .and)
  | notEqual : Operator .equality .bangEqual (.binary .notEqual)
  | equal : Operator .equality .equalEqual (.binary .equal)
  | greater : Operator .comparison .greater (.binary .greater)
  | greaterEqual : Operator .comparison .greaterEqual (.binary .greaterEqual)
  | less : Operator .comparison .less (.binary .less)
  | lessEqual : Operator .comparison .lessEqual (.binary .lessEqual)
  | subtract : Operator .term .minus (.binary .subtract)
  | add : Operator .term .plus (.binary .add)
  | divide : Operator .factor .slash (.binary .divide)
  | multiply : Operator .factor .star (.binary .multiply)

/-- The signs that stand before an operand. -/
inductive Sign : TokenKind → UnaryOp → Prop
  | not : Sign .bang .not
  | negate : Sign .minus .negate

/-- From each tier to the next one, which binds tighter. -/
inductive Above : Tier → Tier → Prop
  | or : Above .or .and
  | and : Above .and .equality
  | equality : Above .equality .comparison
  | comparison : Above .comparison .term
  | term : Above .term .factor

/-- `( operator <operand> )*` on one tier, after what is built so far. It groups to the left. -/
inductive Chain (Operand : Tier → List Token → Expr Unit → Prop) :
    Expr Unit → Tier → List Token → Expr Unit → Prop
  | done {level : Tier} {left : Expr Unit} : Chain Operand left level [] left
  | more {level : Tier} {left right result : Expr Unit} {sign : Token} {joiner : Joiner}
      {tokens rest : List Token} (operator : Operator level sign.kind joiner)
      (operand : Operand level tokens right)
      (tail : Chain Operand (joiner.join left sign right) level rest result) :
      Chain Operand left level (sign :: (tokens ++ rest)) result

/-- `( "(" <arguments>? ")" | "." IDENTIFIER )*`, after what is built so far. -/
inductive Suffixes (Argument : List Token → Expr Unit → Prop) :
    Expr Unit → List Token → Expr Unit → Prop
  | done {object : Expr Unit} : Suffixes Argument object [] object
  | call {object result : Expr Unit} {opening closing : Token} {tokens rest : List Token}
      {arguments : List (Expr Unit)} (opens : opening.kind = .leftParen)
      (listing : Listing Argument tokens arguments) (closes : closing.kind = .rightParen)
      (tail : Suffixes Argument (.call object closing arguments) rest result) :
      Suffixes Argument object (opening :: (tokens ++ closing :: rest)) result
  | get {object result : Expr Unit} {dot name : Token} {rest : List Token}
      (sign : dot.kind = .dot) (named : name.kind = .identifier)
      (tail : Suffixes Argument (.get object name) rest result) :
      Suffixes Argument object (dot :: name :: rest) result

mutual

/-- `( <call> "." )? IDENTIFIER "=" <assignment> | <logic_or>` -/
inductive Assignment : List Token → Expr Unit → Prop
  | name {name equals : Token} {rest : List Token} {value : Expr Unit}
      (named : name.kind = .identifier) (sign : equals.kind = .equal) (right : Assignment rest value) :
      Assignment (name :: equals :: rest) (.assign name () value)
  | property {tokens rest : List Token} {dot name equals : Token} {object value : Expr Unit}
      (left : Call tokens object) (point : dot.kind = .dot) (named : name.kind = .identifier)
      (sign : equals.kind = .equal) (right : Assignment rest value) :
      Assignment (tokens ++ dot :: name :: equals :: rest) (.set object name value)
  | operation {tokens : List Token} {expr : Expr Unit} (operation : Operation .or tokens expr) :
      Assignment tokens expr

/-- The tiers from `<logic_or>` to `<factor>`: `<operand> ( operator <operand> )*` -/
inductive Operation : Tier → List Token → Expr Unit → Prop
  | chain {level : Tier} {first rest : List Token} {left expr : Expr Unit}
      (operand : Operand level first left) (tail : Chain Operand left level rest expr) :
      Operation level (first ++ rest) expr

/-- The operands of a tier are operations of the next one, and unary expressions on the last. -/
inductive Operand : Tier → List Token → Expr Unit → Prop
  | tighter {level next : Tier} {tokens : List Token} {expr : Expr Unit} (above : Above level next)
      (operation : Operation next tokens expr) : Operand level tokens expr
  | unary {tokens : List Token} {expr : Expr Unit} (unary : Unary tokens expr) :
      Operand .factor tokens expr

/-- `( "!" | "-" ) <unary> | <call>` -/
inductive Unary : List Token → Expr Unit → Prop
  | operator {sign : Token} {op : UnaryOp} {tokens : List Token} {operand : Expr Unit}
      (operator : Sign sign.kind op) (right : Unary tokens operand) :
      Unary (sign :: tokens) (.unary op sign operand)
  | call {tokens : List Token} {expr : Expr Unit} (call : Call tokens expr) : Unary tokens expr

/-- `<primary> ( "(" <arguments>? ")" | "." IDENTIFIER )*` -/
inductive Call : List Token → Expr Unit → Prop
  | suffixed {first rest : List Token} {callee expr : Expr Unit} (primary : Primary first callee)
      (tail : Suffixes Assignment callee rest expr) : Call (first ++ rest) expr

/-- `"true" | "false" | "nil" | "this" | NUMBER | STRING | IDENTIFIER | "(" <expression> ")"
| "super" "." IDENTIFIER` -/
inductive Primary : List Token → Expr Unit → Prop
  | falseWord {token : Token} (kind : token.kind = .falseWord) :
      Primary [token] (.literal (.bool false))
  | trueWord {token : Token} (kind : token.kind = .trueWord) : Primary [token] (.literal (.bool true))
  | nilWord {token : Token} (kind : token.kind = .nilWord) : Primary [token] (.literal .nil)
  | number {token : Token} (kind : token.kind = .number) :
      Primary [token] (.literal (token.literal.getD .nil))
  | string {token : Token} (kind : token.kind = .string) :
      Primary [token] (.literal (token.literal.getD .nil))
  | this {token : Token} (kind : token.kind = .thisWord) : Primary [token] (.this token ())
  | name {token : Token} (kind : token.kind = .identifier) : Primary [token] (.read token ())
  | group {opening closing : Token} {tokens : List Token} {inner : Expr Unit}
      (opens : opening.kind = .leftParen) (inside : Assignment tokens inner)
      (closes : closing.kind = .rightParen) :
      Primary (opening :: (tokens ++ [closing])) (.grouping inner)
  | super {keyword dot method : Token} (kind : keyword.kind = .superWord) (point : dot.kind = .dot)
      (named : method.kind = .identifier) : Primary [keyword, dot, method] (.super keyword () method)

end

/-- `<item>?` -/
inductive Optional (Item : List Token → α → Prop) : List Token → Option α → Prop
  | none : Optional Item [] none
  | some {tokens : List Token} {item : α} (present : Item tokens item) : Optional Item tokens (some item)

/-- IDENTIFIER -/
inductive Name : List Token → Token → Prop
  | token {name : Token} (named : name.kind = .identifier) : Name [name] name

/-- `( "=" <expression> )?` -/
inductive Initializer : List Token → Option (Expr Unit) → Prop
  | none : Initializer [] none
  | some {equals : Token} {tokens : List Token} {value : Expr Unit} (sign : equals.kind = .equal)
      (right : Assignment tokens value) : Initializer (equals :: tokens) (some value)

/-- `"var" IDENTIFIER ( "=" <expression> )? ";"` -/
inductive VarDecl : List Token → Stmt Unit → Prop
  | declared {word name semicolon : Token} {tokens : List Token} {initial : Option (Expr Unit)}
      (keyword : word.kind = .varWord) (named : name.kind = .identifier)
      (initializer : Initializer tokens initial) (ends : semicolon.kind = .semicolon) :
      VarDecl (word :: name :: (tokens ++ [semicolon])) (.varDecl name initial)

/-- `<expression> ";"` -/
inductive ExpressionStatement : List Token → Stmt Unit → Prop
  | ended {tokens : List Token} {semicolon : Token} {value : Expr Unit}
      (expression : Assignment tokens value) (ends : semicolon.kind = .semicolon) :
      ExpressionStatement (tokens ++ [semicolon]) (.expression value)

/-- The first clause of a `for` loop: `<varDecl> | <exprStmt> | ";"` -/
inductive ForInitial : List Token → Option (Stmt Unit) → Prop
  | none {semicolon : Token} (ends : semicolon.kind = .semicolon) : ForInitial [semicolon] none
  | varDecl {tokens : List Token} {stmt : Stmt Unit} (declared : VarDecl tokens stmt) :
      ForInitial tokens (some stmt)
  | expression {tokens : List Token} {stmt : Stmt Unit} (ended : ExpressionStatement tokens stmt) :
      ForInitial tokens (some stmt)

/-- `( "<" IDENTIFIER )?` -/
inductive Superclass : List Token → Option (Token × Unit) → Prop
  | none : Superclass [] none
  | some {less name : Token} (sign : less.kind = .less) (named : name.kind = .identifier) :
      Superclass [less, name] (some (name, ()))

/-- Which `if` an `else` belongs to where several could take it. The grammar alone leaves that open. -/
inductive ElseRule where
  | any
  | nearest
  deriving DecidableEq, Repr

/-- Whether an `else` may follow a statement as the other branch of an `if` further out, the statement
being `dangling` if it ends with an `if` that could take the `else` itself. -/
def ElseRule.Allows : ElseRule → (dangling : Bool) → Prop
  | any, _ => True
  | nearest, dangling => dangling = false

mutual

/-- `<classDecl> | <funDecl> | <varDecl> | <statement>` -/
inductive Declaration (rule : ElseRule) : List Token → Stmt Unit → Prop
  | classDecl {word name opening closing : Token} {heading tokens : List Token}
      {superclass : Option (Token × Unit)} {methods : List (FunctionDecl Unit)}
      (keyword : word.kind = .classWord) (named : name.kind = .identifier)
      (inherits : Superclass heading superclass) (opens : opening.kind = .leftBrace)
      (body : Many (Function rule) tokens methods) (closes : closing.kind = .rightBrace) :
      Declaration rule (word :: name :: (heading ++ opening :: (tokens ++ [closing])))
        (.classDecl name superclass methods)
  | funDecl {word : Token} {tokens : List Token} {declaration : FunctionDecl Unit}
      (keyword : word.kind = .funWord) (function : Function rule tokens declaration) :
      Declaration rule (word :: tokens) (.funDecl declaration)
  | varDecl {tokens : List Token} {stmt : Stmt Unit} (declared : VarDecl tokens stmt) :
      Declaration rule tokens stmt
  | statement {dangling : Bool} {tokens : List Token} {stmt : Stmt Unit}
      (statement : Statement rule dangling tokens stmt) : Declaration rule tokens stmt

/-- `IDENTIFIER "(" <parameters>? ")" <block>` -/
inductive Function (rule : ElseRule) : List Token → FunctionDecl Unit → Prop
  | named {name opening closing : Token} {heading tokens : List Token} {params : List Token}
      {body : List (Stmt Unit)} (named : name.kind = .identifier) (opens : opening.kind = .leftParen)
      (listing : Listing Name heading params) (closes : closing.kind = .rightParen)
      (block : Block rule tokens body) :
      Function rule (name :: opening :: (heading ++ closing :: tokens)) (.mk name params body)

/-- `"{" <declaration>* "}"` -/
inductive Block (rule : ElseRule) : List Token → List (Stmt Unit) → Prop
  | braced {opening closing : Token} {tokens : List Token} {body : List (Stmt Unit)}
      (opens : opening.kind = .leftBrace) (inside : Many (Declaration rule) tokens body)
      (closes : closing.kind = .rightBrace) : Block rule (opening :: (tokens ++ [closing])) body

/-- `<exprStmt> | <forStmt> | <ifStmt> | <printStmt> | <returnStmt> | <whileStmt> | <block>`, with whether
the statement is left dangling. -/
inductive Statement (rule : ElseRule) : Bool → List Token → Stmt Unit → Prop
  | expression {tokens : List Token} {stmt : Stmt Unit} (ended : ExpressionStatement tokens stmt) :
      Statement rule false tokens stmt
  | forLoop {word opening semicolon closing : Token} {first second third tokens : List Token}
      {initial : Option (Stmt Unit)} {condition increment : Option (Expr Unit)} {dangling : Bool}
      {body : Stmt Unit} (keyword : word.kind = .forWord) (opens : opening.kind = .leftParen)
      (start : ForInitial first initial) (test : Optional Assignment second condition)
      (ends : semicolon.kind = .semicolon) (step : Optional Assignment third increment)
      (closes : closing.kind = .rightParen) (inside : Statement rule dangling tokens body) :
      Statement rule dangling
        (word :: opening :: (first ++ (second ++ semicolon :: (third ++ closing :: tokens))))
        (.forLoop initial condition increment body)
  | ifThen {word opening closing : Token} {test tokens : List Token} {condition : Expr Unit}
      {dangling : Bool} {accepted : Stmt Unit} (keyword : word.kind = .ifWord)
      (opens : opening.kind = .leftParen) (tested : Assignment test condition)
      (closes : closing.kind = .rightParen) (inside : Statement rule dangling tokens accepted) :
      Statement rule true (word :: opening :: (test ++ closing :: tokens)) (.ifThen condition accepted)
  | ifElse {word opening closing other : Token} {test tokens rest : List Token}
      {condition : Expr Unit} {inner dangling : Bool} {accepted rejected : Stmt Unit}
      (keyword : word.kind = .ifWord) (opens : opening.kind = .leftParen)
      (tested : Assignment test condition) (closes : closing.kind = .rightParen)
      (inside : Statement rule inner tokens accepted) (allowed : rule.Allows inner)
      (otherwise : other.kind = .elseWord) (outside : Statement rule dangling rest rejected) :
      Statement rule dangling (word :: opening :: (test ++ closing :: (tokens ++ other :: rest)))
        (.ifElse condition accepted rejected)
  | print {word semicolon : Token} {tokens : List Token} {value : Expr Unit}
      (keyword : word.kind = .printWord) (expression : Assignment tokens value)
      (ends : semicolon.kind = .semicolon) :
      Statement rule false (word :: (tokens ++ [semicolon])) (.print value)
  | returnStmt {word semicolon : Token} {tokens : List Token} {value : Option (Expr Unit)}
      (keyword : word.kind = .returnWord) (expression : Optional Assignment tokens value)
      (ends : semicolon.kind = .semicolon) :
      Statement rule false (word :: (tokens ++ [semicolon])) (.returnStmt word value)
  | whileLoop {word opening closing : Token} {test tokens : List Token} {condition : Expr Unit}
      {dangling : Bool} {body : Stmt Unit} (keyword : word.kind = .whileWord)
      (opens : opening.kind = .leftParen) (tested : Assignment test condition)
      (closes : closing.kind = .rightParen) (inside : Statement rule dangling tokens body) :
      Statement rule dangling (word :: opening :: (test ++ closing :: tokens)) (.whileLoop condition body)
  | block {tokens : List Token} {body : List (Stmt Unit)} (block : Block rule tokens body) :
      Statement rule false tokens (.block body)

end

/-- `<declaration>*` -/
abbrev Program (rule : ElseRule) : List Token → Lox.Program Unit → Prop := Many (Declaration rule)

end Lox.Grammar

import Lox.Proofs.Tree.Writing

/-!
Trees read back from their symbolic expressions. Head and number of parts tell the node, so that a tree can be told from
its text, but for the places of its tokens and for numbers too large to be held.
-/
namespace Lox

variable {ρ : Type}

section Unplaced

/-- A literal on its own. An infinite number is written like a name. -/
def Literal.unplaced : Literal → Expr Unit
  | .number value => if value.isInf then .read (.named "inf") () else .literal (.number value)
  | value => .literal value

mutual

/-- An expression without the places of its tokens. Of a call, the parenthesis is left out. -/
def Expr.unplaced : Expr ρ → Expr Unit
  | .literal value => value.unplaced
  | .grouping inner => .grouping inner.unplaced
  | .unary op sign operand => .unary op sign.unplaced operand.unplaced
  | .binary op left sign right => .binary op left.unplaced sign.unplaced right.unplaced
  | .logical op left sign right => .logical op left.unplaced sign.unplaced right.unplaced
  | .read name _ => .read name.unplaced ()
  | .assign name _ value => .assign name.unplaced () value.unplaced
  | .call callee _ arguments => .call callee.unplaced default (Expr.unplacedAll arguments)
  | .get object name => .get object.unplaced name.unplaced
  | .set object name value => .set object.unplaced name.unplaced value.unplaced
  | .this keyword _ => .this keyword.unplaced ()
  | .super keyword _ method => .super keyword.unplaced () method.unplaced

def Expr.unplacedAll : List (Expr ρ) → List (Expr Unit)
  | [] => []
  | first :: rest => first.unplaced :: Expr.unplacedAll rest

end

mutual

def Stmt.unplaced : Stmt ρ → Stmt Unit
  | .expression value => .expression value.unplaced
  | .print value => .print value.unplaced
  | .varDecl name initial => .varDecl name.unplaced (initial.map Expr.unplaced)
  | .block body => .block (Stmt.unplacedAll body)
  | .ifThen condition accepted => .ifThen condition.unplaced accepted.unplaced
  | .ifElse condition accepted rejected => .ifElse condition.unplaced accepted.unplaced rejected.unplaced
  | .whileLoop condition body => .whileLoop condition.unplaced body.unplaced
  | .funDecl declaration => .funDecl declaration.unplaced
  | .returnStmt keyword value => .returnStmt keyword.unplaced (value.map Expr.unplaced)
  | .classDecl name superclass methods =>
    .classDecl name.unplaced (superclass.map fun (name, _) => (name.unplaced, ())) (FunctionDecl.unplacedAll methods)

def Stmt.unplacedAll : List (Stmt ρ) → List (Stmt Unit)
  | [] => []
  | first :: rest => first.unplaced :: Stmt.unplacedAll rest

def FunctionDecl.unplaced : FunctionDecl ρ → FunctionDecl Unit
  | .mk name params body => .mk name.unplaced (params.map Token.unplaced) (Stmt.unplacedAll body)

def FunctionDecl.unplacedAll : List (FunctionDecl ρ) → List (FunctionDecl Unit)
  | [] => []
  | first :: rest => first.unplaced :: FunctionDecl.unplacedAll rest

end

/-- A program without the places of its tokens. -/
def Program.unplaced (program : Program ρ) : Program Unit := Stmt.unplacedAll program

end Unplaced

section Decoding

open Classical in
/-- The number that has a text in trees, if there is one. -/
noncomputable def Number.ofText? (text : String) : Option Float :=
  if found : ∃ number, Unsigned number ∧ number.isInf = false ∧ inTree number = text then some found.choose else none

/-- The expression that is written as a word. -/
noncomputable def Expr.ofWord (text : String) : Expr Unit :=
  match Number.ofText? text with
  | some number => .literal (.number number)
  | none =>
    if text.toList.head? = some '"' then .literal (.string (String.ofList text.toList.tail.dropLast))
    else if text = "nil" then .literal .nil
    else if text = "true" then .literal (.bool true)
    else if text = "false" then .literal (.bool false)
    else if text = "this" then .this (.ofKind .thisWord) ()
    else .read (.named text) ()

/-- An operation with one operand, by its sign. -/
def Expr.ofSign (sign : String) (operand : Expr Unit) : Expr Unit :=
  let op : UnaryOp := if sign = "-" then .negate else .not
  .unary op (.ofKind op.sign) operand

/-- An operation with two operands, by its sign. -/
def Expr.ofOperator (sign : String) (left right : Expr Unit) : Expr Unit :=
  let binary (op : BinaryOp) : Expr Unit := .binary op left (.ofKind op.sign) right
  let logical (op : LogicalOp) : Expr Unit := .logical op left (.ofKind op.sign) right
  match sign with
  | "+" => binary .add
  | "-" => binary .subtract
  | "*" => binary .multiply
  | "/" => binary .divide
  | "==" => binary .equal
  | "!=" => binary .notEqual
  | ">" => binary .greater
  | ">=" => binary .greaterEqual
  | "<" => binary .less
  | "<=" => binary .lessEqual
  | "and" => logical .and
  | _ => logical .or

mutual

noncomputable def Sexp.expr : Sexp → Expr Unit
  | .word text => .ofWord text
  | .group [.word "group", inner] => .grouping inner.expr
  | .group [.word ".", object, .word name] => .get object.expr (.named name)
  | .group [.word "super", .word method] => .super (.ofKind .superWord) () (.named method)
  | .group [.word "=", .word name, value] => .assign (.named name) () value.expr
  | .group [.word "=", object, .word name, value] => .set object.expr (.named name) value.expr
  | .group (.word "call" :: callee :: arguments) => .call callee.expr default (Sexp.exprs arguments)
  | .group [.word sign, operand] => .ofSign sign operand.expr
  | .group [.word sign, left, right] => .ofOperator sign left.expr right.expr
  | .group _ => .literal .nil

noncomputable def Sexp.exprs : List Sexp → List (Expr Unit)
  | [] => []
  | first :: rest => first.expr :: Sexp.exprs rest

end

/-- The names of parameters. -/
def Sexp.params (words : List Sexp) : List Token :=
  words.map fun
    | .word name => .named name
    | .group _ => default

mutual

noncomputable def Sexp.stmt : Sexp → Stmt Unit
  | .group [.word ";", value] => .expression value.expr
  | .group [.word "print", value] => .print value.expr
  | .group [.word "var", .word name] => .varDecl (.named name) none
  | .group [.word "var", .word name, initial] => .varDecl (.named name) (some initial.expr)
  | .group (.word "block" :: body) => .block (Sexp.stmts body)
  | .group [.word "if", condition, accepted] => .ifThen condition.expr accepted.stmt
  | .group [.word "if", condition, accepted, rejected] => .ifElse condition.expr accepted.stmt rejected.stmt
  | .group [.word "while", condition, body] => .whileLoop condition.expr body.stmt
  | .group [.word "return"] => .returnStmt (.ofKind .returnWord) none
  | .group [.word "return", value] => .returnStmt (.ofKind .returnWord) (some value.expr)
  | .group (.word "fun" :: .word name :: .group words :: body) =>
    .funDecl (.mk (.named name) (Sexp.params words) (Sexp.stmts body))
  | .group (.word "class" :: .word name :: .word _ :: .word superclass :: methods) =>
    .classDecl (.named name) (some (.named superclass, ())) (Sexp.functions methods)
  | .group (.word "class" :: .word name :: methods) => .classDecl (.named name) none (Sexp.functions methods)
  | _ => .block []

noncomputable def Sexp.stmts : List Sexp → List (Stmt Unit)
  | [] => []
  | first :: rest => first.stmt :: Sexp.stmts rest

noncomputable def Sexp.functions : List Sexp → List (FunctionDecl Unit)
  | .group (.word _ :: .word name :: .group words :: body) :: rest =>
    .mk (.named name) (Sexp.params words) (Sexp.stmts body) :: Sexp.functions rest
  | _ => []

end

end Decoding

section Words

theorem Number.ofText?_inTree {number : Float} (unsigned : Unsigned number) (finite : number.isInf = false) :
    ofText? (inTree number) = some number := by
  have found : ∃ other, Unsigned other ∧ other.isInf = false ∧ inTree other = inTree number :=
    ⟨_, unsigned, finite, rfl⟩
  obtain ⟨unsigned', finite', same⟩ := found.choose_spec
  rw [ofText?, dif_pos found, inTree_injective unsigned' unsigned finite' finite same]

/-- Numbers start with a digit. -/
theorem Number.ofText?_eq_none (text : String) {first : Char} {rest : List Char} (starts : text.toList = first :: rest)
    (other : isDigit first = false) : ofText? text = none := by
  refine dif_neg ?_
  rintro ⟨number, unsigned, finite, same⟩
  obtain ⟨⟨digit, head, isDigit⟩, _⟩ := (unsigned.denoted_inTree finite).1
  rw [same, starts] at head
  cases head
  rw [isDigit] at other
  cases other

theorem Token.Named.ofWord {name : Token} (named : name.Named) : Expr.ofWord name.lexeme = .read name.unplaced () := by
  obtain ⟨first, rest, starts, letter, _⟩ := named.letters
  have noNumber := Number.ofText?_eq_none _ starts (Scan.not_isDigit_of_isLetter letter)
  have noQuote : name.lexeme.toList.head? ≠ some '"' := by
    rw [starts]
    rintro ⟨⟩
    cases letter
  have reserved {word : String} (listed : word ∈ TokenKind.keywords.map Prod.fst) : name.lexeme ≠ word := by
    rintro rfl
    exact named.free listed
  rw [Expr.ofWord, noNumber]
  dsimp only
  rw [if_neg noQuote, if_neg (reserved (by decide)), if_neg (reserved (by decide)), if_neg (reserved (by decide)),
    if_neg (reserved (by decide)), named.unplaced]

theorem Literal.ofWord_inTree {value : Literal} (legible : value.Legible) :
    Expr.ofWord value.inTree = value.unplaced := by
  cases value with
  | nil =>
    have noNumber := Number.ofText?_eq_none "nil" rfl (by decide)
    rw [inTree, Expr.ofWord, noNumber]
    rfl
  | bool value =>
    have noNumber := Number.ofText?_eq_none "true" rfl (by decide)
    have noNumber' := Number.ofText?_eq_none "false" rfl (by decide)
    rw [inTree, Expr.ofWord]
    cases value
    · rw [if_neg Bool.false_ne_true, noNumber']
      rfl
    · rw [if_pos rfl, noNumber]
      rfl
  | number value =>
    have unsigned : Number.Unsigned value := legible
    rw [inTree, unplaced]
    by_cases infinite : value.isInf = true
    · rw [unsigned.inTree_of_isInf infinite, if_pos infinite]
      exact Token.named_inf.ofWord
    · rw [if_neg infinite, Expr.ofWord, Number.ofText?_inTree unsigned (Bool.eq_false_iff.mpr infinite)]
  | string text =>
    have quoted : (inTree (.string text)).toList = '"' :: (text.toList ++ ['"']) := by
      simp [inTree]
    rw [Expr.ofWord, Number.ofText?_eq_none _ quoted (by decide)]
    dsimp only
    rw [if_pos (by rw [quoted]; rfl), quoted, List.tail_cons, List.dropLast_concat, String.ofList_toList, unplaced]
    rintro _ ⟨⟩

end Words

section Inverse

mutual

theorem Expr.expr_sexp : ∀ expr : Expr ρ, expr.Legible → expr.sexp.expr = expr.unplaced
  | .literal value, legible => by
    rw [Expr.sexp, Sexp.expr, Expr.unplaced, Literal.ofWord_inTree legible]
  | .grouping inner, legible => by
    rw [Expr.sexp, Sexp.headed, Sexp.expr, Expr.unplaced, Expr.expr_sexp inner legible]
  | .unary op sign operand, ⟨signed, legible⟩ => by
    rw [Expr.sexp, Sexp.headed, Expr.unplaced, signed, Token.lexeme_of_unplaced signed,
      ← Expr.expr_sexp operand legible]
    cases op <;> rfl
  | .binary op left sign right, ⟨signed, legible, legible'⟩ => by
    rw [Expr.sexp, Sexp.headed, Expr.unplaced, signed, Token.lexeme_of_unplaced signed, ← Expr.expr_sexp left legible,
      ← Expr.expr_sexp right legible']
    cases op <;> rfl
  | .logical op left sign right, ⟨signed, legible, legible'⟩ => by
    rw [Expr.sexp, Sexp.headed, Expr.unplaced, signed, Token.lexeme_of_unplaced signed, ← Expr.expr_sexp left legible,
      ← Expr.expr_sexp right legible']
    cases op <;> rfl
  | .read name _, named => by
    rw [Expr.sexp, Sexp.expr, named.ofWord, Expr.unplaced]
  | .assign name _ value, ⟨named, legible⟩ => by
    rw [Expr.sexp, Sexp.headed, Sexp.expr, Expr.unplaced, Expr.expr_sexp value legible, named.unplaced]
  | .call callee _ arguments, ⟨legible, legible'⟩ => by
    rw [Expr.sexp, Sexp.headed, Sexp.expr, Expr.unplaced, Expr.expr_sexp callee legible,
      Expr.exprs_sexpAll arguments legible']
  | .get object name, ⟨legible, named⟩ => by
    rw [Expr.sexp, Sexp.headed, Sexp.expr, Expr.unplaced, Expr.expr_sexp object legible, named.unplaced]
  | .set object name value, ⟨legible, named, legible'⟩ => by
    rw [Expr.sexp, Sexp.headed, Sexp.expr, Expr.unplaced, Expr.expr_sexp object legible, Expr.expr_sexp value legible',
      named.unplaced]
  | .this keyword _, same => by
    have isWord : Expr.ofWord "this" = .this (.ofKind .thisWord) () := by
      rw [Expr.ofWord, Number.ofText?_eq_none "this" rfl (by decide)]
      rfl
    rw [Expr.sexp, Sexp.expr, isWord, Expr.unplaced, same]
  | .super keyword _ method, ⟨same, named⟩ => by
    rw [Expr.sexp, Sexp.headed, Sexp.expr, Expr.unplaced, same, named.unplaced]

theorem Expr.exprs_sexpAll : ∀ exprs : List (Expr ρ), Expr.LegibleAll exprs →
    Sexp.exprs (Expr.sexpAll exprs) = Expr.unplacedAll exprs
  | [], _ => rfl
  | first :: rest, ⟨legible, legible'⟩ => by
    rw [Expr.sexpAll, Sexp.exprs, Expr.unplacedAll, Expr.expr_sexp first legible, Expr.exprs_sexpAll rest legible']

end

theorem Sexp.params_paramSexps {params : List Token} (named : ∀ param ∈ params, param.Named) :
    Sexp.params (paramSexps params) = params.map Token.unplaced := by
  rw [Sexp.params, paramSexps, List.map_map]
  exact List.map_congr_left fun param member => (named param member).unplaced.symm

mutual

theorem Stmt.stmt_sexp : ∀ stmt : Stmt ρ, stmt.Legible → stmt.sexp.stmt = stmt.unplaced
  | .expression value, legible | .print value, legible => by
    rw [Stmt.sexp, Sexp.headed, Sexp.stmt, Stmt.unplaced, value.expr_sexp legible]
  | .varDecl name none, ⟨named, _⟩ => by
    rw [Stmt.unplaced, named.unplaced]
    rfl
  | .varDecl name (some initial), ⟨named, legible⟩ => by
    rw [Stmt.unplaced, named.unplaced, Option.map_some, ← initial.expr_sexp legible]
    rfl
  | .block body, legible => by
    rw [Stmt.sexp, Sexp.headed, Sexp.stmt, Stmt.unplaced, Stmt.stmts_sexpAll body legible]
  | .ifThen condition accepted, ⟨legible, legible'⟩ => by
    rw [Stmt.sexp, Sexp.headed, Sexp.stmt, Stmt.unplaced, condition.expr_sexp legible, Stmt.stmt_sexp accepted legible']
  | .ifElse condition accepted rejected, ⟨legible, legible', legible''⟩ => by
    rw [Stmt.sexp, Sexp.headed, Sexp.stmt, Stmt.unplaced, condition.expr_sexp legible, Stmt.stmt_sexp accepted legible',
      Stmt.stmt_sexp rejected legible'']
  | .whileLoop condition body, ⟨legible, legible'⟩ => by
    rw [Stmt.sexp, Sexp.headed, Sexp.stmt, Stmt.unplaced, condition.expr_sexp legible, Stmt.stmt_sexp body legible']
  | .funDecl (.mk name params body), ⟨named, namedAll, legible⟩ => by
    rw [Stmt.sexp, FunctionDecl.sexp, Sexp.headed, Sexp.stmt, Stmt.unplaced, FunctionDecl.unplaced, named.unplaced,
      Sexp.params_paramSexps namedAll, Stmt.stmts_sexpAll body legible]
  | .returnStmt keyword none, ⟨same, _⟩ => by
    rw [Stmt.unplaced, same]
    rfl
  | .returnStmt keyword (some value), ⟨same, legible⟩ => by
    rw [Stmt.unplaced, same, Option.map_some, ← value.expr_sexp legible]
    rfl
  | .classDecl name none methods, ⟨named, _, legible⟩ => by
    rw [Stmt.unplaced, named.unplaced, ← FunctionDecl.functions_sexpAll methods legible]
    cases methods with
    | nil => rfl
    | cons first rest =>
      obtain ⟨method, params, body⟩ := first
      rfl
  | .classDecl name (some (superclass, _)) methods, ⟨named, named', legible⟩ => by
    have other : superclass.unplaced = .named superclass.lexeme := Token.Named.unplaced named'
    rw [Stmt.unplaced, named.unplaced, Option.map_some, ← FunctionDecl.functions_sexpAll methods legible]
    dsimp only
    rw [other]
    rfl

theorem Stmt.stmts_sexpAll : ∀ body : List (Stmt ρ), Stmt.LegibleAll body →
    Sexp.stmts (Stmt.sexpAll body) = Stmt.unplacedAll body
  | [], _ => rfl
  | first :: rest, ⟨legible, legible'⟩ => by
    rw [Stmt.sexpAll, Sexp.stmts, Stmt.unplacedAll, Stmt.stmt_sexp first legible, Stmt.stmts_sexpAll rest legible']

theorem FunctionDecl.functions_sexpAll : ∀ methods : List (FunctionDecl ρ), FunctionDecl.LegibleAll methods →
    Sexp.functions (FunctionDecl.sexpAll methods) = FunctionDecl.unplacedAll methods
  | [], _ => rfl
  | .mk name params body :: rest, ⟨⟨named, namedAll, legible⟩, legible'⟩ => by
    rw [FunctionDecl.sexpAll, FunctionDecl.sexp, Sexp.headed, Sexp.functions, FunctionDecl.unplacedAll,
      FunctionDecl.unplaced, named.unplaced, Sexp.params_paramSexps namedAll, Stmt.stmts_sexpAll body legible,
      FunctionDecl.functions_sexpAll rest legible']

end

end Inverse

section Same

/-- An infinite number is written like the name that takes its place. -/
theorem Literal.sexp_unplaced {value : Literal} (legible : value.Legible) :
    value.unplaced.sexp = .word value.inTree := by
  cases value with
  | number value =>
    have unsigned : Number.Unsigned value := legible
    rw [unplaced]
    by_cases infinite : value.isInf = true
    · rw [if_pos infinite, inTree, unsigned.inTree_of_isInf infinite]
      rfl
    · rw [if_neg infinite, Expr.sexp]
  | nil | bool | string => rfl

mutual

/-- What is left out of a tree is left out of its text. -/
theorem Expr.sexp_unplaced : ∀ expr : Expr ρ, expr.Legible → expr.unplaced.sexp = expr.sexp
  | .literal value, legible => by
    rw [Expr.unplaced, Literal.sexp_unplaced legible, Expr.sexp]
  | .grouping inner, legible => by
    rw [Expr.unplaced, Expr.sexp, Expr.sexp, Expr.sexp_unplaced inner legible]
  | .unary _ sign operand, ⟨_, legible⟩ => by
    rw [Expr.unplaced, Expr.sexp, Expr.sexp, Expr.sexp_unplaced operand legible]
    rfl
  | .binary _ left sign right, ⟨_, legible, legible'⟩ | .logical _ left sign right, ⟨_, legible, legible'⟩ => by
    rw [Expr.unplaced, Expr.sexp, Expr.sexp, Expr.sexp_unplaced left legible, Expr.sexp_unplaced right legible']
    rfl
  | .read _ _, _ | .this _ _, _ | .super _ _ _, _ => rfl
  | .assign _ _ value, ⟨_, legible⟩ => by
    rw [Expr.unplaced, Expr.sexp, Expr.sexp, Expr.sexp_unplaced value legible]
    rfl
  | .call callee _ arguments, ⟨legible, legible'⟩ => by
    rw [Expr.unplaced, Expr.sexp, Expr.sexp, Expr.sexp_unplaced callee legible,
      Expr.sexpAll_unplacedAll arguments legible']
  | .get object _, ⟨legible, _⟩ => by
    rw [Expr.unplaced, Expr.sexp, Expr.sexp, Expr.sexp_unplaced object legible]
    rfl
  | .set object _ value, ⟨legible, _, legible'⟩ => by
    rw [Expr.unplaced, Expr.sexp, Expr.sexp, Expr.sexp_unplaced object legible, Expr.sexp_unplaced value legible']
    rfl

theorem Expr.sexpAll_unplacedAll : ∀ exprs : List (Expr ρ), Expr.LegibleAll exprs →
    Expr.sexpAll (Expr.unplacedAll exprs) = Expr.sexpAll exprs
  | [], _ => rfl
  | first :: rest, ⟨legible, legible'⟩ => by
    rw [Expr.unplacedAll, Expr.sexpAll, Expr.sexpAll, Expr.sexp_unplaced first legible,
      Expr.sexpAll_unplacedAll rest legible']

end

theorem Expr.sexp_option {value : Option (Expr ρ)} (legible : Expr.LegibleOption value) :
    (value.map Expr.unplaced).map Expr.sexp = value.map Expr.sexp := by
  cases value with
  | none => rfl
  | some value => rw [Option.map_some, Option.map_some, Option.map_some, value.sexp_unplaced legible]

theorem paramSexps_unplaced (params : List Token) : paramSexps (params.map Token.unplaced) = paramSexps params := by
  rw [paramSexps, List.map_map]
  rfl

theorem classSexps_unplaced (name : Token) (superclass : Option (Token × ρ)) :
    classSexps name.unplaced (superclass.map fun (name, _) => (name.unplaced, ())) = classSexps name superclass := by
  cases superclass <;> rfl

mutual

theorem Stmt.sexp_unplaced : ∀ stmt : Stmt ρ, stmt.Legible → stmt.unplaced.sexp = stmt.sexp
  | .expression value, legible | .print value, legible => by
    rw [Stmt.unplaced, Stmt.sexp, Stmt.sexp, value.sexp_unplaced legible]
  | .varDecl _ _, ⟨_, legible⟩ => by
    rw [Stmt.unplaced, Stmt.sexp, Stmt.sexp, Expr.sexp_option legible]
    rfl
  | .block body, legible => by
    rw [Stmt.unplaced, Stmt.sexp, Stmt.sexp, Stmt.sexpAll_unplacedAll body legible]
  | .ifThen condition accepted, ⟨legible, legible'⟩ => by
    rw [Stmt.unplaced, Stmt.sexp, Stmt.sexp, condition.sexp_unplaced legible, Stmt.sexp_unplaced accepted legible']
  | .ifElse condition accepted rejected, ⟨legible, legible', legible''⟩ => by
    rw [Stmt.unplaced, Stmt.sexp, Stmt.sexp, condition.sexp_unplaced legible, Stmt.sexp_unplaced accepted legible',
      Stmt.sexp_unplaced rejected legible'']
  | .whileLoop condition body, ⟨legible, legible'⟩ => by
    rw [Stmt.unplaced, Stmt.sexp, Stmt.sexp, condition.sexp_unplaced legible, Stmt.sexp_unplaced body legible']
  | .funDecl declaration, legible => by
    rw [Stmt.unplaced, Stmt.sexp, Stmt.sexp, FunctionDecl.sexp_unplaced declaration legible]
  | .returnStmt _ _, ⟨_, legible⟩ => by
    rw [Stmt.unplaced, Stmt.sexp, Stmt.sexp, Expr.sexp_option legible]
  | .classDecl _ _ methods, ⟨_, _, legible⟩ => by
    rw [Stmt.unplaced, Stmt.sexp, Stmt.sexp, classSexps_unplaced, FunctionDecl.sexpAll_unplacedAll methods legible]

theorem Stmt.sexpAll_unplacedAll : ∀ body : List (Stmt ρ), Stmt.LegibleAll body →
    Stmt.sexpAll (Stmt.unplacedAll body) = Stmt.sexpAll body
  | [], _ => rfl
  | first :: rest, ⟨legible, legible'⟩ => by
    rw [Stmt.unplacedAll, Stmt.sexpAll, Stmt.sexpAll, Stmt.sexp_unplaced first legible,
      Stmt.sexpAll_unplacedAll rest legible']

theorem FunctionDecl.sexp_unplaced : ∀ declaration : FunctionDecl ρ, declaration.Legible →
    declaration.unplaced.sexp = declaration.sexp
  | .mk _ params body, ⟨_, _, legible⟩ => by
    rw [FunctionDecl.unplaced, FunctionDecl.sexp, FunctionDecl.sexp, paramSexps_unplaced,
      Stmt.sexpAll_unplacedAll body legible]
    rfl

theorem FunctionDecl.sexpAll_unplacedAll : ∀ methods : List (FunctionDecl ρ), FunctionDecl.LegibleAll methods →
    FunctionDecl.sexpAll (FunctionDecl.unplacedAll methods) = FunctionDecl.sexpAll methods
  | [], _ => rfl
  | first :: rest, ⟨legible, legible'⟩ => by
    rw [FunctionDecl.unplacedAll, FunctionDecl.sexpAll, FunctionDecl.sexpAll, FunctionDecl.sexp_unplaced first legible,
      FunctionDecl.sexpAll_unplacedAll rest legible']

end

end Same

/-- The one-line text of a program loses nothing but places. Two programs that are read without a fault have the same
text if and only if they are equal up to the places of their tokens, the parentheses that end calls, and infinite
numbers, which are written as the name `inf`. -/
theorem Program.show_eq_iff_unplaced {room room' : Nat} {text text' : List Char} {line line' : Int}
    {finish finish' : Token} {program program' : Program Unit}
    (read : Parsed.within? room (Scan.ofText text line).tokens finish = some ⟨program, []⟩)
    (read' : Parsed.within? room' (Scan.ofText text' line').tokens finish' = some ⟨program', []⟩) :
    program.show = program'.show ↔ program.unplaced = program'.unplaced := by
  have legible := Parsed.legible_within? read
  have legible' := Parsed.legible_within? read'
  rw [← String.toList_inj, Program.toList_show, Program.toList_show, Program.unplaced, Program.unplaced]
  constructor
  · intro same
    have forms := Sexp.writeAll_injective (by decide) (Stmt.legal_sexpAll program legible)
      (Stmt.legal_sexpAll program' legible') same
    rw [← Stmt.stmts_sexpAll program legible, forms, Stmt.stmts_sexpAll program' legible']
  · intro same
    rw [← Stmt.sexpAll_unplacedAll program legible, same, Stmt.sexpAll_unplacedAll program' legible']

/-- Two spellings of a number, on one line and on two. -/
theorem Program.show_eq_iff_unplaced_of_spellings :
    let read (text : String) :=
      let scan := Scan.ofText text.toList 1
      Parsed.within? 100 scan.tokens scan.finish
    ∃ program program', read "print f(1.50);" = some ⟨program, []⟩ ∧
      read "print f // once\n (01.5) ;" = some ⟨program', []⟩ ∧
      program.show = "(print (call f 1.5))" ∧ program.unplaced = program'.unplaced := by
  intro read
  have reads (text : String) (test : (read text).map (fun parsed => (parsed.faults.isEmpty, parsed.program.show)) =
      some (true, "(print (call f 1.5))")) :
      ∃ program, read text = some ⟨program, []⟩ ∧ program.show = "(print (call f 1.5))" := by
    obtain ⟨⟨program, faults⟩, found, same⟩ := Option.map_eq_some_iff.mp test
    obtain ⟨none, shown⟩ := Prod.mk.inj same
    obtain rfl := List.isEmpty_iff.mp none
    exact ⟨program, found, shown⟩
  obtain ⟨program, found, shown⟩ := reads "print f(1.50);" (by decide +kernel)
  obtain ⟨program', found', shown'⟩ := reads "print f // once\n (01.5) ;" (by decide +kernel)
  exact ⟨program, program', found, found', shown, (show_eq_iff_unplaced found found').mp (shown.trans shown'.symm)⟩

end Lox

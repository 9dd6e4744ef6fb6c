import Lox.Proofs.Grammar.Legible
import Lox.Proofs.Number.Shown
import Lox.Proofs.Tree.Sexp
import Lox.Tree.Show

/-!
The one-line text of a tree as a symbolic expression. The head and the parts of a group are words and groups themselves,
and all words are such that a form can be told from its text.
-/
namespace Lox

variable {ρ : Type}

/-- A head and its parts. -/
def Sexp.headed (head : String) (parts : List Sexp) : Sexp := .group (.word head :: parts)

mutual

def Expr.sexp : Expr ρ → Sexp
  | .literal value => .word value.inTree
  | .grouping inner => .headed "group" [inner.sexp]
  | .unary _ sign operand => .headed sign.lexeme [operand.sexp]
  | .binary _ left sign right => .headed sign.lexeme [left.sexp, right.sexp]
  | .logical _ left sign right => .headed sign.lexeme [left.sexp, right.sexp]
  | .read name _ => .word name.lexeme
  | .assign name _ value => .headed "=" [.word name.lexeme, value.sexp]
  | .call callee _ arguments => .headed "call" (callee.sexp :: Expr.sexpAll arguments)
  | .get object name => .headed "." [object.sexp, .word name.lexeme]
  | .set object name value => .headed "=" [object.sexp, .word name.lexeme, value.sexp]
  | .this _ _ => .word "this"
  | .super _ _ method => .headed "super" [.word method.lexeme]

def Expr.sexpAll : List (Expr ρ) → List Sexp
  | [] => []
  | first :: rest => first.sexp :: Expr.sexpAll rest

end

/-- The words for the name of a class, and for its superclass if it has one. -/
def classSexps (name : Token) : Option (Token × ρ) → List Sexp
  | none => [.word name.lexeme]
  | some (superclass, _) => [.word name.lexeme, .word "<", .word superclass.lexeme]

def paramSexps (params : List Token) : List Sexp := params.map fun param => .word param.lexeme

mutual

def Stmt.sexp : Stmt ρ → Sexp
  | .expression value => .headed ";" [value.sexp]
  | .print value => .headed "print" [value.sexp]
  | .varDecl name initial => .headed "var" (.word name.lexeme :: (initial.map Expr.sexp).toList)
  | .block body => .headed "block" (Stmt.sexpAll body)
  | .ifThen condition accepted => .headed "if" [condition.sexp, accepted.sexp]
  | .ifElse condition accepted rejected => .headed "if" [condition.sexp, accepted.sexp, rejected.sexp]
  | .whileLoop condition body => .headed "while" [condition.sexp, body.sexp]
  | .funDecl declaration => declaration.sexp
  | .returnStmt _ value => .headed "return" (value.map Expr.sexp).toList
  | .classDecl name superclass methods => .headed "class" (classSexps name superclass ++ FunctionDecl.sexpAll methods)

def Stmt.sexpAll : List (Stmt ρ) → List Sexp
  | [] => []
  | first :: rest => first.sexp :: Stmt.sexpAll rest

def FunctionDecl.sexp : FunctionDecl ρ → Sexp
  | .mk name params body => .headed "fun" (.word name.lexeme :: .group (paramSexps params) :: Stmt.sexpAll body)

def FunctionDecl.sexpAll : List (FunctionDecl ρ) → List Sexp
  | [] => []
  | first :: rest => first.sexp :: FunctionDecl.sexpAll rest

end

section Written

theorem intercalate_cons (between : Char) (first : List Char) (rest : List (List Char)) :
    [between].intercalate (first :: rest) = first ++ rest.flatMap (between :: ·) := by
  induction rest generalizing first with
  | nil => simp
  | cons next rest ih =>
    rw [List.intercalate_cons_cons, ih, List.flatMap_cons, List.append_assoc]
    rfl

theorem Sexp.writeRest_eq (between : Char) (forms : List Sexp) :
    writeRest between forms = (forms.map write).flatMap (between :: ·) := by
  induction forms with
  | nil => rfl
  | cons first rest ih => rw [writeRest, ih, List.map_cons, List.flatMap_cons, List.cons_append]

theorem Sexp.writeAll_eq (between : Char) (forms : List Sexp) :
    writeAll between forms = [between].intercalate (forms.map write) := by
  cases forms with
  | nil => rfl
  | cons first rest => rw [writeAll, writeRest_eq, List.map_cons, intercalate_cons]

theorem toList_parenthesize (head : String) (parts : List String) : (parenthesize head parts).toList =
    '(' :: (head.toList ++ (parts.map String.toList).flatMap (' ' :: ·) ++ [')']) := by
  have space : " ".toList = [' '] := rfl
  have closing : ")".toList = [')'] := rfl
  rw [parenthesize, String.toList_append, String.toList_append, String.toList_intercalate, List.map_cons, space,
    intercalate_cons, closing]
  rfl

theorem Sexp.write_headed (head : String) (forms : List Sexp) : (headed head forms).write =
    '(' :: (head.toList ++ (forms.map write).flatMap (' ' :: ·) ++ [')']) := by
  rw [headed, write, writeAll, writeRest_eq, write]

mutual

theorem Expr.toList_show : ∀ expr : Expr ρ, expr.show.toList = expr.sexp.write
  | .literal _ | .read _ _ | .this _ _ => by rw [Expr.show, Expr.sexp, Sexp.write]
  | .grouping inner => by
    simp [Expr.show, Expr.sexp, toList_parenthesize, Sexp.write_headed, Expr.toList_show inner]
  | .unary _ sign operand => by
    simp [Expr.show, Expr.sexp, toList_parenthesize, Sexp.write_headed, Expr.toList_show operand]
  | .binary _ left sign right | .logical _ left sign right => by
    simp [Expr.show, Expr.sexp, toList_parenthesize, Sexp.write_headed, Expr.toList_show left, Expr.toList_show right]
  | .assign name _ value => by
    simp [Expr.show, Expr.sexp, toList_parenthesize, Sexp.write_headed, Sexp.write, Expr.toList_show value]
  | .call callee _ arguments => by
    simp [Expr.show, Expr.sexp, toList_parenthesize, Sexp.write_headed, Expr.toList_show callee,
      Expr.map_toList_showAll arguments]
  | .get object name => by
    simp [Expr.show, Expr.sexp, toList_parenthesize, Sexp.write_headed, Sexp.write, Expr.toList_show object]
  | .set object name value => by
    simp [Expr.show, Expr.sexp, toList_parenthesize, Sexp.write_headed, Sexp.write, Expr.toList_show object,
      Expr.toList_show value]
  | .super _ _ method => by
    simp [Expr.show, Expr.sexp, toList_parenthesize, Sexp.write_headed, Sexp.write]

theorem Expr.map_toList_showAll : ∀ exprs : List (Expr ρ),
    (Expr.showAll exprs).map String.toList = (Expr.sexpAll exprs).map Sexp.write
  | [] => rfl
  | first :: rest => by
    rw [Expr.showAll, Expr.sexpAll, List.map_cons, List.map_cons, first.toList_show, Expr.map_toList_showAll rest]

end

theorem toList_showParams (params : List Token) :
    (showParams params).toList = (Sexp.group (paramSexps params)).write := by
  have words : (paramSexps params).map Sexp.write = (params.map Token.lexeme).map String.toList := by
    rw [paramSexps, List.map_map, List.map_map]
    exact List.map_congr_left fun param _ => by rw [Function.comp, Sexp.write, Function.comp]
  rw [showParams, String.toList_append, String.toList_append, String.toList_intercalate, Sexp.write, Sexp.writeAll_eq,
    words]
  rfl

theorem toList_showClassName (name : Token) (superclass : Option (Token × ρ)) :
    ' ' :: (showClassName name superclass).toList =
      ((classSexps name superclass).map Sexp.write).flatMap (' ' :: ·) := by
  rcases superclass with _ | ⟨superclass, note⟩
  · simp [showClassName, classSexps, Sexp.write]
  · simp [showClassName, classSexps, Sexp.write]

mutual

theorem Stmt.toList_show : ∀ stmt : Stmt ρ, stmt.show.toList = stmt.sexp.write
  | .expression value | .print value => by
    simp [Stmt.show, Stmt.sexp, toList_parenthesize, Sexp.write_headed, value.toList_show]
  | .varDecl name initial => by
    cases initial <;>
      simp [Stmt.show, Stmt.sexp, toList_parenthesize, Sexp.write_headed, Sexp.write, Expr.toList_show]
  | .block body => by
    simp [Stmt.show, Stmt.sexp, toList_parenthesize, Sexp.write_headed, Stmt.map_toList_showAll body]
  | .ifThen condition accepted => by
    simp [Stmt.show, Stmt.sexp, toList_parenthesize, Sexp.write_headed, condition.toList_show,
      Stmt.toList_show accepted]
  | .ifElse condition accepted rejected => by
    simp [Stmt.show, Stmt.sexp, toList_parenthesize, Sexp.write_headed, condition.toList_show,
      Stmt.toList_show accepted, Stmt.toList_show rejected]
  | .whileLoop condition body => by
    simp [Stmt.show, Stmt.sexp, toList_parenthesize, Sexp.write_headed, condition.toList_show, Stmt.toList_show body]
  | .funDecl declaration => by
    rw [Stmt.show, Stmt.sexp, declaration.toList_show]
  | .returnStmt _ value => by
    cases value <;>
      simp [Stmt.show, Stmt.sexp, toList_parenthesize, Sexp.write_headed, Expr.toList_show]
  | .classDecl name superclass methods => by
    simp [Stmt.show, Stmt.sexp, toList_parenthesize, Sexp.write_headed, ← toList_showClassName,
      FunctionDecl.map_toList_showAll methods]

theorem Stmt.map_toList_showAll : ∀ body : List (Stmt ρ),
    (Stmt.showAll body).map String.toList = (Stmt.sexpAll body).map Sexp.write
  | [] => rfl
  | first :: rest => by
    rw [Stmt.showAll, Stmt.sexpAll, List.map_cons, List.map_cons, first.toList_show, Stmt.map_toList_showAll rest]

theorem FunctionDecl.toList_show : ∀ declaration : FunctionDecl ρ, declaration.show.toList = declaration.sexp.write
  | .mk name params body => by
    simp [FunctionDecl.show, FunctionDecl.sexp, toList_parenthesize, Sexp.write_headed, toList_showParams,
      Stmt.map_toList_showAll body, Sexp.write]

theorem FunctionDecl.map_toList_showAll : ∀ methods : List (FunctionDecl ρ),
    (FunctionDecl.showAll methods).map String.toList = (FunctionDecl.sexpAll methods).map Sexp.write
  | [] => rfl
  | first :: rest => by
    rw [FunctionDecl.showAll, FunctionDecl.sexpAll, List.map_cons, List.map_cons, first.toList_show,
      FunctionDecl.map_toList_showAll rest]

end

/-- A program is written as the forms of its statements, with line feeds between them. -/
theorem Program.toList_show (program : Program ρ) :
    program.show.toList = Sexp.writeAll '\n' (Stmt.sexpAll program) := by
  rw [Program.show, String.toList_intercalate, Stmt.map_toList_showAll, Sexp.writeAll_eq]
  rfl

end Written

section Words

theorem Token.named_inf : (named "inf").Named :=
  ⟨rfl, ⟨'i', ['n', 'f'], rfl, by decide, List.all_eq_true.mp rfl⟩, by decide⟩

theorem Token.lexeme_of_unplaced {token : Token} {kind : TokenKind} (same : token.unplaced = .ofKind kind) :
    token.lexeme = (Token.ofKind kind).lexeme := by
  rw [← same]
  rfl

/-- Whether a text is a word without quotes. -/
def Sexp.isVisible (text : String) : Bool :=
  !text.toList.isEmpty && text.toList.all fun char => !stops.contains char

theorem Sexp.word_of_visible {text : List Char} (some_ : text ≠ []) (visible : ∀ char ∈ text, char ∉ stops) :
    Word text := by
  obtain ⟨first, rest, rfl⟩ := List.exists_cons_of_ne_nil some_
  exact .plain visible

theorem Sexp.word_of_isVisible {text : String} (visible : isVisible text = true) : Word text.toList := by
  rw [isVisible, Bool.and_eq_true, List.all_eq_true] at visible
  refine word_of_visible (by simpa using visible.1) fun char member => ?_
  simpa using visible.2 char member

/-- Characters of a class that none of the characters that end a word is in. -/
theorem Sexp.not_stop_of {test : Char → Bool} (none : stops.any test = false) {char : Char}
    (holds : test char = true) : char ∉ stops :=
  fun stop => List.any_eq_false.mp none char stop holds

theorem Token.Named.word {name : Token} (named : name.Named) : Sexp.Word name.lexeme.toList := by
  obtain ⟨first, rest, starts, letter, word⟩ := named.letters
  rw [starts]
  have first' : Scan.isWord first = true := by simp [Scan.isWord, letter]
  have all : ∀ char ∈ first :: rest, Scan.isWord char = true := List.forall_mem_cons.mpr ⟨first', word⟩
  exact .plain fun char member => Sexp.not_stop_of rfl (all char member)

theorem Literal.word_inTree {value : Literal} (legible : value.Legible) : Sexp.Word value.inTree.toList := by
  cases value with
  | nil => exact Sexp.word_of_isVisible rfl
  | bool value => cases value <;> exact Sexp.word_of_isVisible rfl
  | number value =>
    have unsigned : Number.Unsigned value := legible
    rw [inTree]
    by_cases infinite : value.isInf = true
    · rw [unsigned.inTree_of_isInf infinite]
      exact Token.named_inf.word
    · obtain ⟨⟨_, starts, _⟩, marks⟩ := (unsigned.denoted_inTree (Bool.eq_false_iff.mpr infinite)).1
      refine Sexp.word_of_visible ?_ fun char member => Sexp.not_stop_of rfl (marks char member)
      intro empty
      rw [empty] at starts
      cases starts
  | string text =>
    have quoted : (inTree (.string text)).toList = '"' :: (text.toList ++ ['"']) := by
      simp [inTree]
    rw [quoted]
    exact .quoted legible

theorem Token.visible_of_unplaced {token : Token} {kind : TokenKind} (same : token.unplaced = .ofKind kind)
    (visible : Sexp.isVisible (ofKind kind).lexeme = true) : Sexp.isVisible token.lexeme = true := by
  rwa [Token.lexeme_of_unplaced same]

end Words

section Legal

theorem Sexp.legal_word {text : String} : (word text).Legal ↔ Word text.toList := by rw [Legal]

theorem Sexp.legal_headed {head : String} {forms : List Sexp} (visible : isVisible head = true)
    (legal : LegalAll forms) : (headed head forms).Legal := by
  rw [headed, Legal, LegalAll, legal_word]
  exact ⟨word_of_isVisible visible, legal⟩

mutual

theorem Expr.legal_sexp : ∀ expr : Expr ρ, expr.Legible → expr.sexp.Legal
  | .literal value, legible => by
    rw [Expr.sexp, Sexp.legal_word]
    exact Literal.word_inTree legible
  | .grouping inner, legible => by
    rw [Expr.sexp]
    exact Sexp.legal_headed rfl ⟨Expr.legal_sexp inner legible, trivial⟩
  | .unary op sign operand, ⟨signed, legible⟩ => by
    rw [Expr.sexp]
    exact Sexp.legal_headed (Token.visible_of_unplaced signed (by cases op <;> rfl)) ⟨Expr.legal_sexp operand legible,
      trivial⟩
  | .binary op left sign right, ⟨signed, legible, legible'⟩ => by
    rw [Expr.sexp]
    exact Sexp.legal_headed (Token.visible_of_unplaced signed (by cases op <;> rfl)) ⟨Expr.legal_sexp left legible,
      Expr.legal_sexp right legible', trivial⟩
  | .logical op left sign right, ⟨signed, legible, legible'⟩ => by
    rw [Expr.sexp]
    exact Sexp.legal_headed (Token.visible_of_unplaced signed (by cases op <;> rfl)) ⟨Expr.legal_sexp left legible,
      Expr.legal_sexp right legible', trivial⟩
  | .read name _, named => by
    rw [Expr.sexp, Sexp.legal_word]
    exact named.word
  | .assign name _ value, ⟨named, legible⟩ => by
    rw [Expr.sexp]
    exact Sexp.legal_headed rfl ⟨Sexp.legal_word.mpr named.word, Expr.legal_sexp value legible, trivial⟩
  | .call callee _ arguments, ⟨legible, legible'⟩ => by
    rw [Expr.sexp]
    exact Sexp.legal_headed rfl ⟨Expr.legal_sexp callee legible, Expr.legal_sexpAll arguments legible'⟩
  | .get object name, ⟨legible, named⟩ => by
    rw [Expr.sexp]
    exact Sexp.legal_headed rfl ⟨Expr.legal_sexp object legible, Sexp.legal_word.mpr named.word, trivial⟩
  | .set object name value, ⟨legible, named, legible'⟩ => by
    rw [Expr.sexp]
    exact Sexp.legal_headed rfl ⟨Expr.legal_sexp object legible, Sexp.legal_word.mpr named.word,
      Expr.legal_sexp value legible', trivial⟩
  | .this _ _, _ => by
    rw [Expr.sexp, Sexp.legal_word]
    exact Sexp.word_of_isVisible rfl
  | .super _ _ method, ⟨_, named⟩ => by
    rw [Expr.sexp]
    exact Sexp.legal_headed rfl ⟨Sexp.legal_word.mpr named.word, trivial⟩

theorem Expr.legal_sexpAll : ∀ exprs : List (Expr ρ), Expr.LegibleAll exprs → Sexp.LegalAll (Expr.sexpAll exprs)
  | [], _ => trivial
  | first :: rest, ⟨legible, legible'⟩ => ⟨Expr.legal_sexp first legible, Expr.legal_sexpAll rest legible'⟩

end

theorem Expr.legal_option {value : Option (Expr ρ)} (legible : Expr.LegibleOption value) :
    Sexp.LegalAll (value.map Expr.sexp).toList := by
  cases value with
  | none => trivial
  | some value => exact ⟨value.legal_sexp legible, trivial⟩

theorem legal_paramSexps {params : List Token} (named : ∀ param ∈ params, param.Named) :
    Sexp.LegalAll (paramSexps params) := by
  rw [Sexp.legalAll_iff]
  intro form member
  obtain ⟨param, among, rfl⟩ := List.mem_map.mp member
  exact Sexp.legal_word.mpr (named param among).word

theorem legal_classSexps {name : Token} {superclass : Option (Token × ρ)} (named : name.Named)
    (legible : LegibleSuperclass superclass) : Sexp.LegalAll (classSexps name superclass) := by
  have word := Sexp.legal_word.mpr named.word
  rcases superclass with _ | ⟨superclass, note⟩
  · exact ⟨word, trivial⟩
  · exact ⟨word, Sexp.legal_word.mpr (Sexp.word_of_isVisible rfl),
      Sexp.legal_word.mpr (Token.Named.word legible), trivial⟩

mutual

theorem Stmt.legal_sexp : ∀ stmt : Stmt ρ, stmt.Legible → stmt.sexp.Legal
  | .expression value, legible | .print value, legible => by
    rw [Stmt.sexp]
    exact Sexp.legal_headed rfl ⟨value.legal_sexp legible, trivial⟩
  | .varDecl name initial, ⟨named, legible⟩ => by
    rw [Stmt.sexp]
    exact Sexp.legal_headed rfl ⟨Sexp.legal_word.mpr named.word, Expr.legal_option legible⟩
  | .block body, legible => by
    rw [Stmt.sexp]
    exact Sexp.legal_headed rfl (Stmt.legal_sexpAll body legible)
  | .ifThen condition accepted, ⟨legible, legible'⟩ => by
    rw [Stmt.sexp]
    exact Sexp.legal_headed rfl ⟨condition.legal_sexp legible, Stmt.legal_sexp accepted legible', trivial⟩
  | .ifElse condition accepted rejected, ⟨legible, legible', legible''⟩ => by
    rw [Stmt.sexp]
    exact Sexp.legal_headed rfl ⟨condition.legal_sexp legible, Stmt.legal_sexp accepted legible',
      Stmt.legal_sexp rejected legible'', trivial⟩
  | .whileLoop condition body, ⟨legible, legible'⟩ => by
    rw [Stmt.sexp]
    exact Sexp.legal_headed rfl ⟨condition.legal_sexp legible, Stmt.legal_sexp body legible', trivial⟩
  | .funDecl declaration, legible => by
    rw [Stmt.sexp]
    exact FunctionDecl.legal_sexp declaration legible
  | .returnStmt _ value, ⟨_, legible⟩ => by
    rw [Stmt.sexp]
    exact Sexp.legal_headed rfl (Expr.legal_option legible)
  | .classDecl name superclass methods, ⟨named, legible, legible'⟩ => by
    rw [Stmt.sexp]
    exact Sexp.legal_headed rfl
      ((legal_classSexps named legible).append (FunctionDecl.legal_sexpAll methods legible'))

theorem Stmt.legal_sexpAll : ∀ body : List (Stmt ρ), Stmt.LegibleAll body → Sexp.LegalAll (Stmt.sexpAll body)
  | [], _ => trivial
  | first :: rest, ⟨legible, legible'⟩ => ⟨Stmt.legal_sexp first legible, Stmt.legal_sexpAll rest legible'⟩

theorem FunctionDecl.legal_sexp : ∀ declaration : FunctionDecl ρ, declaration.Legible → declaration.sexp.Legal
  | .mk name params body, ⟨named, namedAll, legible⟩ => by
    have group : (Sexp.group (paramSexps params)).Legal := by
      rw [Sexp.Legal]
      exact legal_paramSexps namedAll
    rw [FunctionDecl.sexp]
    exact Sexp.legal_headed rfl ⟨Sexp.legal_word.mpr named.word, group, Stmt.legal_sexpAll body legible⟩

theorem FunctionDecl.legal_sexpAll : ∀ methods : List (FunctionDecl ρ), FunctionDecl.LegibleAll methods →
    Sexp.LegalAll (FunctionDecl.sexpAll methods)
  | [], _ => trivial
  | first :: rest, ⟨legible, legible'⟩ =>
    ⟨FunctionDecl.legal_sexp first legible, FunctionDecl.legal_sexpAll rest legible'⟩

end

end Legal

end Lox

import Lox.Shell
import Lox.Proofs.Token.Respelling

/-!
Brackets that are counted against brackets of the code. A shell that counts characters also counts those inside strings
and comments, so that it can wait for brackets that the code does not lack, and run code that lacks some.
-/
namespace Lox

namespace Scan

/-- Whether a piece is no code: a string, a comment or a blank, or faulty. -/
def isMute (piece : Piece) : Bool :=
  match piece.role with
  | .token kind _ => kind = .string
  | .fault _ | .gap => true

/-- All of a text that is no code. -/
def mute (text : List Char) : List Char := ((pieces text).filter isMute).flatMap Piece.text

/-- The brackets, and the tokens that they are. -/
def brackets : List (Char × TokenKind) :=
  [('{', .leftBrace), ('}', .rightBrace), ('(', .leftParen), (')', .rightParen)]

variable {char : Char} {kind : TokenKind}

theorem count_fixed (bracket : (char, kind) ∈ brackets) {other : TokenKind} {text : String}
    (only : other.text? = some text) : text.toList.count char = if other = kind then 1 else 0 := by
  simp only [brackets, List.mem_cons, List.not_mem_nil, or_false, Prod.mk.injEq] at bracket
  rcases bracket with ⟨rfl, rfl⟩ | ⟨rfl, rfl⟩ | ⟨rfl, rfl⟩ | ⟨rfl, rfl⟩ <;> cases other <;> cases only <;> decide

/-- A bracket does not go on with words or numbers, and is no point. -/
theorem not_isWord_of_bracket (bracket : (char, kind) ∈ brackets) :
    isWord char = false ∧ char ≠ '.' ∧ kind ≠ .identifier ∧ kind ≠ .number ∧ kind ≠ .string := by
  simp only [brackets, List.mem_cons, List.not_mem_nil, or_false, Prod.mk.injEq] at bracket
  rcases bracket with ⟨rfl, rfl⟩ | ⟨rfl, rfl⟩ | ⟨rfl, rfl⟩ | ⟨rfl, rfl⟩ <;> decide

theorem count_of_word (other : isWord char = false) {text : List Char}
    (word : ∀ next ∈ text, isWord next = true) : text.count char = 0 := by
  rw [List.count_eq_zero]
  intro member
  rw [word char member] at other
  cases other

/-- A token has a bracket in it only if it is that bracket or a string. -/
theorem count_of_legal (bracket : (char, kind) ∈ brackets) {spelling : Spelling} (legal : spelling.Legal)
    (isCode : spelling.kind ≠ .string) : spelling.lexeme.toList.count char = if spelling.kind = kind then 1 else 0 := by
  obtain ⟨other, point, noName, noNumber, _⟩ := not_isWord_of_bracket bracket
  have word (next : Char) (digit : Number.isDigit next = true) : isWord next = true := by simp [isWord, digit]
  cases legal with
  | fixed only => exact count_fixed bracket only
  | name letter rest free =>
    rw [if_neg noName.symm, String.toList_ofList]
    refine count_of_word other (List.forall_mem_cons.mpr ⟨?_, rest⟩)
    simp [isWord, letter]
  | whole digits =>
    rw [if_neg noNumber.symm, String.toList_ofList]
    exact count_of_word other fun next member => word next (digits next member)
  | @decimal first next rest places digits digits' =>
    rw [if_neg noNumber.symm, String.toList_ofList, ← List.cons_append, List.count_append,
      List.count_cons_of_ne point.symm,
      count_of_word other fun next member => word next (digits next member),
      count_of_word other fun next member => word next (digits' next member)]
  | string closed => exact absurd rfl isCode

/-- Whether a piece is a token of a kind. -/
def isOf (kind : TokenKind) (piece : Piece) : Bool :=
  match piece.role with
  | .token other _ => other = kind
  | .fault _ | .gap => false

theorem countP_tokens (text : List Char) (line : Int) (kind : TokenKind) :
    (ofText text line).tokens.countP (fun token => token.kind = kind) = (pieces text).countP (isOf kind) := by
  have placed (position : Position) (list : List Piece) :
      ((locate position list).filterMap token?).countP (fun token => token.kind = kind) = list.countP (isOf kind) := by
    induction list generalizing position with
    | nil => rfl
    | cons piece rest ih =>
      obtain ⟨text, role⟩ := piece
      cases role with
      | token => simp [locate, token?, isOf, List.countP_cons, ih]
      | fault | gap =>
        rw [locate, List.filterMap_cons_none rfl, List.countP_cons_of_neg Bool.false_ne_true]
        exact ih _
  exact placed _ _

/-- The brackets of a piece: it is one, or they are no code. -/
theorem count_piece (bracket : (char, kind) ∈ brackets) {text : List Char} {piece : Piece}
    (member : piece ∈ pieces text) :
    piece.text.count char = (if isOf kind piece then 1 else 0) + if isMute piece then piece.text.count char else 0 := by
  obtain ⟨first, rest, extent, classified, same⟩ := classify_of_mem_pieces member
  obtain ⟨spelling, role⟩ := piece
  obtain ⟨_, _, _, _, noString⟩ := not_isWord_of_bracket bracket
  cases role with
  | fault | gap => simp [isOf, isMute]
  | token other literal =>
    by_cases isString : other = .string
    · subst isString
      simp [isOf, isMute, noString.symm]
    · have counted := count_of_legal bracket (legal_of_classify classified) isString
      rw [String.toList_ofList, ← same] at counted
      simp [isOf, isMute, isString, counted]

/-- The brackets of a text are those of its tokens and those that are no code. -/
theorem count_bracket (bracket : (char, kind) ∈ brackets) (text : List Char) (line : Int) :
    text.count char = (ofText text line).tokens.countP (fun token => token.kind = kind) + (mute text).count char := by
  have each {list : List Piece} (all : ∀ piece ∈ list, piece ∈ pieces text) :
      (list.flatMap Piece.text).count char =
        list.countP (isOf kind) + ((list.filter isMute).flatMap Piece.text).count char := by
    induction list with
    | nil => rfl
    | cons piece rest ih =>
      rw [List.forall_mem_cons] at all
      rw [List.flatMap_cons, List.count_append, ih all.2, List.countP_cons, List.filter_cons,
        count_piece bracket all.1]
      by_cases isMute : isMute piece = true
      · rw [if_pos isMute, if_pos isMute, List.flatMap_cons, List.count_append]
        omega
      · rw [if_neg isMute, if_neg isMute]
        omega
  rw [countP_tokens, mute, ← each fun _ => id, flatMap_text_pieces]

end Scan

namespace Shell

open Scan (brackets count_bracket)

/-- Tokens with more opening than closing braces, or parentheses. -/
def Unclosed (tokens : List Token) : Prop :=
  let found (kind : TokenKind) := tokens.countP fun token => token.kind = kind
  found .rightBrace < found .leftBrace ∨ found .rightParen < found .leftParen

instance (tokens : List Token) : Decidable (Unclosed tokens) :=
  inferInstanceAs (Decidable (_ < _ ∨ _ < _))

/-- When a shell waits for more: the brackets that are tokens are counted, and with them those that are no code. So it
waits exactly for unclosed code wherever strings, comments and faulty stretches have as many closing brackets as
opening ones, of either sort. -/
theorem needsContinuation_iff_unclosed (text : String) (line : Int) :
    let tokens := (Scan.ofText text.toList line).tokens
    let found (kind : TokenKind) := tokens.countP fun token => token.kind = kind
    let mute := Scan.mute text.toList
    (needsContinuation text = true ↔
      found .rightBrace + mute.count '}' < found .leftBrace + mute.count '{' ∨
        found .rightParen + mute.count ')' < found .leftParen + mute.count '(') ∧
    (mute.count '{' = mute.count '}' → mute.count '(' = mute.count ')' →
      (needsContinuation text = true ↔ Unclosed tokens)) := by
  intro tokens found mute
  have leftBrace := count_bracket (show ('{', TokenKind.leftBrace) ∈ brackets by decide) text.toList line
  have rightBrace := count_bracket (show ('}', TokenKind.rightBrace) ∈ brackets by decide) text.toList line
  have leftParen := count_bracket (show ('(', TokenKind.leftParen) ∈ brackets by decide) text.toList line
  have rightParen := count_bracket (show (')', TokenKind.rightParen) ∈ brackets by decide) text.toList line
  have counts : needsContinuation text = true ↔
      found .rightBrace + mute.count '}' < found .leftBrace + mute.count '{' ∨
        found .rightParen + mute.count ')' < found .leftParen + mute.count '(' := by
    simp only [needsContinuation, Bool.or_eq_true, decide_eq_true_eq, leftBrace, rightBrace, leftParen, rightParen]
    rfl
  refine ⟨counts, fun braces parens => counts.trans ?_⟩
  rw [braces, parens]
  simp only [Nat.add_lt_add_iff_right]
  rfl

/-- Brackets inside strings are counted too: here the code is complete, and the shell waits. -/
theorem needsContinuation_of_string :
    needsContinuation "print \"(\";" = true ∧ ¬ Unclosed (Scan.ofText "print \"(\";".toList 1).tokens := by
  decide +kernel

end Shell

end Lox

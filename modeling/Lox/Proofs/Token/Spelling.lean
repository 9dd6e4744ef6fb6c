import Lox.Token.Scan
import Mathlib.Tactic.Common

/-!
How the words of a text are spelled. A scanned name is no reserved word, and the tokens of a reserved word
are spelled as that word.
-/
namespace Lox

/-- Kinds of tokens that are spelled with letters and that trees keep. -/
def TokenKind.IsName : TokenKind → Prop
  | .identifier | .thisWord | .superWord => True
  | _ => False

/-- A token whose kind, if it is that of a name, is the one its spelling has. -/
def Token.Spelled (token : Token) : Prop := token.kind.IsName → TokenKind.ofWord token.lexeme = token.kind

/-- A name that neither `this` nor `super` goes by. -/
def Token.Plain (token : Token) : Prop := token.lexeme ≠ "this" ∧ token.lexeme ≠ "super"

namespace Token.Spelled

variable {token : Token}

theorem plain (spelled : token.Spelled) (kind : token.kind = .identifier) : token.Plain := by
  have word := spelled (by rw [kind]; trivial)
  rw [kind] at word
  constructor <;> intro same <;> rw [same] at word <;> cases word

theorem eq_of_keyword {word : String} {kind : TokenKind} (spelled : token.Spelled) (same : token.kind = kind)
    (isName : kind.IsName) (other : kind ≠ .identifier)
    (only : ∀ entry ∈ TokenKind.keywords, entry.2 = kind → entry.1 = word) : token.lexeme = word := by
  have found := spelled (by rw [same]; exact isName)
  rw [same, TokenKind.ofWord] at found
  cases entry : TokenKind.keywords.lookup token.lexeme with
  | none =>
    rw [entry] at found
    exact absurd found.symm other
  | some listed =>
    rw [entry, Option.getD_some] at found
    subst found
    obtain ⟨before, after, split, _⟩ := List.lookup_eq_some_iff.mp entry
    exact only (token.lexeme, listed) (by rw [split]; simp) rfl

theorem this (spelled : token.Spelled) (kind : token.kind = .thisWord) : token.lexeme = "this" :=
  spelled.eq_of_keyword kind trivial (by decide) (by decide)

theorem super (spelled : token.Spelled) (kind : token.kind = .superWord) : token.lexeme = "super" :=
  spelled.eq_of_keyword kind trivial (by decide) (by decide)

end Token.Spelled

namespace Scan

theorem not_isName_of_single? {char : Char} {kind : TokenKind} (found : single? char = some kind) :
    ¬ kind.IsName := by
  unfold single? at found
  split at found <;> cases found <;> exact id

theorem not_isName_of_double? {char : Char} {plain withEqual : TokenKind}
    (found : double? char = some (plain, withEqual)) : ¬ plain.IsName ∧ ¬ withEqual.IsName := by
  unfold double? at found
  split at found <;> cases found <;> exact ⟨id, id⟩

/-- What is classified as a name has the kind of the whole word. -/
theorem ofWord_of_classify {first : Char} {rest : List Char} {kind : TokenKind} {literal : Option Literal}
    {extent : Nat} (classified : classify first rest = (.token kind literal, extent)) (isName : kind.IsName) :
    TokenKind.ofWord (String.ofList (first :: rest.take extent)) = kind := by
  unfold classify at classified
  split at classified
  · rename_i found
    cases classified
    exact absurd isName (not_isName_of_single? found)
  split at classified
  · rename_i found
    have others := not_isName_of_double? found
    split at classified <;> cases classified
    · exact absurd isName others.2
    · exact absurd isName others.1
  split at classified
  · split at classified <;> cases classified
    exact absurd isName id
  split at classified
  · cases classified
  split at classified
  · unfold stringRole at classified
    dsimp only at classified
    split at classified <;> cases classified
    exact absurd isName id
  split at classified
  · cases classified
    exact absurd isName id
  split at classified
  · cases classified
    rw [← List.prefix_iff_eq_take.mp (List.takeWhile_prefix isWord)]
  · cases classified

theorem ofWord_of_mem_pieces {text : List Char} {piece : Piece} {kind : TokenKind} {literal : Option Literal}
    (member : piece ∈ pieces text) (role : piece.role = .token kind literal) (isName : kind.IsName) :
    TokenKind.ofWord (String.ofList piece.text) = kind := by
  fun_induction pieces text with
  | case1 => cases member
  | case2 first rest found extent classified ih =>
    rcases List.mem_cons.mp member with rfl | later
    · cases role
      exact ofWord_of_classify classified isName
    · exact ih later

theorem mem_of_mem_locate {position : Position} {pieces : List Piece} {entry : Position × Piece}
    (member : entry ∈ locate position pieces) : entry.2 ∈ pieces := by
  induction pieces generalizing position with
  | nil => cases member
  | cons piece rest ih =>
    rcases List.mem_cons.mp member with rfl | later
    · exact List.mem_cons_self
    · exact List.mem_cons_of_mem _ (ih later)

/-- The tokens of a text are spelled as their kinds say. -/
theorem spelled_of_mem {text : List Char} {line : Int} {token : Token}
    (member : token ∈ (ofText text line).tokens) : token.Spelled := by
  obtain ⟨⟨position, piece⟩, placed, same⟩ := List.mem_filterMap.mp member
  obtain ⟨spelling, role⟩ := piece
  cases role with
  | token kind literal =>
    cases same
    exact fun isName => ofWord_of_mem_pieces (mem_of_mem_locate placed) rfl isName
  | fault cause => cases same
  | gap => cases same

end Scan

end Lox

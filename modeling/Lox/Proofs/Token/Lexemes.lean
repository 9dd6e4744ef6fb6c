import Lox.Proofs.Token.Spelling

/-!
Tokens by themselves. Signs and reserved words are spelled in one way only, and what names, numbers and strings stand
for is told by their spelling or their value.
-/
namespace Lox

/-- How a kind of tokens is spelled, if all of its tokens are spelled alike. -/
def TokenKind.text? : TokenKind → Option String
  | leftParen => "("
  | rightParen => ")"
  | leftBrace => "\x7b"
  | rightBrace => "\x7d"
  | comma => ","
  | dot => "."
  | minus => "-"
  | plus => "+"
  | semicolon => ";"
  | slash => "/"
  | star => "*"
  | bang => "!"
  | bangEqual => "!="
  | equal => "="
  | equalEqual => "=="
  | greater => ">"
  | greaterEqual => ">="
  | less => "<"
  | lessEqual => "<="
  | andWord => "and"
  | classWord => "class"
  | elseWord => "else"
  | falseWord => "false"
  | funWord => "fun"
  | forWord => "for"
  | ifWord => "if"
  | nilWord => "nil"
  | orWord => "or"
  | printWord => "print"
  | returnWord => "return"
  | superWord => "super"
  | thisWord => "this"
  | trueWord => "true"
  | varWord => "var"
  | whileWord => "while"
  | identifier | string | number | eof => none

namespace Token

/-- A token as texts give them: it is spelled as its kind is, and a number or a string has its value. -/
structure Proper (token : Token) : Prop where
  spelled : ∀ text, token.kind.text? = some text → token.lexeme = text
  number : token.kind = .number → ∃ value, token.literal = some (.number value)
  string : token.kind = .string → ∃ text, token.literal = some (.string text)

/-- Two tokens of one kind and spelling; for numbers and strings it is the value that counts. -/
def Alike (token token' : Token) : Prop :=
  token.kind = token'.kind ∧
    if token.kind = .number ∨ token.kind = .string then token.literal = token'.literal else token.lexeme = token'.lexeme

theorem Alike.refl (token : Token) : token.Alike token := by
  unfold Alike
  split <;> exact ⟨rfl, rfl⟩

/-- The token of a kind that has but one spelling. -/
def ofKind (kind : TokenKind) : Token := ⟨kind, kind.text?.getD "", none, default⟩

/-- A token that stands for a value. -/
def ofLiteral : Literal → Token
  | .nil => ofKind .nilWord
  | .bool true => ofKind .trueWord
  | .bool false => ofKind .falseWord
  | .number value => ⟨.number, "", some (.number value), default⟩
  | .string text => ⟨.string, "", some (.string text), default⟩

theorem proper_ofKind {kind : TokenKind} (fixed : kind.text?.isSome = true) : (ofKind kind).Proper := by
  refine ⟨fun text found => ?_, ?_, ?_⟩
  · have found : kind.text? = some text := found
    rw [ofKind, found, Option.getD_some]
  · rintro ⟨⟩
    cases fixed
  · rintro ⟨⟩
    cases fixed

theorem Proper.alike_ofKind {token : Token} (proper : token.Proper) {kind : TokenKind} {text : String}
    (isKind : token.kind = kind) (spelled : kind.text? = some text) : (ofKind kind).Alike token := by
  have same : (ofKind kind).lexeme = token.lexeme := by
    rw [proper.spelled text (isKind ▸ spelled), ofKind, spelled, Option.getD_some]
  refine ⟨isKind.symm, ?_⟩
  rw [if_neg, same]
  rintro (isNumber | isString)
  · cases (isNumber : kind = .number)
    cases spelled
  · cases (isString : kind = .string)
    cases spelled

end Token

namespace Scan

theorem text?_of_single? {char : Char} {kind : TokenKind} (found : single? char = some kind) :
    kind.text? = some (String.ofList [char]) := by
  unfold single? at found
  split at found <;> cases found <;> rfl

theorem text?_of_double? {char : Char} {plain withEqual : TokenKind} (found : double? char = some (plain, withEqual)) :
    plain.text? = some (String.ofList [char]) ∧ withEqual.text? = some (String.ofList [char, '=']) := by
  unfold double? at found
  split at found <;> cases found <;> exact ⟨rfl, rfl⟩

/-- A word that has the kind of a reserved word is that word. -/
theorem text?_ofWord {word text : String} (spelled : (TokenKind.ofWord word).text? = some text) : word = text := by
  unfold TokenKind.ofWord at spelled
  cases found : TokenKind.keywords.lookup word with
  | none =>
    rw [found] at spelled
    cases spelled
  | some kind =>
    rw [found, Option.getD_some] at spelled
    obtain ⟨before, after, split, _⟩ := List.lookup_eq_some_iff.mp found
    have listed : (word, kind) ∈ TokenKind.keywords := by simp [split]
    have table : ∀ entry ∈ TokenKind.keywords, entry.2.text? = some entry.1 := by decide
    have same := table (word, kind) listed
    rw [spelled] at same
    exact (Option.some.inj same).symm

/-- Words have the kind of a reserved word or of a name. -/
theorem ofWord_mem (word : String) : TokenKind.ofWord word ∈ TokenKind.identifier :: TokenKind.keywords.map Prod.snd := by
  unfold TokenKind.ofWord
  cases found : TokenKind.keywords.lookup word with
  | none => exact List.mem_cons_self
  | some kind =>
    obtain ⟨before, after, split, _⟩ := List.lookup_eq_some_iff.mp found
    refine List.mem_cons_of_mem _ (List.mem_map.mpr ⟨(word, kind), ?_, rfl⟩)
    simp [split]

/-- What is classified as a token makes a proper one. -/
theorem proper_of_classify {first : Char} {rest : List Char} {kind : TokenKind} {literal : Option Literal} {extent : Nat}
    (classified : classify first rest = (.token kind literal, extent)) (position : Position) :
    Token.Proper ⟨kind, String.ofList (first :: rest.take extent), literal, position⟩ := by
  have fixed {text : String} (known : kind.text? = some text)
      (same : String.ofList (first :: rest.take extent) = text) :
      Token.Proper ⟨kind, String.ofList (first :: rest.take extent), literal, position⟩ := by
    refine ⟨fun text' found => same.trans (Option.some.inj (known.symm.trans found)), ?_, ?_⟩ <;>
      · rintro ⟨⟩
        cases known
  unfold classify at classified
  split at classified
  · rename_i found
    cases classified
    exact fixed (text?_of_single? found) rfl
  split at classified
  · rename_i found
    obtain ⟨alone, followed⟩ := text?_of_double? found
    split at classified
    · rename_i isEqual
      cases classified
      obtain ⟨others, rfl⟩ := List.head?_eq_some_iff.mp isEqual
      exact fixed followed rfl
    · cases classified
      exact fixed alone rfl
  split at classified
  · rename_i isSlash
    subst isSlash
    split at classified <;> cases classified
    exact fixed rfl rfl
  split at classified
  · cases classified
  split at classified
  · unfold stringRole at classified
    dsimp only at classified
    split at classified <;> cases classified
    exact ⟨nofun, nofun, fun _ => ⟨_, rfl⟩⟩
  split at classified
  · cases classified
    exact ⟨nofun, fun _ => ⟨_, rfl⟩, nofun⟩
  split at classified
  · cases classified
    rw [← List.prefix_iff_eq_take.mp (List.takeWhile_prefix isWord)]
    have isWord := ofWord_mem (String.ofList (first :: rest.takeWhile isWord))
    refine ⟨fun text found => text?_ofWord found, fun isNumber => ?_, fun isString => ?_⟩
    · dsimp only at isNumber
      rw [isNumber] at isWord
      exact absurd isWord (by decide)
    · dsimp only at isString
      rw [isString] at isWord
      exact absurd isWord (by decide)
  · cases classified

theorem classify_of_mem_pieces {text : List Char} {piece : Piece} (member : piece ∈ pieces text) :
    ∃ first rest extent, classify first rest = (piece.role, extent) ∧ piece.text = first :: rest.take extent := by
  fun_induction pieces text with
  | case1 => cases member
  | case2 first rest found extent classified ih =>
    rcases List.mem_cons.mp member with rfl | later
    · exact ⟨first, rest, extent, classified, rfl⟩
    · exact ih later

/-- The tokens of a text are proper ones. -/
theorem proper_of_mem {text : List Char} {line : Int} {token : Token} (member : token ∈ (ofText text line).tokens) :
    token.Proper := by
  obtain ⟨⟨position, spelling, role⟩, placed, same⟩ := List.mem_filterMap.mp member
  cases role with
  | token kind literal =>
    cases same
    obtain ⟨first, rest, extent, classified, rfl⟩ := classify_of_mem_pieces (mem_of_mem_locate placed)
    exact proper_of_classify classified position
  | fault cause => cases same
  | gap => cases same

end Scan

end Lox
